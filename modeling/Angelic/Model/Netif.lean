import Angelic.Model.E1000

namespace Angelic.Model

/-! `lwip_glue.c`: the clock and the output function that lwIP is given. -/

/-- The time stamp comes in two halves, of which the upper is not used. -/
def sys_now (tsc : UInt64) : UInt32 :=
  let a := tsc.toUInt32
  a / 2000000

/-! Sending. A pbuf is taken by what the output function reads of it. -/

structure TxPbuf where
  payload : UInt64
  len : UInt16
  deriving DecidableEq, Repr

/-- The bytes of memory, and the NIC with its driver. -/
structure Netif where
  ram : UInt64 → UInt8
  tx : Tx

def MAX_TX_SEGS : Nat := 8

def bytesAt (ram : UInt64 → UInt8) (addr : UInt64) (n : Nat) : List UInt8 :=
  (List.range n).map fun k => ram (addr + UInt64.ofNat k)

def memcpy (ram : UInt64 → UInt8) (dst src : UInt64) (n : Nat) : UInt64 → UInt8 := fun a =>
  if (a - dst).toNat < n then ram (src + (a - dst)) else ram a

/-- The copy loop: `len` and the memory when it ends or breaks. -/
def flattenChain (tx_buffer_fallback : UInt64) : List TxPbuf → Nat → (UInt64 → UInt8) → Nat × (UInt64 → UInt8)
  | [], len, ram => (len, ram)
  | q :: rest, len, ram =>
    if len + q.len.toNat > 1514 then (len, ram)
    else flattenChain tx_buffer_fallback rest (len + q.len.toNat)
      (memcpy ram (tx_buffer_fallback + UInt64.ofNat len) q.payload q.len.toNat)

/-- Up to the start of the driver's function, whose result is not looked at. -/
def low_level_output_zerocopy (tx_buffer_fallback : UInt64) (p : List TxPbuf) (s : Netif) : Netif :=
  let n_segs := p.length
  if n_segs = 0 then s
  else if n_segs ≤ MAX_TX_SEGS then
    { s with tx := e1000_send_scatter (p.map fun q => (q.payload, q.len)) s.tx }
  else
    let (len, ram) := flattenChain tx_buffer_fallback p 0 s.ram
    ⟨ram, e1000_send_raw tx_buffer_fallback (UInt16.ofNat len) s.tx⟩

end Angelic.Model
