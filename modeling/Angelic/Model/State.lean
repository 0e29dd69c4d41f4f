import Angelic.Model.Persist

namespace Angelic.Model
open CString

abbrev Slot := Fin MAX_USERS

/-- What leaves the server: a call of `send_raw` on a context, a direct write through
TLS or TCP, a `tcp_close`. -/
inductive Out where
  | send (i : Slot) (tls : Bool) (pcb : Option Pcb) (text : Str)
  | tls_write (i : Slot) (pcb : Option Pcb) (text : Str)
  | tcp_write (pcb : Option Pcb) (text : Str)
  | tcp_close (pcb : Option Pcb)
  deriving DecidableEq, Repr

/-- `random n` is the `n`-th answer of `secure_random_u32`, `tcp_arg` the callback argument of
each pcb. `out` and `routed` are logs nothing reads: what was sent so far, and the context and
stanza of each call of `xmpp_route_stanza`. -/
structure Server where
  client_registry : Slot → Ctx
  client_idx : Slot
  tcp_arg : Pcb → Option Slot
  mem : Mem
  roster_version : Int
  stanza_pool : Fin MAX_POOL_STANZAS → Bool
  random : Nat → UInt32
  draws : Nat
  sse42 : Bool
  out : List Out
  routed : List (Ctx × Stanza)

abbrev M := StateM Server

namespace Server

def setCtx (s : Server) (i : Slot) (c : Ctx) : Server :=
  { s with client_registry := Function.update s.client_registry i c }

def stores (s : Server) : Stores := s.mem.stores

def setStores (s : Server) (t : Stores) : Server := { s with mem := { s.mem with stores := t } }

def emit (s : Server) (o : Out) : Server := { s with out := s.out ++ [o] }

end Server

def ctxOf (i : Slot) : M Ctx := fun s => (s.client_registry i, s)

def modCtx (i : Slot) (f : Ctx → Ctx) : M Unit := fun s =>
  ((), s.setCtx i (f (s.client_registry i)))

def getStores : M Stores := fun s => (s.stores, s)

def modStores (f : Stores → Stores) : M Unit := fun s => ((), s.setStores (f s.stores))

def emit (o : Out) : M Unit := fun s => ((), s.emit o)

/-- Runs an operation of the persistence layer. -/
def persist (p : StateM Mem Unit) : M Unit := fun s => ((), { s with mem := (p s.mem).2 })

def secure_random_u32 : M UInt32 := fun s => (s.random s.draws, { s with draws := s.draws + 1 })

/-- A C loop over an array that stops at the first index it wants. -/
def firstIdx (p : Fin n → Bool) : Option (Fin n) := (List.finRange n).find? p

/-- A C loop over a whole array. -/
def forAll (n : Nat) (body : Fin n → M Unit) : M Unit := (List.finRange n).forM body

/-! `xmpp_sm.c`, the counters. -/

def Ctx.on_stanza_received (c : Ctx) : Ctx :=
  if c.sm_enabled then { c with sm_inbound_h := c.sm_inbound_h + 1 } else c

def Ctx.on_stanza_sent (c : Ctx) : Ctx :=
  if c.sm_enabled then
    let n := c.sm_outbound_count + 1
    { c with sm_outbound_count := n, sm_want_ack := c.sm_want_ack || n % 10 == 0 }
  else c

def xmpp_sm_on_stanza_received (i : Slot) : M Unit := modCtx i Ctx.on_stanza_received

def xmpp_sm_on_stanza_sent (i : Slot) : M Unit := modCtx i Ctx.on_stanza_sent

/-- Whatever the transport does with the text, the context only counts the stanza. -/
def send_raw (i : Slot) (data : Str) : M Unit := do
  let c ← ctxOf i
  emit (.send i c.tls_established c.pcb data)
  xmpp_sm_on_stanza_sent i

/-! Pieces of addresses. -/

/-- A copy into 64 bytes, cut at the first slash. -/
def bare (jid : Str) : Str := (strncpy 63 jid).takeWhile (· != ch '/')

/-- The part before the at sign, or all of it, in 32 bytes. -/
def localPart (jid : Str) : Str := (jid.takeWhile (· != ch '@')).take 31

/-- The room part of an address, empty without an at sign. -/
def roomName (jid : Str) : Str := if jid.contains (ch '@') then localPart jid else []

/-- The sessions that can be sent to. -/
def Ctx.live (c : Ctx) : Bool := c.pcb.isSome && decide (ClientState.SESSION ≤ c.state)

def find_client_by_jid (s : Server) (bare_jid : Str) : Option Slot :=
  firstIdx fun i =>
    let c := s.client_registry i
    let rest := c.full_jid.drop bare_jid.length
    c.live && (c.full_jid.take bare_jid.length == bare_jid) &&
      (rest.head? == some (ch '/') || rest.head? == none)

end Angelic.Model
