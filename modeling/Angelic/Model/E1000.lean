import Angelic.Model.Pmm

namespace Angelic.Model

/-! The NIC and its driver share descriptor rings. The driver is modelled one access to shared memory at a
time, so that the NIC may act between any two of them. -/

def RX_RING_SIZE : Nat := 32
def TX_RING_SIZE : Nat := 32

/-- The slot of a ring for a running number. -/
def slotOf (n : Nat) : Fin 32 := ⟨n % 32, Nat.mod_lt n (by decide)⟩

def nextSlot (i : Fin 32) : Fin 32 := slotOf (i.val + 1)

/-! Receiving. -/

def E1000_RXD_STAT_DD : UInt8 := 1
def E1000_RXD_STAT_EOP : UInt8 := 2

/-- `checksum`, `errors` and `special` are written once and not read. -/
structure RxDesc where
  addr : UInt64
  length : UInt16
  status : UInt8

/-- Where a call of `e1000_poll_receive` stands: what it does next. -/
inductive PollPc where
  | idle
  | length
  | copy (len : UInt16) (buffer : List UInt8)
  | clear (len : UInt16) (buffer : List UInt8)
  | tail (len : UInt16) (buffer : List UInt8)
  deriving DecidableEq

structure Rx where
  rx_ring : Fin 32 → RxDesc
  rx_idx : Fin 32
  RDH : Fin 32
  RDT : Fin 32
  /-- What the receive buffers hold, by address. -/
  memory : UInt64 → List UInt8
  pc : PollPc
  /-- The frames the NIC has stored. -/
  stored : List (List UInt8)
  /-- What the finished calls have left in the first `len` bytes of the caller's buffer. -/
  returns : List (List UInt8)

/-- The NIC fills the descriptor at `RDH`, unless it has none. -/
def Rx.arrive (s : Rx) (frame : List UInt8) : Rx :=
  if s.RDH = s.RDT then s
  else
    let desc := s.rx_ring s.RDH
    { s with
      rx_ring := Function.update s.rx_ring s.RDH
        { desc with length := frame.length.toUInt16, status := E1000_RXD_STAT_DD ||| E1000_RXD_STAT_EOP }
      memory := Function.update s.memory desc.addr (frame ++ (s.memory desc.addr).drop frame.length)
      RDH := nextSlot s.RDH
      stored := s.stored ++ [frame] }

/-- One access of `e1000_poll_receive`, the first of a call included. -/
def e1000_poll_receive (max_len : UInt16) (s : Rx) : Rx :=
  let desc := s.rx_ring s.rx_idx
  match s.pc with
  | .idle =>
    if desc.status &&& E1000_RXD_STAT_DD = 0 then { s with returns := s.returns ++ [[]] }
    else { s with pc := .length }
  | .length =>
    let len := desc.length
    { s with pc := .copy (if max_len < len then max_len else len) [] }
  | .copy len buffer =>
    if buffer.length < len.toNat then
      { s with pc := .copy len (buffer ++ [(s.memory desc.addr).getD buffer.length 0]) }
    else { s with pc := .clear len buffer }
  | .clear len buffer =>
    { s with
      rx_ring := Function.update s.rx_ring s.rx_idx { desc with status := 0 }
      pc := .tail len buffer }
  | .tail _ buffer =>
    { s with
      rx_idx := nextSlot s.rx_idx
      RDT := s.rx_idx
      returns := s.returns ++ [buffer]
      pc := .idle }

/-! Sending. -/

def E1000_TXD_CMD_EOP : UInt8 := 1
def E1000_TXD_CMD_IFCS : UInt8 := 2
def E1000_TXD_CMD_RS : UInt8 := 8
def E1000_TXD_STAT_DD : UInt8 := 1
def E1000_TX_TIMEOUT : Nat := 0x100000

structure TxDesc where
  addr : UInt64
  length : UInt16
  cso : UInt8
  cmd : UInt8
  status : UInt8
  css : UInt8
  special : UInt16
  deriving DecidableEq

/-- A write to one field of a descriptor. -/
inductive TxField where
  | addr (v : UInt64)
  | length (v : UInt16)
  | cso (v : UInt8)
  | cmd (v : UInt8)
  | status (v : UInt8)
  | css (v : UInt8)
  | special (v : UInt16)
  deriving DecidableEq

def TxDesc.write (d : TxDesc) : TxField → TxDesc
  | .addr v => { d with addr := v }
  | .length v => { d with length := v }
  | .cso v => { d with cso := v }
  | .cmd v => { d with cmd := v }
  | .status v => { d with status := v }
  | .css v => { d with css := v }
  | .special v => { d with special := v }

/-- A piece of a frame, and whether it is the last. -/
structure Segment where
  addr : UInt64
  length : UInt16
  eop : Bool
  deriving DecidableEq, Repr

def TxDesc.segment (d : TxDesc) : Segment := ⟨d.addr, d.length, d.cmd &&& E1000_TXD_CMD_EOP ≠ 0⟩

/-- Where a call of `e1000_send_scatter` or `e1000_send_raw` stands. `idle` has the value the last one
returned. `check` looks at the `i`th slot for the `t`th time, `fill` has field writes left before the tail is
moved, `wait` has looked at the last slot `t` times. -/
inductive SendPc where
  | idle (result : Option Int)
  | check (segs : List (UInt64 × UInt16)) (i t : Nat)
  | fill (writes : List (Fin 32 × TxField)) (asked : List Segment)
  | wait (last : Fin 32) (t : Nat)
  deriving DecidableEq

structure Tx where
  tx_ring : Fin 32 → TxDesc
  tx_tail : Fin 32
  TDH : Fin 32
  TDT : Fin 32
  pc : SendPc
  /-- What the driver was asked to send and has moved the tail over. -/
  queued : List Segment
  /-- What the NIC has read from the descriptors it is done with. -/
  sent : List Segment

/-- The NIC is done with the descriptor at `TDH`, unless it has none. -/
def Tx.consume (s : Tx) : Tx :=
  if s.TDH = s.TDT then s
  else
    let desc := s.tx_ring s.TDH
    { s with
      tx_ring := if desc.cmd &&& E1000_TXD_CMD_RS = 0 then s.tx_ring
        else Function.update s.tx_ring s.TDH { desc with status := desc.status ||| E1000_TXD_STAT_DD }
      TDH := nextSlot s.TDH
      sent := s.sent ++ [desc.segment] }

/-- The writes of the second loop of `e1000_send_scatter`. -/
def scatterWrites (tx_tail : Fin 32) (segs : List (UInt64 × UInt16)) : List (Fin 32 × TxField) :=
  (List.range segs.length).flatMap fun i =>
    let slot := slotOf (tx_tail.val + i)
    let seg := segs.getD i (0, 0)
    let is_last := i + 1 = segs.length
    [(slot, .addr seg.1), (slot, .length seg.2), (slot, .cso 0), (slot, .css 0), (slot, .special 0),
     (slot, .cmd (E1000_TXD_CMD_IFCS ||| E1000_TXD_CMD_RS ||| if is_last then E1000_TXD_CMD_EOP else 0)),
     (slot, .status 0)]

def scatterSegments (segs : List (UInt64 × UInt16)) : List Segment :=
  (List.range segs.length).map fun i =>
    let seg := segs.getD i (0, 0)
    ⟨seg.1, seg.2, i + 1 = segs.length⟩

def rawWrites (tx_tail : Fin 32) (data : UInt64) (len : UInt16) : List (Fin 32 × TxField) :=
  [(tx_tail, .addr data), (tx_tail, .length len), (tx_tail, .cmd (E1000_TXD_CMD_EOP ||| E1000_TXD_CMD_RS)),
   (tx_tail, .status 0)]

/-- The start of `e1000_send_scatter`. The arrays are given as one list, of `n_segs` pairs. -/
def e1000_send_scatter (segs : List (UInt64 × UInt16)) (s : Tx) : Tx :=
  if segs.length = 0 ∨ TX_RING_SIZE / 2 < segs.length then { s with pc := .idle (some (-1)) }
  else { s with pc := .check segs 0 0 }

/-- The start of `e1000_send_raw`. -/
def e1000_send_raw (data : UInt64) (len : UInt16) (s : Tx) : Tx :=
  { s with pc := .fill (rawWrites s.tx_tail data len) [⟨data, len, true⟩] }

/-- A slot of the first loop is free: the next one is looked at, or the descriptors are written. -/
def slotFree (s : Tx) (segs : List (UInt64 × UInt16)) (i : Nat) : SendPc :=
  if i + 1 < segs.length then .check segs (i + 1) 0 else .fill (scatterWrites s.tx_tail segs) (scatterSegments segs)

/-- The next access of a call that has been started. -/
def sendStep (s : Tx) : Tx :=
  match s.pc with
  | .idle _ => s
  | .check segs i t =>
    let done := (s.tx_ring (slotOf (s.tx_tail.val + i))).status &&& E1000_TXD_STAT_DD ≠ 0
    -- the first look, those of the loop, and the last
    if t = 0 then { s with pc := if done then slotFree s segs i else .check segs i 1 }
    else if t ≤ E1000_TX_TIMEOUT then { s with pc := .check segs i (if done then E1000_TX_TIMEOUT + 1 else t + 1) }
    else { s with pc := if done then slotFree s segs i else .idle (some (-1)) }
  | .fill ((slot, field) :: writes) asked =>
    { s with tx_ring := Function.update s.tx_ring slot ((s.tx_ring slot).write field), pc := .fill writes asked }
  | .fill [] asked =>
    let tail := slotOf (s.tx_tail.val + asked.length)
    { s with
      tx_tail := tail
      TDT := tail
      queued := s.queued ++ asked
      pc := .wait (slotOf (s.tx_tail.val + asked.length - 1)) 0 }
  | .wait last t =>
    if (s.tx_ring last).status &&& E1000_TXD_STAT_DD ≠ 0 then { s with pc := .idle (some 0) }
    else if t + 1 < E1000_TX_TIMEOUT then { s with pc := .wait last (t + 1) }
    else { s with pc := .idle (some (-1)) }

/-! Starting the driver. -/

/-- The pages of the receive ring, none when the memory runs out. -/
def rxBuffers : Nat → Phys → Option (List UInt64 × Phys)
  | 0, p => some ([], p)
  | n + 1, p =>
    match pmm_alloc_page p with
    | (none, _) => none
    | (some buf, p) => (rxBuffers n p).map fun (bufs, p) => (buf :: bufs, p)

/-- The rings as `e1000_init` leaves them, none for `-1`. The registers that do not touch a ring are left
out. -/
def e1000_init (p : Phys) (memory : UInt64 → List UInt8) : Option (Rx × Tx × Phys) :=
  (rxBuffers RX_RING_SIZE p).map fun (bufs, p) =>
    (⟨fun i => ⟨bufs.getD i 0, 0, 0⟩, 0, 0, slotOf (RX_RING_SIZE - 1), memory, .idle, [], []⟩,
     ⟨fun _ => ⟨0, 0, 0, 0, E1000_TXD_STAT_DD, 0, 0⟩, 0, 0, 0, .idle none, [], []⟩, p)

end Angelic.Model
