import Angelic.Model.Stream

namespace Angelic.Model
open CString

/-! The receive loop with `rx_buffer` as the array it is. The rest of the model knows the bytes in front of `rx_pos`;
the searches of the loop are for C strings and run on to the terminator. -/

structure RxBuffer where
  rx_buffer : List Byte
  rx_pos : Int
  deriving DecidableEq

namespace RxBuffer

def zero : RxBuffer := ⟨List.replicate RX_BUF_SIZE 0, 0⟩

/-- The bytes received and not consumed yet. -/
def text (b : RxBuffer) : List Byte := b.rx_buffer.take b.rx_pos.toNat

/-- `ctx->rx_buffer[ctx->rx_pos] = '\0'` -/
def terminate (b : RxBuffer) : RxBuffer := { b with rx_buffer := b.rx_buffer.set b.rx_pos.toNat 0 }

/-- The test before bytes are copied in, from a pbuf or from what mbedTLS has decrypted. -/
def hasRoom (b : RxBuffer) (data : List Byte) : Prop := b.rx_pos + data.length < RX_BUF_SIZE - 1

instance (b : RxBuffer) (data : List Byte) : Decidable (b.hasRoom data) := inferInstanceAs (Decidable (_ < _))

def append (b : RxBuffer) (data : List Byte) : RxBuffer :=
  terminate
    ⟨b.rx_buffer.take b.rx_pos.toNat ++ data ++ b.rx_buffer.drop (b.rx_pos.toNat + data.length), b.rx_pos + data.length⟩

/-- `memmove` of what is behind the first `n` bytes to the front, and the terminator behind it. -/
def shift (b : RxBuffer) (n : Int) : RxBuffer :=
  let left := (b.rx_pos - n).toNat
  terminate ⟨(b.rx_buffer.drop n.toNat).take left ++ b.rx_buffer.drop left, b.rx_pos - n⟩

/-- How many of the bytes in front are white space. -/
def blanks (b : RxBuffer) : Nat := (b.text.takeWhile isWs).length

def trim (b : RxBuffer) : RxBuffer := if 0 < b.blanks then b.shift b.blanks else b

end RxBuffer

/-- How a round ends: with bytes consumed and another round, in the branch for an empty pool, or with the callback. -/
inductive Round where
  | again (consumed : Int)
  | refused
  | done
  deriving DecidableEq

def rxStanza (me : Slot) (pcb : Pcb) (b : RxBuffer) : M (RxBuffer × Round) := do
  let s ← get
  let slot := firstIdx fun k => !s.stanza_pool k
  match parse_xml_stream s.sse42 slot.isSome b.text, slot with
  | .stanza st n, some k =>
    setPool k true
    stanzaHandler me st
    setPool k false
    return (if 0 < n then b.shift n else b, .again n)
  | .null .PARSE_NO_MEMORY _, _ =>
    emit (.tcp_write (some pcb) RESOURCE_CONSTRAINT)
    emit (.tcp_close (some pcb))
    modCtx me fun c => { c with pcb := none, state := .CONNECTED }
    return (b, .refused)
  | _, _ => return (b, .done)

/-- The round behind the white space. -/
def rxStep (me : Slot) (pcb : Pcb) (setup : Bool) (b : RxBuffer) : M (RxBuffer × Round) := do
  let c ← ctxOf me
  if b.rx_pos = 0 then return (b, .done)
  else if c.state = .CONNECTED ∧ ¬ c.tls_established ∧ startsWith b.rx_buffer "<starttls" then
    if (throughGt b.rx_buffer).isSome then
      starttls me setup
      return ({ b with rx_pos := 0 }, .done)
    else return (b, .done)
  else if startsWith b.rx_buffer "</stream:stream" ∨ startsWith b.rx_buffer "</stream>" then
    closeStream me
    return ({ b with rx_pos := 0 }, .done)
  else if connectedOr c .AUTHENTICATED ∧
      (startsWith b.rx_buffer "<?xml" ∨ mentions b.rx_buffer (lit "<stream:stream")) then
    if mentions b.rx_buffer (lit "<stream:stream") then
      streamHeader me
      return ({ b with rx_pos := 0 }, .done)
    else return (b, .done)
  else if connectedOr c .SASL ∧ startsWith b.rx_buffer "<abort" then
    match throughGt b.rx_buffer with
    | some n =>
      send_raw me SASL_ABORTED
      return (b.shift n, .again n)
    | none => return (b, .done)
  else if c.state < .SESSION then rxStanza me pcb b
  else
    match smElement b.rx_buffer, throughGt b.rx_buffer with
    | some e, some n =>
      smAnswer me e
      return (b.shift n, .again n)
    | _, _ => rxStanza me pcb b

/-- One round; the handlers find the bytes in their context. -/
def rxRound (me : Slot) (pcb : Pcb) (setup : Bool) (b : RxBuffer) : M (RxBuffer × Round) := do
  modCtx me fun c => { c with rx := b.trim.text }
  rxStep me pcb setup b.trim

/-- `while (ctx->rx_pos > 0)`, `none` where the rounds given do not suffice. -/
def rxLoop (me : Slot) (pcb : Pcb) (setup : Bool) : Nat → RxBuffer → M (Option RxBuffer)
  | 0, _ => return none
  | rounds + 1, b =>
    if b.rx_pos ≤ 0 then return some b
    else do
      let (b', r) ← rxRound me pcb setup b
      match r with
      | .again _ => rxLoop me pcb setup rounds b'
      | _ => return some b'

end Angelic.Model
