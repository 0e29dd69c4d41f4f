import Angelic.Model.State

namespace Angelic.Model
open CString

/-! `xmpp_sm.c`, the elements. -/

def SM_NS : Str := lit "urn:xmpp:sm:3"

/-- `snprintf` here has no `%06x`: the id sent is the text of the directive. -/
def fmtEnabled : Str := cat ["<enabled xmlns='urn:xmpp:sm:3'", " id='angelic%06x'", " resume='false'/>"]

def xmpp_sm_send_enabled (me : Slot) : M Unit := do
  let r ← secure_random_u32
  modCtx me fun c => { c with sm_enabled := true, sm_inbound_h := 0, sm_outbound_count := 0 }
  send_raw me (snprintf 256 fmtEnabled [.u (r.toNat % 0xFFFFFF)])

def xmpp_sm_send_ack (me : Slot) : M Unit := do
  let c ← ctxOf me
  send_raw me (snprintf 128 (lit "<a xmlns='urn:xmpp:sm:3' h='%u'/>") [.u c.sm_inbound_h.toNat])

def xmpp_sm_request_ack (me : Slot) : M Unit := do
  let c ← ctxOf me
  if c.sm_enabled then send_raw me (lit "<r xmlns='urn:xmpp:sm:3'/>")

/-- `strncmp` of a buffer with a literal of that length. -/
def startsWith (buf : List Byte) (s : String) : Bool := buf.take (lit s).length == lit s

/-- The bytes up to and with the first `>` of the string in a buffer. -/
def throughGt (buf : List Byte) : Option Nat :=
  if (cstr buf).contains (ch '>') then some (((cstr buf).takeWhile (· != ch '>')).length + 1)
  else none

/-- `strstr` on a buffer. -/
def mentions (buf : List Byte) (s : Str) : Bool := (strstr (cstr buf) s).isSome

/-- The three elements, by how the buffer starts. The count in `<a` is read and dropped. -/
inductive SmElement where
  | enable | request | answer
  deriving DecidableEq, Repr

def smElement (buf : List Byte) : Option SmElement :=
  if startsWith buf "<enable" ∧ mentions buf SM_NS then some .enable
  else if (startsWith buf "<r " ∨ startsWith buf "<r/>") ∧ mentions buf SM_NS then some .request
  else if startsWith buf "<a " ∧ mentions buf SM_NS ∧ mentions buf (lit "h=") then some .answer
  else none

def smAnswer (me : Slot) : SmElement → M Unit
  | .enable => xmpp_sm_send_enabled me
  | .request => xmpp_sm_send_ack me
  | .answer => pure ()

/-- Drops bytes at the front of `rx_buffer`. -/
def consume (me : Slot) (n : Nat) : M Unit := modCtx me fun c => { c with rx := c.rx.drop n }

def xmpp_sm_handle_element (me : Slot) : M Bool := do
  let c ← ctxOf me
  if c.state < .SESSION then return false
  match smElement c.rx, throughGt c.rx with
  | some e, some n =>
    smAnswer me e
    consume me n
    return true
  | _, _ => return false

end Angelic.Model
