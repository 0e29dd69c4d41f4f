import Angelic.Model.Handlers

namespace Angelic.Model
open CString

/-! Authentication, binding and session: the handlers that move a context through its
states. -/

def Ctx.tls_client_free (c : Ctx) : Ctx :=
  if c.tls_initialised then
    { c with tls_established := false, tls_initialised := false, tls_rx := [], tls_rx_pos := 0 }
  else c

structure Credential where
  username : Str
  password : Str
  deriving DecidableEq

def xmpp_credentials : List Credential :=
  [⟨lit "admin", lit "admin"⟩, ⟨lit "user1", lit "pass1"⟩, ⟨lit "user2", lit "pass2"⟩]

def b64chars : Str := lit "ABCDEFGHIJKLMNOPQRSTUVWXYZabcdefghijklmnopqrstuvwxyz0123456789+/"

/-- The loop: 32-bit accumulator, bits in it, bytes written. `none` is the return of -1. -/
def b64loop (dst_len : Nat) : Str → UInt32 → Nat → List Byte → Option (List Byte)
  | [], _, _, dst => some dst
  | c :: src, buf, bits, dst =>
    if c = 0 ∨ c = ch '=' then some dst
    else
      match b64chars.findIdx? (· == c) with
      | none => none
      | some val =>
        let buf := (buf <<< 6) ||| UInt32.ofNat val
        let bits := bits + 6
        if bits ≥ 8 then
          let bits := bits - 8
          let b := UInt8.ofNat ((buf >>> UInt32.ofNat bits) &&& 0xFF).toNat
          b64loop dst_len src buf bits (if dst.length < dst_len then dst ++ [b] else dst)
        else b64loop dst_len src buf bits dst

def b64decode (src : Str) (dst_len : Nat) : Option (List Byte) := b64loop dst_len src 0 0 []

/-- What follows the first NUL of a message. -/
def afterNul (w : List Byte) : List Byte := (w.dropWhile (· != 0)).drop 1

def saslUsername (decoded : List Byte) : Str :=
  if decoded.length > 1 then (cstr (afterNul decoded)).take 31 else []

def saslPassword (decoded : List Byte) : Str := (cstr (afterNul (afterNul decoded))).take 63

def badUserChar (c : Byte) : Bool :=
  c == ch '@' || c == ch '/' || c == ch '<' || c == ch '>' || c == ch ' ' || c == apos || c == dquote

def authorized (username password : Str) : Bool :=
  xmpp_credentials.any fun e => e.username == username && e.password == password

def SASL_ENCRYPTION_REQUIRED : Str :=
  cat ["<failure xmlns='urn:ietf:params:xml:ns:xmpp-sasl'>", "<encryption-required/>", "</failure>"]
def SASL_INVALID_MECHANISM : Str :=
  cat ["<failure xmlns='urn:ietf:params:xml:ns:xmpp-sasl'>", "<invalid-mechanism/>", "</failure>"]
def SASL_INCORRECT_ENCODING : Str :=
  cat ["<failure xmlns='urn:ietf:params:xml:ns:xmpp-sasl'>", "<incorrect-encoding/>", "</failure>"]
def SASL_NOT_AUTHORIZED : Str :=
  cat ["<failure xmlns='urn:ietf:params:xml:ns:xmpp-sasl'>", "<not-authorized/>", "</failure>"]
def POLICY_VIOLATION : Str :=
  cat ["<stream:error>", "<policy-violation xmlns='urn:ietf:params:xml:ns:xmpp-stanzas'/>",
    "</stream:error>", "</stream:stream>"]
def SASL_SUCCESS : Str := lit "<success xmlns='urn:ietf:params:xml:ns:xmpp-sasl'/>"

/-- The failure path that both checks share. -/
def saslFailure (me : Slot) : M Unit := do
  send_raw me SASL_NOT_AUTHORIZED
  modCtx me fun c => { c with sasl_failures := c.sasl_failures + 1 }
  let c ← ctxOf me
  if c.sasl_failures ≥ SASL_MAX_FAILURES then
    send_raw me POLICY_VIOLATION
    emit (.tcp_close c.pcb)
    modCtx me fun c => { c with pcb := none, state := .CONNECTED }

def saslSucceed (me : Slot) : M Unit := do
  send_raw me SASL_SUCCESS
  modCtx me fun c => { c with authenticated := true, state := .AUTHENTICATED }

/-- The decoded message decides. The password is looked at for PLAIN alone. -/
def saslDecoded (me : Slot) (st : Stanza) (decoded : List Byte) : M Unit := do
  let u := saslUsername decoded
  if u.any badUserChar then
    modCtx me fun c => { c with username := u }
    saslFailure me
  else
    let username := if u = [] then lit "user" else u
    modCtx me fun c => { c with username := username }
    if st.mechanism = lit "PLAIN" ∧ ¬ authorized username (saslPassword decoded) then saslFailure me
    else saslSucceed me

def handle_sasl (me : Slot) (st : Stanza) : M Unit := do
  let c ← ctxOf me
  if ¬ c.tls_established then send_raw me SASL_ENCRYPTION_REQUIRED
  else if st.mechanism ≠ [] ∧ st.mechanism ≠ lit "PLAIN" ∧ st.mechanism ≠ lit "ANONYMOUS" then
    send_raw me SASL_INVALID_MECHANISM
  else
    match b64decode st.payload 127 with
    | none => send_raw me SASL_INCORRECT_ENCODING
    | some decoded => saslDecoded me st decoded

/-! Binding. -/

/-- The address an answer comes from, and the one it goes to before binding. -/
def fromJid (st : Stanza) : Str := if st.to_ ≠ [] then st.to_ else XMPP_DOMAIN
def toJid (c : Ctx) : Str := if c.full_jid ≠ [] then c.full_jid else lit "unknown"

def fmtUnexpectedId : Str :=
  cat ["<iq type='error' from='%s' to='%s' id='%s'>", "<error type='cancel'>",
    "<unexpected-request", " xmlns='urn:ietf:params:xml:ns:xmpp-stanzas'/>", "</error>", "</iq>"]
def fmtUnexpected : Str :=
  cat ["<iq type='error' from='%s' to='%s'>", "<error type='cancel'>",
    "<unexpected-request", " xmlns='urn:ietf:params:xml:ns:xmpp-stanzas'/>", "</error>", "</iq>"]
def CONFLICT : Str :=
  cat ["<stream:error>", "<conflict xmlns='urn:ietf:params:xml:ns:xmpp-stanzas'/>",
    "</stream:error>", "</stream:stream>"]
def fmtBound : Str :=
  cat ["<iq type='result' id='%s'>", "<bind xmlns='urn:ietf:params:xml:ns:xmpp-bind'>",
    "<jid>%s</jid>", "</bind>", "</iq>"]
def fmtFullJid : Str := lit "%s@%s/unikernel-%d"

def fullJid (username : Str) (resource_id : Nat) : Str :=
  snprintf 64 fmtFullJid [.s username, .s XMPP_DOMAIN, .d resource_id]

/-- A context with a connection and the same user is told, closed and cleared. -/
def conflictOne (me i : Slot) : M Unit := do
  let c ← ctxOf i
  let own ← ctxOf me
  if i ≠ me ∧ c.pcb.isSome ∧ c.username = own.username then
    if c.tls_established then emit (.tls_write i c.pcb CONFLICT)
    else emit (.tcp_write c.pcb CONFLICT)
    emit (.tcp_close c.pcb)
    modCtx i fun _ => .zero

/-- The part behind the draw: the address, the conflicts, the answer, the state. -/
def bindAs (me : Slot) (st : Stanza) (jid : Str) : M Unit := do
  modCtx me fun c => { c with full_jid := jid }
  forAll MAX_USERS (conflictOne me)
  send_raw me (snprintf 1024 fmtBound [.s st.id, .s jid])
  modCtx me fun c => { c with state := .SESSION }

def handle_core_bind (me : Slot) (st : Stanza) : M Unit := do
  let c ← ctxOf me
  if c.state ≠ .BIND then
    if st.id ≠ [] then
      send_raw me (snprintf 512 fmtUnexpectedId [.s (fromJid st), .s (toJid c), .s st.id])
    else send_raw me (snprintf 512 fmtUnexpected [.s (fromJid st), .s (toJid c)])
  else
    let r ← secure_random_u32
    bindAs me st (fullJid c.username (r.toNat % 9999))

def fmtSession : Str := lit "<iq type='result' id='%s'/>"

def handle_core_session (me : Slot) (st : Stanza) : M Unit := do
  send_raw me (snprintf 256 fmtSession [.s st.id])
  modCtx me fun c => { c with state := .READY }

end Angelic.Model
