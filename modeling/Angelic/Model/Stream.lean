import Angelic.Model.Router
import Angelic.Model.Tls
import Angelic.Model.Sm

namespace Angelic.Model
open CString

/-! `xmpp_server.c`: the receive loop. -/

/-- Empty when the attribute is missing or not quoted. -/
def extract_stream_attr (buf : Str) (attr_name : String) (out_max : Nat) : Str :=
  let key := snprintf 64 (lit " %s=") [.s (lit attr_name)]
  match strstr buf key with
  | none => []
  | some p =>
    match p.drop key.length with
    | [] => []
    | q :: rest =>
      if (q = apos ∨ q = dquote) ∧ rest.contains q then (rest.takeWhile (· != q)).take (out_max - 1)
      else []

def CLOSE_TAG : Str := lit "</stream:stream>"
def STARTTLS_PROCEED : Str := lit "<proceed xmlns='urn:ietf:params:xml:ns:xmpp-tls'/>"
def STARTTLS_FAILURE : Str := lit "<failure xmlns='urn:ietf:params:xml:ns:xmpp-tls'/>"
def HOST_UNKNOWN : Str :=
  snprintf 512 (cat ["<?xml version='1.0'?>", "<stream:stream from='angelic.local' id='0'",
    " version='1.0' xml:lang='en'", " xmlns='jabber:client'",
    " xmlns:stream='http://etherx.jabber.org/streams'>", "<stream:error>", "<host-unknown",
    " xmlns='urn:ietf:params:xml:ns:xmpp-streams'/>", "</stream:error>", "</stream:stream>"]) []
def INVALID_NAMESPACE : Str :=
  cat ["<?xml version='1.0'?>", "<stream:stream from='angelic.local' id='0' version='1.0' ",
    "xmlns='jabber:client' ", "xmlns:stream='http://etherx.jabber.org/streams'>", "<stream:error>",
    "<invalid-namespace ", "xmlns='urn:ietf:params:xml:ns:xmpp-stanzas'/>", "</stream:error>",
    "</stream:stream>"]
def UNSUPPORTED_VERSION : Str :=
  cat ["<?xml version='1.0'?>", "<stream:stream from='angelic.local' id='0' version='1.0' ",
    "xmlns='jabber:client' ", "xmlns:stream='http://etherx.jabber.org/streams'>", "<stream:error>",
    "<unsupported-version ", "xmlns='urn:ietf:params:xml:ns:xmpp-stanzas'/>", "</stream:error>",
    "</stream:stream>"]
def SASL_ABORTED : Str :=
  cat ["<failure xmlns='urn:ietf:params:xml:ns:xmpp-sasl'>", "<aborted/>", "</failure>"]
def RESOURCE_CONSTRAINT : Str :=
  cat ["<stream:error>", "<resource-constraint xmlns='urn:ietf:params:xml:ns:xmpp-stanzas'/>",
    "</stream:error>", "</stream:stream>"]

def send_stream_close_and_free (me : Slot) : M Unit := do
  let c ← ctxOf me
  if c.tls_established then emit (.tls_write me c.pcb CLOSE_TAG)
  else if c.pcb.isSome ∧ ClientState.SASL ≤ c.state then emit (.tcp_write c.pcb CLOSE_TAG)
  modCtx me Ctx.tls_client_free
  closePcb me
  modCtx me fun c => { c with state := .CONNECTED }

/-- Whether the loop goes round again or the callback is done. -/
inductive Loop where
  | again | done
  deriving DecidableEq, Repr

def starttls (me : Slot) (setup : Bool) : M Unit := do
  let c ← ctxOf me
  emit (.tcp_write c.pcb STARTTLS_PROCEED)
  modCtx me fun c => c.tls_client_init setup
  if setup then modCtx me fun c => { c with state := .STARTTLS, rx := [] }
  else
    emit (.tcp_write c.pcb STARTTLS_FAILURE)
    emit (.tcp_close c.pcb)
    modCtx me fun c => { c with pcb := none, state := .CONNECTED, rx := [] }

def closeStream (me : Slot) : M Unit := do
  let c ← ctxOf me
  if c.tls_established then emit (.tls_write me c.pcb CLOSE_TAG)
  else emit (.tcp_write c.pcb CLOSE_TAG)
  emit (.tcp_close c.pcb)
  modCtx me fun c => { c.tls_client_free with pcb := none, state := .CONNECTED, rx := [] }

/-- The buffer says neither one nor the other spelling of an attribute. -/
def lacks (buf : List Byte) (single double : String) : Bool :=
  !mentions buf (lit single) && !mentions buf (lit double)

def badNs (buf : List Byte) : Bool :=
  lacks buf "xmlns='jabber:client'" "xmlns=\"jabber:client\""
def badStreamNs (buf : List Byte) : Bool :=
  lacks buf "xmlns:stream='http://etherx.jabber.org/streams'"
    "xmlns:stream=\"http://etherx.jabber.org/streams\""
def badVer (buf : List Byte) : Bool := lacks buf "version='1.0'" "version=\"1.0\""

/-- A stream header. The rest of the buffer is dropped with it, whatever the answer, and the
two refusals for namespace and version leave the context its closed pcb. -/
def streamHeader (me : Slot) : M Unit := do
  modCtx me fun c => { c with client_from := extract_stream_attr (cstr c.rx) "from" 64 }
  let c ← ctxOf me
  let stream_to := extract_stream_attr (cstr c.rx) "to" 64
  if ¬ c.tls_established ∧ ¬ c.authenticated ∧ stream_to ≠ [] ∧ stream_to ≠ XMPP_DOMAIN then
    emit (.tcp_write c.pcb HOST_UNKNOWN)
    emit (.tcp_close c.pcb)
    modCtx me fun c => { c with pcb := none }
  else if badNs c.rx ∨ badStreamNs c.rx then
    emit (.tcp_write c.pcb INVALID_NAMESPACE)
    emit (.tcp_close c.pcb)
  else if badVer c.rx then
    emit (.tcp_write c.pcb UNSUPPORTED_VERSION)
    emit (.tcp_close c.pcb)
  else handle_handshake_logic me
  modCtx me fun c => { c with rx := [] }

def stanzaHandler (me : Slot) (st : Stanza) : M Unit := do
  let c ← ctxOf me
  if c.state = .CONNECTED ∨ c.state = .SASL then
    if st.xmlns = NS_SASL then handle_sasl me st
  else
    xmpp_route_stanza me st
    xmpp_sm_on_stanza_received me

/-- Marks a stanza of the pool as used or free. -/
def setPool (k : Fin MAX_POOL_STANZAS) (used : Bool) : M Unit :=
  modify fun s => { s with stanza_pool := Function.update s.stanza_pool k used }

/-- The stanza the parser fills is the first free one of the pool. -/
def stanzaStep (me : Slot) (pcb : Pcb) : M Loop := do
  let s ← get
  let slot := firstIdx fun k => !s.stanza_pool k
  match parse_xml_stream s.sse42 slot.isSome (s.client_registry me).rx, slot with
  | .stanza st n, some k =>
    setPool k true
    stanzaHandler me st
    setPool k false
    consume me n
    return .again
  | .null .PARSE_NO_MEMORY _, _ =>
    emit (.tcp_write (some pcb) RESOURCE_CONSTRAINT)
    emit (.tcp_close (some pcb))
    modCtx me fun c => { c with pcb := none, state := .CONNECTED }
    return .done
  | _, _ => return .done

def isWs (b : Byte) : Bool := b == ch ' ' || b == ch '\n' || b == ch '\r' || b == ch '\t'

def connectedOr (c : Ctx) (s : ClientState) : Bool := c.state == .CONNECTED || c.state == s

def abortStep (me : Slot) : M Loop := do
  let c ← ctxOf me
  match throughGt c.rx with
  | some n =>
    send_raw me SASL_ABORTED
    consume me n
    return .again
  | none => return .done

/-- Once round the loop, with a buffer that does not begin with white space. -/
def recvStep (me : Slot) (pcb : Pcb) (setup : Bool) : M Loop := do
  let c ← ctxOf me
  if c.rx = [] then return .done
  else if c.state = .CONNECTED ∧ ¬ c.tls_established ∧ startsWith c.rx "<starttls" then
    if (throughGt c.rx).isSome then starttls me setup
    return .done
  else if startsWith c.rx "</stream:stream" ∨ startsWith c.rx "</stream>" then
    closeStream me
    return .done
  else if connectedOr c .AUTHENTICATED ∧
      (startsWith c.rx "<?xml" ∨ mentions c.rx (lit "<stream:stream")) then
    if mentions c.rx (lit "<stream:stream") then streamHeader me
    return .done
  else if connectedOr c .SASL ∧ startsWith c.rx "<abort" then abortStep me
  else if ← xmpp_sm_handle_element me then return .again
  else stanzaStep me pcb

/-- The fuel is the length of the buffer, of which each round takes at least a byte. -/
def recvLoop (me : Slot) (pcb : Pcb) (setup : Bool) : Nat → M Unit
  | 0 => pure ()
  | fuel + 1 => do
    modCtx me fun c => { c with rx := c.rx.dropWhile isWs }
    match ← recvStep me pcb setup with
    | .again => recvLoop me pcb setup fuel
    | .done => pure ()

/-- One pbuf of a chain, with what mbedTLS answers should it be given to it. -/
structure Pbuf where
  payload : List Byte
  handshake : SslHandshake
  reads : List SslRead

/-- `for (q = p; q != NULL && ctx->pcb != NULL; q = q->next)`. -/
def whilePcb (me : Slot) (body : Pbuf → M Unit) : List Pbuf → M Unit
  | [] => pure ()
  | q :: rest => do
    let c ← ctxOf me
    if c.pcb.isSome then
      body q
      whilePcb me body rest

/-- The copy loop; false when a pbuf did not fit. -/
def plaintextCopy (me : Slot) : List Pbuf → M Bool
  | [] => return true
  | q :: rest => do
    let c ← ctxOf me
    if c.rx.length + q.payload.length < RX_BUF_SIZE - 1 then
      modCtx me fun c => { c with rx := c.rx ++ q.payload }
      plaintextCopy me rest
    else return false

def runLoop (me : Slot) (pcb : Pcb) (setup : Bool) : M Unit := do
  let c ← ctxOf me
  recvLoop me pcb setup (c.rx.length + 1)

def recvClose (me : Slot) (pcb : Pcb) : M Unit := do
  let c ← ctxOf me
  if c.pcb = none then modCtx me fun c => { c with pcb := some pcb }
  send_stream_close_and_free me

/-- `p` is `none` when the peer has closed; `setup` is what `mbedtls_ssl_setup` answers. -/
def xmpp_recv_callback (me : Slot) (pcb : Pcb) (p : Option (List Pbuf)) (setup : Bool) : M Unit := do
  match p with
  | none => recvClose me pcb
  | some chain =>
    let c ← ctxOf me
    if c.state = .STARTTLS then
      whilePcb me (fun q => xmpp_tls_handshake_step me q.payload q.handshake) chain
    else if c.tls_established then
      whilePcb me (fun q => xmpp_tls_decrypt me q.payload q.reads) chain
      runLoop me pcb setup
    else if ← plaintextCopy me chain then runLoop me pcb setup
    else
      emit (.tcp_write (some pcb) POLICY_VIOLATION)
      emit (.tcp_close (some pcb))
      modCtx me fun c => { c with pcb := none, state := .CONNECTED }

def xmpp_err_callback (me : Slot) : M Unit := modCtx me fun _ => .zero

def xmpp_accept_callback (newpcb : Pcb) : M Unit := do
  let s ← get
  let me := s.client_idx
  set { s with client_idx := me + 1 }
  let c ← ctxOf me
  if c.pcb.isSome then emit (.tcp_close c.pcb)
  modCtx me fun _ => { Ctx.zero with pcb := some newpcb }
  modify fun s => { s with tcp_arg := Function.update s.tcp_arg newpcb (some me) }

end Angelic.Model
