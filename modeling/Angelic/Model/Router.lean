import Angelic.Model.Chat

namespace Angelic.Model
open CString

/-! Stream negotiation and `xmpp_router.c`. -/

def STREAM_HEAD : List String :=
  ["<?xml version='1.0'?>", "<stream:stream from='%s'%s id='%u' version='1.0' ", "xml:lang='en' ",
    "xmlns='jabber:client' ", "xmlns:stream='http://etherx.jabber.org/streams'>",
    "<stream:features>"]
def fmtFeaturesBind : Str :=
  cat (STREAM_HEAD ++ ["<bind xmlns='urn:ietf:params:xml:ns:xmpp-bind'/>",
    "<session xmlns='urn:ietf:params:xml:ns:xmpp-session'/>", "<sm xmlns='urn:xmpp:sm:3'/>",
    "</stream:features>"])
def fmtFeaturesSasl : Str :=
  cat (STREAM_HEAD ++ ["<mechanisms xmlns='urn:ietf:params:xml:ns:xmpp-sasl'>",
    "<mechanism>PLAIN</mechanism>", "</mechanisms>", "</stream:features>"])
def fmtFeaturesTls : Str :=
  cat (STREAM_HEAD ++ ["<starttls xmlns='urn:ietf:params:xml:ns:xmpp-tls'>", "<required/>",
    "</starttls>", "</stream:features>"])

def toAttr (client_from : Str) : Str :=
  if client_from ≠ [] then snprintf 96 (lit " to='%s'") [.s client_from] else []

def handle_handshake_logic (me : Slot) : M Unit := do
  let stream_id ← secure_random_u32
  let c ← ctxOf me
  let args := [Arg.s XMPP_DOMAIN, .s (toAttr c.client_from), .u stream_id.toNat]
  if c.authenticated then
    modCtx me fun c => { c with state := .BIND }
    send_raw me (snprintf 512 fmtFeaturesBind args)
  else if c.tls_established then
    send_raw me (snprintf 512 fmtFeaturesSasl args)
    modCtx me fun c => { c with state := .SASL }
  else send_raw me (snprintf 512 fmtFeaturesTls args)

structure RouteEntry where
  xmlns : Str
  handler : Slot → Stanza → M Unit
  min_state : ClientState

def router : List RouteEntry :=
  [⟨NS_BIND, handle_core_bind, .BIND⟩,
   ⟨NS_SESSION, handle_core_session, .AUTHENTICATED⟩,
   ⟨lit "jabber:iq:roster", handle_roster_request, .SESSION⟩,
   ⟨lit "http://jabber.org/protocol/disco#info", handle_disco_info, .SESSION⟩,
   ⟨lit "http://jabber.org/protocol/disco#items", handle_disco_items, .SESSION⟩,
   ⟨lit "http://jabber.org/protocol/muc", handle_muc_presence, .SESSION⟩,
   ⟨lit "http://jabber.org/protocol/muc#owner", handle_muc_owner, .SESSION⟩,
   ⟨lit "jabber:iq:private", handle_private_storage, .SESSION⟩,
   ⟨lit "http://jabber.org/protocol/muc#admin", handle_muc_admin, .SESSION⟩,
   ⟨lit "urn:xmpp:blocking", handle_blocklist, .SESSION⟩,
   ⟨lit "vcard-temp", handle_general_success, .SESSION⟩,
   ⟨lit "jabber:iq:version", handle_version, .SESSION⟩,
   ⟨lit "jabber:iq:last", handle_last, .SESSION⟩,
   ⟨lit "urn:ietf:params:xml:ns:xmpp-ping", handle_ping, .SESSION⟩]

def fmtTooEarlyId : Str :=
  cat ["<iq type='error' from='%s' to='%s' id='%s'>", "<error type='wait'>", "<unexpected-request ",
    "xmlns='urn:ietf:params:xml:ns:xmpp-stanzas'/>", "</error>", "</iq>"]
def fmtTooEarly : Str :=
  cat ["<iq type='error' from='%s' to='%s'>", "<error type='wait'>", "<unexpected-request ",
    "xmlns='urn:ietf:params:xml:ns:xmpp-stanzas'/>", "</error>", "</iq>"]
def fmtUnavailableId : Str :=
  cat ["<iq type='error' from='%s' to='%s' id='%s'>", "<error type='cancel' code='503'>",
    "<service-unavailable ", "xmlns='urn:ietf:params:xml:ns:xmpp-stanzas'/>", "</error>", "</iq>"]
def fmtUnavailable : Str :=
  cat ["<iq type='error' from='%s' to='%s'>", "<error type='cancel' code='503'>",
    "<service-unavailable ", "xmlns='urn:ietf:params:xml:ns:xmpp-stanzas'/>", "</error>", "</iq>"]
def fmtBadIq : Str :=
  cat ["<iq type='error' from='%s' to='%s' id='%s'>", "<error type='modify'>", "<bad-request ",
    "xmlns='urn:ietf:params:xml:ns:xmpp-stanzas'/>", "</error>", "</iq>"]

def StanzaType.isRequest (t : StanzaType) : Bool := t == .IQ_GET || t == .IQ_SET

def StanzaType.isPresence : StanzaType → Bool
  | .PRESENCE | .PRESENCE_UNAVAILABLE | .PRESENCE_SUBSCRIBE | .PRESENCE_SUBSCRIBED
  | .PRESENCE_UNSUBSCRIBE | .PRESENCE_UNSUBSCRIBED | .PRESENCE_PROBE => true
  | _ => false

def tooEarly (me : Slot) (st : Stanza) : M Unit := do
  let c ← ctxOf me
  if st.type.isRequest then
    if st.id ≠ [] then
      send_raw me (snprintf 512 fmtTooEarlyId [.s (fromJid st), .s (toJid c), .s st.id])
    else send_raw me (snprintf 512 fmtTooEarly [.s (fromJid st), .s (toJid c)])

def routePresence (me : Slot) (st : Stanza) : M Unit := do
  let c ← ctxOf me
  if (strstr st.to_ CONFERENCE).isSome then handle_muc_presence me st
  else if st.type = .PRESENCE ∧ ¬ c.initial_presence_sent then
    modCtx me fun c => { c with initial_presence_sent := true }
    handle_initial_presence me st
  else handle_broadcast_presence me st

def unknownRequest (me : Slot) (st : Stanza) : M Unit := do
  let c ← ctxOf me
  if (strstr st.payload (lit "http://jabber.org/protocol/muc#owner")).isSome then
    handle_muc_owner me st
  else if st.id ≠ [] then
    send_raw me (snprintf 512 fmtUnavailableId [.s (fromJid st), .s c.full_jid, .s st.id])
  else send_raw me (snprintf 512 fmtUnavailable [.s (fromJid st), .s c.full_jid])

/-- Stanzas of a namespace no entry has, by their kind. -/
def routeByKind (me : Slot) (st : Stanza) : M Unit := do
  let c ← ctxOf me
  if ClientState.SESSION ≤ c.state ∧ st.type = .MESSAGE then handle_chat_message me st
  else if ClientState.SESSION ≤ c.state ∧ st.type.isPresence then routePresence me st
  else if ClientState.SESSION ≤ c.state ∧ st.type.isRequest then unknownRequest me st
  else if st.type = .UNKNOWN ∧ st.id ≠ [] ∧ ClientState.AUTHENTICATED ≤ c.state then
    send_raw me (snprintf 512 fmtBadIq [.s (fromJid st), .s (toJid c), .s st.id])

/-- The handler of the namespace if the context is far enough, `c` being the context. -/
def dispatch (me : Slot) (c : Ctx) (st : Stanza) : M Unit :=
  if st.xmlns ≠ [] ∧ (strstr st.xmlns (lit "stream")).isSome then handle_handshake_logic me
  else
    match router.find? (·.xmlns == st.xmlns) with
    | some e => if c.state < e.min_state then tooEarly me st else e.handler me st
    | none => routeByKind me st

/-- The sender of a stanza is the address of its context, once it has one. No handler reads it. -/
def stamped (c : Ctx) (st : Stanza) : Stanza :=
  if c.full_jid ≠ [] then { st with from_ := strncpy 63 c.full_jid } else st

def xmpp_route_stanza (me : Slot) (st : Stanza) : M Unit := do
  let c ← ctxOf me
  modify fun s => { s with routed := s.routed ++ [(c, st)] }
  dispatch me c (stamped c st)

end Angelic.Model
