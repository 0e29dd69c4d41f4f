import Angelic.Model.Store

namespace Angelic.Model
open CString

/-! The handlers of `xmpp_handlers.c` that answer the sender, in the order of the file.
A stanza's fields are in `st`, the sender's slot is `me`. -/

def fmtResult : Str := lit "<iq type='result' id='%s' to='%s'/>"

/-- `<iq type='result' .../>` formatted into `size` bytes and sent. -/
def replyResult (size : Nat) (me : Slot) (st : Stanza) : M Unit := do
  let c ← ctxOf me
  send_raw me (snprintf size fmtResult [.s st.id, .s c.full_jid])

/-! Pending subscriptions. -/

def pendingEntry (e : PendingSub) (type from_ to_user : Str) : PendingSub :=
  { type := (e.type.strncpy 15 type).set0 15
    from_ := (e.from_.strncpy 63 from_).set0 63
    to_user := (e.to_user.strncpy 31 to_user).set0 31
    active := 1 }

/-- A free slot, else the first of the same addressee, else the first. -/
def pendingSlot (s : Stores) (to_user : Str) : Fin MAX_PENDING_SUBS :=
  match firstIdx (fun i => (s.pending_subs i).active == 0) with
  | some i => i
  | none =>
    match firstIdx (fun i => (s.pending_subs i).to_user.str == to_user) with
    | some i => i
    | none => ⟨0, by decide⟩

def pending_sub_enqueue (type from_ to_user : Str) : M Unit := do
  let s ← getStores
  let known := firstIdx fun i =>
    let e := s.pending_subs i
    e.active != 0 && e.type.str == type && e.from_.str == from_ && e.to_user.str == to_user
  match known with
  | some _ => return
  | none =>
    let i := pendingSlot s to_user
    modStores fun s => { s with
      pending_subs := Function.update s.pending_subs i (pendingEntry (s.pending_subs i) type from_ to_user) }
    persist xmpp_persist_save_pending_subs

def fmtPresenceSub : Str := lit "<presence type='%s' from='%s' to='%s'/>"

def pendingDrainOne (me : Slot) (i : Fin MAX_PENDING_SUBS) : M Unit := do
  let s ← getStores
  let c ← ctxOf me
  let e := s.pending_subs i
  if e.active ≠ 0 ∧ e.to_user.str = c.username then
    send_raw me (snprintf 256 fmtPresenceSub [.s e.type.str, .s e.from_.str, .s c.full_jid])
    modStores fun s => { s with
      pending_subs := Function.update s.pending_subs i { s.pending_subs i with active := 0 } }

def pending_sub_drain (me : Slot) : M Unit := do
  forAll MAX_PENDING_SUBS (pendingDrainOne me)
  persist xmpp_persist_save_pending_subs

/-! Roster. -/

def fmtRosterPush : Str :=
  cat ["<iq type='set' to='%s'>", "<query xmlns='jabber:iq:roster'>%s</query>", "</iq>"]
def fmtRosterVer : Str :=
  cat ["<iq type='result' id='%s' to='%s'>", "<query xmlns='jabber:iq:roster' ver='%d'>%s</query>",
    "</iq>"]
def fmtRoster : Str :=
  cat ["<iq type='result' id='%s' to='%s'>", "<query xmlns='jabber:iq:roster'>%s</query>", "</iq>"]

def rosterPushOne (me : Slot) (st : Stanza) (i : Slot) : M Unit := do
  let c ← ctxOf i
  let own ← ctxOf me
  if c.live ∧ i ≠ me ∧ c.username = own.username then
    send_raw i (snprintf 1200 fmtRosterPush [.s c.full_jid, .s st.payload])

def handle_roster_request (me : Slot) (st : Stanza) : M Unit := do
  let c ← ctxOf me
  if st.type = .IQ_SET then
    modStores (roster_store_set_from_payload c.username st.payload)
    persist xmpp_persist_save_roster
    modify fun s => { s with roster_version := s.roster_version + 1 }
    replyResult 1024 me st
    forAll MAX_USERS (rosterPushOne me st)
  else
    let s ← get
    let has_ver := hasAttr st.payload "ver=" "ver "
    let roster_items := roster_store_get_items s.stores c.username 2048
    if has_ver then
      send_raw me (snprintf 2300 fmtRosterVer
        [.s st.id, .s c.full_jid, .d s.roster_version, .s roster_items])
    else send_raw me (snprintf 2300 fmtRoster [.s st.id, .s c.full_jid, .s roster_items])

/-! Initial presence. -/

def fmtInitialBody : Str := lit "<presence from='%s' to='%s' xml:lang='en'>%s</presence>"
def fmtInitial : Str := lit "<presence from='%s' to='%s' xml:lang='en'/>"
def fmtPresenceBody : Str := lit "<presence from='%s' to='%s'>%s</presence>"
def fmtPresence : Str := lit "<presence from='%s' to='%s'/>"

def announceOne (me i : Slot) : M Unit := do
  let c ← ctxOf i
  let own ← ctxOf me
  if c.live then
    if own.presence_payload ≠ [] then
      send_raw i (snprintf 1024 fmtInitialBody
        [.s own.full_jid, .s c.full_jid, .s own.presence_payload])
    else send_raw i (snprintf 1024 fmtInitial [.s own.full_jid, .s c.full_jid])

def probeOne (me i : Slot) : M Unit := do
  let c ← ctxOf i
  let own ← ctxOf me
  if c.live ∧ i ≠ me then
    if c.presence_payload ≠ [] then
      send_raw me (snprintf 1024 fmtPresenceBody
        [.s c.full_jid, .s own.full_jid, .s c.presence_payload])
    else send_raw me (snprintf 1024 fmtPresence [.s c.full_jid, .s own.full_jid])

def handle_initial_presence (me : Slot) (st : Stanza) : M Unit := do
  modCtx me fun c => { c with presence_payload := strncpy 1023 st.payload }
  forAll MAX_USERS (announceOne me)
  forAll MAX_USERS (probeOne me)
  pending_sub_drain me
  offline_msg_drain me

/-! Private storage. -/

def private_store_find (s : Stores) (username ns : Str) : Option (Fin PRIVATE_STORAGE_SLOTS) :=
  firstIdx fun i =>
    let e := s.private_store i
    e.active != 0 && bufIs e.username username && bufIs e.ns ns

def privateEntry (e : PrivateEntry) (username ns xml : Str) : PrivateEntry :=
  let xml := xml.take 899
  { username := (e.username.strncpy 31 username).set0 31
    ns := (e.ns.strncpy 127 ns).set0 127
    xml := (e.xml.write xml).set0 xml.length
    active := 1 }

/-- The changed stores, none when every slot is taken. -/
def private_store_upsert (username ns xml : Str) (s : Stores) : Option Stores :=
  match (private_store_find s username ns).or
      (firstIdx fun i => (s.private_store i).active == 0) with
  | some i =>
    let e := privateEntry (s.private_store i) username ns xml
    some { s with private_store := Function.update s.private_store i e }
  | none => none

/-- The child element's name and its namespace, read off the text after the query tag. -/
def privateChild (payload : Str) : Str × Str :=
  match strchr payload (ch '>') with
  | none => (lit "storage", [])
  | some q =>
    let after_query := q.tail
    let p := after_query.dropWhile isSpace
    let child_elem :=
      match p with
      | 60 :: p =>
        let n := p.takeWhile (fun c => c != ch ' ' && c != ch '/' && c != ch '>')
        if 0 < n.length ∧ n.length < 63 then n else lit "storage"
      | _ => lit "storage"
    let inner_ns :=
      match strstr after_query (lit "xmlns=") with
      | none => []
      | some x =>
        match quoted (x.drop 6) 4096 with
        | some ns => if 0 < ns.length ∧ ns.length < 127 then ns else []
        | none => []
    (child_elem, inner_ns)

/-- The text between the query tag and its closer. -/
def privateXml (payload : Str) : Option Str :=
  match strchr payload (ch '>'), strstr payload (lit "</query>") with
  | some q, some e => if e.length < q.tail.length then some (upto q.tail e) else none
  | _, _ => none

def fmtNotAcceptable : Str :=
  cat ["<iq type='error' id='%s' to='%s'>", "<query xmlns='jabber:iq:private'/>",
    "<error code='406' type='modify'>", "<not-acceptable",
    " xmlns='urn:ietf:params:xml:ns:xmpp-stanzas'/>", "</error>", "</iq>"]
def fmtResourceConstraint : Str :=
  cat ["<iq type='error' id='%s' to='%s'>", "<error type='wait' code='500'>",
    "<resource-constraint", " xmlns='urn:ietf:params:xml:ns:xmpp-stanzas'/>", "</error>", "</iq>"]
def fmtPrivate : Str :=
  cat ["<iq type='result' id='%s' to='%s'>", "<query xmlns='jabber:iq:private'>%s</query>", "</iq>"]
def fmtEmptyElem : Str := lit "<%s xmlns='%s'/>"

def privateSet (me : Slot) (st : Stanza) (inner_ns : Str) : M Unit := do
  let c ← ctxOf me
  let s ← getStores
  match privateXml st.payload with
  | none => replyResult 256 me st
  | some xml =>
    match private_store_upsert c.username inner_ns xml s with
    | none => send_raw me (snprintf 512 fmtResourceConstraint [.s st.id, .s c.full_jid])
    | some s' =>
      modStores fun _ => s'
      persist xmpp_persist_save_private
      replyResult 256 me st

def handle_private_storage (me : Slot) (st : Stanza) : M Unit := do
  let c ← ctxOf me
  let s ← getStores
  let (child_elem, inner_ns) := privateChild st.payload
  if inner_ns = [] then
    send_raw me (snprintf 512 fmtNotAcceptable [.s st.id, .s c.full_jid])
  else if st.type = .IQ_SET then privateSet me st inner_ns
  else
    let inner_xml :=
      match private_store_find s c.username inner_ns with
      | some i => (s.private_store i).xml.str
      | none => snprintf 192 fmtEmptyElem [.s child_elem, .s inner_ns]
    let response := snprintf 1300 fmtPrivate [.s st.id, .s c.full_jid, .s inner_xml]
    if response.length ≥ 1300 then
      send_raw me (snprintf 512 fmtResourceConstraint [.s st.id, .s c.full_jid])
    else send_raw me response

/-! Small queries. -/

def fmtBlocklist : Str :=
  cat ["<iq type='result' id='%s' to='%s'>", "<blocklist xmlns='urn:xmpp:blocking'/>", "</iq>"]
def fmtVersion : Str :=
  cat ["<iq type='result' id='%s' from='angelic.local' to='%s'>",
    "<query xmlns='jabber:iq:version'>", "<name>AngelicKernel xmpp</name>",
    "<version>1.0</version>", "<os>bare metal uefi</os>", "</query>", "</iq>"]
def fmtLast : Str :=
  cat ["<iq type='result' id='%s' from='angelic.local' to='%s'>",
    "<query xmlns='jabber:iq:last' seconds='0'/>", "</iq>"]

def handle_blocklist (me : Slot) (st : Stanza) : M Unit := do
  let c ← ctxOf me
  if st.type = .IQ_GET then send_raw me (snprintf 256 fmtBlocklist [.s st.id, .s c.full_jid])
  else replyResult 256 me st

def handle_version (me : Slot) (st : Stanza) : M Unit := do
  let c ← ctxOf me
  send_raw me (snprintf 1024 fmtVersion [.s st.id, .s c.full_jid])

def handle_last (me : Slot) (st : Stanza) : M Unit := do
  let c ← ctxOf me
  send_raw me (snprintf 256 fmtLast [.s st.id, .s c.full_jid])

def handle_ping (me : Slot) (st : Stanza) : M Unit := replyResult 256 me st

def handle_general_success (me : Slot) (st : Stanza) : M Unit := replyResult 1024 me st

end Angelic.Model
