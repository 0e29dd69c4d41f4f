import Angelic.Model.MucPresence

namespace Angelic.Model
open CString

/-! Messages. -/

def fmtBadRequest : Str :=
  cat ["<message from='%s' to='%s' type='error' id='%s'>",
    "<error type='modify' by='%s@conference.angelic.local'>", "<bad-request",
    " xmlns='urn:ietf:params:xml:ns:xmpp-stanzas'/>", "</error>", "</message>"]
def fmtNoOccupant : Str :=
  cat ["<message from='%s' to='%s' type='error' id='%s'>", "<error type='cancel'>",
    "<item-not-found", " xmlns='urn:ietf:params:xml:ns:xmpp-stanzas'/>", "</error>", "</message>"]
def fmtPmWrapped : Str :=
  cat ["<message from='%s/%s' to='%s' type='chat' id='%s'>",
    "<x xmlns='http://jabber.org/protocol/muc#user'/>", "%s", "</message>"]
def fmtPm : Str :=
  cat ["<message from='%s/%s' to='%s' type='chat' id='%s'>",
    "<x xmlns='http://jabber.org/protocol/muc#user'/>", "<body>%s</body>", "</message>"]
def fmtGroupWrapped : Str :=
  cat ["<message from='%s/%s' to='%s' type='groupchat' id='%s'>", "%s", "</message>"]
def fmtGroup : Str :=
  cat ["<message from='%s/%s' to='%s' type='groupchat' id='%s'>", "<body>%s</body>", "</message>"]
def fmtChatWrapped : Str := lit "<message from='%s' to='%s' type='chat'>%s</message>"
def fmtChat : Str :=
  cat ["<message from='%s' to='%s' type='chat'>", "<body>%s</body>", "</message>"]
def fmtNotDelivered : Str :=
  cat ["<message type='error' from='%s' to='%s'>", "<error type='cancel' code='503'>",
    "<service-unavailable", " xmlns='urn:ietf:params:xml:ns:xmpp-stanzas'/>", "</error>",
    "</message>"]

def alreadyWrapped (st : Stanza) : Bool := st.payload.head? == some (ch '<')

/-- The slash after the at sign of a room address. -/
def roomSlash (to_ : Str) : Option Str :=
  match strchr to_ (ch '@') with
  | some a => strchr a (ch '/')
  | none => none

def nickOf (r : Room) (jid : Str) : Str :=
  match r.firstUser (·.jid == jid) with
  | some j => (r.users j).nick
  | none => lit "unknown"

/-- A message to an occupant. Whether it is a group message is looked up in the bytes
that happen to be in the receive buffer. -/
def privateMessage (me : Slot) (st : Stanza) (r : Room) (to_slash : Str) : M Unit := do
  let c ← ctxOf me
  if hasAttr c.rx "type='groupchat'" "type=\"groupchat\"" then
    send_raw me (snprintf 512 fmtBadRequest [.s st.to_, .s c.full_jid, .s st.id, .s r.name])
  else
    -- here the stored bare address is compared with the full one
    let sender_nick := nickOf r c.full_jid
    let s ← get
    let recipient := match r.firstUser (·.nick == to_slash.tail) with
      | some j => find_client_by_jid s (r.users j).jid
      | none => none
    match recipient with
    | none => send_raw me (snprintf 512 fmtNoOccupant [.s st.to_, .s c.full_jid, .s st.id])
    | some k =>
      let bare_room := (upto st.to_ to_slash).take 63
      let pm_out := snprintf 2400 (if alreadyWrapped st then fmtPmWrapped else fmtPm)
        [.s bare_room, .s (sender_nick.take 31), .s (s.client_registry k).full_jid, .s st.id,
          .s st.payload]
      if pm_out.length > 0 ∧ pm_out.length < 2400 then send_raw k pm_out

/-- The subject a group message sets. -/
def newSubject (payload : Str) : Option Str :=
  match strstr payload (lit "<subject>") with
  | none => none
  | some p =>
    match strstr (p.drop 9) (lit "</subject>") with
    | some e => some ((upto (p.drop 9) e).take 255)
    | none => none

def groupCopy (st : Stanza) (sender_nick : Str) (p : Participant) : Str :=
  snprintf 2400 (if alreadyWrapped st then fmtGroupWrapped else fmtGroup)
    [.s st.to_, .s sender_nick, .s p.jid, .s st.id, .s st.payload]

def groupSendOne (r : Room) (st : Stanza) (sender_nick : Str) (j : Fin MAX_USERS_PER_ROOM) :
    M Unit := do
  if (r.users j).active then
    let s ← get
    match find_client_by_jid s (r.users j).jid with
    | some k =>
      let gc_response := groupCopy st sender_nick (r.users j)
      if gc_response.length < 2400 then send_raw k gc_response
    | none => return

def groupMessage (me : Slot) (st : Stanza) (i : Fin MAX_ROOMS) : M Unit := do
  match newSubject st.payload with
  | some subj =>
    modRoom i fun r => { r with subject := subj }
    persist xmpp_persist_save_rooms
  | none => pure ()
  let c ← ctxOf me
  let s ← getStores
  let r := s.rooms i
  forAll MAX_USERS_PER_ROOM (groupSendOne r st (nickOf r (bare c.full_jid)))

/-- One step of the delivery loop; the flag says that someone got the message. -/
def deliverOne (target response : Str) (delivered : Bool) (i : Slot) : M Bool := do
  let c ← ctxOf i
  if c.live ∧ bare c.full_jid = target then
    send_raw i response
    return true
  else return delivered

def chatText (st : Stanza) (full_jid : Str) : Str :=
  snprintf 2048 (if alreadyWrapped st then fmtChatWrapped else fmtChat)
    [.s full_jid, .s st.to_, .s st.payload]

def directMessage (me : Slot) (st : Stanza) : M Unit := do
  let c ← ctxOf me
  let bare_target := bare st.to_
  let delivered ← (List.finRange MAX_USERS).foldlM
    (deliverOne bare_target (chatText st c.full_jid)) false
  if ¬ delivered then
    let s ← getStores
    let stored ← if offline_msg_is_full s (localPart bare_target) then pure false
      else offline_msg_enqueue bare_target c.full_jid st.id st.payload
    if ¬ stored then send_raw me (snprintf 512 fmtNotDelivered [.s st.to_, .s c.full_jid])

def handle_chat_message (me : Slot) (st : Stanza) : M Unit := do
  if (strstr st.to_ CONFERENCE).isSome then
    let s ← getStores
    let room := if st.to_.contains (ch '@') then findRoom s (localPart st.to_) else none
    match room with
    | none => return
    | some i =>
      match roomSlash st.to_ with
      | some to_slash => privateMessage me st (s.rooms i) to_slash
      | none => groupMessage me st i
  else directMessage me st

/-! Subscriptions. -/

inductive Subscription where
  | none_ | to_ | from_ | both
  deriving DecidableEq, Repr

def Subscription.text : Subscription → Str
  | none_ => lit "none" | to_ => lit "to" | from_ => lit "from" | both => lit "both"

/-- The subscription an item shows, tried in this order. -/
def subscriptionOf (item_xml : Str) : Subscription :=
  if hasAttr item_xml "subscription='both'" "subscription=\"both\"" then .both
  else if hasAttr item_xml "subscription='to'" "subscription=\"to\"" then .to_
  else if hasAttr item_xml "subscription='from'" "subscription=\"from\"" then .from_
  else .none_

/-- `subscribed` adds the direction of the presence, `unsubscribed` takes it away. -/
def newSubscription (inbound : Bool) (subscribed : Bool) (cur : Subscription) : Subscription :=
  match subscribed, inbound, cur with
  | true, true, .none_ => .to_
  | true, true, .from_ => .both
  | true, false, .none_ => .from_
  | true, false, .to_ => .both
  | false, true, .both => .from_
  | false, true, .to_ => .none_
  | false, false, .both => .to_
  | false, false, .from_ => .none_
  | _, _, cur => cur

/-- An attribute's value as this function reads it: any byte may be the quote. -/
def looseAttr (item_xml : Str) (key : String) : Option Str :=
  match strstr item_xml (lit key) with
  | none => none
  | some p =>
    let p := p.drop (lit key).length
    match strchr p.tail (p.headD 0) with
    | some e => some ((upto p.tail e).take 63)
    | none => none

def subscriptionItem (item_xml contact_jid : Str) (sub : Subscription) : Str :=
  let jid := (looseAttr item_xml "jid=").getD []
  let jid_val := if jid = [] then strncpy 63 contact_jid else jid
  let name_attr := match looseAttr item_xml "name=" with
    | some n => snprintf 128 (lit " name='%s'") [.s n]
    | none => []
  snprintf 256 (lit "<item jid='%s'%s subscription='%s'/>") [.s jid_val, .s name_attr, .s sub.text]

def newRosterEntry (e : RosterEntry) (owner_user contact_jid : Str) : RosterEntry :=
  { username := (e.username.strncpy 31 owner_user).set0 31
    jid := (e.jid.strncpy 63 contact_jid).set0 63
    item_xml := e.item_xml.set0 0
    active := 1 }

def pushItemOne (owner_user new_xml : Str) (i : Slot) : M Unit := do
  let c ← ctxOf i
  if c.live ∧ c.username = owner_user then
    send_raw i (snprintf 512 fmtRosterPush [.s c.full_jid, .s new_xml])

/-- The entry to write and its text, none when nothing is to change. -/
def subscriptionChange (s : Stores) (owner_user contact_jid : Str) (inbound subscribed : Bool) :
    Option (Fin MAX_ROSTER_ENTRIES × RosterEntry × Str) :=
  let slot := rosterSlot s owner_user contact_jid
  let cur : Subscription := match slot with
    | some i => subscriptionOf (s.roster_store i).item_xml.str
    | none => .none_
  let new := newSubscription inbound subscribed cur
  let target : Option (Fin MAX_ROSTER_ENTRIES × RosterEntry) := match slot with
    | some i => if new = cur then none else some (i, s.roster_store i)
    | none =>
      if new = .none_ then none
      else (freeRosterSlot s).map fun i =>
        (i, newRosterEntry (s.roster_store i) owner_user contact_jid)
  target.map fun (i, e) =>
    let new_xml := subscriptionItem e.item_xml.str contact_jid new
    (i, { e with item_xml := (e.item_xml.strncpy 255 new_xml).set0 255 }, new_xml)

def subscription_update_roster (owner_user contact_jid : Str) (inbound subscribed : Bool) :
    M Unit := do
  let s ← getStores
  match subscriptionChange s owner_user contact_jid inbound subscribed with
  | none => return
  | some (i, e, new_xml) =>
    modStores fun s => s.setRoster i e
    persist xmpp_persist_save_roster
    forAll MAX_USERS (pushItemOne owner_user new_xml)

/-! Presence to everyone and to single users. -/

def probeAnswerOne (me : Slot) (target : Str) (i : Slot) : M Unit := do
  let c ← ctxOf i
  let own ← ctxOf me
  if c.live ∧ bare c.full_jid = target then
    if c.presence_payload ≠ [] then
      send_raw me (snprintf 512 fmtPresenceBody
        [.s c.full_jid, .s own.full_jid, .s c.presence_payload])
    else send_raw me (snprintf 512 fmtPresence [.s c.full_jid, .s own.full_jid])

/-- The word for a subscription presence, `none` for the other types. -/
def subscriptionWord : StanzaType → Option String
  | .PRESENCE_SUBSCRIBE => some "subscribe"
  | .PRESENCE_SUBSCRIBED => some "subscribed"
  | .PRESENCE_UNSUBSCRIBE => some "unsubscribe"
  | .PRESENCE_UNSUBSCRIBED => some "unsubscribed"
  | _ => none

def subDeliverOne (ptype bare_from target : Str) (delivered : Bool) (i : Slot) : M Bool := do
  let c ← ctxOf i
  if c.live ∧ bare c.full_jid = target then
    send_raw i (snprintf 512 fmtPresenceSub [.s ptype, .s bare_from, .s c.full_jid])
    return true
  else return delivered

def subscriptionPresence (me : Slot) (st : Stanza) (word : String) : M Unit := do
  let c ← ctxOf me
  let bare_from := bare c.full_jid
  let bare_target := bare st.to_
  let delivered ← (List.finRange MAX_USERS).foldlM
    (subDeliverOne (lit word) bare_from bare_target) false
  if ¬ delivered then pending_sub_enqueue (lit word) bare_from (localPart bare_target)
  if st.type = .PRESENCE_SUBSCRIBED ∨ st.type = .PRESENCE_UNSUBSCRIBED then
    let subscribed : Bool := st.type = .PRESENCE_SUBSCRIBED
    subscription_update_roster (localPart bare_from) bare_target false subscribed
    subscription_update_roster (localPart bare_target) bare_from true subscribed

def directPresenceOne (me : Slot) (target : Str) (i : Slot) : M Unit := do
  let c ← ctxOf i
  let own ← ctxOf me
  if c.live ∧ bare c.full_jid = target then
    if own.presence_payload ≠ [] then
      send_raw i (snprintf 512 fmtPresenceBody
        [.s own.full_jid, .s c.full_jid, .s own.presence_payload])
    else send_raw i (snprintf 512 fmtPresence [.s own.full_jid, .s c.full_jid])

def fmtWentOffline : Str :=
  cat ["<presence from='%s' to='%s' type='unavailable'>", "<status>Offline</status>", "</presence>"]
def fmtPresenceIdBody : Str := lit "<presence from='%s' to='%s' id='%s'>%s</presence>"
def fmtPresenceId : Str := lit "<presence from='%s' to='%s' id='%s'/>"

def broadcastOne (me : Slot) (st : Stanza) (i : Slot) : M Unit := do
  let c ← ctxOf i
  if c.live then
    if st.type = .PRESENCE_UNAVAILABLE then
      let own ← ctxOf me
      send_raw i (snprintf 1024 fmtWentOffline [.s own.full_jid, .s c.full_jid])
    else
      if st.payload ≠ [] then
        modCtx me fun c => { c with presence_payload := strncpy 1023 st.payload }
      let own ← ctxOf me
      if own.presence_payload ≠ [] then
        send_raw i (snprintf 1024 fmtPresenceIdBody
          [.s own.full_jid, .s c.full_jid, .s st.id, .s own.presence_payload])
      else send_raw i (snprintf 1024 fmtPresenceId [.s own.full_jid, .s c.full_jid, .s st.id])

def handle_broadcast_presence (me : Slot) (st : Stanza) : M Unit := do
  modCtx me fun c => if c.state = .SESSION then { c with state := .READY } else c
  if st.type = .PRESENCE_PROBE then forAll MAX_USERS (probeAnswerOne me (bare st.to_))
  else
    match subscriptionWord st.type with
    | some word => subscriptionPresence me st word
    | none =>
      if st.type ≠ .PRESENCE_UNAVAILABLE ∧ st.to_ ≠ [] ∧ ¬ (strstr st.to_ CONFERENCE).isSome then
        forAll MAX_USERS (directPresenceOne me (bare st.to_))
      else forAll MAX_USERS (broadcastOne me st)

end Angelic.Model
