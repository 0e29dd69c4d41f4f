import Angelic.Model.Session

namespace Angelic.Model
open CString

/-! Rooms: administration and configuration. -/

/-- The first active room of a name. -/
def findRoom (s : Stores) (name : Str) : Option (Fin MAX_ROOMS) :=
  firstIdx fun i => (s.rooms i).active != 0 && (s.rooms i).name == name

def Stores.modRoom (s : Stores) (i : Fin MAX_ROOMS) (f : Room → Room) : Stores :=
  { s with rooms := Function.update s.rooms i (f (s.rooms i)) }

def modRoom (i : Fin MAX_ROOMS) (f : Room → Room) : M Unit := modStores fun s => s.modRoom i f

def Room.setUser (r : Room) (j : Fin MAX_USERS_PER_ROOM) (p : Participant) : Room :=
  { r with users := Function.update r.users j p }

def Room.firstUser (r : Room) (p : Participant → Bool) : Option (Fin MAX_USERS_PER_ROOM) :=
  firstIdx fun j => (r.users j).active && p (r.users j)

/-- To the first session of a bare address, if there is one. -/
def sendTo (jid text : Str) : M Unit := do
  let s ← get
  match find_client_by_jid s jid with
  | some t => send_raw t text
  | none => return

/-- A loop over the other occupants that have a session, sending each its text. -/
def tellOccupants (r : Room) (skip : Fin MAX_USERS_PER_ROOM → Bool)
    (text : Participant → Str) : M Unit :=
  forAll MAX_USERS_PER_ROOM fun k => do
    if (r.users k).active ∧ ¬ skip k then sendTo (r.users k).jid (text (r.users k))

/-- The text between two markers, in `max` bytes with the terminator. -/
def between (payload : Str) (open_ close : String) (max : Nat) : Str :=
  match strstr payload (lit open_) with
  | none => []
  | some p =>
    let p := p.drop (lit open_).length
    match strstr p (lit close) with
    | some e => (upto p e).take (max - 1)
    | none => []

def targetNick (payload : Str) : Str :=
  match (strstr payload (lit "nick='")).or (strstr payload (lit "nick=\"")) with
  | none => []
  | some p =>
    match strchr (p.drop 6) (p.getD 5 0) with
    | some e => (upto (p.drop 6) e).take 31
    | none => []

def KICK_HEAD : List String :=
  ["<presence type='unavailable' from='%s/%s' to='%s'>",
    "<x xmlns='http://jabber.org/protocol/muc#user'>"]
def fmtKickReason : Str :=
  cat (KICK_HEAD ++ ["<item affiliation='%s' role='none'>", "<reason>%s</reason>", "</item>",
    "<status code='%d'/>", "</x>", "</presence>"])
def fmtKick : Str :=
  cat (KICK_HEAD ++ ["<item affiliation='%s' role='none'/>", "<status code='%d'/>", "</x>",
    "</presence>"])
def fmtKickedReason : Str :=
  cat (KICK_HEAD ++ ["<item affiliation='%s' role='none'>", "<reason>%s</reason>", "</item>",
    "<status code='110'/>", "<status code='%d'/>", "</x>", "</presence>"])
def fmtKicked : Str :=
  cat (KICK_HEAD ++ ["<item affiliation='%s' role='none'/>", "<status code='110'/>",
    "<status code='%d'/>", "</x>", "</presence>"])

/-- A notice about a kicked or banned occupant, with the reason when there is one. -/
def kickText (size : Nat) (fmtR fmt room nick jid reason : Str) (want_ban : Bool) : Str :=
  let aff := lit (if want_ban then "outcast" else "none")
  let code : Int := if want_ban then 301 else 307
  if reason ≠ [] then
    snprintf size fmtR [.s room, .s nick, .s jid, .s aff, .s reason, .d code]
  else snprintf size fmt [.s room, .s nick, .s jid, .s aff, .d code]

def Room.ban (r : Room) (jid : Str) : Room :=
  if h : 0 ≤ r.banned_count.toInt ∧ r.banned_count.toInt < MAX_BANNED_PER_ROOM then
    { r with
      banned_jids := Function.update r.banned_jids
        ⟨r.banned_count.toInt.toNat, by omega⟩ (strncpy 63 jid)
      banned_count := r.banned_count + 1 }
  else r

/-- The removal of occupant `j`: everyone else is told, then the occupant. -/
def kickOne (i : Fin MAX_ROOMS) (j : Fin MAX_USERS_PER_ROOM) (room reason : Str)
    (want_ban : Bool) : M Unit := do
  let s ← getStores
  let r := s.rooms i
  let kicked := r.users j
  tellOccupants r (· == j) fun p =>
    kickText 512 fmtKickReason fmtKick room kicked.nick p.jid reason want_ban
  sendTo kicked.jid
    (kickText 640 fmtKickedReason fmtKicked room kicked.nick kicked.jid reason want_ban)
  if want_ban ∧ r.banned_count.toInt < MAX_BANNED_PER_ROOM then
    modRoom i fun r => r.ban (bare kicked.jid)
    persist xmpp_persist_save_rooms
  modRoom i fun r => r.setUser j .zero

def fmtOwner : Str :=
  cat ["<iq type='result' id='%s' to='%s'>", "<query xmlns='http://jabber.org/protocol/muc#admin'>",
    "<item affiliation='owner' jid='%s' role='moderator'/>", "</query>", "</iq>"]
def fmtAdminEmpty : Str :=
  cat ["<iq type='result' id='%s' to='%s'>", "<query xmlns='http://jabber.org/protocol/muc#admin'/>",
    "</iq>"]

/-- The owner shown: the creator, else the first occupant, else the asker. -/
def ownerJid (s : Stores) (to_ full_jid : Str) : Str :=
  let found :=
    if to_.contains (ch '@') then
      match findRoom s (localPart to_) with
      | some i =>
        let r := s.rooms i
        if r.creator_jid ≠ [] then strncpy 63 r.creator_jid
        else
          match r.firstUser (fun _ => true) with
          | some j => bare (r.users j).jid
          | none => []
      | none => []
    else []
  if found = [] then strncpy 63 full_jid else found

/-- The occupant an administrator's request names; without a nick the first one goes. -/
def kickTarget (s : Stores) (st : Stanza) : Option (Fin MAX_ROOMS × Fin MAX_USERS_PER_ROOM) :=
  let target_nick := targetNick st.payload
  match findRoom s (roomName st.to_) with
  | some i =>
    ((s.rooms i).firstUser fun p => target_nick == [] || p.nick == target_nick).map fun j => (i, j)
  | none => none

def mucKick (st : Stanza) (want_ban : Bool) : M Unit := do
  let s ← getStores
  match kickTarget s st with
  | some (i, j) =>
    kickOne i j (strncpy 63 st.to_) (between st.payload "<reason>" "</reason>" 128) want_ban
  | none => return

def handle_muc_admin (me : Slot) (st : Stanza) : M Unit := do
  let c ← ctxOf me
  let s ← getStores
  if st.type = .IQ_SET then
    let want_kick := hasAttr st.payload "role='none'" "role=\"none\""
    let want_ban := hasAttr st.payload "affiliation='outcast'" "affiliation=\"outcast\""
    if want_kick ∨ want_ban then mucKick st want_ban
    replyResult 1024 me st
  else if hasAttr st.payload "affiliation='owner'" "affiliation=\"owner\"" then
    send_raw me (snprintf 1024 fmtOwner
      [.s st.id, .s c.full_jid, .s (ownerJid s st.to_ c.full_jid)])
  else send_raw me (snprintf 1024 fmtAdminEmpty [.s st.id, .s c.full_jid])

def DESTROY_HEAD : List String :=
  ["<presence type='unavailable' from='%s/%s' to='%s'>",
    "<x xmlns='http://jabber.org/protocol/muc#user'>", "<item affiliation='none' role='none'/>"]
def fmtDestroyReason : Str :=
  cat (DESTROY_HEAD ++ ["<destroy jid='%s'>", "<reason>%s</reason>", "</destroy>", "</x>",
    "</presence>"])
def fmtDestroyJid : Str := cat (DESTROY_HEAD ++ ["<destroy jid='%s'/>", "</x>", "</presence>"])
def fmtDestroy : Str := cat (DESTROY_HEAD ++ ["<destroy/>", "</x>", "</presence>"])

/-- The alternative room. Whatever byte follows `jid=` is taken as the quote. -/
def altJid (payload : Str) : Str :=
  match strstr payload (lit "<destroy") with
  | none => []
  | some d =>
    match strstr d (lit "jid=") with
    | none => []
    | some a =>
      match strchr (a.drop 5) (a.getD 4 0) with
      | some e => (upto (a.drop 5) e).take 63
      | none => []

def destroyText (alt reason room : Str) (p : Participant) : Str :=
  if alt ≠ [] ∧ reason ≠ [] then
    snprintf 640 fmtDestroyReason [.s room, .s p.nick, .s p.jid, .s alt, .s reason]
  else if alt ≠ [] then snprintf 640 fmtDestroyJid [.s room, .s p.nick, .s p.jid, .s alt]
  else snprintf 640 fmtDestroy [.s room, .s p.nick, .s p.jid]

/-- `PARSE_BOOL_FIELD`: the new value of a flag, if the form names it. -/
def boolField (payload : Str) (var_str : String) (old : Int32) : Int32 :=
  match strstr payload (lit var_str) with
  | none => old
  | some vp =>
    match strstr vp (lit "<value>") with
    | none => old
    | some v =>
      let v := v.drop 7
      if v.head? = some (ch '1') ∨ v.take 4 = lit "true" then 1 else 0

def whoisField (payload : Str) (old : Int32) : Int32 :=
  match strstr payload (lit "muc#roomconfig_whois") with
  | none => old
  | some wp =>
    match strstr wp (lit "<value>") with
    | none => old
    | some v => if (v.drop 7).take 10 = lit "moderators" then 1 else 0

def Room.configure (r : Room) (payload : Str) : Room :=
  { r with
    locked := 0
    persistent := boolField payload "muc#roomconfig_persistentroom" r.persistent
    moderated := boolField payload "muc#roomconfig_moderatedroom" r.moderated
    members_only := boolField payload "muc#roomconfig_membersonly" r.members_only
    semi_anon := whoisField payload r.semi_anon }

def fmtConfigured : Str := lit "<iq type='result' id='%s' to='%s' from='%s'/>"
def fmtRoomForm : Str :=
  cat ["<iq type='result' id='%s' to='%s' from='%s'>",
    "<query xmlns='http://jabber.org/protocol/muc#owner'>", "<x xmlns='jabber:x:data' type='form'>",
    "<field type='hidden' var='FORM_TYPE'>",
    "<value>http://jabber.org/protocol/muc#roomconfig</value>", "</field>",
    "<field type='text-single'", " var='muc#roomconfig_roomname'", " label='room name'>",
    "<value>%s</value>", "</field>",
    "<field type='text-single'", " var='muc#roomconfig_roomdesc'",
    " label='short description of room'>", "<value></value>", "</field>",
    "<field type='boolean'", " var='muc#roomconfig_persistentroom'",
    " label='make room persistent'>", "<value>%d</value>", "</field>",
    "<field type='boolean'", " var='muc#roomconfig_publicroom'",
    " label='make room publicly listed'>", "<value>%d</value>", "</field>",
    "<field type='boolean'", " var='muc#roomconfig_moderatedroom'",
    " label='enable moderation'>", "<value>%d</value>", "</field>",
    "<field type='boolean'", " var='muc#roomconfig_membersonly'",
    " label='make room members-only'>", "<value>%d</value>", "</field>",
    "<field type='boolean'", " var='muc#roomconfig_allowinvites'",
    " label='allow occupants to invite others'>", "<value>%d</value>", "</field>",
    "<field type='list-single'", " var='muc#roomconfig_whois'",
    " label='who can see occupant real jids'>", "<value>%s</value>",
    "<option label='moderators only'>", "<value>moderators</value>", "</option>",
    "<option label='anyone'>", "<value>anyone</value>", "</option>", "</field>",
    "</x>", "</query>", "</iq>"]

def mucDestroy (st : Stanza) : M Unit := do
  let s ← getStores
  let reason := between st.payload "<reason>" "</reason>" 128
  match findRoom s (roomName st.to_) with
  | some i =>
    tellOccupants (s.rooms i) (fun _ => false)
      (destroyText (altJid st.payload) reason (strncpy 63 st.to_))
    modRoom i fun _ => .zero
    persist xmpp_persist_save_rooms
  | none => return

def mucConfigure (st : Stanza) : M Unit := do
  let s ← getStores
  match findRoom s (roomName st.to_) with
  | some i =>
    modRoom i fun r => r.configure st.payload
    persist xmpp_persist_save_rooms
  | none => return

def handle_muc_owner (me : Slot) (st : Stanza) : M Unit := do
  let c ← ctxOf me
  let s ← getStores
  if st.type = .IQ_SET ∧ (strstr st.payload (lit "<destroy")).isSome then
    mucDestroy st
    replyResult 256 me st
  else if st.type = .IQ_SET ∨ hasAttr st.payload "type='submit'" "type=\"submit\"" then
    mucConfigure st
    send_raw me (snprintf 1024 fmtConfigured [.s st.id, .s c.full_jid, .s st.to_])
  else
    let name := roomName st.to_
    let r := match findRoom s name with
      | some i => s.rooms i
      | none => { Room.zero with semi_anon := 1 }
    send_raw me (snprintf 2048 fmtRoomForm
      [.s st.id, .s c.full_jid, .s st.to_, .s (if name ≠ [] then name else lit "unnamed room"),
        .d r.persistent.toInt, .d 1, .d r.moderated.toInt, .d r.members_only.toInt, .d 1,
        .s (lit (if r.semi_anon ≠ 0 then "moderators" else "anyone"))])

/-! Service discovery. -/

def CONFERENCE : Str := lit "conference.angelic.local"

def fmtItemNotFound : Str :=
  cat ["<iq type='error' from='%s' to='%s' id='%s'>", "<error type='cancel'>",
    "<item-not-found xmlns='urn:ietf:params:xml:ns:xmpp-stanzas'/>", "</error>", "</iq>"]
def fmtRoomInfo : Str :=
  cat ["<iq type='result' from='%s' to='%s' id='%s'>",
    "<query xmlns='http://jabber.org/protocol/disco#info'>",
    "<identity category='conference' type='text' name='%s'/>",
    "<feature var='http://jabber.org/protocol/muc'/>", "%s%s%s%s", "</query>", "</iq>"]
def fmtServiceInfo : Str :=
  cat ["<iq type='result' from='%s' to='%s' id='%s'>",
    "<query xmlns='http://jabber.org/protocol/disco#info'>",
    "<identity category='conference' type='text' name='chat service'/>",
    "<feature var='http://jabber.org/protocol/muc'/>", "</query>", "</iq>"]
def fmtCapsForward : Str :=
  cat ["<iq type='get' from='%s' to='%s' id='%s'>",
    "<query xmlns='http://jabber.org/protocol/disco#info'", " %s/>", "</iq>"]
def fmtUnavailableFwd : Str :=
  cat ["<iq type='error' from='%s' to='%s' id='%s'>", "<error type='cancel' code='503'>",
    "<service-unavailable", " xmlns='urn:ietf:params:xml:ns:xmpp-stanzas'/>", "</error>", "</iq>"]
def fmtAccountInfo : Str :=
  cat ["<iq type='result' from='%s' to='%s' id='%s'>",
    "<query xmlns='http://jabber.org/protocol/disco#info'>",
    "<identity category='account' type='registered'/>", "</query>", "</iq>"]
def fmtServerInfo : Str :=
  cat ["<iq type='result' from='%s' to='%s' id='%s'>",
    "<query xmlns='http://jabber.org/protocol/disco#info'>",
    "<identity category='server' type='im' name='unikernel xmpp'/>",
    "<feature var='http://jabber.org/protocol/muc'/>", "<feature var='jabber:iq:register'/>",
    "<feature var='msgoffline'/>", "</query>", "</iq>"]

def feature (flag : Int32) (on off : String) : Arg :=
  .s (lit (if flag ≠ 0 then on else off))

/-- Here a room part of 32 bytes and more gives the empty name. -/
def discoRoomName (to_ : Str) : Str :=
  let n := to_.takeWhile (· != ch '@')
  if n.length < 32 then n else []

def capsForward (me : Slot) (st : Stanza) : M Unit := do
  let c ← ctxOf me
  let s ← get
  match firstIdx (fun i => (s.client_registry i).live &&
      bare st.to_ == bare (s.client_registry i).full_jid) with
  | some i =>
    send_raw i (snprintf 1024 fmtCapsForward
      [.s c.full_jid, .s (s.client_registry i).full_jid, .s st.id,
        .s (if st.payload.head? = some (ch '<') then [] else st.payload)])
  | none => send_raw me (snprintf 1024 fmtUnavailableFwd [.s st.to_, .s c.full_jid, .s st.id])

def handle_disco_info (me : Slot) (st : Stanza) : M Unit := do
  let c ← ctxOf me
  let s ← getStores
  let at_ := st.to_.contains (ch '@')
  let echo := [Arg.s st.to_, .s c.full_jid, .s st.id]
  if at_ ∧ (strstr st.to_ CONFERENCE).isSome then
    let room_name := discoRoomName st.to_
    match findRoom s room_name with
    | some i =>
      let r := s.rooms i
      send_raw me (snprintf 1280 fmtRoomInfo (echo ++
        [.s room_name,
          feature r.semi_anon "<feature var='muc_semianonymous'/>" "<feature var='muc_nonanonymous'/>",
          feature r.persistent "<feature var='muc_persistent'/>" "<feature var='muc_temporary'/>",
          feature r.moderated "<feature var='muc_moderated'/>" "<feature var='muc_unmoderated'/>",
          feature r.members_only "<feature var='muc_membersonly'/>" "<feature var='muc_open'/>"]))
    | none => send_raw me (snprintf 1024 fmtItemNotFound echo)
  else if st.to_ = CONFERENCE then send_raw me (snprintf 1024 fmtServiceInfo echo)
  else if at_ ∧ ¬ (strstr st.to_ (lit "conference")).isSome then
    if (strstr st.payload (lit "node=")).isSome then capsForward me st
    else send_raw me (snprintf 1024 fmtAccountInfo echo)
  else send_raw me (snprintf 1024 fmtServerInfo echo)

def fmtItems : Str :=
  cat ["<iq type='result' from='%s' to='%s' id='%s'>",
    "<query xmlns='http://jabber.org/protocol/disco#items'>", "%s", "</query>", "</iq>"]
def fmtOccupantItem : Str := lit "<item jid='%s/%s' name='%s'/>"
def fmtRoomItem : Str := lit "<item jid='%s@conference.angelic.local' name='%s'/>"
def fmtServiceItem : Str :=
  cat ["<iq type='result' from='%s' to='%s' id='%s'>",
    "<query xmlns='http://jabber.org/protocol/disco#items'>",
    "<item jid='conference.angelic.local' name='chatroom service'/>", "</query>", "</iq>"]

/-- Items that still fit into 1536 bytes, one after the other. -/
def joinItems (items : List Str) : Str :=
  items.foldl (fun acc it => if acc.length + it.length < 1535 then acc ++ it else acc) []

def handle_disco_items (me : Slot) (st : Stanza) : M Unit := do
  let c ← ctxOf me
  let s ← getStores
  let echo := [Arg.s st.to_, .s c.full_jid, .s st.id]
  if (strstr st.to_ CONFERENCE).isSome then
    if st.to_.contains (ch '@') ∧ st.to_.head? ≠ some (ch '@') then
      match findRoom s (localPart st.to_) with
      | none => send_raw me (snprintf 2048 fmtItemNotFound echo)
      | some i =>
        let users := ((List.finRange MAX_USERS_PER_ROOM).map (s.rooms i).users).filter (·.active)
        let occ_items := joinItems (users.map fun p =>
          snprintf 256 fmtOccupantItem [.s st.to_, .s p.nick, .s p.nick])
        send_raw me (snprintf 2048 fmtItems (echo ++ [.s occ_items]))
    else
      let rooms := ((List.finRange MAX_ROOMS).map s.rooms).filter (·.active != 0)
      let items := joinItems (rooms.map fun r => snprintf 256 fmtRoomItem [.s r.name, .s r.name])
      send_raw me (snprintf 2048 fmtItems (echo ++ [.s items]))
  else
    send_raw me (snprintf 2048 fmtServiceItem
      [.s (if st.to_ ≠ [] then st.to_ else XMPP_DOMAIN), .s c.full_jid, .s st.id])

end Angelic.Model
