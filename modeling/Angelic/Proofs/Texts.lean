import Angelic.Proofs.RoomTable

namespace Angelic.Proofs
open CString Model

/-! What a stanza makes the server send, as a list: the contexts it is sent to and the texts, each with
its format and the size of the array it is formatted into. -/

structure Text where
  size : Nat
  fmt : Str
  args : List Arg
  deriving DecidableEq, Repr

/-- What is sent. -/
def Text.str (t : Text) : Str := snprintf t.size t.fmt t.args

/-- What would be sent from an array that is large enough. -/
def Text.full (t : Text) : Str := weave (pieces t.fmt) t.args

theorem Text.str_eq (t : Text) : t.str = t.full.take (t.size - 1) := vsnprintf_eq _ _ _

abbrev Sent := Slot × Text

/-- What a loop over an array sends. -/
def each (n : Nat) (f : Fin n → List Sent) : List Sent := (List.finRange n).flatMap f

namespace Texts

section Contexts
variable (s : Server) (me : Slot)

abbrev reg (i : Slot) : Ctx := s.client_registry i

/-- To one session of a bare address. -/
def toJid (jid : Str) (t : Text) : List Sent := (find_client_by_jid s jid).toList.map fun i => (i, t)

/-- To the occupants of a room that have a session. -/
def occupants (r : Room) (skip : Fin MAX_USERS_PER_ROOM → Bool) (text : Participant → Text) : List Sent :=
  each MAX_USERS_PER_ROOM fun k =>
    if (r.users k).active ∧ ¬ skip k then toJid s (r.users k).jid (text (r.users k)) else []

end Contexts

variable (s : Server) (me : Slot) (st : Stanza)

def result (size : Nat) : List Sent := [(me, ⟨size, fmtResult, [.s st.id, .s (reg s me).full_jid]⟩)]

/-! The negotiation. -/

def features : List Sent :=
  let c := reg s me
  let args := [Arg.s XMPP_DOMAIN, .s (toAttr c.client_from), .u (s.random s.draws).toNat]
  if c.authenticated then [(me, ⟨512, fmtFeaturesBind, args⟩)]
  else if c.tls_established then [(me, ⟨512, fmtFeaturesSasl, args⟩)]
  else [(me, ⟨512, fmtFeaturesTls, args⟩)]

def bind : List Sent :=
  let c := reg s me
  if c.state ≠ .BIND then
    if st.id ≠ [] then [(me, ⟨512, fmtUnexpectedId, [.s (fromJid st), .s (Model.toJid c), .s st.id]⟩)]
    else [(me, ⟨512, fmtUnexpected, [.s (fromJid st), .s (Model.toJid c)]⟩)]
  else [(me, ⟨1024, fmtBound, [.s st.id, .s (fullJid c.username ((s.random s.draws).toNat % 9999))]⟩)]

def session : List Sent := [(me, ⟨256, fmtSession, [.s st.id]⟩)]

/-! Rosters, private data and small queries. -/

def rosterPush (i : Slot) : List Sent :=
  if (reg s i).live ∧ i ≠ me ∧ (reg s i).username = (reg s me).username then
    [(i, ⟨1200, fmtRosterPush, [.s (reg s i).full_jid, .s st.payload]⟩)]
  else []

def roster : List Sent :=
  let c := reg s me
  let items := roster_store_get_items s.stores c.username 2048
  if st.type = .IQ_SET then result s me st 1024 ++ each MAX_USERS (rosterPush s me st)
  else if hasAttr st.payload "ver=" "ver " then
    [(me, ⟨2300, fmtRosterVer, [.s st.id, .s c.full_jid, .d s.roster_version, .s items]⟩)]
  else [(me, ⟨2300, fmtRoster, [.s st.id, .s c.full_jid, .s items]⟩)]

def resourceConstraint : List Sent :=
  [(me, ⟨512, fmtResourceConstraint, [.s st.id, .s (reg s me).full_jid]⟩)]

def privateSet (ns : Str) : List Sent :=
  match privateXml st.payload with
  | none => result s me st 256
  | some xml =>
    match private_store_upsert (reg s me).username ns xml s.stores with
    | none => resourceConstraint s me st
    | some _ => result s me st 256

def privateGet (child ns : Str) : List Sent :=
  let c := reg s me
  let inner := match private_store_find s.stores c.username ns with
    | some i => (s.stores.private_store i).xml.str
    | none => snprintf 192 fmtEmptyElem [.s child, .s ns]
  [(me, ⟨1300, fmtPrivate, [.s st.id, .s c.full_jid, .s inner]⟩)]

def private_ : List Sent :=
  let child := (privateChild st.payload).1
  let ns := (privateChild st.payload).2
  if ns = [] then [(me, ⟨512, fmtNotAcceptable, [.s st.id, .s (reg s me).full_jid]⟩)]
  else if st.type = .IQ_SET then privateSet s me st ns
  else privateGet s me st child ns

def blocklist : List Sent :=
  if st.type = .IQ_GET then [(me, ⟨256, fmtBlocklist, [.s st.id, .s (reg s me).full_jid]⟩)]
  else result s me st 256

def version : List Sent := [(me, ⟨1024, fmtVersion, [.s st.id, .s (reg s me).full_jid]⟩)]

def last : List Sent := [(me, ⟨256, fmtLast, [.s st.id, .s (reg s me).full_jid]⟩)]

/-! Administration of rooms. -/

def kick (size : Nat) (fmtR fmt room nick jid reason : Str) (want_ban : Bool) : Text :=
  let aff := lit (if want_ban then "outcast" else "none")
  let code : Int := if want_ban then 301 else 307
  if reason ≠ [] then ⟨size, fmtR, [.s room, .s nick, .s jid, .s aff, .s reason, .d code]⟩
  else ⟨size, fmt, [.s room, .s nick, .s jid, .s aff, .d code]⟩

def kickOne (r : Room) (j : Fin MAX_USERS_PER_ROOM) (room reason : Str) (want_ban : Bool) : List Sent :=
  let kicked := r.users j
  occupants s r (· == j) (fun p => kick 512 fmtKickReason fmtKick room kicked.nick p.jid reason want_ban) ++
    toJid s kicked.jid (kick 640 fmtKickedReason fmtKicked room kicked.nick kicked.jid reason want_ban)

def mucKick (want_ban : Bool) : List Sent :=
  match kickTarget s.stores st with
  | some (i, j) =>
    kickOne s (s.stores.rooms i) j (strncpy 63 st.to_) (between st.payload "<reason>" "</reason>" 128) want_ban
  | none => []

def admin : List Sent :=
  let c := reg s me
  if st.type = .IQ_SET then
    (if RoomTable.wantKick st ∨ RoomTable.wantBan st then mucKick s st (RoomTable.wantBan st) else []) ++
      result s me st 1024
  else if hasAttr st.payload "affiliation='owner'" "affiliation=\"owner\"" then
    [(me, ⟨1024, fmtOwner, [.s st.id, .s c.full_jid, .s (ownerJid s.stores st.to_ c.full_jid)]⟩)]
  else [(me, ⟨1024, fmtAdminEmpty, [.s st.id, .s c.full_jid]⟩)]

def destroy (alt reason room : Str) (p : Participant) : Text :=
  if alt ≠ [] ∧ reason ≠ [] then ⟨640, fmtDestroyReason, [.s room, .s p.nick, .s p.jid, .s alt, .s reason]⟩
  else if alt ≠ [] then ⟨640, fmtDestroyJid, [.s room, .s p.nick, .s p.jid, .s alt]⟩
  else ⟨640, fmtDestroy, [.s room, .s p.nick, .s p.jid]⟩

def mucDestroy : List Sent :=
  match findRoom s.stores (roomName st.to_) with
  | some i =>
    occupants s (s.stores.rooms i) nobody
      (destroy (altJid st.payload) (between st.payload "<reason>" "</reason>" 128) (strncpy 63 st.to_))
  | none => []

/-- The room a form is about, with the defaults when there is none. -/
def formRoom (t : Stores) (name : Str) : Room :=
  match findRoom t name with
  | some i => t.rooms i
  | none => { Room.zero with semi_anon := 1 }

def form (full_jid : Str) (name : Str) (r : Room) : Text :=
  ⟨2048, fmtRoomForm,
    [.s st.id, .s full_jid, .s st.to_, .s (if name ≠ [] then name else lit "unnamed room"),
      .d r.persistent.toInt, .d 1, .d r.moderated.toInt, .d r.members_only.toInt, .d 1,
      .s (lit (if r.semi_anon ≠ 0 then "moderators" else "anyone"))]⟩

def owner : List Sent :=
  let c := reg s me
  if RoomTable.wantDestroy st then mucDestroy s st ++ result s me st 256
  else if RoomTable.wantConfigure st then [(me, ⟨1024, fmtConfigured, [.s st.id, .s c.full_jid, .s st.to_]⟩)]
  else [(me, form st c.full_jid (roomName st.to_) (formRoom s.stores (roomName st.to_)))]

/-! Service discovery. -/

/-- The session a query about capabilities is passed on to. -/
def capsTarget : Option Slot :=
  firstIdx fun i => (reg s i).live && bare st.to_ == bare (reg s i).full_jid

def capsForward : List Sent :=
  let c := reg s me
  match capsTarget s st with
  | some i =>
    [(i, ⟨1024, fmtCapsForward, [.s c.full_jid, .s (reg s i).full_jid, .s st.id,
      .s (if st.payload.head? = some (ch '<') then [] else st.payload)]⟩)]
  | none => [(me, ⟨1024, fmtUnavailableFwd, [.s st.to_, .s c.full_jid, .s st.id]⟩)]

def echo : List Arg := [.s st.to_, .s (reg s me).full_jid, .s st.id]

def roomInfo (r : Room) (name : Str) : Text :=
  ⟨1280, fmtRoomInfo, echo s me st ++
    [.s name,
      feature r.semi_anon "<feature var='muc_semianonymous'/>" "<feature var='muc_nonanonymous'/>",
      feature r.persistent "<feature var='muc_persistent'/>" "<feature var='muc_temporary'/>",
      feature r.moderated "<feature var='muc_moderated'/>" "<feature var='muc_unmoderated'/>",
      feature r.members_only "<feature var='muc_membersonly'/>" "<feature var='muc_open'/>"]⟩

def discoInfo : List Sent :=
  let at_ := st.to_.contains (ch '@')
  if at_ ∧ (strstr st.to_ CONFERENCE).isSome then
    match findRoom s.stores (discoRoomName st.to_) with
    | some i => [(me, roomInfo s me st (s.stores.rooms i) (discoRoomName st.to_))]
    | none => [(me, ⟨1024, fmtItemNotFound, echo s me st⟩)]
  else if st.to_ = CONFERENCE then [(me, ⟨1024, fmtServiceInfo, echo s me st⟩)]
  else if at_ ∧ ¬ (strstr st.to_ (lit "conference")).isSome then
    if (strstr st.payload (lit "node=")).isSome then capsForward s me st
    else [(me, ⟨1024, fmtAccountInfo, echo s me st⟩)]
  else [(me, ⟨1024, fmtServerInfo, echo s me st⟩)]

def occupantItems (r : Room) (to_ : Str) : Str :=
  let users := ((List.finRange MAX_USERS_PER_ROOM).map r.users).filter (·.active)
  joinItems (users.map fun p => snprintf 256 fmtOccupantItem [.s to_, .s p.nick, .s p.nick])

def roomItems (t : Stores) : Str :=
  let rooms := ((List.finRange MAX_ROOMS).map t.rooms).filter (·.active != 0)
  joinItems (rooms.map fun r => snprintf 256 fmtRoomItem [.s r.name, .s r.name])

def discoItems : List Sent :=
  if (strstr st.to_ CONFERENCE).isSome then
    if st.to_.contains (ch '@') ∧ st.to_.head? ≠ some (ch '@') then
      match findRoom s.stores (localPart st.to_) with
      | none => [(me, ⟨2048, fmtItemNotFound, echo s me st⟩)]
      | some i => [(me, ⟨2048, fmtItems, echo s me st ++ [.s (occupantItems (s.stores.rooms i) st.to_)]⟩)]
    else [(me, ⟨2048, fmtItems, echo s me st ++ [.s (roomItems s.stores)]⟩)]
  else
    [(me, ⟨2048, fmtServiceItem,
      [.s (if st.to_ ≠ [] then st.to_ else XMPP_DOMAIN), .s (reg s me).full_jid, .s st.id]⟩)]

/-! Presence in rooms: `r` is the room once it has been entered. -/

section Room
variable (r : Room) (t : MucTarget)

def leave : List Sent :=
  match r.firstUser (·.nick == t.nick) with
  | none => []
  | some j =>
    occupants s r (· == j) (fun p => ⟨1024, fmtLeft, [.s t.bare_jid, .s t.nick, .s p.jid]⟩) ++
      [(me, ⟨1024, fmtLeftSelf, [.s t.bare_jid, .s t.nick, .s (reg s me).full_jid]⟩)]

def avail (full_jid inner : Str) (owner : Bool) (p : Participant) : Text :=
  let aff := lit (if owner then "owner" else "member")
  let role := lit (if owner then "moderator" else "participant")
  ⟨2400, if p.jid = full_jid then fmtAvailSelf else fmtAvail,
    [.s t.bare_jid, .s t.nick, .s p.jid, .s inner, .s aff, .s role]⟩

def nickGone (full_jid old : Str) (p : Participant) : Text :=
  ⟨512, if p.jid = full_jid then fmtNickGoneSelf else fmtNickGone,
    [.s t.bare_jid, .s old, .s p.jid, .s t.nick]⟩

def nickTaken (full_jid : Str) (p : Participant) : Text :=
  ⟨512, if p.jid = full_jid then fmtMemberSelf else fmtMember, [.s t.bare_jid, .s t.nick, .s p.jid]⟩

/-- Occupant `k` sends a presence. -/
def occupant (k : Fin MAX_USERS_PER_ROOM) : List Sent :=
  let c := reg s me
  if (r.users k).nick = t.nick then
    occupants s r nobody (avail t c.full_jid st.payload ((r.users k).jid == r.creator_jid))
  else if RoomTable.taken r k t.nick then
    [(me, ⟨512, fmtNickConflict, [.s t.bare_jid, .s t.nick, .s c.full_jid, .s t.bare_jid]⟩)]
  else
    occupants s r nobody (nickGone t c.full_jid (r.users k).nick) ++
      occupants s (r.setUser k { r.users k with nick := strncpy 31 t.nick }) nobody (nickTaken t c.full_jid)

def shown (j : Fin MAX_USERS_PER_ROOM) : List Sent :=
  let c := reg s me
  let p := r.users j
  if p.active ∧ p.jid ≠ bare c.full_jid then
    if r.semi_anon = 0 ∨ bare c.full_jid = r.creator_jid then
      [(me, ⟨1024, fmtMemberJid, [.s t.bare_jid, .s p.nick, .s c.full_jid, .s p.jid]⟩)]
    else [(me, ⟨1024, fmtMember, [.s t.bare_jid, .s p.nick, .s c.full_jid]⟩)]
  else []

def joined (full_jid : Str) (p : Participant) : Text :=
  if r.semi_anon = 0 ∨ p.jid = r.creator_jid then
    ⟨1024, fmtMemberJid, [.s t.bare_jid, .s t.nick, .s p.jid, .s full_jid]⟩
  else ⟨1024, fmtMember, [.s t.bare_jid, .s t.nick, .s p.jid]⟩

/-- The last part of joining, `r` being the room with the new occupant. -/
def welcome (is_new : Bool) : List Sent :=
  let c := reg s me
  each MAX_USERS_PER_ROOM (shown s me r t) ++
    occupants s r (fun j => (r.users j).jid == bare c.full_jid) (joined r t c.full_jid) ++
    [(me, ⟨1024, if is_new then fmtNewRoom else fmtMemberSelf, [.s t.bare_jid, .s t.nick, .s c.full_jid]⟩),
      (me, ⟨1024, fmtSubject, [.s t.bare_jid, .s c.full_jid,
        .s (if r.subject ≠ [] then r.subject else lit "unikernel lobby")]⟩)]

def join (is_new : Bool) : List Sent :=
  let c := reg s me
  if r.banned (bare c.full_jid) then
    [(me, ⟨512, fmtForbidden, [.s t.bare_jid, .s t.nick, .s c.full_jid]⟩)]
  else if (r.firstUser (·.nick == t.nick)).isSome then
    [(me, ⟨512, fmtJoinConflict, [.s t.bare_jid, .s t.nick, .s c.full_jid]⟩)]
  else welcome s me (r.join c t.nick) t is_new

def attend (is_new : Bool) : List Sent :=
  let c := reg s me
  if RoomTable.shut r c then [(me, ⟨512, fmtLockedErr, [.s t.bare_jid, .s t.nick, .s c.full_jid]⟩)]
  else if st.type = .PRESENCE_UNAVAILABLE then leave s me r t
  else
    match r.firstUser (·.jid == bare c.full_jid) with
    | some k => occupant s me st r t k
    | none => join s me r t is_new

end Room

def mucPresence : List Sent :=
  match mucTarget st.to_ with
  | none => []
  | some t =>
    match RoomTable.enter s.stores.rooms (reg s me) t.room_name with
    | none => []
    | some (i, T) => attend s me st (T i) t (RoomTable.find s.stores.rooms t.room_name).isNone

/-! Messages. -/

/-- The session of the occupant a private message names. -/
def recipient (r : Room) (nick : Str) : Option Slot :=
  match r.firstUser (·.nick == nick) with
  | some j => find_client_by_jid s (r.users j).jid
  | none => none

def pm (r : Room) (to_slash : Str) (k : Slot) : Text :=
  ⟨2400, if alreadyWrapped st then fmtPmWrapped else fmtPm,
    [.s ((upto st.to_ to_slash).take 63), .s ((nickOf r (reg s me).full_jid).take 31),
      .s (reg s k).full_jid, .s st.id, .s st.payload]⟩

def privateMessage (r : Room) (to_slash : Str) : List Sent :=
  let c := reg s me
  if hasAttr c.rx "type='groupchat'" "type=\"groupchat\"" then
    [(me, ⟨512, fmtBadRequest, [.s st.to_, .s c.full_jid, .s st.id, .s r.name]⟩)]
  else
    match recipient s r to_slash.tail with
    | none => [(me, ⟨512, fmtNoOccupant, [.s st.to_, .s c.full_jid, .s st.id]⟩)]
    | some k => [(k, pm s me st r to_slash k)]

def group (sender_nick : Str) (p : Participant) : Text :=
  ⟨2400, if alreadyWrapped st then fmtGroupWrapped else fmtGroup,
    [.s st.to_, .s sender_nick, .s p.jid, .s st.id, .s st.payload]⟩

def groupMessage (r : Room) : List Sent :=
  occupants s r nobody (group st (nickOf r (bare (reg s me).full_jid)))

/-- A session of the address. -/
def at_ (target : Str) (i : Slot) : Bool := (reg s i).live && bare (reg s i).full_jid == target

def chat (full_jid : Str) : Text :=
  ⟨2048, if alreadyWrapped st then fmtChatWrapped else fmtChat, [.s full_jid, .s st.to_, .s st.payload]⟩

/-- No session took the message and the store does not either. -/
def undelivered : Bool :=
  !(List.finRange MAX_USERS).any (at_ s (bare st.to_)) &&
    (offline_msg_is_full s.stores (localPart (bare st.to_)) ||
      (firstIdx fun i => (s.stores.offline_store i).active == 0).isNone)

def directMessage : List Sent :=
  let c := reg s me
  each MAX_USERS (fun i => if at_ s (bare st.to_) i then [(i, chat st c.full_jid)] else []) ++
    if undelivered s st then [(me, ⟨512, fmtNotDelivered, [.s st.to_, .s c.full_jid]⟩)] else []

/-- The room a message is addressed to. -/
def messageRoom (t : Stores) (to_ : Str) : Option (Fin MAX_ROOMS) :=
  if to_.contains (ch '@') then findRoom t (localPart to_) else none

def message : List Sent :=
  if (strstr st.to_ CONFERENCE).isSome then
    match messageRoom s.stores st.to_ with
    | none => []
    | some i =>
      match roomSlash st.to_ with
      | some to_slash => privateMessage s me st (s.stores.rooms i) to_slash
      | none => groupMessage s me st (s.stores.rooms i)
  else directMessage s me st

/-! Presence. -/

/-- A presence with what the client sent in it, or without. -/
def presence (size : Nat) (fmtBody fmt : Str) (head : List Arg) (payload : Str) : Text :=
  if payload ≠ [] then ⟨size, fmtBody, head ++ [.s payload]⟩ else ⟨size, fmt, head⟩

def announce (payload : Str) (i : Slot) : List Sent :=
  if (reg s i).live then
    [(i, presence 1024 fmtInitialBody fmtInitial [.s (reg s me).full_jid, .s (reg s i).full_jid] payload)]
  else []

def probe (i : Slot) : List Sent :=
  if (reg s i).live ∧ i ≠ me then
    [(me, presence 1024 fmtPresenceBody fmtPresence [.s (reg s i).full_jid, .s (reg s me).full_jid]
      (reg s i).presence_payload)]
  else []

def pending (e : PendingSub) : List Sent :=
  let c := reg s me
  if e.active ≠ 0 ∧ e.to_user.str = c.username then
    [(me, ⟨256, fmtPresenceSub, [.s e.type.str, .s e.from_.str, .s c.full_jid]⟩)]
  else []

def offline (e : OfflineMsg) : List Sent :=
  let c := reg s me
  if e.active ≠ 0 ∧ e.to_user.str = c.username then
    [(me, if e.id.str ≠ [] then
        ⟨1400, fmtOfflineId, [.s e.from_.str, .s c.full_jid, .s e.id.str, .s e.payload.str]⟩
      else ⟨1400, fmtOffline, [.s e.from_.str, .s c.full_jid, .s e.payload.str]⟩)]
  else []

def initialPresence : List Sent :=
  each MAX_USERS (announce s me (strncpy 1023 st.payload)) ++ each MAX_USERS (probe s me) ++
    each MAX_PENDING_SUBS (fun i => pending s me (s.stores.pending_subs i)) ++
    each MAX_OFFLINE_MSGS (fun i => offline s me (s.stores.offline_store i))

def probeAnswer (i : Slot) : List Sent :=
  if at_ s (bare st.to_) i then
    [(me, presence 512 fmtPresenceBody fmtPresence [.s (reg s i).full_jid, .s (reg s me).full_jid]
      (reg s i).presence_payload)]
  else []

def directPresence (i : Slot) : List Sent :=
  if at_ s (bare st.to_) i then
    [(i, presence 512 fmtPresenceBody fmtPresence [.s (reg s me).full_jid, .s (reg s i).full_jid]
      (reg s me).presence_payload)]
  else []

def pushItem (owner_user new_xml : Str) (i : Slot) : List Sent :=
  if (reg s i).live ∧ (reg s i).username = owner_user then
    [(i, ⟨512, fmtRosterPush, [.s (reg s i).full_jid, .s new_xml]⟩)]
  else []

/-- The pushes for a change of a roster, and the stores after it. -/
def rosterUpdate (t : Stores) (owner_user contact_jid : Str) (inbound subscribed : Bool) : Stores × List Sent :=
  match subscriptionChange t owner_user contact_jid inbound subscribed with
  | none => (t, [])
  | some (i, e, new_xml) => (t.setRoster i e, each MAX_USERS (pushItem s owner_user new_xml))

def subscriptionNotice (word : String) (i : Slot) : List Sent :=
  if at_ s (bare st.to_) i then
    [(i, ⟨512, fmtPresenceSub, [.s (lit word), .s (bare (reg s me).full_jid), .s (reg s i).full_jid]⟩)]
  else []

/-- The two changes of rosters, first the sender's. -/
def rosterUpdates : Stores × List Sent :=
  let bare_from := bare (reg s me).full_jid
  let bare_target := bare st.to_
  let subscribed : Bool := st.type = .PRESENCE_SUBSCRIBED
  let first := rosterUpdate s s.stores (localPart bare_from) bare_target false subscribed
  let second := rosterUpdate s first.1 (localPart bare_target) bare_from true subscribed
  (second.1, first.2 ++ second.2)

def subscription (word : String) : List Sent :=
  each MAX_USERS (subscriptionNotice s me st word) ++
    if st.type = .PRESENCE_SUBSCRIBED ∨ st.type = .PRESENCE_UNSUBSCRIBED then (rosterUpdates s me st).2 else []

/-- The payload a broadcast carries: the one just sent, or the last one before. -/
def noted : Str := if st.payload ≠ [] then strncpy 1023 st.payload else (reg s me).presence_payload

def broadcast (i : Slot) : List Sent :=
  let head := [Arg.s (reg s me).full_jid, .s (reg s i).full_jid]
  if (reg s i).live then
    if st.type = .PRESENCE_UNAVAILABLE then [(i, ⟨1024, fmtWentOffline, head⟩)]
    else [(i, presence 1024 fmtPresenceIdBody fmtPresenceId (head ++ [.s st.id]) (noted s me st))]
  else []

def broadcastPresence : List Sent :=
  if st.type = .PRESENCE_PROBE then each MAX_USERS (probeAnswer s me st)
  else
    match subscriptionWord st.type with
    | some word => subscription s me st word
    | none =>
      if st.type ≠ .PRESENCE_UNAVAILABLE ∧ st.to_ ≠ [] ∧ ¬ (strstr st.to_ CONFERENCE).isSome then
        each MAX_USERS (directPresence s me st)
      else each MAX_USERS (broadcast s me st)

/-! The router. -/

def tooEarly : List Sent :=
  let c := reg s me
  if st.type.isRequest then
    if st.id ≠ [] then [(me, ⟨512, fmtTooEarlyId, [.s (fromJid st), .s (Model.toJid c), .s st.id]⟩)]
    else [(me, ⟨512, fmtTooEarly, [.s (fromJid st), .s (Model.toJid c)]⟩)]
  else []

def routePresence : List Sent :=
  if (strstr st.to_ CONFERENCE).isSome then mucPresence s me st
  else if st.type = .PRESENCE ∧ ¬ (reg s me).initial_presence_sent then initialPresence s me st
  else broadcastPresence s me st

def unknownRequest : List Sent :=
  let c := reg s me
  if (strstr st.payload RoomTable.NS_OWNER).isSome then owner s me st
  else if st.id ≠ [] then [(me, ⟨512, fmtUnavailableId, [.s (fromJid st), .s c.full_jid, .s st.id]⟩)]
  else [(me, ⟨512, fmtUnavailable, [.s (fromJid st), .s c.full_jid]⟩)]

def byKind : List Sent :=
  let c := reg s me
  if ClientState.SESSION ≤ c.state ∧ st.type = .MESSAGE then message s me st
  else if ClientState.SESSION ≤ c.state ∧ st.type.isPresence then routePresence s me st
  else if ClientState.SESSION ≤ c.state ∧ st.type.isRequest then unknownRequest s me st
  else if st.type = .UNKNOWN ∧ st.id ≠ [] ∧ ClientState.AUTHENTICATED ≤ c.state then
    [(me, ⟨512, fmtBadIq, [.s (fromJid st), .s (Model.toJid c), .s st.id]⟩)]
  else []

end Texts

/-- The entries of the router. -/
inductive Service where
  | bind | session | roster | discoInfo | discoItems | muc | mucOwner | private_ | mucAdmin | blocking
  | vcard | version | last | ping
  deriving DecidableEq, Repr

namespace Service

def all : List Service :=
  [bind, session, roster, discoInfo, discoItems, muc, mucOwner, private_, mucAdmin, blocking, vcard, version,
    last, ping]

def xmlns : Service → Str
  | bind => NS_BIND
  | session => NS_SESSION
  | roster => lit "jabber:iq:roster"
  | discoInfo => lit "http://jabber.org/protocol/disco#info"
  | discoItems => lit "http://jabber.org/protocol/disco#items"
  | muc => RoomTable.NS_MUC
  | mucOwner => RoomTable.NS_OWNER
  | private_ => lit "jabber:iq:private"
  | mucAdmin => RoomTable.NS_ADMIN
  | blocking => lit "urn:xmpp:blocking"
  | vcard => lit "vcard-temp"
  | version => lit "jabber:iq:version"
  | last => lit "jabber:iq:last"
  | ping => lit "urn:ietf:params:xml:ns:xmpp-ping"

def handler : Service → Slot → Stanza → M Unit
  | bind => handle_core_bind
  | session => handle_core_session
  | roster => handle_roster_request
  | discoInfo => handle_disco_info
  | discoItems => handle_disco_items
  | muc => handle_muc_presence
  | mucOwner => handle_muc_owner
  | private_ => handle_private_storage
  | mucAdmin => handle_muc_admin
  | blocking => handle_blocklist
  | vcard => handle_general_success
  | version => handle_version
  | last => handle_last
  | ping => handle_ping

def min_state : Service → ClientState
  | bind => .BIND
  | session => .AUTHENTICATED
  | _ => .SESSION

def entry (k : Service) : RouteEntry := ⟨k.xmlns, k.handler, k.min_state⟩

theorem router_eq : router = all.map entry := rfl

/-- The service of a namespace. -/
def of (xmlns : Str) : Option Service := all.find? (·.xmlns == xmlns)

theorem find_router (xmlns : Str) : router.find? (·.xmlns == xmlns) = (of xmlns).map entry := by
  rw [router_eq, List.find?_map]
  rfl

def texts : Service → Server → Slot → Stanza → List Sent
  | bind => Texts.bind
  | session => fun _ => Texts.session
  | roster => Texts.roster
  | discoInfo => Texts.discoInfo
  | discoItems => Texts.discoItems
  | muc => Texts.mucPresence
  | mucOwner => Texts.owner
  | private_ => Texts.private_
  | mucAdmin => Texts.admin
  | blocking => Texts.blocklist
  | vcard => fun s me st => Texts.result s me st 1024
  | version => Texts.version
  | last => Texts.last
  | ping => fun s me st => Texts.result s me st 256

end Service

/-- A stanza in a stream namespace is taken for a stream header. -/
def restarts (st : Stanza) : Prop := st.xmlns ≠ [] ∧ (strstr st.xmlns (lit "stream")).isSome

instance (st : Stanza) : Decidable (restarts st) := inferInstanceAs (Decidable (_ ∧ _))

/-- All that a stanza of context `me` makes the server send. -/
def sent (s : Server) (me : Slot) (st : Stanza) : List Sent :=
  if restarts st then Texts.features s me
  else
    match Service.of st.xmlns with
    | some k => if (s.client_registry me).state < k.min_state then Texts.tooEarly s me st else k.texts s me st
    | none => Texts.byKind s me st

end Angelic.Proofs
