import Angelic.Model.Muc

namespace Angelic.Model
open CString

/-! `handle_muc_presence`, cut at its steps: the room, the locked check, leaving,
an occupant's new presence or nick, and joining. -/

/-- The addresses a presence to a room is about. -/
structure MucTarget where
  nick : Str
  bare_jid : Str
  room_name : Str
  deriving DecidableEq, Repr

def mucTarget (to_ : Str) : Option MucTarget :=
  match strchr to_ (ch '/') with
  | none => none
  | some slash =>
    if to_.contains (ch '@') then
      some ⟨strncpy 31 slash.tail, (upto to_ slash).take 63, localPart to_⟩
    else none

def Room.create (r : Room) (name full_jid : Str) : Room :=
  { r with active := 1, name := name, creator_jid := bare full_jid, semi_anon := 1, locked := 0 }

/-- The room of that name, created in a free slot when there is none; the flag says
which. -/
def enterRoom (me : Slot) (name : Str) : M (Option (Fin MAX_ROOMS × Bool)) := do
  let c ← ctxOf me
  let s ← getStores
  match findRoom s name with
  | some i => return some (i, false)
  | none =>
    match firstIdx (fun i => (s.rooms i).active == 0) with
    | none => return none
    | some i =>
      modRoom i fun r => r.create name c.full_jid
      persist xmpp_persist_save_rooms
      return some (i, true)

def MUC_USER : String := "<x xmlns='http://jabber.org/protocol/muc#user'>"

def fmtLockedErr : Str :=
  cat ["<presence type='error' from='%s/%s' to='%s'>", "<error type='cancel' code='404'>",
    "<item-not-found", " xmlns='urn:ietf:params:xml:ns:xmpp-stanzas'/>", "</error>", "</presence>"]
def fmtLeft : Str :=
  cat ["<presence type='unavailable' from='%s/%s' to='%s'>", MUC_USER,
    "<item affiliation='member' role='none'/>", "</x>", "</presence>"]
def fmtLeftSelf : Str :=
  cat ["<presence type='unavailable' from='%s/%s' to='%s'>", MUC_USER,
    "<item affiliation='member' role='none'/>", "<status code='110'/>", "</x>", "</presence>"]

/-- An empty temporary room gives its slot back. -/
def Room.release (r : Room) : Room :=
  { r with
    active := 0, name := [], creator_jid := [], subject := [], banned_count := 0
    persistent := 0, moderated := 0, members_only := 0 }

def Room.occupied (r : Room) : Bool := (r.firstUser (fun _ => true)).isSome

/-- Who leaves is the first occupant with the nick. -/
def leaveRoom (me : Slot) (i : Fin MAX_ROOMS) (t : MucTarget) : M Unit := do
  let c ← ctxOf me
  let s ← getStores
  let r := s.rooms i
  match r.firstUser (·.nick == t.nick) with
  | none => return
  | some j =>
    tellOccupants r (· == j) fun p => snprintf 1024 fmtLeft [.s t.bare_jid, .s t.nick, .s p.jid]
    send_raw me (snprintf 1024 fmtLeftSelf [.s t.bare_jid, .s t.nick, .s c.full_jid])
    modRoom i fun r => r.setUser j .zero
    if ¬ (r.setUser j .zero).occupied then
      modRoom i fun r => if r.persistent = 0 then r.release else r
      persist xmpp_persist_save_rooms

def fmtAvailSelf : Str :=
  cat ["<presence from='%s/%s' to='%s'>", "%s", MUC_USER, "<item affiliation='%s' role='%s'/>",
    "<status code='110'/>", "</x>", "</presence>"]
def fmtAvail : Str :=
  cat ["<presence from='%s/%s' to='%s'>", "%s", MUC_USER, "<item affiliation='%s' role='%s'/>",
    "</x>", "</presence>"]

def availText (t : MucTarget) (full_jid inner : Str) (owner : Bool) (p : Participant) : Str :=
  let aff := lit (if owner then "owner" else "member")
  let role := lit (if owner then "moderator" else "participant")
  snprintf 2400 (if p.jid = full_jid then fmtAvailSelf else fmtAvail)
    [.s t.bare_jid, .s t.nick, .s p.jid, .s inner, .s aff, .s role]

def fmtNickConflict : Str :=
  cat ["<presence type='error' from='%s/%s' to='%s'>", "<x xmlns='http://jabber.org/protocol/muc'/>",
    "<error type='cancel'", " by='%s'>", "<conflict",
    " xmlns='urn:ietf:params:xml:ns:xmpp-stanzas'/>", "</error>", "</presence>"]
def NICK_ITEM : List String :=
  ["<presence type='unavailable' from='%s/%s' to='%s'>", MUC_USER,
    "<item affiliation='member' role='participant'", " nick='%s'/>", "<status code='303'/>"]
def fmtNickGoneSelf : Str := cat (NICK_ITEM ++ ["<status code='110'/>", "</x>", "</presence>"])
def fmtNickGone : Str := cat (NICK_ITEM ++ ["</x>", "</presence>"])
def fmtMemberSelf : Str :=
  cat ["<presence from='%s/%s' to='%s'>", MUC_USER,
    "<item affiliation='member' role='participant'/>", "<status code='110'/>", "</x>", "</presence>"]
def fmtMember : Str :=
  cat ["<presence from='%s/%s' to='%s'>", MUC_USER,
    "<item affiliation='member' role='participant'/>", "</x>", "</presence>"]

def nobody : Fin MAX_USERS_PER_ROOM → Bool := fun _ => false

/-- The sender is already occupant `k`: a presence under the same nick is passed on,
another nick is taken over unless someone has it. -/
def occupantPresence (me : Slot) (st : Stanza) (i : Fin MAX_ROOMS) (t : MucTarget)
    (k : Fin MAX_USERS_PER_ROOM) : M Unit := do
  let c ← ctxOf me
  let s ← getStores
  let r := s.rooms i
  if (r.users k).nick = t.nick then
    tellOccupants r nobody
      (availText t c.full_jid st.payload ((r.users k).jid == r.creator_jid))
  else if (firstIdx fun j => (r.users j).active && j != k && (r.users j).nick == t.nick).isSome then
    send_raw me (snprintf 512 fmtNickConflict
      [.s t.bare_jid, .s t.nick, .s c.full_jid, .s t.bare_jid])
  else
    tellOccupants r nobody fun p =>
      snprintf 512 (if p.jid = c.full_jid then fmtNickGoneSelf else fmtNickGone)
        [.s t.bare_jid, .s (r.users k).nick, .s p.jid, .s t.nick]
    modRoom i fun r => r.setUser k { r.users k with nick := strncpy 31 t.nick }
    let s ← getStores
    tellOccupants (s.rooms i) nobody fun p =>
      snprintf 512 (if p.jid = c.full_jid then fmtMemberSelf else fmtMember)
        [.s t.bare_jid, .s t.nick, .s p.jid]

def fmtForbidden : Str :=
  cat ["<presence type='error' from='%s/%s' to='%s'>", "<error type='auth' code='403'>",
    "<forbidden xmlns='urn:ietf:params:xml:ns:xmpp-stanzas'/>", "</error>", "</presence>"]
def fmtJoinConflict : Str :=
  cat ["<presence type='error' from='%s/%s' to='%s'>", "<error type='cancel' code='409'>",
    "<conflict xmlns='urn:ietf:params:xml:ns:xmpp-stanzas'/>", "</error>", "</presence>"]
def fmtMemberJid : Str :=
  cat ["<presence from='%s/%s' to='%s'>", MUC_USER,
    "<item affiliation='member' role='participant' jid='%s'/>", "</x>", "</presence>"]
def fmtNewRoom : Str :=
  cat ["<presence from='%s/%s' to='%s'>", MUC_USER, "<item affiliation='owner' role='moderator'/>",
    "<status code='110'/>", "<status code='201'/>", "</x>", "</presence>"]
def fmtSubject : Str :=
  cat ["<message from='%s' to='%s' type='groupchat'>", "<subject>%s</subject>", "</message>"]

def Room.banned (r : Room) (jid : Str) : Bool :=
  (firstIdx fun bi : Fin MAX_BANNED_PER_ROOM =>
    decide ((bi : Int) < r.banned_count.toInt) && r.banned_jids bi == jid).isSome

/-- The first free place of the room, left as it is when there is none. -/
def Room.join (r : Room) (c : Ctx) (nick : Str) : Room :=
  match firstIdx (fun j => !(r.users j).active) with
  | some j => r.setUser j ⟨c.pcb, strncpy 31 nick, bare c.full_jid, true⟩
  | none => r

/-- The occupants shown to the one who joined. -/
def showOne (me : Slot) (r : Room) (t : MucTarget) (j : Fin MAX_USERS_PER_ROOM) : M Unit := do
  let c ← ctxOf me
  let p := r.users j
  if p.active ∧ p.jid ≠ bare c.full_jid then
    if r.semi_anon = 0 ∨ bare c.full_jid = r.creator_jid then
      send_raw me (snprintf 1024 fmtMemberJid [.s t.bare_jid, .s p.nick, .s c.full_jid, .s p.jid])
    else send_raw me (snprintf 1024 fmtMember [.s t.bare_jid, .s p.nick, .s c.full_jid])

def joinedText (r : Room) (t : MucTarget) (full_jid : Str) (p : Participant) : Str :=
  if r.semi_anon = 0 ∨ p.jid = r.creator_jid then
    snprintf 1024 fmtMemberJid [.s t.bare_jid, .s t.nick, .s p.jid, .s full_jid]
  else snprintf 1024 fmtMember [.s t.bare_jid, .s t.nick, .s p.jid]

def joinRoom (me : Slot) (i : Fin MAX_ROOMS) (is_new_room : Bool) (t : MucTarget) : M Unit := do
  let c ← ctxOf me
  let s ← getStores
  let r := s.rooms i
  if r.banned (bare c.full_jid) then
    send_raw me (snprintf 512 fmtForbidden [.s t.bare_jid, .s t.nick, .s c.full_jid])
  else if (r.firstUser (·.nick == t.nick)).isSome then
    send_raw me (snprintf 512 fmtJoinConflict [.s t.bare_jid, .s t.nick, .s c.full_jid])
  else
    modRoom i fun r => r.join c t.nick
    let s ← getStores
    let r := s.rooms i
    forAll MAX_USERS_PER_ROOM (showOne me r t)
    tellOccupants r (fun j => (r.users j).jid == bare c.full_jid) (joinedText r t c.full_jid)
    send_raw me (snprintf 1024 (if is_new_room then fmtNewRoom else fmtMemberSelf)
      [.s t.bare_jid, .s t.nick, .s c.full_jid])
    send_raw me (snprintf 1024 fmtSubject [.s t.bare_jid, .s c.full_jid,
      .s (if r.subject ≠ [] then r.subject else lit "unikernel lobby")])

def handle_muc_presence (me : Slot) (st : Stanza) : M Unit := do
  match mucTarget st.to_ with
  | none => return
  | some t =>
    match ← enterRoom me t.room_name with
    | none => return
    | some (i, is_new_room) =>
      let c ← ctxOf me
      let s ← getStores
      let r := s.rooms i
      if r.locked ≠ 0 ∧ bare c.full_jid ≠ r.creator_jid then
        send_raw me (snprintf 512 fmtLockedErr [.s t.bare_jid, .s t.nick, .s c.full_jid])
      else if st.type = .PRESENCE_UNAVAILABLE then leaveRoom me i t
      else
        match r.firstUser (·.jid == bare c.full_jid) with
        | some k => occupantPresence me st i t k
        | none => joinRoom me i is_new_room t

end Angelic.Model
