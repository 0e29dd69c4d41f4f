import Angelic.Proofs.RoomSteps

namespace Angelic.Proofs
open CString Model Relation

/-! What a stanza does to the rooms, with the messages left out. -/

theorem firstIdx_some {n : Nat} {p : Fin n → Bool} {i : Fin n} (h : firstIdx p = some i) : p i = true :=
  List.find?_some h

theorem firstIdx_none {n : Nat} {p : Fin n → Bool} (h : firstIdx p = none) (i : Fin n) : p i = false := by
  simpa using List.find?_eq_none.mp h i (List.mem_finRange i)

theorem firstUser_some {r : Room} {p : Participant → Bool} {j : Fin MAX_USERS_PER_ROOM}
    (h : r.firstUser p = some j) : (r.users j).active = true ∧ p (r.users j) = true := by
  simpa using firstIdx_some h

theorem firstUser_none {r : Room} {p : Participant → Bool} (h : r.firstUser p = none)
    (j : Fin MAX_USERS_PER_ROOM) (hj : (r.users j).active) : p (r.users j) = false := by
  simpa [hj] using firstIdx_none h j

theorem occupied_eq_false {r : Room} : r.occupied = false ↔ ∀ j, (r.users j).active = false := by
  constructor
  · intro h j
    by_contra hj
    have hn : r.firstUser (fun _ => true) = none := by simpa [Room.occupied] using h
    exact absurd (firstUser_none hn j (by simpa using hj)) (by simp)
  · intro h
    have hn : r.firstUser (fun _ => true) = none := List.find?_eq_none.mpr fun j _ => by simp [h j]
    simp [Room.occupied, hn]

namespace RoomTable

/-- The first room in use under a name. -/
def find (T : RoomTable) (name : Str) : Option (Fin MAX_ROOMS) :=
  firstIdx fun i => (T i).active != 0 && (T i).name == name

theorem find_some {T : RoomTable} {name : Str} {i : Fin MAX_ROOMS} (h : T.find name = some i) :
    (T i).active ≠ 0 ∧ (T i).name = name := by
  simpa using firstIdx_some h

theorem find_none {T : RoomTable} {name : Str} (h : T.find name = none) (i : Fin MAX_ROOMS)
    (hi : (T i).active ≠ 0) : (T i).name ≠ name := by
  have := firstIdx_none h i
  simpa [hi] using this

/-! Requests of an administrator or owner. -/

/-- The room and the occupant a kick or ban is about. -/
def target (T : RoomTable) (st : Stanza) : Option (Fin MAX_ROOMS × Fin MAX_USERS_PER_ROOM) :=
  match T.find (roomName st.to_) with
  | some i =>
    ((T i).firstUser fun p => targetNick st.payload == [] || p.nick == targetNick st.payload).map
      fun j => (i, j)
  | none => none

def banned (T : RoomTable) (i : Fin MAX_ROOMS) (jid : Str) : RoomTable :=
  if (T i).banned_count.toInt < MAX_BANNED_PER_ROOM then T.mod i fun r => r.ban jid else T

def kick (T : RoomTable) (st : Stanza) (want_ban : Bool) : RoomTable :=
  match T.target st with
  | some (i, j) =>
    (if want_ban then T.banned i (bare ((T i).users j).jid) else T).mod i fun r => r.setUser j .zero
  | none => T

def wantKick (st : Stanza) : Bool := hasAttr st.payload "role='none'" "role=\"none\""
def wantBan (st : Stanza) : Bool := hasAttr st.payload "affiliation='outcast'" "affiliation=\"outcast\""

def admin (T : RoomTable) (st : Stanza) : RoomTable :=
  if st.type = .IQ_SET ∧ (wantKick st ∨ wantBan st) then T.kick st (wantBan st) else T

def wantDestroy (st : Stanza) : Prop := st.type = .IQ_SET ∧ (strstr st.payload (lit "<destroy")).isSome
def wantConfigure (st : Stanza) : Prop :=
  st.type = .IQ_SET ∨ hasAttr st.payload "type='submit'" "type=\"submit\""

instance (st : Stanza) : Decidable (wantDestroy st) := inferInstanceAs (Decidable (_ ∧ _))
instance (st : Stanza) : Decidable (wantConfigure st) := inferInstanceAs (Decidable (_ ∨ _))

/-- A change to the room an owner's request names. -/
def owned (T : RoomTable) (st : Stanza) (f : Room → Room) : RoomTable :=
  match T.find (roomName st.to_) with
  | some i => T.mod i f
  | none => T

def owner (T : RoomTable) (st : Stanza) : RoomTable :=
  if wantDestroy st then T.owned st fun _ => .zero
  else if wantConfigure st then T.owned st fun r => r.configure st.payload
  else T

/-! Presence. -/

def enter (T : RoomTable) (c : Ctx) (name : Str) : Option (Fin MAX_ROOMS × RoomTable) :=
  match T.find name with
  | some i => some (i, T)
  | none =>
    match firstIdx (fun i => (T i).active == 0) with
    | some i => some (i, T.mod i fun r => r.create name c.full_jid)
    | none => none

/-- An empty temporary room is given back. -/
def released (T : RoomTable) (i : Fin MAX_ROOMS) : RoomTable :=
  if (T i).occupied then T else T.mod i fun r => if r.persistent = 0 then r.release else r

def leave (T : RoomTable) (i : Fin MAX_ROOMS) (nick : Str) : RoomTable :=
  match (T i).firstUser (·.nick == nick) with
  | some j => (T.mod i fun r => r.setUser j .zero).released i
  | none => T

def taken (r : Room) (k : Fin MAX_USERS_PER_ROOM) (nick : Str) : Bool :=
  (firstIdx fun j => (r.users j).active && j != k && (r.users j).nick == nick).isSome

def rename (T : RoomTable) (i : Fin MAX_ROOMS) (k : Fin MAX_USERS_PER_ROOM) (nick : Str) : RoomTable :=
  if ((T i).users k).nick = nick ∨ taken (T i) k nick then T
  else T.mod i fun r => r.setUser k { r.users k with nick := strncpy 31 nick }

def join (T : RoomTable) (i : Fin MAX_ROOMS) (c : Ctx) (nick : Str) : RoomTable :=
  if (T i).banned (bare c.full_jid) ∨ ((T i).firstUser (·.nick == nick)).isSome then T
  else T.mod i fun r => r.join c nick

/-- A presence of any other type than unavailable. -/
def arrive (T : RoomTable) (i : Fin MAX_ROOMS) (c : Ctx) (nick : Str) : RoomTable :=
  match (T i).firstUser (·.jid == bare c.full_jid) with
  | some k => T.rename i k nick
  | none => T.join i c nick

/-- Locked rooms are their creator's. -/
def shut (r : Room) (c : Ctx) : Prop := r.locked ≠ 0 ∧ bare c.full_jid ≠ r.creator_jid

instance (r : Room) (c : Ctx) : Decidable (shut r c) := inferInstanceAs (Decidable (_ ∧ _))

/-- A presence once its room is there. -/
def attend (T : RoomTable) (i : Fin MAX_ROOMS) (c : Ctx) (st : Stanza) (nick : Str) : RoomTable :=
  if shut (T i) c then T
  else if st.type = .PRESENCE_UNAVAILABLE then T.leave i nick
  else T.arrive i c nick

def presence (T : RoomTable) (c : Ctx) (st : Stanza) : RoomTable :=
  match mucTarget st.to_ with
  | some t =>
    match T.enter c t.room_name with
    | some (i, T) => T.attend i c st t.nick
    | none => T
  | none => T

/-! Messages, and the router. -/

/-- The subject is that of the room a group message is sent to. -/
def message (T : RoomTable) (st : Stanza) : RoomTable :=
  if (strstr st.to_ CONFERENCE).isSome ∧ st.to_.contains (ch '@') ∧ (roomSlash st.to_).isNone then
    match T.find (localPart st.to_), newSubject st.payload with
    | some i, some subj => T.mod i fun r => { r with subject := subj }
    | _, _ => T
  else T

def NS_MUC : Str := lit "http://jabber.org/protocol/muc"
def NS_OWNER : Str := lit "http://jabber.org/protocol/muc#owner"
def NS_ADMIN : Str := lit "http://jabber.org/protocol/muc#admin"

/-- A stanza of a namespace the router does not have. -/
def byKind (T : RoomTable) (c : Ctx) (st : Stanza) : RoomTable :=
  if c.state < .SESSION then T
  else if st.type = .MESSAGE then T.message st
  else if st.type.isPresence then
    if (strstr st.to_ CONFERENCE).isSome then T.presence c st else T
  else if st.type.isRequest ∧ (strstr st.payload NS_OWNER).isSome then T.owner st
  else T

/-- A stanza of a namespace it has. -/
def byName (T : RoomTable) (c : Ctx) (st : Stanza) : RoomTable :=
  if st.xmlns = NS_MUC then T.presence c st
  else if st.xmlns = NS_OWNER then T.owner st
  else if st.xmlns = NS_ADMIN then T.admin st
  else T

/-- What the router makes of a stanza of context `c`. -/
def handle (T : RoomTable) (c : Ctx) (st : Stanza) : RoomTable :=
  if st.xmlns ≠ [] ∧ (strstr st.xmlns (lit "stream")).isSome then T
  else if (router.find? (·.xmlns == st.xmlns)).isNone then T.byKind c st
  else if c.state < .SESSION then T
  else T.byName c st

end RoomTable

end Angelic.Proofs
