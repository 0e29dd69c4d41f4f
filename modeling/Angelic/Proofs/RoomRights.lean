import Angelic.Proofs.Rooms

namespace Angelic.Proofs
open CString Model StateRel Relation Spec

variable {c : Ctx} {st : Stanza} {r : Room}

/-! Who may do what in a room: requests of administrators and owners, and leaving. -/

/-- The handlers that a stanza can reach the rooms by. -/
inductive RoomRequest where
  | presence | owner | admin | message
  deriving DecidableEq, Repr

/-- By namespace where the router has it, else by what the stanza is. -/
def roomRequest (st : Stanza) : Option RoomRequest :=
  if st.xmlns ≠ [] ∧ (strstr st.xmlns (lit "stream")).isSome then none
  else if (router.find? (·.xmlns == st.xmlns)).isNone then
    if st.type = .MESSAGE then some .message
    else if st.type.isPresence then
      if (strstr st.to_ CONFERENCE).isSome then some .presence else none
    else if st.type.isRequest ∧ (strstr st.payload RoomTable.NS_OWNER).isSome then some .owner
    else none
  else if st.xmlns = RoomTable.NS_MUC then some .presence
  else if st.xmlns = RoomTable.NS_OWNER then some .owner
  else if st.xmlns = RoomTable.NS_ADMIN then some .admin
  else none

namespace RoomTable

/-- What a handler makes of the table. -/
def serve (T : RoomTable) (c : Ctx) (st : Stanza) : Option RoomRequest → RoomTable
  | some .presence => T.presence c st
  | some .owner => T.owner st
  | some .admin => T.admin st
  | some .message => T.message st
  | none => T

theorem handle_early (T : RoomTable) (h : c.state < .SESSION) : T.handle c st = T := by
  unfold handle byKind
  simp [h]

theorem handle_eq_serve (T : RoomTable) (h : ¬ c.state < .SESSION) :
    T.handle c st = T.serve c st (roomRequest st) := by
  unfold handle byKind byName roomRequest
  simp only [h, if_false]
  split
  · rfl
  · split
    · split
      · rfl
      · split
        · split <;> rfl
        · split <;> rfl
    · split
      · rfl
      · split
        · rfl
        · split <;> rfl

end RoomTable

/-- A room without a creator is anyone's. -/
def Owns (c : Ctx) (r : Room) : Prop := r.creator_jid = bare c.full_jid ∨ r.creator_jid = []

/-- The room is still there with its configuration and its bans, and so is everyone in it but `c`. -/
structure Spared (c : Ctx) (r r' : Room) : Prop where
  active : r'.active = r.active
  config : (r'.locked, r'.persistent, r'.moderated, r'.members_only, r'.semi_anon) =
    (r.locked, r.persistent, r.moderated, r.members_only, r.semi_anon)
  bans : r'.banned_count = r.banned_count ∧ r'.banned_jids = r.banned_jids
  users : ∀ j, (r.users j).active → (r.users j).jid ≠ bare c.full_jid → r'.users j = r.users j

theorem Spared.refl (c : Ctx) (r : Room) : Spared c r r := ⟨rfl, rfl, ⟨rfl, rfl⟩, fun _ _ _ => rfl⟩

/-- A ban is added to a list that has room for it. -/
def Room.banRoom (r : Room) : Prop := 0 ≤ r.banned_count.toInt ∧ r.banned_count.toInt < MAX_BANNED_PER_ROOM

/-- The occupant of the room a kick or ban is about. -/
def kicked (r : Room) (st : Stanza) : Option (Fin MAX_USERS_PER_ROOM) :=
  r.firstUser fun p => targetNick st.payload == [] || p.nick == targetNick st.payload

/-- What a request asks of the room it names: someone else's removal or a ban, the end of the room, or
a configuration it does not have. -/
def Meddles (c : Ctx) (st : Stanza) (r : Room) : Option RoomRequest → Prop
  | some .admin => st.type = .IQ_SET ∧ (RoomTable.wantKick st ∨ RoomTable.wantBan st) ∧
      ∃ j, kicked r st = some j ∧
        ((r.users j).jid ≠ bare c.full_jid ∨ RoomTable.wantBan st ∧ Room.banRoom r)
  | some .owner => RoomTable.wantDestroy st ∨ RoomTable.wantConfigure st ∧ r.configure st.payload ≠ r
  | _ => False

theorem kick_eq {T : RoomTable} {i : Fin MAX_ROOMS} (hi : T.find (roomName st.to_) = some i)
    (want_ban : Bool) :
    T.kick st want_ban = match kicked (T i) st with
      | some j => T.mod i fun r => (if want_ban then r.ban (bare (r.users j).jid) else r).setUser j .zero
      | none => T := by
  unfold RoomTable.kick RoomTable.target kicked
  simp only [hi]
  cases hj : (T i).firstUser fun p => targetNick st.payload == [] || p.nick == targetNick st.payload with
  | none => rfl
  | some j =>
    simp only [Option.map_some]
    cases want_ban with
    | false => rfl
    | true =>
      simp only [if_true, RoomTable.banned]
      split
      · simp [RoomTable.mod]
      · rename_i hb
        have hr : (T i).ban (bare ((T i).users j).jid) = T i := by
          rw [Room.ban, dif_neg fun h => hb h.2]
        simp [RoomTable.mod, hr]

theorem ban_of_full (h : ¬ Room.banRoom r) (jid : Str) : r.ban jid = r := dif_neg h

theorem ban_count_ne (h : Room.banRoom r) (jid : Str) : (r.ban jid).banned_count ≠ r.banned_count := by
  have hb : (r.ban jid).banned_count = r.banned_count + 1 := congrArg Room.banned_count (dif_pos h)
  rw [hb]
  simp

/-- Removing occupant `j` spares the room unless it is someone else, or a ban comes with it. -/
theorem spared_kick_iff {j : Fin MAX_USERS_PER_ROOM} (hj : (r.users j).active) (want_ban : Bool) (jid : Str) :
    Spared c r ((if want_ban then r.ban jid else r).setUser j .zero) ↔
      ¬ ((r.users j).jid ≠ bare c.full_jid ∨ want_ban ∧ Room.banRoom r) := by
  constructor
  · rintro h (hne | ⟨rfl, hb⟩)
    · have hu := h.users j hj hne
      simp only [Room.setUser, Function.update_self] at hu
      rw [← hu] at hj
      exact absurd hj (by decide)
    · exact ban_count_ne hb jid h.bans.1
  · intro h
    have hown : (r.users j).jid = bare c.full_jid := by
      by_contra hne
      exact h (.inl hne)
    have hr : (if want_ban then r.ban jid else r) = r := by
      cases want_ban with
      | false => rfl
      | true => exact ban_of_full (fun hb => h (.inr ⟨rfl, hb⟩)) jid
    rw [hr]
    refine ⟨rfl, rfl, ⟨rfl, rfl⟩, fun k _ hk => ?_⟩
    have hkj : k ≠ j := fun e => hk (e ▸ hown)
    exact Function.update_of_ne hkj _ _

theorem spared_configure_iff {payload : Str} : Spared c r (r.configure payload) ↔ r.configure payload = r := by
  constructor
  · intro h
    have hc := h.config
    simp only [Prod.mk.injEq] at hc
    obtain ⟨h1, h2, h3, h4, h5⟩ := hc
    cases r
    simp only [Room.configure] at h1 h2 h3 h4 h5 ⊢
    simp only [h1, h2, h3, h4, h5]
  · intro h
    rw [h]
    exact .refl c r

section Requests
variable {T : RoomTable} {c : Ctx} {st : Stanza} {i : Fin MAX_ROOMS}

/-- A request touches the room it names alone. -/
theorem serve_other {q : Option RoomRequest} (hq : q = some .admin ∨ q = some .owner) {k : Fin MAX_ROOMS}
    (hk : T.find (roomName st.to_) ≠ some k) : T.serve c st q k = T k := by
  have hmod : ∀ f, T.owned st f k = T k := by
    intro f
    cases hi : T.find (roomName st.to_) with
    | none => simp [RoomTable.owned, hi]
    | some i =>
      have hki : k ≠ i := fun e => hk (e ▸ hi)
      simp only [RoomTable.owned, hi]
      exact T.mod_of_ne hki f
  rcases hq with rfl | rfl
  · simp only [RoomTable.serve, RoomTable.admin]
    split
    · cases hi : T.find (roomName st.to_) with
      | none => simp [RoomTable.kick, RoomTable.target, hi]
      | some i =>
        have hki : k ≠ i := fun e => hk (e ▸ hi)
        rw [kick_eq hi]
        split
        · exact T.mod_of_ne hki _
        · rfl
    · rfl
  · simp only [RoomTable.serve, RoomTable.owner]
    split
    · exact hmod _
    · split
      · exact hmod _
      · rfl

theorem spared_admin_iff (hi : T.find (roomName st.to_) = some i) :
    Spared c (T i) (T.admin st i) ↔ ¬ Meddles c st (T i) (some .admin) := by
  unfold RoomTable.admin
  by_cases hw : st.type = .IQ_SET ∧ (RoomTable.wantKick st ∨ RoomTable.wantBan st)
  · rw [if_pos hw, kick_eq hi]
    cases hj : kicked (T i) st with
    | none =>
      refine iff_of_true (.refl c _) ?_
      rintro ⟨-, -, j, hj', -⟩
      rw [hj] at hj'
      cases hj'
    | some j =>
      simp only [RoomTable.mod_self]
      rw [spared_kick_iff (firstUser_some hj).1]
      simp only [Meddles, hw, hj, true_and, Option.some.injEq, exists_eq_left']
  · rw [if_neg hw]
    exact iff_of_true (.refl c _) fun h => hw ⟨h.1, h.2.1⟩

theorem spared_owner_iff (hi : T.find (roomName st.to_) = some i) :
    Spared c (T i) (T.owner st i) ↔ ¬ Meddles c st (T i) (some .owner) := by
  have howned : ∀ f, T.owned st f i = f (T i) := by
    intro f
    simp [RoomTable.owned, hi]
  unfold RoomTable.owner
  by_cases hd : RoomTable.wantDestroy st
  · rw [if_pos hd, howned]
    refine iff_of_false (fun h => (RoomTable.find_some hi).1 ?_) fun h => h (.inl hd)
    exact h.active.symm
  · rw [if_neg hd]
    by_cases hc : RoomTable.wantConfigure st
    · rw [if_pos hc, howned, spared_configure_iff]
      simp only [Meddles, hd, hc, false_or, true_and, not_not]
    · rw [if_neg hc]
      exact iff_of_true (.refl c _) fun h => h.elim hd fun h => hc h.1

theorem serve_spares_iff {q : Option RoomRequest} (hq : q = some .admin ∨ q = some .owner) :
    (∀ i, Owns c (T i) ∨ Spared c (T i) (T.serve c st q i)) ↔
      ∀ i, T.find (roomName st.to_) = some i → Owns c (T i) ∨ ¬ Meddles c st (T i) q := by
  have named : ∀ i, T.find (roomName st.to_) = some i →
      (Spared c (T i) (T.serve c st q i) ↔ ¬ Meddles c st (T i) q) := by
    intro i hi
    rcases hq with rfl | rfl
    · exact spared_admin_iff hi
    · exact spared_owner_iff hi
  constructor
  · intro hall i hi
    exact (hall i).imp_right (named i hi).mp
  · intro hall i
    by_cases hi : T.find (roomName st.to_) = some i
    · exact (hall i hi).imp_right (named i hi).mpr
    · rw [serve_other hq hi]
      exact .inr (.refl c _)

end Requests

/-- A request of an administrator or owner spares every room that is not its sender's exactly when it
comes too early, names no room or one that is the sender's, or asks for nothing new. Nothing is asked
about the state. -/
theorem request_spares_iff (s : Server) (me : Slot) {st : Stanza} (h : StanzaOk st)
    (hs : .AUTHENTICATED ≤ (s.client_registry me).state)
    (hq : roomRequest st = some .admin ∨ roomRequest st = some .owner) :
    let c := s.client_registry me
    (∀ i, Owns c (s.stores.rooms i) ∨
        Spared c (s.stores.rooms i) ((xmpp_route_stanza me st s).2.stores.rooms i)) ↔
      c.state < .SESSION ∨ ∀ i, RoomTable.find s.stores.rooms (roomName st.to_) = some i →
        Owns c (s.stores.rooms i) ∨ ¬ Meddles c st (s.stores.rooms i) (roomRequest st) := by
  intro c
  obtain ⟨-, hT, -⟩ := route_rooms h hs
  rw [hT]
  by_cases hlt : c.state < .SESSION
  · rw [RoomTable.handle_early _ hlt]
    exact iff_of_true (fun i => .inr (.refl c _)) (.inl hlt)
  · rw [RoomTable.handle_eq_serve _ hlt]
    exact (serve_spares_iff hq).trans (or_iff_right hlt).symm

/-- The administrator's room with both users in it. -/
def gathered : Server := gathering.run fun _ => []

def HALL : String := "hall@conference.angelic.local"

/-- The other user asks for its own removal. -/
def kickSelf : Stanza :=
  { Stanza.zero with
    type := .IQ_SET, to_ := lit HALL, xmlns := RoomTable.NS_ADMIN
    payload := lit "<item nick='bob' role='none'/>" }

theorem request_spares_kickSelf :
    (gathered.stores.rooms 0).creator_jid = lit "admin@angelic.local" ∧
      ∀ i, Owns (gathered.client_registry 1) (gathered.stores.rooms i) ∨
        Spared (gathered.client_registry 1) (gathered.stores.rooms i)
          ((xmpp_route_stanza 1 kickSelf gathered).2.stores.rooms i) := by
  have hreq : roomRequest kickSelf = some .admin := by decide +kernel
  have hroom : ∀ i, RoomTable.find gathered.stores.rooms (roomName kickSelf.to_) = some i → i = 0 := by
    decide +kernel
  have hbob : kicked (gathered.stores.rooms 0) kickSelf = some 1 := by decide +kernel
  have hjid : ((gathered.stores.rooms 0).users 1).jid = bare (gathered.client_registry 1).full_jid := by
    decide +kernel
  have hban : RoomTable.wantBan kickSelf = false := by decide +kernel
  refine ⟨by decide +kernel, ?_⟩
  refine (request_spares_iff gathered 1 ⟨by decide, by decide⟩ (by decide +kernel) (.inl hreq)).mpr (.inr ?_)
  intro i hi
  rw [hroom i hi, hreq]
  refine .inr ?_
  rintro ⟨-, -, j, hj, h⟩
  rw [hbob] at hj
  cases hj
  rcases h with h | ⟨h, -⟩
  · exact h hjid
  · rw [hban] at h
    cases h

def destroyHall : Str :=
  cat ["<iq type='set' id='d' to='", HALL, "'><query xmlns='http://jabber.org/protocol/muc#owner'>",
    "<destroy/></query></iq>"]

def kickAda : Str :=
  cat ["<iq type='set' id='k' to='", HALL, "'><query xmlns='http://jabber.org/protocol/muc#admin'>",
    "<item nick='ada' role='none'/></query></iq>"]

/-- The other user kicks the creator, or ends the room. -/
theorem stranger_rules_room :
    (gathered.stores.rooms 0).creator_jid = lit "admin@angelic.local" ∧
      bare (gathered.client_registry 1).full_jid = lit "user1@angelic.local" ∧
      ((gathered.stores.rooms 0).active ≠ 0 ∧ ((gathered.stores.rooms 0).users 0).active) ∧
      (((step gathered (.recv 8 [passed kickAda] true)).stores.rooms 0).users 0).active = false ∧
      ((step gathered (.recv 8 [passed destroyHall] true)).stores.rooms 0).active = 0 := by
  decide +kernel

/-! Leaving goes by the nick. -/

/-- Whoever is in the room and is not `c` stays, and the room ends only when `c` was in it. -/
structure LeftAlone (c : Ctx) (r r' : Room) : Prop where
  users : ∀ j, (r.users j).active → (r.users j).jid ≠ bare c.full_jid → r'.users j = r.users j
  freed : r.active ≠ 0 → r'.active = 0 → ∃ j, (r.users j).active ∧ (r.users j).jid = bare c.full_jid

theorem LeftAlone.of_same {r' : Room} (hu : r'.users = r.users)
    (ha : r.active ≠ 0 → r'.active = r.active) : LeftAlone c r r' :=
  ⟨fun j _ _ => by rw [hu], fun h h0 => absurd ((ha h).symm.trans h0) h⟩

theorem LeftAlone.refl (c : Ctx) (r : Room) : LeftAlone c r r := .of_same rfl fun _ => rfl

theorem LeftAlone.after_same {r₀ r' : Room} (h : LeftAlone c r r') (hu : r.users = r₀.users)
    (ha : r₀.active ≠ 0 → r.active = r₀.active) : LeftAlone c r₀ r' := by
  obtain ⟨users, freed⟩ := h
  rw [hu] at users freed
  exact ⟨users, fun h0 => freed (ha h0 ▸ h0)⟩

section Leaving
variable {T : RoomTable} {c : Ctx} {st : Stanza} {i : Fin MAX_ROOMS} {nick : Str}

theorem mod_same {f : Room → Room} (hu : ∀ r, (f r).users = r.users) (ha : ∀ r, (f r).active = r.active)
    (k : Fin MAX_ROOMS) : LeftAlone c (T k) (T.mod i f k) := by
  by_cases hk : k = i
  · subst hk
    rw [T.mod_self]
    exact .of_same (hu _) fun _ => ha _
  · rw [T.mod_of_ne hk]
    exact .refl c _

theorem released_users (k : Fin MAX_ROOMS) : (T.released i k).users = (T k).users := by
  unfold RoomTable.released
  split
  · rfl
  · by_cases hk : k = i
    · subst hk
      rw [T.mod_self]
      split <;> rfl
    · rw [T.mod_of_ne hk]

theorem released_other {k : Fin MAX_ROOMS} (hk : k ≠ i) : T.released i k = T k := by
  unfold RoomTable.released
  split
  · rfl
  · exact T.mod_of_ne hk _

theorem enter_found {name : Str} (h : T.find name = some i) : T.enter c name = some (i, T) := by
  simp only [RoomTable.enter, h]

/-- Entering leaves everyone where they are. -/
theorem enter_same {name : Str} {T₁ : RoomTable} (h : T.enter c name = some (i, T₁)) (k : Fin MAX_ROOMS) :
    (T₁ k).users = (T k).users ∧ ((T k).active ≠ 0 → (T₁ k).active = (T k).active) := by
  unfold RoomTable.enter at h
  split at h
  · cases h
    exact ⟨rfl, fun _ => rfl⟩
  · split at h
    · rename_i i' hi
      cases h
      by_cases hk : k = i
      · subst hk
        refine ⟨by rw [T.mod_self]; rfl, fun ha => absurd ?_ ha⟩
        simpa using firstIdx_some hi
      · rw [T.mod_of_ne hk]
        exact ⟨rfl, fun _ => rfl⟩
    · cases h

/-- Whoever has the nick goes. -/
theorem leave_gone {j : Fin MAX_USERS_PER_ROOM} (hj : (T i).firstUser (·.nick == nick) = some j) :
    ((T.leave i nick i).users j) = .zero := by
  simp only [RoomTable.leave, hj]
  rw [released_users, T.mod_self]
  exact Function.update_self ..

theorem leave_own (h : ∀ j, (T i).firstUser (·.nick == nick) = some j → ((T i).users j).jid = bare c.full_jid)
    (k : Fin MAX_ROOMS) : LeftAlone c (T k) (T.leave i nick k) := by
  unfold RoomTable.leave
  cases hj : (T i).firstUser (·.nick == nick) with
  | none => exact .refl c _
  | some j =>
    by_cases hk : k = i
    · subst hk
      refine ⟨fun l _ hl => ?_, fun _ _ => ⟨j, (firstUser_some hj).1, h j hj⟩⟩
      have hlj : l ≠ j := fun e => hl (e ▸ h j hj)
      dsimp only
      rw [released_users, T.mod_self]
      exact Function.update_of_ne hlj _ _
    · dsimp only
      rw [released_other hk, T.mod_of_ne hk]
      exact .refl c _

/-- The occupant of the nick that an unavailable presence names is its sender. -/
def LeavesOwn (T : RoomTable) (c : Ctx) (st : Stanza) : Prop :=
  ∀ t i T₁, mucTarget st.to_ = some t → T.enter c t.room_name = some (i, T₁) → ¬ RoomTable.shut (T₁ i) c →
    ∀ j, (T₁ i).firstUser (·.nick == t.nick) = some j → ((T₁ i).users j).jid = bare c.full_jid

theorem presence_leftAlone_iff (hu : st.type = .PRESENCE_UNAVAILABLE) :
    (∀ k, LeftAlone c (T k) (T.presence c st k)) ↔ LeavesOwn T c st := by
  unfold RoomTable.presence LeavesOwn
  cases ht : mucTarget st.to_ with
  | none => exact iff_of_true (fun k => .refl c _) nofun
  | some t =>
    dsimp only
    cases he : T.enter c t.room_name with
    | none =>
      refine iff_of_true (fun k => .refl c _) ?_
      rintro _ i T₁ ⟨⟩ h
      rw [he] at h
      cases h
    | some p =>
      obtain ⟨i, T₁⟩ := p
      have same := enter_same he
      have own : (∀ k, LeftAlone c (T k) (T₁.attend i c st t.nick k)) ↔ (¬ RoomTable.shut (T₁ i) c →
          ∀ j, (T₁ i).firstUser (·.nick == t.nick) = some j → ((T₁ i).users j).jid = bare c.full_jid) := by
        unfold RoomTable.attend
        by_cases hs : RoomTable.shut (T₁ i) c
        · rw [if_pos hs]
          exact iff_of_true (fun k => .of_same (same k).1 (same k).2) fun h => absurd hs h
        · rw [if_neg hs, if_pos hu]
          refine ⟨fun h _ j hj => ?_, fun h k => (leave_own (h hs) k).after_same (same k).1 (same k).2⟩
          by_contra hne
          have hact := (firstUser_some hj).1
          have hkept := (h i).users j
          rw [← (same i).1, leave_gone hj] at hkept
          rw [← hkept hact hne] at hact
          exact absurd hact (by decide)
      refine own.trans ⟨?_, fun h => h t i T₁ rfl he⟩
      rintro h _ _ _ ⟨⟩ he' hs
      rw [he] at he'
      cases he'
      exact h hs

/-- Only a set ends a room. -/
theorem owner_leftAlone (h : st.type ≠ .IQ_SET) (k : Fin MAX_ROOMS) : LeftAlone c (T k) (T.owner st k) := by
  have hd : ¬ RoomTable.wantDestroy st := fun hd => h hd.1
  unfold RoomTable.owner
  rw [if_neg hd]
  split
  · unfold RoomTable.owned
    cases T.find (roomName st.to_) with
    | none => exact .refl c _
    | some i => exact mod_same (f := fun r => r.configure st.payload) (fun _ => rfl) (fun _ => rfl) k
  · exact .refl c _

theorem message_leftAlone (k : Fin MAX_ROOMS) : LeftAlone c (T k) (T.message st k) := by
  unfold RoomTable.message
  split
  · cases T.find (localPart st.to_) with
    | none => exact .refl c _
    | some i =>
      cases newSubject st.payload with
      | none => exact .refl c _
      | some subj => exact mod_same (f := fun r => { r with subject := subj }) (fun _ => rfl) (fun _ => rfl) k
  · exact .refl c _

end Leaving

/-- An unavailable presence leaves everyone but its sender alone exactly when it comes too early, is no
presence in a room, or the nick it names is the sender's own there. Nothing is asked about the state. -/
theorem leave_own_iff (s : Server) (me : Slot) {st : Stanza} (h : StanzaOk st)
    (hs : .AUTHENTICATED ≤ (s.client_registry me).state) (hu : st.type = .PRESENCE_UNAVAILABLE) :
    let c := s.client_registry me
    (∀ i, LeftAlone c (s.stores.rooms i) ((xmpp_route_stanza me st s).2.stores.rooms i)) ↔
      (.SESSION ≤ c.state → roomRequest st = some .presence → LeavesOwn s.stores.rooms c st) := by
  intro c
  obtain ⟨-, hT, -⟩ := route_rooms h hs
  rw [hT]
  by_cases hlt : c.state < .SESSION
  · rw [RoomTable.handle_early _ hlt]
    exact iff_of_true (fun i => .refl c _) fun hge => absurd hlt (Nat.not_lt.mpr hge)
  · rw [RoomTable.handle_eq_serve _ hlt]
    have hge : .SESSION ≤ c.state := Nat.not_lt.mp hlt
    have hset : st.type ≠ .IQ_SET := by rw [hu]; decide
    cases hq : roomRequest st with
    | none => exact iff_of_true (fun i => .refl c _) nofun
    | some q =>
      cases q with
      | presence =>
        refine (presence_leftAlone_iff hu).trans ⟨fun h _ _ => h, fun h => h hge rfl⟩
      | owner => exact iff_of_true (owner_leftAlone hset) nofun
      | admin =>
        refine iff_of_true (fun i => ?_) nofun
        simp only [RoomTable.serve, RoomTable.admin, hset, false_and, if_false]
        exact .refl c _
      | message => exact iff_of_true message_leftAlone nofun

/-- The other user leaves under its own nick. -/
def bobLeaves : Stanza :=
  { Stanza.zero with
    type := .PRESENCE_UNAVAILABLE, to_ := cat [HALL, "/bob"], xmlns := RoomTable.NS_MUC }

theorem leave_own_bob :
    (((xmpp_route_stanza 1 bobLeaves gathered).2.stores.rooms 0).users 1).active = false ∧
      ∀ i, LeftAlone (gathered.client_registry 1) (gathered.stores.rooms i)
        ((xmpp_route_stanza 1 bobLeaves gathered).2.stores.rooms i) := by
  have htarget : (mucTarget bobLeaves.to_) = some ⟨lit "bob", lit HALL, lit "hall"⟩ := by decide +kernel
  have hfind : RoomTable.find gathered.stores.rooms (lit "hall") = some 0 := by decide +kernel
  have hjid : ∀ j, (gathered.stores.rooms 0).firstUser (·.nick == lit "bob") = some j →
      ((gathered.stores.rooms 0).users j).jid = bare (gathered.client_registry 1).full_jid := by decide +kernel
  refine ⟨by decide +kernel, ?_⟩
  refine (leave_own_iff gathered 1 ⟨by decide, by decide⟩ (by decide +kernel) rfl).mpr fun _ _ => ?_
  intro t i T₁ ht he _
  obtain rfl := Option.some.inj (htarget.symm.trans ht)
  obtain ⟨rfl, rfl⟩ := Prod.mk.inj (Option.some.inj ((enter_found hfind).symm.trans he))
  exact hjid

/-- The other user ends the creator's stay under the creator's nick, and with it the room when nobody
else was there. -/
theorem stranger_leaves_for_creator :
    let s := (lifeOf (visit 7 authAdmin [inHall "ada" ""] ++ visit 8 authUser1 [])).run fun _ => []
    let s' := step s (.recv 8 [passed (inHall "ada" " type='unavailable'")] true)
    ((s.stores.rooms 0).active ≠ 0 ∧ ((s.stores.rooms 0).users 0).active ∧
      ((s.stores.rooms 0).users 0).jid = lit "admin@angelic.local" ∧
      bare (s.client_registry 1).full_jid = lit "user1@angelic.local") ∧
    ((s'.stores.rooms 0).users 0).active = false ∧ (s'.stores.rooms 0).active = 0 := by
  decide +kernel

end Angelic.Proofs
