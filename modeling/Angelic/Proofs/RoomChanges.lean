import Angelic.Proofs.RoomRights
import Angelic.Proofs.Formats
import Mathlib.Data.List.TakeWhile

namespace Angelic.Proofs
open CString Model Relation

variable {s : Server}

/-! What a stanza can do to one room, and what follows for those who are in it. -/

/-- The room `r` before a stanza of context `c`, and after it. -/
inductive RoomChange (c : Ctx) (r : Room) : Room → Prop where
  | same : RoomChange c r r
  | destroyed : RoomChange c r .zero
  | configured (payload) : RoomChange c r (r.configure payload)
  | subject (text) : RoomChange c r { r with subject := text }
  | kicked (j) (hj : (r.users j).active) (want_ban : Bool) :
      RoomChange c r ((if want_ban then r.ban (bare (r.users j).jid) else r).setUser j .zero)
  | left (j) : RoomChange c r (r.setUser j .zero)
  | released (j) : RoomChange c r (r.setUser j .zero).release
  | renamed (k nick) (hk : (r.users k).active ∧ (r.users k).jid = bare c.full_jid) :
      RoomChange c r (r.setUser k { r.users k with nick := strncpy 31 nick })
  | joined (nick) (hb : r.banned (bare c.full_jid) = false)
      (hj : ∀ j, (r.users j).active → (r.users j).jid ≠ bare c.full_jid) : RoomChange c r (r.join c nick)

section Table
variable {T : RoomTable} {c : Ctx} {st : Stanza} {i : Fin MAX_ROOMS}
variable (k : Fin MAX_ROOMS)

/-- A change to one room is a change to every room. -/
theorem change_mod {f : Room → Room} (h : RoomChange c (T i) (f (T i))) (k : Fin MAX_ROOMS) :
    RoomChange c (T k) (T.mod i f k) := by
  by_cases hk : k = i
  · subst hk
    rwa [T.mod_self]
  · rw [T.mod_of_ne hk]
    exact .same

theorem owner_change : RoomChange c (T k) (T.owner st k) := by
  have howned : ∀ f, (∀ r, RoomChange c r (f r)) → RoomChange c (T k) (T.owned st f k) := by
    intro f hf
    unfold RoomTable.owned
    cases T.find (roomName st.to_) with
    | none => exact .same
    | some i => exact change_mod (hf _) k
  unfold RoomTable.owner
  split
  · exact howned _ fun _ => .destroyed
  · split
    · exact howned _ fun _ => .configured _
    · exact .same

theorem admin_change : RoomChange c (T k) (T.admin st k) := by
  unfold RoomTable.admin
  split
  · cases hi : T.find (roomName st.to_) with
    | none =>
      have hk : T.kick st (RoomTable.wantBan st) = T := by simp only [RoomTable.kick, RoomTable.target, hi]
      rw [hk]
      exact .same
    | some i =>
      rw [kick_eq hi]
      cases hj : kicked (T i) st with
      | none => exact .same
      | some j => exact change_mod (.kicked j (firstUser_some hj).1 _) k
  · exact .same

theorem message_change : RoomChange c (T k) (T.message st k) := by
  unfold RoomTable.message
  split
  · cases T.find (localPart st.to_) with
    | none => exact .same
    | some i =>
      cases newSubject st.payload with
      | none => exact .same
      | some subj => exact change_mod (.subject _) k
  · exact .same

theorem leave_change (nick : Str) (k : Fin MAX_ROOMS) : RoomChange c (T k) (T.leave i nick k) := by
  unfold RoomTable.leave
  cases hj : (T i).firstUser (·.nick == nick) with
  | none => exact .same
  | some j =>
    by_cases hk : k = i
    · subst hk
      dsimp only
      unfold RoomTable.released
      split
      · rw [T.mod_self]
        exact .left j
      · rw [RoomTable.mod_self, T.mod_self]
        split
        · exact .released j
        · exact .left j
    · dsimp only
      rw [released_other hk, T.mod_of_ne hk]
      exact .same

theorem attend_change (nick : Str) (k : Fin MAX_ROOMS) : RoomChange c (T k) (T.attend i c st nick k) := by
  unfold RoomTable.attend
  split
  · exact .same
  · split
    · exact leave_change nick k
    · unfold RoomTable.arrive
      cases hj : (T i).firstUser (·.jid == bare c.full_jid) with
      | some j =>
        obtain ⟨ha, he⟩ := firstUser_some hj
        dsimp only
        unfold RoomTable.rename
        split
        · exact .same
        · exact change_mod (.renamed j nick ⟨ha, by simpa using he⟩) k
      | none =>
        dsimp only
        unfold RoomTable.join
        split
        · exact .same
        · rename_i hb
          rw [not_or, Bool.not_eq_true] at hb
          refine change_mod (.joined nick hb.1 fun j ha => ?_) k
          simpa using firstUser_none hj j ha

/-- A room as it is entered: one in use, or a new one in a free slot. -/
def Opened (c : Ctx) (r r₁ : Room) : Prop := r₁ = r ∨ r.active = 0 ∧ ∃ name, r₁ = r.create name c.full_jid

theorem presence_change : ∃ r, Opened c (T k) r ∧ RoomChange c r (T.presence c st k) := by
  have same : ∃ r, Opened c (T k) r ∧ RoomChange c r (T k) := ⟨T k, .inl rfl, .same⟩
  unfold RoomTable.presence
  cases mucTarget st.to_ with
  | none => exact same
  | some t =>
    dsimp only
    cases hf : T.find t.room_name with
    | some i =>
      rw [enter_found hf]
      exact ⟨T k, .inl rfl, attend_change _ k⟩
    | none =>
      unfold RoomTable.enter
      rw [hf]
      cases hi : firstIdx (fun i => (T i).active == 0) with
      | none => exact same
      | some i =>
        refine ⟨T.mod i (fun r => r.create t.room_name c.full_jid) k, ?_, attend_change _ k⟩
        by_cases hk : k = i
        · subst hk
          rw [T.mod_self]
          exact .inr ⟨by simpa using firstIdx_some hi, _, rfl⟩
        · rw [T.mod_of_ne hk]
          exact .inl rfl

/-- A stanza opens a room in a free slot, or leaves the room as it is, and then does one thing to it. -/
theorem handle_change (T : RoomTable) (c : Ctx) (st : Stanza) (k : Fin MAX_ROOMS) :
    ∃ r, Opened c (T k) r ∧ RoomChange c r (T.handle c st k) := by
  by_cases hlt : c.state < .SESSION
  · rw [T.handle_early hlt]
    exact ⟨T k, .inl rfl, .same⟩
  · rw [T.handle_eq_serve hlt]
    cases roomRequest st with
    | none => exact ⟨T k, .inl rfl, .same⟩
    | some q =>
      cases q with
      | presence => exact presence_change k
      | owner => exact ⟨T k, .inl rfl, owner_change k⟩
      | admin => exact ⟨T k, .inl rfl, admin_change k⟩
      | message => exact ⟨T k, .inl rfl, message_change k⟩

end Table

/-! What the handlers of rooms send. -/

def RoomRequest.texts : RoomRequest → Server → Slot → Stanza → List Sent
  | presence => Texts.mucPresence
  | owner => Texts.owner
  | admin => Texts.admin
  | message => Texts.message

theorem sent_request {me : Slot} {st : Stanza} {q : RoomRequest} (h : roomRequest st = some q)
    (hs : .SESSION ≤ (s.client_registry me).state) : sent s me st = q.texts s me st := by
  unfold roomRequest at h
  split at h
  · cases h
  · rename_i hx
    have hr : ¬ restarts st := hx
    rw [Service.find_router, Option.isNone_map] at h
    unfold sent
    rw [if_neg hr]
    cases hk : Service.of st.xmlns with
    | none =>
      simp only [hk, Option.isNone_none, if_true] at h
      dsimp only
      unfold Texts.byKind
      dsimp only
      split at h
      · rename_i hm
        cases h
        exact if_pos ⟨hs, hm⟩
      · rename_i hm
        rw [if_neg fun hc => hm hc.2]
        split at h
        · rename_i hp
          split at h
          · rename_i hc
            cases h
            rw [if_pos ⟨hs, hp⟩, Texts.routePresence, if_pos hc]
            rfl
          · cases h
        · rename_i hp
          split at h
          · rename_i hq
            cases h
            rw [if_neg fun hc => hp hc.2, if_pos ⟨hs, hq.1⟩, Texts.unknownRequest, if_pos hq.2]
            rfl
          · cases h
    | some k =>
      have hmin : ¬ (s.client_registry me).state < .SESSION := Nat.not_lt.mpr hs
      have found : ∀ k', Service.of k'.xmlns = some k' → st.xmlns = k'.xmlns → k = k' := by
        intro k' hk' he
        rw [he, hk'] at hk
        exact (Option.some.inj hk).symm
      simp only [hk, Option.isNone_some, Bool.false_eq_true, if_false] at h
      dsimp only
      split at h
      · rename_i he
        cases h
        obtain rfl := found .muc rfl he
        exact if_neg hmin
      · split at h
        · rename_i he
          cases h
          obtain rfl := found .mucOwner rfl he
          exact if_neg hmin
        · split at h
          · rename_i he
            cases h
            obtain rfl := found .mucAdmin rfl he
            exact if_neg hmin
          · cases h

/-! What the records of occupants hold. -/

theorem bare_bare (jid : Str) : bare (bare jid) = bare jid := by
  have hh := bare_holds jid
  have hs : strncpy 63 (bare jid) = bare jid := by
    rw [strncpy, cstr_of_clean hh.2, List.take_of_length_le (Nat.le_of_lt_succ hh.1)]
  rw [bare, hs]
  exact List.takeWhile_idem

/-- A nick in 32 bytes and a bare address. -/
structure Entitled (p : Participant) : Prop where
  nick : Holds 32 p.nick
  jid : bare p.jid = p.jid

def AllEntitled (r : Room) : Prop := ∀ j, (r.users j).active → Entitled (r.users j)

/-- What a change does to the places of a room, which is entered only if `E` holds. -/
inductive Placed (E : Prop) (c : Ctx) (u : Fin MAX_USERS_PER_ROOM → Participant) : (Fin MAX_USERS_PER_ROOM → Participant) → Prop where
  | kept : Placed E c u u
  | emptied : Placed E c u fun _ => .zero
  | freed (j) : Placed E c u (Function.update u j .zero)
  | renamed (k nick) (hk : (u k).active) : Placed E c u (Function.update u k { u k with nick := strncpy 31 nick })
  | taken (j nick pcb) (he : E) (hj : ∀ k, (u k).active → (u k).jid ≠ bare c.full_jid) :
    Placed E c u (Function.update u j ⟨pcb, strncpy 31 nick, bare c.full_jid, true⟩)

theorem join_placed {E : Prop} (he : E) {c : Ctx} {r : Room} (hj : ∀ j, (r.users j).active → (r.users j).jid ≠ bare c.full_jid)
    (nick : Str) : Placed E c r.users (r.join c nick).users := by
  unfold Room.join
  cases firstIdx (fun j => !(r.users j).active) with
  | none => exact .kept
  | some j => exact .taken j nick c.pcb he hj

theorem RoomChange.placed {c : Ctx} {r r' : Room} (h : RoomChange c r r') :
    Placed (r.banned (bare c.full_jid) = false) c r.users r'.users := by
  cases h with
  | same => exact .kept
  | destroyed => exact .emptied
  | configured payload => exact .kept
  | subject text => exact .kept
  | kicked j hj want_ban =>
    cases want_ban with
    | false => exact .freed j
    | true =>
      obtain ⟨jids, n, he⟩ := ban_eq r (bare (r.users j).jid)
      rw [if_pos rfl, he]
      exact .freed j
  | left j => exact .freed j
  | released j => exact .freed j
  | renamed k nick hk => exact .renamed k nick hk.1
  | joined nick hb hj => exact join_placed hb hj nick

/-- What holds of every occupant still does if it holds of one that is renamed or comes in. -/
theorem Placed.every {E : Prop} {c : Ctx} {P : Fin MAX_USERS_PER_ROOM → Participant → Prop}
    {u u' : Fin MAX_USERS_PER_ROOM → Participant} (h : Placed E c u u') (hu : ∀ j, (u j).active → P j (u j))
    (hn : ∀ j nick, P j (u j) → P j { u j with nick := strncpy 31 nick })
    (hc : E → ∀ j nick pcb, P j ⟨pcb, strncpy 31 nick, bare c.full_jid, true⟩) (j : Fin MAX_USERS_PER_ROOM) :
    (u' j).active → P j (u' j) := by
  have set : ∀ {k p}, (p.active → P k p) → ∀ j, (Function.update u k p j).active → P j (Function.update u k p j) :=
    fun hp => (Function.forall_update_iff u (p := fun j q => q.active → P j q)).mpr ⟨hp, fun j _ => hu j⟩
  cases h with
  | kept => exact hu j
  | emptied => exact fun hj => absurd hj Bool.false_ne_true
  | freed k => exact set (fun hj => absurd hj Bool.false_ne_true) j
  | renamed k nick hk => exact set (fun _ => hn k nick (hu k hk)) j
  | taken k nick pcb he => exact set (fun _ => hc he k nick pcb) j

theorem Placed.entitled {E : Prop} {c : Ctx} {u u' : Fin MAX_USERS_PER_ROOM → Participant} (h : Placed E c u u')
    (hu : ∀ j, (u j).active → Entitled (u j)) (j : Fin MAX_USERS_PER_ROOM) : (u' j).active → Entitled (u' j) :=
  h.every (P := fun _ => Entitled) hu (fun _ nick he => ⟨strncpy_holds 31 nick, he.jid⟩)
    (fun _ _ nick _ => ⟨strncpy_holds 31 nick, bare_bare _⟩) j

/-- Who is in a room after a change was there before, or has made it and is not banned. -/
theorem RoomChange.occupant {c : Ctx} {r r' : Room} (h : RoomChange c r r') {j : Fin MAX_USERS_PER_ROOM}
    (hj : (r'.users j).active) : ((r.users j).active = true ∧ (r'.users j).jid = (r.users j).jid) ∨
      (r'.users j).jid = bare c.full_jid ∧ r.banned (bare c.full_jid) = false :=
  h.placed.every (P := fun j p => ((r.users j).active = true ∧ p.jid = (r.users j).jid) ∨
      p.jid = bare c.full_jid ∧ r.banned (bare c.full_jid) = false)
    (fun _ hj => .inl ⟨hj, rfl⟩) (fun _ _ h => h) (fun hb _ _ _ => .inr ⟨rfl, hb⟩) j hj

/-- A state between two actions of a run. -/
def Arises (m : Machine) (s : Server) : Prop := ReflTransGen Action m.boot s

theorem Arises.life (l : Life) (d : Disk) : Arises (l.on d) (l.run d) := run_actions _ _

/-- What holds of the places of an empty room, and is kept by every change, holds of every room. -/
theorem Arises.users {P : (Fin MAX_USERS_PER_ROOM → Participant) → Prop} (hempty : ∀ u, (∀ j, (u j).active = false) → P u)
    (hkeep : ∀ {E c u u'}, Placed E c u u' → P u → P u') {m : Machine} (h : Arises m s) (i : Fin MAX_ROOMS) :
    P (s.stores.rooms i).users := by
  have handled : ∀ (T : RoomTable) (o : Ctx × Stanza), (∀ i, P (T i).users) → ∀ i, P (T.handle o.1 o.2 i).users := by
    intro T o hT i
    obtain ⟨r, hr, hc⟩ := handle_change T o.1 o.2 i
    refine hkeep hc.placed ?_
    rcases hr with rfl | ⟨-, name, rfl⟩
    · exact hT i
    · exact hT i
  induction h generalizing i with
  | refl => exact hempty _ (boot_empty m i)
  | tail _ ha ih =>
    obtain ⟨o, ho⟩ := action_handled ha
    rw [ho.rooms]
    exact StateRel.foldl_keeps (P := fun T : RoomTable => ∀ i, P (T i).users) handled o.toList ih i

theorem Arises.entitled {m : Machine} (h : Arises m s) : ∀ i, AllEntitled (s.stores.rooms i) :=
  h.users (P := fun u => ∀ j, (u j).active → Entitled (u j))
    (fun _ hu j hj => absurd hj (by rw [hu j]; exact Bool.false_ne_true)) Placed.entitled

end Angelic.Proofs
