import Angelic.Proofs.RoomRights

namespace Angelic.Proofs
open CString Model StateRel Relation Spec

/-! Rooms that nobody is in, and occupants that have no session. -/

theorem occupied_iff {r : Room} : r.occupied = true ↔ ∃ j, (r.users j).active = true := by
  rw [← not_iff_not, Bool.not_eq_true, occupied_eq_false]
  simp

/-- Every temporary room has someone in it. -/
def Peopled (T : RoomTable) : Prop := ∀ i, (T i).active ≠ 0 → (T i).persistent = 0 → (T i).occupied

instance (T : RoomTable) : Decidable (Peopled T) := inferInstanceAs (Decidable (∀ _, _))

/-- A temporary room that loses its last occupant without being given back, is opened by someone who
leaves it, or was persistent until it was empty. -/
def Vacates (T : RoomTable) (st : Stanza) : Option RoomRequest → Prop
  | some .presence => st.type = .PRESENCE_UNAVAILABLE ∧
      ∃ t ∈ mucTarget st.to_, T.find t.room_name = none ∧ ∃ i, (T i).active = 0
  | some .admin => st.type = .IQ_SET ∧ (RoomTable.wantKick st ∨ RoomTable.wantBan st) ∧
      ∃ i ∈ T.find (roomName st.to_), ∃ j ∈ kicked (T i) st, (T i).persistent = 0 ∧
        ∀ k, k ≠ j → ((T i).users k).active = false
  | some .owner => ¬ RoomTable.wantDestroy st ∧ RoomTable.wantConfigure st ∧
      ∃ i ∈ T.find (roomName st.to_), (T i).occupied = false ∧
        boolField st.payload "muc#roomconfig_persistentroom" (T i).persistent = 0
  | _ => False

instance (T : RoomTable) (st : Stanza) : (q : Option RoomRequest) → Decidable (Vacates T st q)
  | some .presence => inferInstanceAs (Decidable (_ ∧ _))
  | some .admin => inferInstanceAs (Decidable (_ ∧ _))
  | some .owner => inferInstanceAs (Decidable (_ ∧ _))
  | some .message => inferInstanceAs (Decidable False)
  | none => inferInstanceAs (Decidable False)

section Peopled
variable {T : RoomTable} {c : Ctx} {st : Stanza} {i : Fin MAX_ROOMS}

/-- The change of one room is what counts. -/
theorem peopled_mod_iff (h : Peopled T) (f : Room → Room) : Peopled (T.mod i f) ↔
      ((f (T i)).active ≠ 0 → (f (T i)).persistent = 0 → (f (T i)).occupied = true) := by
  constructor
  · intro hm
    have := hm i
    rwa [T.mod_self] at this
  · intro hi k
    by_cases hk : k = i
    · subst hk
      rwa [T.mod_self]
    · rw [T.mod_of_ne hk]
      exact h k

theorem peopled_leave (h : Peopled T) (nick : Str) : Peopled (T.leave i nick) := by
  unfold RoomTable.leave
  cases hj : (T i).firstUser (·.nick == nick) with
  | none => exact h
  | some j =>
    dsimp only
    intro k
    by_cases hk : k = i
    · subst hk
      unfold RoomTable.released
      split
      · rename_i ho
        exact fun _ _ => ho
      · rw [RoomTable.mod_self]
        split
        · exact fun ha => absurd rfl ha
        · rename_i hp
          exact fun _ h0 => absurd h0 hp
    · rw [released_other hk, T.mod_of_ne hk]
      exact h k

theorem join_occupied {r : Room} (h : r.occupied = true ∨ ∃ j, (r.users j).active = false) (nick : Str) :
    (r.join c nick).occupied = true := by
  unfold Room.join
  cases hf : firstIdx (fun j => !(r.users j).active) with
  | some j => exact occupied_iff.mpr ⟨j, by simp [Room.setUser]⟩
  | none =>
    rcases h with h | ⟨j, hj⟩
    · exact h
    · have := firstIdx_none hf j
      simp [hj] at this

theorem peopled_arrive (h : Peopled T) (nick : Str) : Peopled (T.arrive i c nick) := by
  unfold RoomTable.arrive
  cases hk : (T i).firstUser (·.jid == bare c.full_jid) with
  | some k =>
    dsimp only
    unfold RoomTable.rename
    split
    · exact h
    · refine (peopled_mod_iff h _).mpr fun _ _ => occupied_iff.mpr ⟨k, ?_⟩
      simpa [Room.setUser] using (firstUser_some hk).1
  | none =>
    dsimp only
    unfold RoomTable.join
    split
    · exact h
    · refine (peopled_mod_iff h _).mpr fun ha hp => join_occupied ?_ nick
      by_cases ho : (T i).occupied
      · exact .inl ho
      · refine .inr ⟨0, ?_⟩
        exact occupied_eq_false.mp (by simpa using ho) 0

/-- The first presence in a room that was not there. -/
theorem peopled_create_iff (hT : Tidy T) (h : Peopled T) {name : Str} (hi : (T i).active = 0) (nick : Str) :
    Peopled (RoomTable.attend (T.mod i fun r => r.create name c.full_jid) i c st nick) ↔
      st.type ≠ .PRESENCE_UNAVAILABLE := by
  have hv : Vacant (T i) := (hT.room i).vacant hi
  let r := (T i).create name c.full_jid
  have hr : (T.mod i fun r => r.create name c.full_jid) i = r := T.mod_self i _
  have nobody : ∀ p, r.firstUser p = none := by
    intro p
    exact List.find?_eq_none.mpr fun j _ => by simp [r, Room.create, hv.users j]
  have hopen : ¬ RoomTable.shut r c := fun hs => hs.1 rfl
  unfold RoomTable.attend
  rw [hr, if_neg hopen]
  by_cases hu : st.type = .PRESENCE_UNAVAILABLE
  · rw [if_pos hu]
    refine iff_of_false (fun hp => ?_) fun hne => hne hu
    have hleave : RoomTable.leave (T.mod i fun r => r.create name c.full_jid) i nick =
        T.mod i fun r => r.create name c.full_jid := by
      simp only [RoomTable.leave, hr, nobody]
    rw [hleave, peopled_mod_iff h] at hp
    have ho := hp (by decide : (1 : Int32) ≠ 0) hv.persistent
    obtain ⟨j, hj⟩ := occupied_iff.mp ho
    rw [show (r.users j).active = false from hv.users j] at hj
    cases hj
  · rw [if_neg hu]
    refine iff_of_true ?_ hu
    have hjoin : RoomTable.arrive (T.mod i fun r => r.create name c.full_jid) i c nick =
        (T.mod i fun r => r.create name c.full_jid).mod i fun r => r.join c nick := by
      simp only [RoomTable.arrive, RoomTable.join, hr, nobody]
      rw [if_neg]
      simp [banned_none (show r.banned_count = 0 from hv.banned_count)]
    rw [hjoin]
    intro k
    by_cases hk : k = i
    · subst hk
      rw [RoomTable.mod_self, hr]
      exact fun _ _ => join_occupied (r := r) (.inr ⟨0, hv.users 0⟩) nick
    · rw [RoomTable.mod_of_ne _ hk, RoomTable.mod_of_ne _ hk]
      exact h k

theorem peopled_presence_iff (hT : Tidy T) (h : Peopled T) :
    Peopled (T.presence c st) ↔ ¬ Vacates T st (some .presence) := by
  unfold RoomTable.presence
  cases ht : mucTarget st.to_ with
  | none =>
    refine iff_of_true h ?_
    rintro ⟨-, t, hm, -⟩
    rw [ht] at hm
    cases hm
  | some t =>
    have hvac : Vacates T st (some .presence) ↔
        st.type = .PRESENCE_UNAVAILABLE ∧ T.find t.room_name = none ∧ ∃ i, (T i).active = 0 := by
      simp only [Vacates, ht, Option.mem_some_iff, exists_eq_left']
    rw [hvac]
    dsimp only
    cases hf : T.find t.room_name with
    | some i =>
      rw [enter_found hf]
      dsimp only
      refine iff_of_true ?_ nofun
      unfold RoomTable.attend
      split
      · exact h
      · split
        · exact peopled_leave h t.nick
        · exact peopled_arrive h t.nick
    | none =>
      cases he : firstIdx (fun i => (T i).active == 0) with
      | none =>
        simp only [RoomTable.enter, hf, he]
        refine iff_of_true h ?_
        rintro ⟨-, -, i, hi⟩
        have := firstIdx_none he i
        simp [hi] at this
      | some i =>
        have hi : (T i).active = 0 := by simpa using firstIdx_some he
        simp only [RoomTable.enter, hf, he]
        rw [peopled_create_iff hT h hi]
        exact not_congr ⟨fun hu => ⟨hu, trivial, i, hi⟩, fun hu => hu.1⟩

theorem peopled_admin_iff (h : Peopled T) : Peopled (T.admin st) ↔ ¬ Vacates T st (some .admin) := by
  unfold RoomTable.admin
  by_cases hw : st.type = .IQ_SET ∧ (RoomTable.wantKick st ∨ RoomTable.wantBan st)
  · rw [if_pos hw]
    cases hi : T.find (roomName st.to_) with
    | none =>
      refine iff_of_true ?_ ?_
      · simpa only [RoomTable.kick, RoomTable.target, hi] using h
      · rintro ⟨-, -, i, hm, -⟩
        rw [hi] at hm
        cases hm
    | some i =>
      rw [kick_eq hi]
      simp only [Vacates, hw, hi, true_and, Option.mem_some_iff, exists_eq_left']
      cases hj : kicked (T i) st with
      | none => exact iff_of_true h (by simp)
      | some j =>
        obtain ⟨jids, n, hb⟩ := ban_eq (T i) (bare ((T i).users j).jid)
        have hact : (T i).active ≠ 0 := (RoomTable.find_some hi).1
        -- a ban leaves the occupants and the configuration as they are
        let r := (if RoomTable.wantBan st then (T i).ban (bare ((T i).users j).jid) else T i)
        have hr : r.users = (T i).users ∧ r.active = (T i).active ∧ r.persistent = (T i).persistent := by
          simp only [r]
          split
          · rw [hb]
            exact ⟨rfl, rfl, rfl⟩
          · exact ⟨rfl, rfl, rfl⟩
        have ho : (r.setUser j .zero).occupied = true ↔ ∃ k, k ≠ j ∧ ((T i).users k).active = true := by
          rw [occupied_iff]
          refine exists_congr fun k => ?_
          simp only [Room.setUser, hr.1]
          by_cases hk : k = j
          · subst hk
            simp [Participant.zero]
          · simp [hk]
        dsimp only
        rw [peopled_mod_iff h]
        change (r.active ≠ 0 → r.persistent = 0 → (r.setUser j .zero).occupied = true) ↔ _
        rw [hr.2.1, hr.2.2, ho]
        simp [hact]
  · rw [if_neg hw]
    exact iff_of_true h fun hv => hw ⟨hv.1, hv.2.1⟩

theorem peopled_owner_iff (h : Peopled T) : Peopled (T.owner st) ↔ ¬ Vacates T st (some .owner) := by
  unfold RoomTable.owner
  cases hi : T.find (roomName st.to_) with
  | none =>
    have howned : ∀ f, T.owned st f = T := fun f => by simp only [RoomTable.owned, hi]
    simp only [howned, ite_self]
    refine iff_of_true h ?_
    rintro ⟨-, -, i, hm, -⟩
    rw [hi] at hm
    cases hm
  | some i =>
    have howned : ∀ f, T.owned st f = T.mod i f := fun f => by simp only [RoomTable.owned, hi]
    have hact : (T i).active ≠ 0 := (RoomTable.find_some hi).1
    simp only [howned, Vacates, hi, Option.mem_some_iff, exists_eq_left']
    by_cases hd : RoomTable.wantDestroy st
    · rw [if_pos hd]
      refine iff_of_true ((peopled_mod_iff h _).mpr fun ha => absurd rfl ha) fun hv => hv.1 hd
    · rw [if_neg hd]
      by_cases hc : RoomTable.wantConfigure st
      · rw [if_pos hc, peopled_mod_iff h]
        change ((T i).active ≠ 0 → boolField st.payload "muc#roomconfig_persistentroom" (T i).persistent = 0 →
          (T i).occupied = true) ↔ _
        simp only [hact, hd, hc, ne_eq, not_false_eq_true, forall_const, true_and, not_and]
        rw [← Bool.not_eq_false]
        exact ⟨fun hp ho h0 => hp h0 ho, fun hp h0 ho => hp ho h0⟩
      · rw [if_neg hc]
        exact iff_of_true h fun hv => hc hv.2.1

theorem peopled_message (h : Peopled T) : Peopled (T.message st) := by
  unfold RoomTable.message
  split
  · cases T.find (localPart st.to_) with
    | none => exact h
    | some i =>
      cases newSubject st.payload with
      | none => exact h
      | some subj => exact (peopled_mod_iff h _).mpr (h i)
  · exact h

/-- What one stanza does to the property. -/
theorem peopled_handle_iff (hT : Tidy T) (h : Peopled T) :
    Peopled (T.handle c st) ↔ ¬ (.SESSION ≤ c.state ∧ Vacates T st (roomRequest st)) := by
  by_cases hlt : c.state < .SESSION
  · rw [T.handle_early hlt]
    exact iff_of_true h fun hv => absurd hlt (Nat.not_lt.mpr hv.1)
  · rw [T.handle_eq_serve hlt, not_and]
    refine .trans ?_ (forall_prop_of_true (Nat.not_lt.mp hlt)).symm
    cases roomRequest st with
    | none => exact iff_of_true h id
    | some q =>
      cases q with
      | presence => exact peopled_presence_iff hT h
      | owner => exact peopled_owner_iff h
      | admin => exact peopled_admin_iff h
      | message => exact iff_of_true (peopled_message h) id

end Peopled

/-- The stanza of a context in session that leaves a temporary room empty. -/
def Vacated (T : RoomTable) (p : Ctx × Stanza) : Prop :=
  .SESSION ≤ p.1.state ∧ Vacates T p.2 (roomRequest p.2)

instance (T : RoomTable) (p : Ctx × Stanza) : Decidable (Vacated T p) := inferInstanceAs (Decidable (_ ∧ _))

section Log
variable {T : RoomTable} {log : List (Ctx × Stanza)}

/-- The property holds all along a log when it holds at first and no stanza of it breaks it. -/
theorem peopled_log_iff (hT : ∀ n, Tidy (T.after (log.take n))) : (∀ n, Peopled (T.after (log.take n))) ↔
      Peopled T ∧ ∀ n : Fin log.length, ¬ Vacated (T.after (log.take n)) (log.get n) :=
  foldl_all_iff (Q := fun T p => ¬ Vacated T p) fun n h => peopled_handle_iff (hT n) h

end Log

/-- The tables in between are tidy too. -/
theorem actions_tidy {s₀ s : Server} (h0 : (view s₀).Ok) (hc : ReflTransGen Action s₀ s) :
    ∃ log, Handled s₀ s log ∧ ∀ n, Tidy (RoomTable.after s₀.stores.rooms (log.take n)) := by
  induction hc with
  | refl =>
    refine ⟨[], .of_frame rfl rfl, fun n => ?_⟩
    rw [List.take_nil]
    exact h0.table
  | tail _ ha ih =>
    obtain ⟨log, hl, ht⟩ := ih
    obtain ⟨o, ho⟩ := action_handled ha
    have hall := hl.trans ho
    refine ⟨_, hall, fun n => ?_⟩
    by_cases hn : n ≤ log.length
    · rw [List.take_append_of_le_length hn]
      exact ht n
    · have hlen : o.toList.length ≤ 1 := by cases o <;> simp
      rw [List.take_of_length_le (by rw [List.length_append]; omega), ← hall.rooms]
      exact (Rooms.steps_ok hall.steps h0).table

/-- In every life a temporary room always has someone in it, between any two stanzas, exactly when no
temporary room is loaded and no stanza routed for a session leaves one empty. The table at the end is
what all the stanzas made of the one at power on. -/
theorem rooms_peopled_iff (d : Disk) (hd : Tidy (roomImage d)) (ls : List Life) (l : Life) :
    let T : RoomTable := (l.on (reboots d ls)).boot.stores.rooms
    let s := l.run (reboots d ls)
    s.stores.rooms = T.after s.routed ∧
      ((∀ n, Peopled (T.after (s.routed.take n))) ↔
        (∀ i, (T i).active ≠ 0 → (T i).persistent ≠ 0) ∧
          ∀ n : Fin s.routed.length, ¬ Vacated (T.after (s.routed.take n)) (s.routed.get n)) := by
  intro T s
  have hboot := boot_ok (l.on (reboots d ls)) (reboots_ok ls hd)
  obtain ⟨log, hl, ht⟩ := actions_tidy hboot (run_actions (l.on (reboots d ls)) l.events)
  have hlog : s.routed = log := hl.routed
  refine ⟨hlog ▸ hl.rooms, ?_⟩
  have hT : ∀ n, Tidy (T.after (s.routed.take n)) := hlog ▸ ht
  rw [peopled_log_iff hT]
  refine and_congr_left fun _ => forall_congr' fun i => ?_
  have hempty : (T i).occupied = false := occupied_eq_false.mpr (boot_empty _ i)
  simp [hempty]

/-- The room of two users always has one of them. -/
theorem rooms_peopled_gathering :
    (gathered.stores.rooms 0).active ≠ 0 ∧ (gathered.stores.rooms 0).persistent = 0 ∧
      Peopled gathered.stores.rooms := by
  obtain ⟨hrooms, hiff⟩ := rooms_peopled_iff (fun _ => []) tidy_blank [] gathering
  have hboot : ∀ i, ((gathering.on fun _ => []).boot.stores.rooms i).active ≠ 0 →
      ((gathering.on fun _ => []).boot.stores.rooms i).persistent ≠ 0 := by
    decide +kernel
  have hlog : ∀ n : Fin gathered.routed.length,
      ¬ Vacated (RoomTable.after (gathering.on fun _ => []).boot.stores.rooms (gathered.routed.take n))
        (gathered.routed.get n) := by
    decide +kernel
  have hall := hiff.mpr ⟨hboot, hlog⟩ (gathering.run (reboots (fun _ => []) [])).routed.length
  rw [List.take_length, ← hrooms] at hall
  exact ⟨by decide +kernel, by decide +kernel, hall⟩

/-- Leaving a room that is not there opens it, and nobody is in it. -/
theorem leaving_opens_room :
    let s := (lifeOf (visit 7 authAdmin [inHall "ada" " type='unavailable'"])).run fun _ => []
    (s.stores.rooms 0).active ≠ 0 ∧ (s.stores.rooms 0).persistent = 0 ∧
      (s.stores.rooms 0).occupied = false := by
  decide +kernel

end Angelic.Proofs
