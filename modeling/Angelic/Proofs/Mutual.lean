import Angelic.Proofs.ItemText
import Angelic.Proofs.Rosters

namespace Angelic.Proofs
open CString Model Spec StateRel

/-! Subscriptions between two users of the server: who sends presence on one roster is who receives it on the
other. A presence of type `subscribed` or `unsubscribed` changes both rosters, or should. -/

def Subscription.hasTo : Subscription → Bool
  | .to_ => true | .both => true | .from_ => false | .none_ => false

def Subscription.hasFrom : Subscription → Bool
  | .from_ => true | .both => true | .to_ => false | .none_ => false

/-- A presence that comes in sets or clears the one direction and keeps the other. -/
theorem newSubscription_inbound (b : Bool) (cur : Subscription) :
    Subscription.hasTo (newSubscription true b cur) = b ∧
      Subscription.hasFrom (newSubscription true b cur) = Subscription.hasFrom cur := by
  cases b <;> cases cur <;> decide

theorem newSubscription_outbound (b : Bool) (cur : Subscription) :
    Subscription.hasFrom (newSubscription false b cur) = b ∧
      Subscription.hasTo (newSubscription false b cur) = Subscription.hasTo cur := by
  cases b <;> cases cur <;> decide

theorem localPart_address {u : Str} (h : LocalUser u) : localPart (address u) = u := by
  have hat : ch '@' ∉ u := fun hm => by
    have := List.any_eq_false.mp h.chars _ hm
    exact this (by decide)
  have hd : lit "@angelic.local" = ch '@' :: lit "angelic.local" := by decide
  rw [localPart, address, hd, List.takeWhile_append_of_pos fun c hc => ?_, List.takeWhile_cons_of_neg (by simp),
    List.append_nil, List.take_of_length_le (Nat.le_of_lt_succ h.holds.1)]
  rw [bne_iff_ne]
  exact fun he => hat (he ▸ hc)

theorem address_inj {u v : Str} (h : address u = address v) : u = v := List.append_cancel_right h

namespace Roster
variable {T : Roster} {user jid : Str} {inbound b : Bool}

/-- One for a contact that is not on the roster. -/
def absent (T : Roster) (k : Str × Str) : Nat := if T.get k = none then 1 else 0

theorem subscription_absent (h : T.get (user, jid) = none) : T.subscription user jid = .none_ := by
  rw [subscription, h, Option.elim_none]

/-- A change of one subscription leaves the others. -/
theorem get_subscribe_of_ne (h : T.Distinct) {k : Str × Str} (hk : k ≠ (user, jid)) :
    (T.subscribe user jid inbound b).get k = T.get k := by
  unfold subscribe
  dsimp only
  split
  · rfl
  · exact h.get_put_of_ne hk _

theorem subscription_subscribe_of_ne (h : T.Distinct) {u j : Str} (hk : (u, j) ≠ (user, jid)) :
    (T.subscribe user jid inbound b).subscription u j = T.subscription u j := by
  rw [subscription, get_subscribe_of_ne h hk, subscription]

/-- A slot is taken by a contact that was not on the roster, if there is one. -/
theorem room_subscribe (T : Roster) (user jid : Str) (inbound b : Bool) : (T.subscribe user jid inbound b).room.card =
    T.room.card - if newSubscription inbound b .none_ = .none_ then 0 else T.absent (user, jid) := by
  unfold subscribe absent
  dsimp only
  by_cases hg : T.get (user, jid) = none
  · rw [subscription_absent hg, if_pos hg]
    split
    · rfl
    · have hs := SlotTable.get_eq_none.mp hg
      cases hf : T.free with
      | none =>
        have hput : T.put (user, jid) (subscriptionItem ((T.get (user, jid)).getD []) jid
            (newSubscription inbound b .none_)) = T := by rw [SlotTable.put, hs, hf]; rfl
        have hz : T.room.card = 0 := Finset.card_eq_zero.mpr (SlotTable.room_eq_empty.mpr hf)
        rw [hput, hz]
      | some i =>
        obtain ⟨hr, hm⟩ := SlotTable.room_put_of_new hs hf
          (subscriptionItem ((T.get (user, jid)).getD []) jid (newSubscription inbound b .none_))
        rw [hr, Finset.card_erase_of_mem hm]
  · rw [if_neg hg, ite_self, Nat.sub_zero]
    split
    · rfl
    · cases hs : T.slot (user, jid) with
      | none => exact absurd (SlotTable.get_eq_none.mpr hs) hg
      | some i => rw [SlotTable.room_put_of_held hs]

/-- The items for users of the server are as the server writes them. -/
structure Written (T : Roster) : Prop where
  distinct : T.Distinct
  items : ∀ {u v xml : Str}, LocalUser v → T.get (u, address v) = some xml → ∃ sub, ItemOf (address v) sub xml

theorem Written.nothing : Written fun _ => none := by
  refine ⟨distinct_none, fun _ h => ?_⟩
  obtain ⟨i, hi⟩ := distinct_none.get.mp h
  cases hi

/-- What is on the entry when its item is rewritten. -/
theorem Written.old (h : T.Written) {u v : Str} (hv : LocalUser v) :
    (T.get (u, address v)).getD [] = [] ∨ ∃ cur, ItemOf (address v) cur ((T.get (u, address v)).getD []) := by
  cases hg : T.get (u, address v) with
  | none => exact .inl rfl
  | some xml => exact .inr (h.items hv hg)

theorem Written.subscribe (h : T.Written) : (T.subscribe user jid inbound b).Written := by
  refine ⟨subscribe_distinct h.distinct _ _ _ _, @fun u v xml hv hg => ?_⟩
  by_cases hk : (u, address v) = (user, jid)
  · obtain ⟨rfl, rfl⟩ := Prod.mk.inj hk
    unfold Roster.subscribe at hg
    dsimp only at hg
    split at hg
    · exact h.items hv hg
    · rw [h.distinct.get_put_self] at hg
      split at hg
      · cases hg
      · rw [← Option.some.inj hg]
        exact ⟨_, subscriptionItem_itemOf (address_plain hv) (h.old hv) _⟩
  · rw [get_subscribe_of_ne h.distinct hk] at hg
    exact h.items hv hg

/-- The subscription that is changed reads as the new one, if it could be stored. -/
theorem Written.subscription_self (h : T.Written) {u v : Str} (hv : LocalUser v) :
    (T.subscribe u (address v) inbound b).subscription u (address v) =
      if T.get (u, address v) = none ∧ T.room.card = 0 then .none_
      else newSubscription inbound b (T.subscription u (address v)) := by
  have hfull : T.slot (u, address v) = none ∧ T.free = none ↔ T.get (u, address v) = none ∧ T.room.card = 0 := by
    rw [SlotTable.get_eq_none, Finset.card_eq_zero, SlotTable.room_eq_empty]
  unfold Roster.subscribe
  dsimp only
  by_cases hn : newSubscription inbound b (T.subscription u (address v)) = T.subscription u (address v)
  · rw [if_pos hn, hn]
    split
    · rename_i hf
      exact subscription_absent hf.1
    · rfl
  · rw [if_neg hn, subscription, h.distinct.get_put_self]
    by_cases hf : T.slot (u, address v) = none ∧ T.free = none
    · rw [if_pos hf, if_pos (hfull.mp hf), Option.elim_none]
    · rw [if_neg hf, if_neg fun h => hf (hfull.mpr h), Option.elim_some]
      exact (subscriptionItem_itemOf (address_plain hv) (h.old hv) _).reads (address_plain hv)

/-- The direction that is changed, as `g` reads it from a subscription. -/
theorem Written.direction_set (h : T.Written) {u v : Str} (hv : LocalUser v) {g : Subscription → Bool}
    (h0 : g .none_ = false) (hb : ∀ cur, g (newSubscription inbound b cur) = b) :
    g ((T.subscribe u (address v) inbound b).subscription u (address v)) =
      (b && decide (T.absent (u, address v) ≤ T.room.card)) := by
  rw [h.subscription_self hv, absent]
  by_cases hg : T.get (u, address v) = none
  · by_cases hr : T.room.card = 0
    · simp [hg, hr, h0]
    · simp [hg, hr, hb, Nat.one_le_iff_ne_zero]
  · simp [hg, hb]

/-- The other direction is kept. -/
theorem Written.direction_kept (h : T.Written) {u v : Str} (hv : LocalUser v) {g : Subscription → Bool}
    (hk : ∀ cur, g (newSubscription inbound b cur) = g cur) :
    g ((T.subscribe u (address v) inbound b).subscription u (address v)) = g (T.subscription u (address v)) := by
  rw [h.subscription_self hv]
  split
  · rename_i hf
    rw [subscription_absent hf.1]
  · exact hk _

theorem subscribe_full (hg : T.get (user, jid) = none) (hr : T.room.card = 0) :
    T.subscribe user jid inbound b = T := by
  have hf : T.free = none := SlotTable.room_eq_empty.mp (Finset.card_eq_zero.mp hr)
  unfold subscribe
  dsimp only
  split
  · rfl
  · rw [SlotTable.put, SlotTable.get_eq_none.mp hg, hf]
    rfl

/-- Of any two users of the server the one sends to the other on its roster exactly if the other receives from
it on its own. -/
def Mutual (T : Roster) : Prop :=
  ∀ u v, LocalUser u → LocalUser v →
    Subscription.hasFrom (T.subscription u (address v)) = Subscription.hasTo (T.subscription v (address u))

/-- The two changes for a presence of a user. -/
def tell (T : Roster) (u target : Str) (b : Bool) : Roster :=
  (T.subscribe u target false b).subscribe (localPart target) (address u) true b

/-- The presences after which the rosters agree: those to the address of a user here, if there are slots for
both entries or for neither; those to another address with the name of a user here, if they change nothing on
the roster of that user; and those to other names. -/
def KeepsMutual (T : Roster) (u target : Str) (b : Bool) : Prop :=
  LocalUser (localPart target) →
    (target = address (localPart target) → b = true → u ≠ localPart target →
        T.absent (u, target) + T.absent (localPart target, address u) ≠ T.room.card + 1) ∧
      (target ≠ address (localPart target) →
        Subscription.hasTo (T.subscription (localPart target) (address u)) = b ∨
          b = true ∧ T.get (localPart target, address u) = none ∧ T.room.card ≤ T.absent (u, target))

instance (T : Roster) (u target : Str) (b : Bool) : Decidable (T.KeepsMutual u target b) :=
  inferInstanceAs (Decidable (_ → _ ∧ _))

theorem absent_le (T : Roster) (k : Str × Str) : T.absent k ≤ 1 := by
  unfold absent
  split <;> omega

theorem absent_subscribe_of_ne (h : T.Distinct) {k : Str × Str} (hk : k ≠ (user, jid)) :
    (T.subscribe user jid inbound b).absent k = T.absent k := by
  rw [absent, get_subscribe_of_ne h hk, absent]

section Tell
variable (h : T.Written) {u target : Str} (hu : LocalUser u)
include h hu

/-- Of what a user sends, a presence sets the one entry. -/
theorem tell_hasFrom {x y : Str} (hy : LocalUser y) :
    Subscription.hasFrom ((T.tell u target b).subscription x (address y)) =
      if (x, address y) = (u, target) then b && decide (T.absent (u, target) ≤ T.room.card)
      else Subscription.hasFrom (T.subscription x (address y)) := by
  have h₁ : (T.subscribe u target false b).Written := h.subscribe
  have hsecond : Subscription.hasFrom ((T.tell u target b).subscription x (address y)) =
      Subscription.hasFrom ((T.subscribe u target false b).subscription x (address y)) := by
    rw [tell]
    by_cases he : (x, address y) = (localPart target, address u)
    · obtain ⟨rfl, hyu⟩ := Prod.mk.inj he
      rw [hyu, h₁.direction_kept hu fun cur => (newSubscription_inbound b cur).2]
    · rw [subscription_subscribe_of_ne h₁.distinct he]
  rw [hsecond]
  split
  · rename_i he
    obtain ⟨rfl, rfl⟩ := Prod.mk.inj he
    exact h.direction_set hy rfl fun cur => (newSubscription_outbound b cur).1
  · rw [subscription_subscribe_of_ne h.distinct ‹_›]

/-- Of what a user receives, it sets one entry of the other roster. -/
theorem tell_hasTo {x y : Str} (hx : LocalUser x) :
    Subscription.hasTo ((T.tell u target b).subscription y (address x)) =
      if (y, address x) = (localPart target, address u) then
        b && decide ((T.subscribe u target false b).absent (localPart target, address u) ≤
          (T.subscribe u target false b).room.card)
      else Subscription.hasTo (T.subscription y (address x)) := by
  have h₁ : (T.subscribe u target false b).Written := h.subscribe
  rw [tell]
  split
  · rename_i he
    obtain ⟨rfl, hxu⟩ := Prod.mk.inj he
    rw [hxu, h₁.direction_set hu rfl fun cur => (newSubscription_inbound b cur).1]
  · rw [subscription_subscribe_of_ne h₁.distinct ‹_›]
    by_cases he : (y, address x) = (u, target)
    · obtain ⟨rfl, rfl⟩ := Prod.mk.inj he
      exact h.direction_kept hx fun cur => (newSubscription_outbound b cur).2
    · rw [subscription_subscribe_of_ne h.distinct he]

/-- The two entries between the users are all that the agreement hangs on. -/
theorem tell_mutual_iff_pair (hm : T.Mutual) :
    (T.tell u target b).Mutual ↔ (LocalUser (localPart target) →
      (if target = address (localPart target) then b && decide (T.absent (u, target) ≤ T.room.card)
        else Subscription.hasTo (T.subscription (localPart target) (address u))) =
      (b && decide ((T.subscribe u target false b).absent (localPart target, address u) ≤
        (T.subscribe u target false b).room.card))) := by
  have hkey : (u, address (localPart target)) = (u, target) ↔ target = address (localPart target) :=
    ⟨fun he => (Prod.mk.inj he).2.symm, fun he => by rw [← he]⟩
  refine ⟨fun hmt hv => ?_, fun hpair x y hx hy => ?_⟩
  · have he := hmt u _ hu hv
    rw [tell_hasFrom h hu hv, tell_hasTo h hu hu, if_pos rfl, hm u _ hu hv] at he
    simpa only [hkey] using he
  · rw [tell_hasFrom h hu hy, tell_hasTo h hu hx]
    by_cases hxy : y = localPart target ∧ x = u
    · obtain ⟨rfl, rfl⟩ := hxy
      rw [if_pos rfl, ← hpair hy, hm x _ hx hy]
      simp only [hkey]
    · have h1 : (x, address y) ≠ (u, target) := by
        intro he
        obtain ⟨hxu, rfl⟩ := Prod.mk.inj he
        exact hxy ⟨(localPart_address hy).symm, hxu⟩
      have h2 : (y, address x) ≠ (localPart target, address u) := fun he =>
        hxy ⟨(Prod.mk.inj he).1, address_inj (Prod.mk.inj he).2⟩
      rw [if_neg h1, if_neg h2]
      exact hm x y hx hy

omit hu in
/-- The entry of the other roster, where it is not the one set first. -/
theorem tell_room (hk : (localPart target, address u) ≠ (u, target)) :
    (b && decide ((T.subscribe u target false b).absent (localPart target, address u) ≤
        (T.subscribe u target false b).room.card)) =
      (b && decide (T.absent (localPart target, address u) ≤ T.room.card - T.absent (u, target))) := by
  rw [absent_subscribe_of_ne h.distinct hk, room_subscribe]
  cases b <;> rfl

/-- A presence to oneself sets the same entry twice. -/
theorem tell_self (hself : target = address u) : (b && decide (T.absent (u, target) ≤ T.room.card)) =
      (b && decide ((T.subscribe u target false b).absent (u, address u) ≤ (T.subscribe u target false b).room.card)) := by
  subst hself
  cases b with
  | false => rfl
  | true =>
    by_cases hs : T.absent (u, address u) ≤ T.room.card
    · have hf := h.direction_set hu (u := u) rfl fun cur => (newSubscription_outbound true cur).1
      have h0 : (T.subscribe u (address u) false true).absent (u, address u) = 0 := by
        rw [absent, if_neg]
        intro hg
        rw [subscription_absent hg] at hf
        simp [hs, Subscription.hasFrom] at hf
      simp [hs, h0]
    · have ha := T.absent_le (u, address u)
      have hg : T.get (u, address u) = none := by
        by_contra hg
        rw [absent, if_neg hg] at hs
        omega
      rw [subscribe_full hg (by omega)]

/-- Whether the rosters agree after a presence. -/
theorem tell_mutual_iff (hm : T.Mutual) : (T.tell u target b).Mutual ↔ T.KeepsMutual u target b := by
  rw [tell_mutual_iff_pair h hu hm, KeepsMutual]
  refine forall_congr' fun hv => ?_
  have ha := T.absent_le (u, target)
  have ha' := T.absent_le (localPart target, address u)
  by_cases ht : target = address (localPart target)
  · rw [if_pos ht, forall_prop_of_true ht, and_iff_left fun h => absurd ht h]
    by_cases huv : u = localPart target
    · have hself : target = address u := by rw [huv]; exact ht
      rw [tell_self h hu hself, ← huv]
      exact iff_of_true rfl fun _ hne => absurd rfl hne
    · rw [tell_room h fun he => huv (Prod.mk.inj he).1.symm]
      cases b with
      | false => simp
      | true =>
        simp only [Bool.true_and, decide_eq_decide, ne_eq, huv, not_false_eq_true, forall_const]
        omega
  · have hk : (localPart target, address u) ≠ (u, target) := by
      intro he
      obtain ⟨hu', rfl⟩ := Prod.mk.inj he
      exact ht (by rw [hu'])
    rw [if_neg ht, forall_prop_of_true ht, and_iff_right fun h => absurd h ht, tell_room h hk]
    cases b with
    | false => simp
    | true =>
      by_cases hg : T.get (localPart target, address u) = none
      · have ha : T.absent (localPart target, address u) = 1 := if_pos hg
        have hs : Subscription.hasTo (T.subscription (localPart target) (address u)) = false := by
          rw [subscription_absent hg]
          rfl
        rw [hs, ha, Bool.true_and, eq_comm, decide_eq_false_iff_not]
        simp only [hg, Bool.false_eq_true, true_and, false_or]
        omega
      · have ha : T.absent (localPart target, address u) = 0 := if_neg hg
        simp [ha, hg]

end Tell

end Roster

/-- A context with a user's name and the address that binding gives it. -/
structure BoundUser (c : Ctx) : Prop where
  username : LocalUser c.username
  full_jid : ∃ n, c.full_jid = c.username ++ lit "@angelic.local/unikernel-" ++ decimal n

theorem BoundUser.bare {c : Ctx} (h : BoundUser c) : bare c.full_jid = address c.username := by
  obtain ⟨n, hn⟩ := h.full_jid
  have hJ := address_plain h.username
  have hsplit : c.full_jid = address c.username ++ ch '/' :: (lit "unikernel-" ++ decimal n) := by
    have hd : lit "@angelic.local/unikernel-" = lit "@angelic.local" ++ ch '/' :: lit "unikernel-" := by decide
    rw [hn, hd, address]
    simp only [List.append_assoc, List.cons_append]
  have hclean : 0 ∉ c.full_jid := by
    rw [hn]
    intro h0
    rcases List.mem_append.mp h0 with h0 | h0
    · rcases List.mem_append.mp h0 with h0 | h0
      · exact h.username.holds.2 h0
      · exact absurd h0 (by decide)
    · exact decimal_clean n h0
  have hlen : (address c.username).length < 63 := by
    have hl : (lit "@angelic.local").length = 14 := by decide
    have := h.username.holds.1
    rw [address, List.length_append, hl]
    omega
  obtain ⟨k, hk⟩ : ∃ k, 63 - (address c.username).length = k + 1 := ⟨62 - (address c.username).length, by omega⟩
  rw [Model.bare, strncpy, cstr_of_clean hclean, hsplit, List.take_append, List.take_of_length_le (by omega), hk,
    List.take_succ_cons, List.takeWhile_append_of_pos fun c hc => ?_, List.takeWhile_cons_of_neg (by simp),
    List.append_nil]
  rw [bne_iff_ne]
  exact fun he => hJ.slash (he ▸ hc)

namespace Roster

/-- A log without roster sets, in which the presences are those of bound users. -/
structure Presences (log : List (Ctx × Stanza)) : Prop where
  sets : ∀ p ∈ log, ¬ setsRoster p.1 p.2
  bound : ∀ p ∈ log, tellsRosters p.1 p.2 → BoundUser p.1

theorem handle_tells {T : Roster} {c : Ctx} {st : Stanza} (hs : ¬ setsRoster c st) (ht : tellsRosters c st)
    (hc : BoundUser c) :
    T.handle c st = T.tell c.username (bare st.to_) (decide (st.type = .PRESENCE_SUBSCRIBED)) := by
  rw [handle, if_neg hs, if_pos ht, hc.bare, localPart_address hc.username, tell]

theorem handle_other {T : Roster} {c : Ctx} {st : Stanza} (hs : ¬ setsRoster c st) (ht : ¬ tellsRosters c st) :
    T.handle c st = T := by
  rw [handle, if_neg hs, if_neg ht]

/-- A stanza after which the rosters agree. -/
def KeptMutual (T : Roster) (p : Ctx × Stanza) : Prop :=
  tellsRosters p.1 p.2 → T.KeepsMutual p.1.username (bare p.2.to_) (decide (p.2.type = .PRESENCE_SUBSCRIBED))

instance (T : Roster) (p : Ctx × Stanza) : Decidable (T.KeptMutual p) := inferInstanceAs (Decidable (_ → _))

theorem after_mutual_iff {log : List (Ctx × Stanza)} (hlog : Presences log) :
    (∀ n, (after (fun _ => none) (log.take n)).Mutual) ↔
      ∀ n : Fin log.length, (after (fun _ => none) (log.take n)).KeptMutual (log.get n) := by
  have hw : ∀ n, (after (fun _ => none) (log.take n)).Written := by
    refine foldl_all .nothing fun T p hp h => ?_
    by_cases ht : tellsRosters p.1 p.2
    · rw [handle_tells (hlog.sets p hp) ht (hlog.bound p hp ht)]
      exact h.subscribe.subscribe
    · rwa [handle_other (hlog.sets p hp) ht]
  have h0 : Mutual fun _ => none := by
    intro u v _ _
    have hn : ∀ k, SlotTable.get (fun _ => none : Roster) k = none := fun k => by
      rw [Option.eq_none_iff_forall_ne_some]
      intro a ha
      obtain ⟨i, hi⟩ := distinct_none.get.mp ha
      cases hi
    rw [subscription_absent (hn _), subscription_absent (hn _)]
    rfl
  refine (foldl_all_iff (Q := KeptMutual) fun n hm => ?_).trans (and_iff_right h0)
  have hp := List.get_mem log n
  by_cases ht : tellsRosters (log.get n).1 (log.get n).2
  · rw [handle_tells (hlog.sets _ hp) ht (hlog.bound _ hp ht), KeptMutual, forall_prop_of_true ht]
    exact tell_mutual_iff (hw n) (hlog.bound _ hp ht).username hm
  · rw [handle_other (hlog.sets _ hp) ht, KeptMutual]
    exact iff_of_true hm fun h => absurd h ht

end Roster

/-- From empty rosters, in a run in which they are changed by presences of bound users alone, the rosters of any
two users agree between all stanzas exactly if every such presence keeps them so. -/
theorem rosters_mutual_iff (m : Machine) (es : List Event) (h0 : ∀ i, (m.boot.stores.roster_store i).active = 0)
    (hlog : Roster.Presences (m.run es).routed) :
    let s := m.run es
    let T := fun n => (rosterView m.boot.stores.roster_store).after (s.routed.take n)
    rosterView s.stores.roster_store = T s.routed.length ∧
      ((∀ n, (T n).Mutual) ↔ ∀ n : Fin s.routed.length, (T n).KeptMutual (s.routed.get n)) := by
  intro s T
  have hempty : rosterView m.boot.stores.roster_store = fun _ => none := by
    funext i
    exact if_neg (not_not.mpr (h0 i))
  refine ⟨?_, ?_⟩
  · simp only [T, List.take_length]
    exact (run_entered m es).rosters
  · simp only [T, hempty]
    exact Roster.after_mutual_iff hlog

def approving : List Event := visit 7 authAdmin [approval]

theorem rosters_mutual_approving : (rosterView (blank.run approving).stores.roster_store).Mutual := by
  have h0 : ∀ i, (blank.boot.stores.roster_store i).active = 0 := by decide +kernel
  have hsets : (blank.run approving).routed.all (fun p => !decide (setsRoster p.1 p.2)) = true := by decide +kernel
  have hbound : (blank.run approving).routed.all (fun p => !decide (tellsRosters p.1 p.2) ||
      (decide (p.1.username = lit "admin") && decide (p.1.full_jid = lit "admin@angelic.local/unikernel-0"))) = true := by
    decide +kernel
  have hlog : Roster.Presences (blank.run approving).routed := by
    refine ⟨fun p hp => by simpa using List.all_eq_true.mp hsets p hp, fun p hp ht => ?_⟩
    have h := List.all_eq_true.mp hbound p hp
    simp only [ht, decide_true, Bool.not_true, Bool.false_or, Bool.and_eq_true, decide_eq_true_eq] at h
    refine ⟨?_, 0, ?_⟩
    · rw [h.1]
      decide
    · rw [h.2, h.1]
      decide
  obtain ⟨hT, hiff⟩ := rosters_mutual_iff blank approving h0 hlog
  rw [hT]
  refine hiff.mpr ?_ _
  decide +kernel

/-- An address elsewhere with the name of a user here: the user here receives presence from one who does not
send it. -/
theorem foreign_address_breaks_mutual :
    let T := rosterView (blank.run (visit 7 authAdmin
      [cat ["<presence type='subscribed' to='user1@elsewhere.org'/>"]])).stores.roster_store
    T.subscription (lit "admin") (address (lit "user1")) = .none_ ∧
      T.subscription (lit "user1") (address (lit "admin")) = .to_ := by
  decide +kernel

end Angelic.Proofs
