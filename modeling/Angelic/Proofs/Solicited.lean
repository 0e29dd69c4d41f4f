import Angelic.Proofs.Mutual

namespace Angelic.Proofs
open CString Model Spec StateRel

/-! Whose stanzas change a roster, and what its user asked for before. -/

/-- The context has the name of the user, or an address with it. -/
def SentBy (c : Ctx) (v : Str) : Prop := c.username = v ∨ localPart (bare c.full_jid) = v

instance (c : Ctx) (v : Str) : Decidable (SentBy c v) := inferInstanceAs (Decidable (_ ∨ _))

/-- What a stanza of the user asks about a contact: to subscribe to it, or to end that. -/
def asks (v jid : Str) (p : Ctx × Stanza) : Option Bool :=
  if SentBy p.1 v ∧ bare p.2.to_ = jid then
    if p.2.type = .PRESENCE_SUBSCRIBE then some true
    else if p.2.type = .PRESENCE_UNSUBSCRIBE then some false else none
  else none

/-- The user asked to subscribe to a contact, and did not end that later. -/
def Requested (log : List (Ctx × Stanza)) (v jid : Str) : Prop := (log.filterMap (asks v jid)).getLast? = some true

instance (log : List (Ctx × Stanza)) (v jid : Str) : Decidable (Requested log v jid) :=
  inferInstanceAs (Decidable (_ = _))

/-- A stanza that may change the roster of a user: it is one of the user, or answers a request of the user. -/
def MayChange (log : List (Ctx × Stanza)) (v : Str) (p : Ctx × Stanza) : Prop :=
  SentBy p.1 v ∨
    (p.2.type = .PRESENCE_SUBSCRIBED ∨ p.2.type = .PRESENCE_UNSUBSCRIBED) ∧ Requested log v (bare p.1.full_jid)

namespace Roster
variable {T : Roster}

theorem get_upsert_of_ne (h : T.Distinct) {user : Str} {k : Str × Str} (hk : k.1 ≠ user) (item : Str) :
    (T.upsert user item).get k = T.get k := by
  have hne : ∀ jid, k ≠ (user, jid) := fun jid he => hk (by rw [he])
  unfold upsert
  split
  · rfl
  · split
    · exact h.get_drop_of_ne (hne _)
    · exact h.get_put_of_ne (hne _) _

/-- A roster set leaves the rosters of the others. -/
theorem get_setItems_of_ne (h : T.Distinct) {user : Str} {k : Str × Str} (hk : k.1 ≠ user) (items : List Str) :
    (T.setItems user items).get k = T.get k :=
  (foldl_keeps (P := fun T' : Roster => T'.Distinct ∧ T'.get k = T.get k)
    (fun _ item ht => ⟨upsert_distinct ht.1 user item, (get_upsert_of_ne ht.1 hk item).trans ht.2⟩) items ⟨h, rfl⟩).2

/-- A presence of `u` finds nothing to change about it on the roster of `v`: the entry reads as the presence
wants it, or as it would be written; or there is none and no slot for one. -/
def Settled (T : Roster) (v jid u target : Str) (b : Bool) : Prop :=
  (∀ xml, T.get (v, jid) = some xml →
      newSubscription true b (subscriptionOf xml) = subscriptionOf xml ∨
        subscriptionItem xml jid (newSubscription true b (subscriptionOf xml)) = xml) ∧
    (T.get (v, jid) = none → b = true → T.room.card ≤ T.absent (u, target))

/-- An entry is the same after the change of its subscription. -/
theorem get_subscribe_self (h : T.Distinct) (v jid : Str) (b : Bool) :
    (T.subscribe v jid true b).get (v, jid) = T.get (v, jid) ↔ (∀ xml, T.get (v, jid) = some xml →
          newSubscription true b (subscriptionOf xml) = subscriptionOf xml ∨
            subscriptionItem xml jid (newSubscription true b (subscriptionOf xml)) = xml) ∧
        (T.get (v, jid) = none → b = true → T.room.card = 0) := by
  have hfull : T.free = none ↔ T.room.card = 0 := by rw [Finset.card_eq_zero, SlotTable.room_eq_empty]
  unfold subscribe subscription
  dsimp only
  cases hg : T.get (v, jid) with
  | none =>
    have hs := SlotTable.get_eq_none.mp hg
    rw [Option.elim_none]
    cases b with
    | false => simp [newSubscription, hg]
    | true =>
      rw [if_neg (by decide), h.get_put_self]
      simp [hs, hfull]
  | some xml =>
    have hs : T.slot (v, jid) ≠ none := fun hs => by
      rw [SlotTable.get_eq_none.mpr hs] at hg
      cases hg
    rw [Option.elim_some, Option.getD_some]
    by_cases hn : newSubscription true b (subscriptionOf xml) = subscriptionOf xml
    · simp [hn, hg]
    · rw [if_neg hn, h.get_put_self, if_neg fun hf => hs hf.1]
      simp [hn]

/-- The entry of the receiver is the same after both changes. -/
theorem get_tells_self (h : T.Distinct) {u v : Str} (huv : u ≠ v) (jid target : Str) (b : Bool) :
    ((T.subscribe u target false b).subscribe v jid true b).get (v, jid) = T.get (v, jid) ↔
      T.Settled v jid u target b := by
  have hk : (v, jid) ≠ (u, target) := fun he => huv (Prod.mk.inj he).1.symm
  have hsame : (T.subscribe u target false b).get (v, jid) = T.get (v, jid) := get_subscribe_of_ne h hk
  rw [← hsame, get_subscribe_self (subscribe_distinct h _ _ _ _), hsame, room_subscribe, Settled]
  refine and_congr Iff.rfl (forall_congr' fun _ => forall_congr' fun hb => ?_)
  rw [hb, if_neg (by decide), Nat.sub_eq_zero_iff_le]

/-- A presence of one who was not asked finds the roster of its receiver as it wants it. -/
def Heeds (T : Roster) (log : List (Ctx × Stanza)) (p : Ctx × Stanza) : Prop :=
  tellsRosters p.1 p.2 → ¬ SentBy p.1 (localPart (bare p.2.to_)) →
    ¬ Requested log (localPart (bare p.2.to_)) (bare p.1.full_jid) →
    T.Settled (localPart (bare p.2.to_)) (bare p.1.full_jid) (localPart (bare p.1.full_jid)) (bare p.2.to_)
      (decide (p.2.type = .PRESENCE_SUBSCRIBED))

/-- Whether a stanza changes only rosters it may change. -/
theorem handle_heeds_iff (h : T.Distinct) (log : List (Ctx × Stanza)) (c : Ctx) (st : Stanza) :
    (∀ v jid, (T.handle c st).get (v, jid) ≠ T.get (v, jid) → MayChange log v (c, st)) ↔ T.Heeds log (c, st) := by
  by_cases hs : setsRoster c st
  · have ht : ¬ tellsRosters c st := fun ht => absurd (hs.2.1.symm.trans ht.2.1) (by decide)
    refine iff_of_true (fun v jid hne => ?_) fun h => absurd h ht
    by_contra hv
    have hcv : v ≠ c.username := fun he => hv (.inl (.inl he.symm))
    rw [handle, if_pos hs] at hne
    exact hne (get_setItems_of_ne h hcv _)
  · by_cases ht : tellsRosters c st
    · rw [Heeds, forall_prop_of_true ht, handle, if_neg hs, if_pos ht]
      constructor
      · intro hall hsent hreq
        have huv : localPart (bare c.full_jid) ≠ localPart (bare st.to_) := fun he => hsent (.inr he)
        refine (get_tells_self h huv _ _ _).mp ?_
        by_contra hne
        rcases hall _ _ hne with hc | ⟨-, hr⟩
        · exact hsent hc
        · exact hreq hr
      · intro hset v jid hne
        by_contra hmay
        simp only [MayChange, not_or, not_and] at hmay
        have huv : localPart (bare c.full_jid) ≠ v := fun he => hmay.1 (.inr he)
        by_cases hk : (v, jid) = (localPart (bare st.to_), bare c.full_jid)
        · obtain ⟨rfl, rfl⟩ := Prod.mk.inj hk
          exact hne ((get_tells_self h huv _ _ _).mpr (hset hmay.1 (hmay.2 ht.2.2.2.2)))
        · refine hne ?_
          rw [get_subscribe_of_ne (subscribe_distinct h _ _ _ _) hk,
            get_subscribe_of_ne h fun he => huv (Prod.mk.inj he).1.symm]
    · rw [handle, if_neg hs, if_neg ht]
      exact iff_of_true (fun _ _ hne => absurd rfl hne) fun h => absurd h ht

end Roster

/-- All stanzas of some lives, one after the other. -/
def told (d : Disk) : List Life → List (Ctx × Stanza)
  | [] => []
  | l :: ls => (l.run d).routed ++ told (l.run d).mem.disk ls

/-- After any lives, the stanzas of the last one change only rosters of those who sent them or asked for them,
exactly if every presence of one who was not asked finds the roster of its receiver as it wants it. -/
theorem rosters_heed_iff (d : Disk) (hd : (rosterView (rosterImage d)).Distinct) (ls : List Life) (l : Life) :
    let s := l.run (reboots d ls)
    let T := fun n => (rosterView (l.on (reboots d ls)).boot.stores.roster_store).after (s.routed.take n)
    rosterView s.stores.roster_store = T s.routed.length ∧
      ((∀ (n : Fin s.routed.length) v jid, (T (n + 1)).get (v, jid) ≠ (T n).get (v, jid) →
          MayChange (told d ls ++ s.routed.take n) v (s.routed.get n)) ↔
        ∀ n : Fin s.routed.length, (T n).Heeds (told d ls ++ s.routed.take n) (s.routed.get n)) := by
  intro s T
  have hT : ∀ n, (T n).Distinct := foldl_all (boot_rosterOk (l.on (reboots d ls)) (reboots_rosterOk ls hd)).rosters
    fun T p _ h => Roster.handle_distinct h p.1 p.2
  refine ⟨?_, forall_congr' fun n => ?_⟩
  · simp only [T, List.take_length]
    exact (run_entered (l.on (reboots d ls)) l.events).rosters
  · have hstep : T (n + 1) = (T n).handle (s.routed.get n).1 (s.routed.get n).2 := foldl_take_succ ..
    rw [hstep]
    exact Roster.handle_heeds_iff (hT n) _ _ _

/-- A user asks to subscribe, and the contact approves. -/
def courted : Life :=
  lifeOf (visit 7 authUser1 [cat ["<presence type='subscribe' to='admin@angelic.local'/>"]] ++
    visit 8 authAdmin [approval])

theorem rosters_heed_courted :
    let s := courted.run (reboots (fun _ => []) [])
    (rosterView s.stores.roster_store).get (lit "user1", lit "admin@angelic.local") =
        some (lit "<item jid='admin@angelic.local' subscription='to'/>") ∧
      ∀ (n : Fin s.routed.length) v jid,
        let T := fun n => (rosterView (courted.on fun _ => []).boot.stores.roster_store).after (s.routed.take n)
        (T (n + 1)).get (v, jid) ≠ (T n).get (v, jid) → MayChange (s.routed.take n) v (s.routed.get n) := by
  obtain ⟨-, hiff⟩ := rosters_heed_iff (fun _ => []) distinct_blank [] courted
  have hasked : ∀ n : Fin (courted.run (reboots (fun _ => []) [])).routed.length,
      let p := (courted.run (reboots (fun _ => []) [])).routed.get n
      tellsRosters p.1 p.2 → Requested ((courted.run (reboots (fun _ => []) [])).routed.take n)
        (localPart (bare p.2.to_)) (bare p.1.full_jid) := by decide +kernel
  refine ⟨by decide +kernel, hiff.mpr fun n ht _ hr => absurd (hasked n ht) hr⟩

/-- A user who never sent anything has a contact. -/
theorem unasked_contact :
    let s := (lifeOf (visit 7 authAdmin [approval])).run fun _ => []
    (rosterView ((lifeOf []).run fun _ => []).stores.roster_store).get (lit "user1", lit "admin@angelic.local") = none ∧
      (rosterView s.stores.roster_store).get (lit "user1", lit "admin@angelic.local") =
        some (lit "<item jid='admin@angelic.local' subscription='to'/>") ∧
      s.routed.all (fun p => !decide (SentBy p.1 (lit "user1"))) = true := by
  decide +kernel

end Angelic.Proofs
