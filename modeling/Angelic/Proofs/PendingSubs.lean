import Angelic.Proofs.Addressees
import Angelic.Proofs.StoreImages

namespace Angelic.Proofs
open CString Model StateRel Relation

/-! The subscriptions that wait for a user: none waits twice, and what a new one can cost the others. -/

/-- What a subscription says: its kind, who it is from and who it waits for. -/
def tripleOf (e : PendingSub) : Str × Str × Str := (e.type.str, e.from_.str, e.to_user.str)

/-- No two active entries say the same. -/
def DistinctRequests (t : Stores) : Prop :=
  ∀ i j, (t.pending_subs i).active ≠ 0 → (t.pending_subs j).active ≠ 0 →
    tripleOf (t.pending_subs i) = tripleOf (t.pending_subs j) → i = j

/-- The entries that wait for another user are as before. -/
def SparesOthers (s : Server) (type from_ to_user : Str) : Prop :=
  ∀ i, (s.stores.pending_subs i).active ≠ 0 → (s.stores.pending_subs i).to_user.str ≠ to_user →
    (pending_sub_enqueue type from_ to_user s).2.stores.pending_subs i = s.stores.pending_subs i

/-- A slot is free, or one is the user's already. -/
def HasPlace (t : Stores) (to_user : Str) : Prop :=
  ∃ i, (t.pending_subs i).active = 0 ∨ (t.pending_subs i).to_user.str = to_user

/-! As a table of slots. -/

def requestKey (e : PendingSub) : Option ((Str × Str × Str) × Unit) :=
  if e.active ≠ 0 then some (tripleOf e, ()) else none

def requestTable (q : Subscriptions) : SlotTable MAX_PENDING_SUBS (Str × Str × Str) Unit := fun i => requestKey (q i)

theorem requestTable_holds (q : Subscriptions) (x : Str × Str × Str) (i : Fin MAX_PENDING_SUBS) :
    (requestTable q).holds x i = true ↔ (q i).active ≠ 0 ∧ tripleOf (q i) = x := by
  rw [SlotTable.holds, requestTable, requestKey]
  split <;> simp [*]

theorem distinctRequests_iff (t : Stores) : DistinctRequests t ↔ (requestTable t.pending_subs).Distinct := by
  constructor
  · intro h x i j hi hj
    obtain ⟨ha, hx⟩ := (requestTable_holds _ _ _).mp hi
    obtain ⟨hb, hy⟩ := (requestTable_holds _ _ _).mp hj
    exact h i j ha hb (hx.trans hy.symm)
  · intro h i j hi hj he
    exact h _ i j ((requestTable_holds _ _ _).mpr ⟨hi, he⟩) ((requestTable_holds _ _ _).mpr ⟨hj, rfl⟩)

section Stanza
variable {s : Server} {me : Slot} {st : Stanza}

theorem wordOf_holds (st : Stanza) : Holds 16 (wordOf st) := by
  unfold wordOf
  cases st.type <;> exact ⟨by decide, by decide⟩

/-- Nothing of what a stanza says is cut. -/
theorem tripleOf_request (i : Fin MAX_PENDING_SUBS) : tripleOf (request s me st (wordOf st) i) =
      (wordOf st, bare (s.client_registry me).full_jid, localPart (bare st.to_)) := by
  have htype : (request s me st (wordOf st) i).type.str = wordOf st := Buf.copied_whole _ (by decide) (wordOf_holds st)
  have hfrom : (request s me st (wordOf st) i).from_.str = bare (s.client_registry me).full_jid :=
    Buf.copied_whole _ (by decide) (bare_holds _)
  have hto : (request s me st (wordOf st) i).to_user.str = localPart (bare st.to_) :=
    Buf.copied_whole _ (by decide) (localPart_holds (bare_holds st.to_).2)
  rw [tripleOf, htype, hfrom, hto]

theorem not_known {type from_ to_user : Str} (h : ¬ known s type from_ to_user = true) (i : Fin MAX_PENDING_SUBS) :
    (requestTable s.stores.pending_subs).holds (type, from_, to_user) i = false := by
  rw [Bool.eq_false_iff, Ne, requestTable_holds]
  rintro ⟨ha, he⟩
  simp only [tripleOf, Prod.mk.injEq] at he
  have hn := firstIdx_none (Option.not_isSome_iff_eq_none.mp h) i
  simp [ha, he] at hn

theorem subSlot_unknown {i : Fin MAX_PENDING_SUBS} (h : subSlot s me st = some i) :
    ¬ known s (wordOf st) (bare (s.client_registry me).full_jid) (localPart (bare st.to_)) = true := by
  unfold subSlot requestSlot at h
  split at h
  · split at h
    · cases h
    · rename_i hn
      exact fun hk => hn (.inr hk)
  · cases h

theorem requested_distinct (h : (requestTable s.stores.pending_subs).Distinct) :
    (requestTable (requested s me st (wordOf st) (subSlot s me st))).Distinct := by
  cases hi : subSlot s me st with
  | none => exact h
  | some i =>
    have hnew := not_known (subSlot_unknown hi)
    have he : requestTable (requested s me st (wordOf st) (some i)) =
        Function.update (requestTable s.stores.pending_subs) i (some
          ((wordOf st, bare (s.client_registry me).full_jid, localPart (bare st.to_)), ())) := by
      funext j
      change requestKey (Function.update s.stores.pending_subs i (request s me st (wordOf st) i) j) = _
      by_cases hj : j = i
      · subst hj
        rw [Function.update_self, Function.update_self, requestKey, tripleOf_request]
        rfl
      · rw [Function.update_of_ne hj, Function.update_of_ne hj]
        rfl
    rw [he]
    refine h.update fun x a ho j _ => ?_
    obtain ⟨rfl, -⟩ := Prod.mk.inj (Option.some.inj ho)
    exact hnew j

theorem requests_last : Lasting .pending_subs DistinctRequests := by
  refine ⟨fun t u he h => ?_, fun i j hi => absurd rfl hi, fun {s me st} _ _ h => ?_⟩
  · have hu : u.pending_subs = t.pending_subs := he
    unfold DistinctRequests
    rw [hu]
    exact h
  · rw [distinctRequests_iff] at h ⊢
    rw [(route_sends s me st).2.subscriptions]
    unfold subscriptionsAfter
    split
    · refine h.take fun i => ?_
      unfold requestTable requestKey answered answeredOne
      by_cases hp : pends (s.client_registry me).username (s.stores.pending_subs i)
      · exact .inr (by rw [if_pos hp]; rfl)
      · exact .inl (by rw [if_neg hp])
    · exact requested_distinct h

end Stanza

/-! What an enqueue costs the others. -/

section Enqueue
variable {s : Server} {type from_ to_user : Str}

/-- One slot is written, unless the subscription waits already. -/
theorem pending_enqueue_stores (s : Server) (type from_ to_user : Str) :
    (pending_sub_enqueue type from_ to_user s).2.stores.pending_subs =
      if known s type from_ to_user then s.stores.pending_subs
      else Function.update s.stores.pending_subs (pendingSlot s.stores to_user)
        (pendingEntry (s.stores.pending_subs (pendingSlot s.stores to_user)) type from_ to_user) := by
  have hst : ∀ s' : Server, (persist xmpp_persist_save_pending_subs s').2.stores = s'.stores := fun s' =>
    (save_cases .pending_subs s'.mem).1
  unfold pending_sub_enqueue known
  simp only [bind_run, getStores]
  cases firstIdx fun i => ((s.stores.pending_subs i).active != 0 && (s.stores.pending_subs i).type.str == type &&
      (s.stores.pending_subs i).from_.str == from_ && (s.stores.pending_subs i).to_user.str == to_user) with
  | some i => rfl
  | none => exact congrArg Stores.pending_subs (hst _)

theorem known_place (h : known s type from_ to_user = true) : HasPlace s.stores to_user := by
  obtain ⟨i, hi⟩ := Option.isSome_iff_exists.mp h
  have hp := firstIdx_some hi
  simp only [Bool.and_eq_true, beq_iff_eq] at hp
  exact ⟨i, .inr hp.2⟩

/-- The slot of a new entry is free or the user's, if there is such a one. -/
theorem pendingSlot_place (h : HasPlace s.stores to_user) :
    (s.stores.pending_subs (pendingSlot s.stores to_user)).active = 0 ∨
      (s.stores.pending_subs (pendingSlot s.stores to_user)).to_user.str = to_user := by
  unfold pendingSlot
  cases hf : firstIdx fun i => (s.stores.pending_subs i).active == 0 with
  | some i => exact .inl (beq_iff_eq.mp (firstIdx_some hf))
  | none =>
    cases hu : firstIdx fun i => (s.stores.pending_subs i).to_user.str == to_user with
    | some i => exact .inr (beq_iff_eq.mp (firstIdx_some hu))
    | none =>
      obtain ⟨i, hi | hi⟩ := h
      · simpa [hi] using firstIdx_none hf i
      · simpa [hi] using firstIdx_none hu i

/-- Without a place the entry of someone else is written over. -/
theorem pendingSlot_taken (h : ¬ HasPlace s.stores to_user) :
    (s.stores.pending_subs (pendingSlot s.stores to_user)).active ≠ 0 ∧
      (s.stores.pending_subs (pendingSlot s.stores to_user)).to_user.str ≠ to_user :=
  ⟨fun ha => h ⟨_, .inl ha⟩, fun hu => h ⟨_, .inr hu⟩⟩

theorem sparesOthers_iff (hu : Holds 32 to_user) : SparesOthers s type from_ to_user ↔ HasPlace s.stores to_user := by
  constructor
  · intro h
    by_contra hn
    obtain ⟨ha, hne⟩ := pendingSlot_taken hn
    have hk : ¬ known s type from_ to_user = true := fun hk => hn (known_place hk)
    have he := h _ ha hne
    rw [pending_enqueue_stores, if_neg hk, Function.update_self] at he
    refine hne ?_
    rw [← he]
    exact Buf.copied_whole _ (by decide) hu
  · intro h i ha hne
    rw [pending_enqueue_stores]
    split
    · rfl
    · refine Function.update_of_ne (fun hi => ?_) _ _
      rw [hi] at ha hne
      exact (pendingSlot_place h).elim ha hne

end Enqueue

/-- In every state of every run, on the disk that any number of runs before left, no two subscriptions that wait are
the same. What waits for other users is safe from a new one exactly if a slot is free or one is its addressee's. -/
theorem pending_subs_spared_iff (d : Disk) (hd : DistinctRequests (diskStores d)) (ls : List Life) (l : Life)
    (s : Server) (hs : Arises (l.on (reboots d ls)) s) :
    DistinctRequests s.stores ∧ ∀ type from_ to_,
      (SparesOthers s type from_ (localPart (bare to_)) ↔ HasPlace s.stores (localPart (bare to_))) := by
  have hk : StoreId.Single .pending_subs := .inr (.inr rfl)
  have hdisk : DistinctRequests (diskStores (reboots d ls)) := requests_last.reboots hk hd ls
  have hboth : InBoth DistinctRequests s := requests_last.arises hk (m := l.on (reboots d ls)) hdisk hs
  exact ⟨hboth.store, fun type from_ to_ => sparesOthers_iff (localPart_holds (bare_holds to_).2)⟩

/-- A request to a user who is away. -/
def courting : Life := lifeOf (visit 7 authAdmin [lit "<presence type='subscribe' to='user1@angelic.local'/>"])

theorem courting_waits :
    let s := courting.run (reboots (fun _ => []) [])
    (s.stores.pending_subs 0).active ≠ 0 ∧ DistinctRequests s.stores ∧
      SparesOthers s (lit "subscribe") (lit "admin@angelic.local") (localPart (bare (lit "user2@angelic.local"))) := by
  have hk : StoreId.Single .pending_subs := .inr (.inr rfl)
  obtain ⟨hd, hs⟩ := pending_subs_spared_iff (fun _ => []) (requests_last.blank hk) [] courting _ (Arises.life _ _)
  exact ⟨by decide +kernel, hd, (hs _ _ _).mpr ⟨1, .inl (by decide +kernel)⟩⟩

/-- Requests to so many users that every slot is taken. -/
def suitor : Life :=
  lifeOf (visit 7 authAdmin ((List.range MAX_PENDING_SUBS).map fun n =>
    lit "<presence type='subscribe' to='u" ++ decimal n ++ lit "@angelic.local'/>"))

/-- One more costs the first user theirs. -/
theorem suitor_drops_first :
    let s := suitor.run fun _ => []
    (s.stores.pending_subs 0).active ≠ 0 ∧ (s.stores.pending_subs 0).to_user.str = lit "u0" ∧
      ((pending_sub_enqueue (lit "subscribe") (lit "admin@angelic.local") (lit "late") s).2.stores.pending_subs
        0).to_user.str = lit "late" ∧
      ¬ SparesOthers s (lit "subscribe") (lit "admin@angelic.local") (lit "late") := by
  have hfull : ((suitor.run fun _ => []).stores.pending_subs 0).active ≠ 0 ∧
      ((suitor.run fun _ => []).stores.pending_subs 0).to_user.str = lit "u0" ∧
      ((pending_sub_enqueue (lit "subscribe") (lit "admin@angelic.local") (lit "late")
        (suitor.run fun _ => [])).2.stores.pending_subs 0).to_user.str = lit "late" := by decide +kernel
  refine ⟨hfull.1, hfull.2.1, hfull.2.2, fun h => ?_⟩
  have he := h 0 hfull.1 (by rw [hfull.2.1]; decide)
  have hto := hfull.2.2
  rw [he, hfull.2.1] at hto
  exact absurd hto (by decide)

end Angelic.Proofs
