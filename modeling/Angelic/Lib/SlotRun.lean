import Angelic.Lib.SlotTable
import Mathlib.Algebra.BigOperators.Group.Finset.Piecewise
import Mathlib.Data.Finset.Option
import Mathlib.Data.Fintype.Card

namespace Angelic.SlotTable

/-! Lists of operations on a table, against the same on a set of keys without a bound. -/

variable {n : Nat} {κ α : Type} [DecidableEq κ] {T : SlotTable n κ α}

/-- A value is put under a key, or the key is dropped. -/
def apply (T : SlotTable n κ α) (op : κ × Option α) : SlotTable n κ α := op.2.elim (T.drop op.1) (T.put op.1)

def run (T : SlotTable n κ α) (ops : List (κ × Option α)) : SlotTable n κ α := ops.foldl apply T

theorem Distinct.apply (h : T.Distinct) (op : κ × Option α) : (T.apply op).Distinct := by
  obtain ⟨k, o⟩ := op
  cases o with
  | none => exact h.drop k
  | some a => exact h.put k a

theorem Distinct.run (h : T.Distinct) (ops : List (κ × Option α)) : (T.run ops).Distinct := by
  induction ops generalizing T with
  | nil => exact h
  | cons op ops ih => exact ih (h.apply op)

theorem Distinct.get_apply_of_ne (h : T.Distinct) {k : κ} {op : κ × Option α} (hk : k ≠ op.1) :
    (T.apply op).get k = T.get k := by
  obtain ⟨k', o⟩ := op
  cases o with
  | none => exact h.get_drop_of_ne hk
  | some a => exact h.get_put_of_ne hk a

/-- The keys in use. -/
def keys (T : SlotTable n κ α) : Finset κ := Finset.univ.biUnion fun i => ((T i).map Prod.fst).toFinset

theorem mem_keys {k : κ} : k ∈ T.keys ↔ T.get k ≠ none := by
  rw [Ne, get_eq_none]
  constructor
  · intro h hs
    obtain ⟨i, -, hi⟩ := Finset.mem_biUnion.mp h
    obtain ⟨⟨k', a⟩, ha, rfl⟩ := Option.map_eq_some_iff.mp (Option.mem_toFinset.mp hi)
    exact slot_none hs i a ha
  · intro h
    obtain ⟨i, hi⟩ := Option.ne_none_iff_exists'.mp h
    obtain ⟨a, ha⟩ := slot_some hi
    exact Finset.mem_biUnion.mpr ⟨i, Finset.mem_univ i, by simp [ha]⟩

theorem Distinct.keys_disjoint (h : T.Distinct) :
    ((Finset.univ : Finset (Fin n)) : Set (Fin n)).PairwiseDisjoint fun i => ((T i).map Prod.fst).toFinset := by
  refine fun i _ j _ hij => Finset.disjoint_left.mpr fun k hi hj => hij ?_
  obtain ⟨⟨k', a⟩, ha, rfl⟩ := Option.map_eq_some_iff.mp (Option.mem_toFinset.mp hi)
  obtain ⟨⟨k'', b⟩, hb, he⟩ := Option.map_eq_some_iff.mp (Option.mem_toFinset.mp hj)
  dsimp only at he
  subst he
  exact h k'' i j (holds_iff.mpr ⟨a, ha⟩) (holds_iff.mpr ⟨b, hb⟩)

/-- A sum over the slots is one over the keys. -/
theorem Distinct.sum_keys (h : T.Distinct) (f : κ → α → Nat) :
    ∑ k ∈ T.keys, (T.get k).elim 0 (f k) = ∑ i, (T i).elim 0 fun e => f e.1 e.2 := by
  rw [keys, Finset.sum_biUnion h.keys_disjoint]
  refine Finset.sum_congr rfl fun i _ => ?_
  cases hi : T i with
  | none => simp
  | some e =>
    have hg : T.get e.1 = some e.2 := h.get.mpr ⟨i, hi⟩
    simp [hg]

/-- Every slot is empty or holds a key of its own. -/
theorem Distinct.card_keys (h : T.Distinct) : T.keys.card + T.room.card = n := by
  have hk : T.keys.card = ∑ i, ((T i).map Prod.fst).toFinset.card := Finset.card_biUnion h.keys_disjoint
  have hr : T.room.card = ∑ i, if (T i).isNone then 1 else 0 := Finset.card_filter ..
  have hsum : ∀ i, ((T i).map Prod.fst).toFinset.card + (if (T i).isNone then 1 else 0) = 1 := by
    intro i
    cases T i <;> simp
  rw [hk, hr, ← Finset.sum_add_distrib, Finset.sum_congr rfl fun i _ => hsum i, ← Finset.card_eq_sum_ones,
    Finset.card_fin]

/-- The keys in use if there were always a slot. -/
def wish (S : Finset κ) (op : κ × Option α) : Finset κ := op.2.elim (S.erase op.1) fun _ => insert op.1 S

def wishes (S : Finset κ) (ops : List (κ × Option α)) : Finset κ := ops.foldl wish S

/-- Every value that is put is there when it has been put. -/
def Stored (T : SlotTable n κ α) (ops : List (κ × Option α)) : Prop :=
  ∀ (i : Fin ops.length) a, (ops.get i).2 = some a → (T.run (ops.take (i + 1))).get (ops.get i).1 = some a

theorem stored_cons {op : κ × Option α} {ops : List (κ × Option α)} :
    T.Stored (op :: ops) ↔ (∀ a, op.2 = some a → (T.apply op).get op.1 = some a) ∧ (T.apply op).Stored ops := by
  constructor
  · intro h
    refine ⟨fun a ha => ?_, fun i a ha => ?_⟩
    · have := h ⟨0, Nat.succ_pos _⟩ a ha
      rwa [List.take_succ_cons, List.take_zero] at this
    · exact h i.succ a ha
  · rintro ⟨h0, h⟩ i a ha
    refine Fin.cases (motive := fun i => (List.get (op :: ops) i).2 = some a →
      (T.run (List.take (i + 1) (op :: ops))).get (List.get (op :: ops) i).1 = some a) ?_ (fun i => ?_) i ha
    · intro ha
      have := h0 a ha
      rwa [Fin.val_zero, List.take_succ_cons, List.take_zero]
    · exact h i a

/-- A value that is put is there exactly if its key and those in use are not too many. -/
theorem Distinct.put_stored_iff (h : T.Distinct) (k : κ) (a : α) :
    (T.put k a).get k = some a ↔ (insert k T.keys).card ≤ n := by
  have hcard := h.card_keys
  have hroom : T.free = none ↔ T.room.card = 0 := by rw [Finset.card_eq_zero, room_eq_empty]
  rw [h.get_put_self]
  by_cases hk : k ∈ T.keys
  · have hs : T.slot k ≠ none := fun hs => mem_keys.mp hk (get_eq_none.mpr hs)
    rw [if_neg fun hf => hs hf.1, Finset.insert_eq_of_mem hk]
    exact iff_of_true rfl (by omega)
  · have hs : T.slot k = none := by
      rw [mem_keys, not_not, get_eq_none] at hk
      exact hk
    rw [Finset.card_insert_of_notMem hk]
    by_cases hf : T.free = none
    · rw [if_pos ⟨hs, hf⟩]
      have := hroom.mp hf
      exact iff_of_false (by simp) (by omega)
    · rw [if_neg fun h => hf h.2]
      have : T.room.card ≠ 0 := fun h => hf (hroom.mpr h)
      exact iff_of_true rfl (by omega)

/-- What is done to the keys, when a value that is put is there afterwards. -/
theorem Distinct.keys_apply (h : T.Distinct) {op : κ × Option α}
    (hs : ∀ a, op.2 = some a → (T.apply op).get op.1 = some a) : (T.apply op).keys = wish T.keys op := by
  obtain ⟨k, o⟩ := op
  ext k'
  by_cases hk : k' = k
  · subst hk
    cases o with
    | none => simp [mem_keys, SlotTable.apply, wish, h.get_drop_self]
    | some a =>
      have := hs a rfl
      simp only [SlotTable.apply, Option.elim_some] at this
      simp [mem_keys, SlotTable.apply, wish, this]
  · rw [mem_keys, h.get_apply_of_ne hk]
    cases o with
    | none => simp [wish, hk, mem_keys]
    | some a => simp [wish, hk, mem_keys]

/-- All values are stored exactly if the keys in use are never too many. -/
theorem Distinct.stored_iff (h : T.Distinct) (ops : List (κ × Option α)) :
    T.Stored ops ↔ ∀ i, (wishes T.keys (ops.take i)).card ≤ n := by
  induction ops generalizing T with
  | nil =>
    have hcard := h.card_keys
    refine iff_of_true (fun i => i.elim0) fun i => ?_
    rw [List.take_nil]
    change T.keys.card ≤ n
    omega
  | cons op ops ih =>
    have hcard := h.card_keys
    have hsplit : (∀ i, (wishes T.keys ((op :: ops).take i)).card ≤ n) ↔
        ∀ i, (wishes (wish T.keys op) (ops.take i)).card ≤ n := by
      refine ⟨fun hall i => hall (i + 1), fun hall i => ?_⟩
      cases i with
      | zero =>
        change T.keys.card ≤ n
        omega
      | succ i => exact hall i
    rw [stored_cons, hsplit]
    by_cases hs : ∀ a, op.2 = some a → (T.apply op).get op.1 = some a
    · rw [and_iff_right hs, ih (h.apply op), h.keys_apply hs]
    · refine iff_of_false (fun hc => hs hc.1) fun hall => hs fun a ha => ?_
      obtain ⟨k, o⟩ := op
      dsimp only at ha
      subst ha
      exact (h.put_stored_iff k a).mpr (hall 0)

theorem Stored.keys (h : T.Distinct) {ops : List (κ × Option α)} (hs : T.Stored ops) :
    (T.run ops).keys = wishes T.keys ops := by
  induction ops generalizing T with
  | nil => rfl
  | cons op ops ih =>
    obtain ⟨h0, hs⟩ := stored_cons.mp hs
    have step : wishes T.keys (op :: ops) = wishes (wish T.keys op) ops := rfl
    rw [step, ← h.keys_apply h0]
    exact ih (h.apply op) hs

/-- Then the last operation on a key decides. -/
theorem Stored.get (h : T.Distinct) {ops : List (κ × Option α)} (hs : T.Stored ops) (k : κ) :
    (T.run ops).get k = (lastOf k ops).getD (T.get k) := by
  induction ops generalizing T with
  | nil => rfl
  | cons op ops ih =>
    obtain ⟨h0, hs⟩ := stored_cons.mp hs
    have step : T.run (op :: ops) = (T.apply op).run ops := rfl
    rw [step, ih (h.apply op) hs]
    obtain ⟨k', o⟩ := op
    by_cases hk : k' = k
    · subst hk
      have hself : (T.apply (k', o)).get k' = o := by
        cases o with
        | none => exact h.get_drop_self k'
        | some a => exact h0 a rfl
      rw [lastOf_cons_self, hself]
      cases lastOf k' ops <;> rfl
    · rw [lastOf_cons_of_ne hk, h.get_apply_of_ne (Ne.symm hk)]

end Angelic.SlotTable
