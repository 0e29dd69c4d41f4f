import Mathlib.Order.Fin.Basic
import Mathlib.Logic.Function.Basic
import Mathlib.Data.List.FinRange
import Mathlib.Data.List.Perm.Subperm

namespace Angelic.SlotQueue

/-! A queue kept in an array of slots: an entry is put in a slot that is free, and all entries of a
key are taken at once, in the order of the array. -/

section Order
variable {n : Nat} {κ ν : Type} [LinearOrder ν]

/-- For every key the entries come in the order of their numbers. -/
def InOrder (q : Fin n → Option κ) (num : Fin n → ν) : Prop :=
  ∀ k i j, i < j → q i = some k → q j = some k → num i ≤ num j

theorem InOrder.take {q q' : Fin n → Option κ} {num : Fin n → ν} (h : InOrder q num)
    (hq : ∀ i, q' i = q i ∨ q' i = none) : InOrder q' num := by
  have old : ∀ {i : Fin n} {k : κ}, q' i = some k → q i = some k := by
    intro i k hi
    rcases hq i with he | he
    · rw [← he, hi]
    · rw [he] at hi
      cases hi
  exact fun k i j hij hi hj => h k i j hij (old hi) (old hj)

/-- The newest entry keeps the order exactly when it is put behind all of its key. -/
theorem InOrder.put_iff {q : Fin n → Option κ} {num : Fin n → ν} (h : InOrder q num) {i : Fin n} {k : κ} {t : ν}
    (hfree : q i = none) (ht : ∀ j, num j < t) :
    InOrder (Function.update q i (some k)) (Function.update num i t) ↔ ∀ j, q j = some k → j < i := by
  have ne : ∀ {j : Fin n} {k' : κ}, q j = some k' → j ≠ i := by
    rintro j k' hj rfl
    rw [hfree] at hj
    cases hj
  constructor
  · intro hput j hj
    by_contra hn
    have hij : i < j := lt_of_le_of_ne (not_lt.mp hn) (ne hj).symm
    have hle := hput k i j hij (Function.update_self ..) (by rwa [Function.update_of_ne (ne hj)])
    rw [Function.update_self, Function.update_of_ne (ne hj)] at hle
    exact absurd (ht j) (not_lt.mpr hle)
  · intro hbehind k' a b hab ha hb
    by_cases hbi : b = i
    · subst hbi
      rw [Function.update_self, Function.update_of_ne (ne_of_lt hab)]
      exact le_of_lt (ht a)
    · rw [Function.update_of_ne hbi] at hb ⊢
      by_cases hai : a = i
      · subst hai
        rw [Function.update_self] at ha
        cases ha
        exact absurd (hbehind b hb) (not_lt.mpr (le_of_lt hab))
      · rw [Function.update_of_ne hai] at ha ⊢
        exact h k' a b hab ha hb

end Order

/-! How many slots the entries of a key take. -/

section Shares
variable {n : Nat} {κ : Type} [DecidableEq κ] {q q' : Fin n → Option κ}

def share (q : Fin n → Option κ) (k : κ) : Nat := ((List.finRange n).filter fun i => decide (q i = some k)).length

/-- No key has more than `b` entries. -/
def Bounded (q : Fin n → Option κ) (b : Nat) : Prop := ∀ k, share q k ≤ b

theorem share_mono {k : κ} (h : ∀ i, q' i = some k → q i = some k) : share q' k ≤ share q k := by
  refine (List.monotone_filter_right _ fun i hi => ?_).length_le
  exact decide_eq_true (h i (of_decide_eq_true hi))

theorem share_put (q : Fin n → Option κ) (i : Fin n) (k : κ) :
    share (Function.update q i (some k)) k ≤ share q k + 1 := by
  have hsub : ((List.finRange n).filter fun j => decide (Function.update q i (some k) j = some k)) ⊆
      i :: (List.finRange n).filter fun j => decide (q j = some k) := by
    intro j hj
    by_cases he : j = i
    · exact he ▸ List.mem_cons_self
    · rw [List.mem_filter, Function.update_of_ne he] at hj
      exact List.mem_cons_of_mem _ (List.mem_filter.mpr hj)
  exact (((List.nodup_finRange n).filter _).subperm hsub).length_le

theorem Bounded.take {b : Nat} (h : Bounded q b) (hq : ∀ i, q' i = q i ∨ q' i = none) : Bounded q' b := fun k => by
  refine Nat.le_trans (share_mono fun i hi => ?_) (h k)
  rcases hq i with he | he
  · rw [← he, hi]
  · rw [he] at hi
    cases hi

/-- A key that has less than its share may get one entry more. -/
theorem Bounded.put {b : Nat} (h : Bounded q b) {k : κ} (hk : share q k < b) (i : Fin n) :
    Bounded (Function.update q i (some k)) b := fun k' => by
  by_cases he : k' = k
  · subst he
    exact Nat.le_trans (share_put q i k') hk
  · refine Nat.le_trans (share_mono fun j hj => ?_) (h k')
    by_cases hji : j = i
    · rw [hji, Function.update_self] at hj
      exact absurd (Option.some.inj hj).symm he
    · rwa [Function.update_of_ne hji] at hj

end Shares

end Angelic.SlotQueue
