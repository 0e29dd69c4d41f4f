import Mathlib.Logic.Function.Basic

namespace Angelic.XorShift

/-! A word that is combined with a shift of itself can be had back, bit by bit from the end that the shift leaves alone. -/

variable {w n : Nat}

theorem left_injective (hn : 0 < n) : Function.Injective fun x : BitVec w => x ^^^ (x <<< n) := by
  intro x y h
  refine BitVec.eq_of_getLsbD_eq fun i _ => ?_
  induction i using Nat.strongRecOn with
  | ind i ih =>
    have hi : (x ^^^ (x <<< n)).getLsbD i = (y ^^^ (y <<< n)).getLsbD i := congrArg (·.getLsbD i) h
    rw [BitVec.getLsbD_xor, BitVec.getLsbD_xor, BitVec.getLsbD_shiftLeft, BitVec.getLsbD_shiftLeft] at hi
    by_cases hlow : i < n
    · simpa [hlow] using hi
    · rw [ih (i - n) (by omega) (by omega)] at hi
      exact Bool.xor_left_inj.mp hi

theorem right_injective (hn : 0 < n) : Function.Injective fun x : BitVec w => x ^^^ (x >>> n) := by
  intro x y h
  -- the bits from the top down: `k` of them are known already
  have bits : ∀ k i, w ≤ i + k → x.getLsbD i = y.getLsbD i := by
    intro k
    induction k with
    | zero => exact fun i hi => by rw [BitVec.getLsbD_of_ge x i hi, BitVec.getLsbD_of_ge y i hi]
    | succ k ih =>
      intro i hi
      have hb : (x ^^^ (x >>> n)).getLsbD i = (y ^^^ (y >>> n)).getLsbD i := congrArg (·.getLsbD i) h
      rw [BitVec.getLsbD_xor, BitVec.getLsbD_xor, BitVec.getLsbD_ushiftRight, BitVec.getLsbD_ushiftRight,
        ih (n + i) (by omega)] at hb
      exact Bool.xor_left_inj.mp hb
  exact BitVec.eq_of_getLsbD_eq fun i _ => bits w i (Nat.le_add_left w i)

/-! Maps that respect exclusive or. What such a map does to the single bits decides what it does. -/

def Linear (f : BitVec w → BitVec w) : Prop := ∀ x y, f (x ^^^ y) = f x ^^^ f y

variable {f t : BitVec w → BitVec w}

theorem left_linear (n : Nat) : Linear fun x : BitVec w => x ^^^ (x <<< n) := by
  intro x y
  change x ^^^ y ^^^ ((x ^^^ y) <<< n) = (x ^^^ (x <<< n)) ^^^ (y ^^^ (y <<< n))
  rw [BitVec.shiftLeft_xor_distrib]
  ac_rfl

theorem right_linear (n : Nat) : Linear fun x : BitVec w => x ^^^ (x >>> n) := by
  intro x y
  change x ^^^ y ^^^ ((x ^^^ y) >>> n) = (x ^^^ (x >>> n)) ^^^ (y ^^^ (y >>> n))
  rw [BitVec.ushiftRight_xor_distrib]
  ac_rfl

theorem Linear.comp {g : BitVec w → BitVec w} (hf : Linear f) (hg : Linear g) : Linear fun x => f (g x) := by
  intro x y
  exact (congrArg f (hg x y)).trans (hf (g x) (g y))

theorem Linear.zero (hf : Linear f) : f 0#w = 0#w := by
  have h := hf 0#w 0#w
  rwa [BitVec.xor_self, BitVec.xor_self] at h

theorem Linear.eq_zero (hf : Linear f) (hb : ∀ i < w, f (BitVec.twoPow w i) = 0#w) (x : BitVec w) : f x = 0#w := by
  -- the words in which only the lowest `k` bits may be set
  have low : ∀ k ≤ w, ∀ x : BitVec w, (∀ i, k ≤ i → x.getLsbD i = false) → f x = 0#w := by
    intro k
    induction k with
    | zero =>
      intro _ x hx
      rw [show x = 0#w from BitVec.eq_of_getLsbD_eq fun i _ => (hx i (Nat.zero_le i)).trans BitVec.getLsbD_zero.symm]
      exact hf.zero
    | succ k ih =>
      intro hk x hx
      cases hbit : x.getLsbD k with
      | false =>
        refine ih (by omega) x fun i hi => ?_
        rcases Nat.eq_or_lt_of_le hi with rfl | hlt
        · exact hbit
        · exact hx i hlt
      | true =>
        have hrest : f (x ^^^ BitVec.twoPow w k) = 0#w := by
          refine ih (by omega) _ fun i hi => ?_
          rw [BitVec.getLsbD_xor, BitVec.getLsbD_twoPow]
          rcases Nat.eq_or_lt_of_le hi with rfl | hlt
          · simp [hbit, show k < w by omega]
          · simp [hx i hlt, Nat.ne_of_lt hlt]
        rwa [hf, hb k (by omega), BitVec.xor_zero] at hrest
  exact low w (Nat.le_refl w) x fun i hi => BitVec.getLsbD_of_ge x i hi

/-- The polynomial with coefficients `c`, the highest first, in the map `t`. -/
def horner (t : BitVec w → BitVec w) (c : List Bool) (x : BitVec w) : BitVec w :=
  c.foldl (fun a b => t a ^^^ bif b then x else 0#w) 0#w

theorem horner_linear (ht : Linear t) (c : List Bool) : Linear (horner t c) := by
  have fold : ∀ (x y a b : BitVec w),
      c.foldl (fun a b => t a ^^^ bif b then x ^^^ y else 0#w) (a ^^^ b) =
        c.foldl (fun a b => t a ^^^ bif b then x else 0#w) a ^^^
          c.foldl (fun a b => t a ^^^ bif b then y else 0#w) b := by
    induction c with
    | nil => exact fun _ _ _ _ => rfl
    | cons e c ih =>
      intro x y a b
      rw [List.foldl_cons, List.foldl_cons, List.foldl_cons, ← ih, ht]
      congr 1
      cases e
      · simp
      · simp only [cond_true]
        ac_rfl
  intro x y
  have h := fold x y 0#w 0#w
  rwa [BitVec.xor_self] at h

/-- On a fixed point the polynomial only counts its coefficients. -/
theorem horner_fixed (ht : Linear t) {x : BitVec w} (hx : t x = x) (c : List Bool) :
    horner t c x = bif c.foldl xor false then x else 0#w := by
  have fold : ∀ p : Bool, c.foldl (fun a b => t a ^^^ bif b then x else 0#w) (bif p then x else 0#w) =
      bif c.foldl xor p then x else 0#w := by
    induction c with
    | nil => exact fun _ => rfl
    | cons e c ih =>
      intro p
      rw [List.foldl_cons, List.foldl_cons, ← ih]
      cases p <;> cases e <;> simp [hx, ht.zero]
  exact fold false

/-- A map that a polynomial with an odd number of terms sends to nothing has no fixed point but 0. -/
theorem Linear.eq_zero_of_fixed (ht : Linear t) {c : List Bool}
    (hodd : c.foldl xor false = true) (hb : ∀ i < w, horner t c (BitVec.twoPow w i) = 0#w) {x : BitVec w}
    (hx : t x = x) : x = 0#w := by
  have h := (horner_linear ht c).eq_zero hb x
  rwa [horner_fixed ht hx, hodd] at h

end Angelic.XorShift
