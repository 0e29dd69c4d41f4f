import Angelic.Model.Netif

namespace Angelic.Proofs
open Model

/-! Milliseconds from time stamps. -/

/-- The upper half of a time stamp, in units of a period of 2^32 milliseconds. -/
def upperPhase (tsc : UInt64) : Nat := tsc.toNat / 2 ^ 32 % 2000000

/-- The remainders of the two halves make up one more millisecond. -/
def LowCarry (tsc : UInt64) : Prop :=
  2000000 ≤ upperPhase tsc * 2 ^ 32 % 2000000 + tsc.toNat % 2 ^ 32 % 2000000

instance (tsc : UInt64) : Decidable (LowCarry tsc) := inferInstanceAs (Decidable (_ ≤ _))

theorem sys_now_toNat (tsc : UInt64) : (sys_now tsc).toNat = tsc.toNat % 2 ^ 32 / 2000000 := by
  rw [sys_now, UInt32.toNat_div, UInt64.toNat_toUInt32]
  rfl

/-- What the clock lacks of the milliseconds of a time stamp, modulo its period. -/
def lost (tsc : UInt64) : Nat := upperPhase tsc * 2 ^ 32 / 2000000 + if LowCarry tsc then 1 else 0

theorem milliseconds_eq (tsc : UInt64) :
    (tsc.toNat / 2000000) % 2 ^ 32 = (lost tsc + (sys_now tsc).toNat) % 2 ^ 32 := by
  -- the periods of the upper half are whole turns of the clock
  have hsplit : tsc.toNat = 2000000 * (tsc.toNat / 2 ^ 32 / 2000000 * 2 ^ 32) +
      (upperPhase tsc * 2 ^ 32 + tsc.toNat % 2 ^ 32) := by
    unfold upperPhase
    omega
  have hdiv : tsc.toNat / 2000000 = tsc.toNat / 2 ^ 32 / 2000000 * 2 ^ 32 +
      (upperPhase tsc * 2 ^ 32 + tsc.toNat % 2 ^ 32) / 2000000 :=
    (congrArg (· / 2000000) hsplit).trans (Nat.mul_add_div (by decide) _ _)
  have hlow : (upperPhase tsc * 2 ^ 32 + tsc.toNat % 2 ^ 32) / 2000000 = lost tsc + (sys_now tsc).toNat := by
    rw [sys_now_toNat, lost]
    by_cases hc : LowCarry tsc
    · rw [if_pos hc]
      rw [LowCarry] at hc
      omega
    · rw [if_neg hc]
      rw [LowCarry] at hc
      omega
  rw [hdiv, hlow, Nat.mul_add_mod_self_right]

theorem lost_lt (tsc : UInt64) : lost tsc < 2 ^ 32 := by
  have : upperPhase tsc < 2000000 := Nat.mod_lt _ (by decide)
  rw [lost]
  split <;> omega

/-- A step of the upper half is worth more than the carry. -/
theorem lost_inj (t1 t2 : UInt64) : lost t1 = lost t2 ↔ upperPhase t1 = upperPhase t2 ∧ (LowCarry t1 ↔ LowCarry t2) := by
  have step : ∀ {t u : UInt64}, upperPhase t < upperPhase u → lost t < lost u := by
    intro t u h
    have hle : (if LowCarry t then 1 else 0) ≤ 1 := by split <;> decide
    have hfar : upperPhase t * 2 ^ 32 / 2000000 + 1 < upperPhase u * 2 ^ 32 / 2000000 := by omega
    unfold lost
    omega
  constructor
  · intro h
    have hp : upperPhase t1 = upperPhase t2 := by
      rcases Nat.lt_trichotomy (upperPhase t1) (upperPhase t2) with hlt | heq | hlt
      · exact absurd h (Nat.ne_of_lt (step hlt))
      · exact heq
      · exact absurd h.symm (Nat.ne_of_lt (step hlt))
    rw [lost, lost, hp, Nat.add_left_cancel_iff] at h
    refine ⟨hp, ?_⟩
    by_cases c1 : LowCarry t1
    · by_cases c2 : LowCarry t2
      · exact iff_of_true c1 c2
      · rw [if_pos c1, if_neg c2] at h
        cases h
    · by_cases c2 : LowCarry t2
      · rw [if_neg c1, if_pos c2] at h
        cases h
      · exact iff_of_false c1 c2
  · rintro ⟨hp, hc⟩
    rw [lost, lost, hp]
    simp only [hc]

/-- The clock moves by the milliseconds between two time stamps exactly when their upper halves agree modulo
2000000 and both carry or neither. -/
theorem clock_exact_iff (t1 t2 : UInt64) :
    sys_now t2 - sys_now t1 = (t2 / 2000000 - t1 / 2000000).toUInt32 ↔
      upperPhase t1 = upperPhase t2 ∧ (LowCarry t1 ↔ LowCarry t2) := by
  rw [← lost_inj, ← UInt32.toNat_inj, UInt32.toNat_sub, UInt64.toNat_toUInt32, UInt64.toNat_sub, UInt64.toNat_div,
    UInt64.toNat_div, show (2000000 : UInt64).toNat = 2000000 from rfl]
  have h1 := milliseconds_eq t1
  have h2 := milliseconds_eq t2
  have l1 := lost_lt t1
  have l2 := lost_lt t2
  have n1 := (sys_now t1).toNat_lt
  have n2 := (sys_now t2).toNat_lt
  have b1 := t1.toNat_lt
  have b2 := t2.toNat_lt
  omega

/-- One millisecond after the last time stamp with this upper half the clock is at 0 again. -/
theorem clock_jumps_back : (0xffffffff : UInt64) ≤ 0xffffffff + 2000000 ∧
    sys_now 0xffffffff = 2147 ∧ sys_now (0xffffffff + 2000000) = 0 ∧
    sys_now (0xffffffff + 2000000) - sys_now 0xffffffff ≠
      ((0xffffffff + 2000000 : UInt64) / 2000000 - 0xffffffff / 2000000).toUInt32 := by decide +kernel

end Angelic.Proofs
