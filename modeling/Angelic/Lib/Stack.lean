import Mathlib.Algebra.Group.Nat.Defs
import Mathlib.Logic.Function.Basic

namespace Angelic.Stack

/-! Words on a stack that grows down, at 64-bit addresses. -/

/-- The words from `sp` up. -/
def Stacked (mem : UInt64 → UInt64) : UInt64 → List UInt64 → Prop
  | _, [] => True
  | sp, v :: vs => mem sp = v ∧ Stacked mem (sp + 8) vs

variable {mem mem' : UInt64 → UInt64} {sp : UInt64} {vs : List UInt64}

theorem sub_words (a b c : UInt64) : a - b - c = a - (b + c) := by
  rw [UInt64.sub_eq_iff_eq_add, UInt64.add_comm b c, UInt64.sub_eq_iff_eq_add, UInt64.add_assoc, UInt64.sub_add_cancel]

theorem sub_next (a sp : UInt64) (n : Nat) (h : (a - (sp + 8)).toNat < 8 * n) : (a - sp).toNat < 8 * (n + 1) := by
  have h8 : (8 : UInt64).toNat = 8 := rfl
  have ha := a.toNat_lt
  have hs := sp.toNat_lt
  rw [UInt64.toNat_sub, UInt64.toNat_add, h8] at h
  rw [UInt64.toNat_sub]
  omega

/-- Memory that is the same where the words lie still holds them. -/
theorem Stacked.congr (h : Stacked mem sp vs)
    (hm : ∀ a, (a - sp).toNat < 8 * vs.length → mem' a = mem a) : Stacked mem' sp vs := by
  induction vs generalizing sp with
  | nil => trivial
  | cons v vs ih =>
    rw [List.length_cons] at hm
    have hself : (sp - sp).toNat < 8 * (vs.length + 1) := by
      rw [UInt64.sub_self]
      exact Nat.mul_pos (by decide) (Nat.succ_pos _)
    refine ⟨(hm sp hself).trans h.1, ih h.2 fun a ha => hm a ?_⟩
    exact sub_next a sp vs.length ha

theorem Stacked.push (h : Stacked mem sp vs) (hl : vs.length < 2 ^ 60) (v : UInt64) :
    Stacked (Function.update mem (sp - 8) v) (sp - 8) (v :: vs) := by
  refine ⟨Function.update_self .., ?_⟩
  rw [UInt64.sub_add_cancel]
  refine h.congr fun a ha => Function.update_of_ne ?_ v mem
  -- the new word lies below all others, or the stack would wrap around
  rintro rfl
  have h8 : (sp - 8 - sp).toNat = 2 ^ 64 - 8 := by
    have hs := sp.toNat_lt
    have he : (8 : UInt64).toNat = 8 := rfl
    rw [UInt64.toNat_sub, UInt64.toNat_sub, he]
    omega
  omega

end Angelic.Stack
