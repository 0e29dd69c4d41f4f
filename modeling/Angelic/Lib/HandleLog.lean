import Mathlib.Data.List.Basic

namespace Angelic.HandleLog

/-! A log of calls, some of which are given a handle and some of which close one. -/

variable {ω H : Type} (uses closes : ω → Option H)

/-- The handle was closed. -/
def Closed (log : List ω) (h : H) : Prop := ∃ o ∈ log, closes o = some h

/-- No call is given a handle that a call before it closed. -/
def Orderly (log : List ω) : Prop := log.Pairwise fun a b => ∀ h, closes a = some h → uses b ≠ some h

variable {uses closes} {log : List ω} {o : ω} {h : H}

theorem closed_snoc : Closed closes (log ++ [o]) h ↔ Closed closes log h ∨ closes o = some h := by
  simp [Closed, or_and_right, exists_or]

theorem closed_snoc_of_none (ho : closes o = none) : Closed closes (log ++ [o]) h ↔ Closed closes log h := by
  rw [closed_snoc, ho]
  simp

/-- A call keeps the log orderly when what it is given is not closed. -/
theorem orderly_snoc :
    Orderly uses closes (log ++ [o]) ↔ Orderly uses closes log ∧ ∀ h, Closed closes log h → uses o ≠ some h := by
  rw [Orderly, List.pairwise_append]
  constructor
  · rintro ⟨hl, -, ho⟩
    refine ⟨hl, ?_⟩
    rintro h ⟨a, ha, hc⟩
    exact ho a ha o (List.mem_singleton_self o) h hc
  · rintro ⟨hl, ho⟩
    refine ⟨hl, List.pairwise_singleton _ _, fun a ha b hb h hc => ?_⟩
    rw [List.mem_singleton.mp hb]
    exact ho h ⟨a, ha, hc⟩

end Angelic.HandleLog
