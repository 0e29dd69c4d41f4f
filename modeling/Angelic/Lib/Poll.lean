namespace Angelic.Lib

/-! Polling loops. -/

variable {α β : Type}

/-- At most `n` looks at a register, the first that decides ends the loop. `value i` is what look `i` reads. -/
def pollFrom (look : α → Option β) (value : Nat → α) : Nat → Nat → Option β
  | _, 0 => none
  | i, n + 1 =>
    match look (value i) with
    | some r => some r
    | none => pollFrom look value (i + 1) n

def poll (look : α → Option β) (value : Nat → α) (n : Nat) : Option β := pollFrom look value 0 n

theorem pollFrom_eq_some_iff {look : α → Option β} {value : Nat → α} {i n : Nat} {r : β} :
    pollFrom look value i n = some r ↔
      ∃ k < n, look (value (i + k)) = some r ∧ ∀ j < k, look (value (i + j)) = none := by
  induction n generalizing i with
  | zero => exact ⟨fun h => absurd h (Option.some_ne_none r).symm, fun ⟨k, hk, _⟩ => absurd hk (Nat.not_lt_zero k)⟩
  | succ n ih =>
    have hshift : ∀ k, i + 1 + k = i + (k + 1) := fun k => by rw [Nat.add_assoc, Nat.add_comm 1 k]
    rw [pollFrom]
    cases hl : look (value i) with
    | none =>
      dsimp only
      rw [ih]
      constructor
      · rintro ⟨k, hk, hr, hbefore⟩
        refine ⟨k + 1, Nat.succ_lt_succ hk, hshift k ▸ hr, fun j hj => ?_⟩
        cases j with
        | zero => exact hl
        | succ j => exact hshift j ▸ hbefore j (Nat.lt_of_succ_lt_succ hj)
      · rintro ⟨k, hk, hr, hbefore⟩
        cases k with
        | zero => exact absurd (hl.symm.trans hr) (Option.some_ne_none r).symm
        | succ k =>
          exact ⟨k, Nat.lt_of_succ_lt_succ hk, hshift k ▸ hr, fun j hj => hshift j ▸ hbefore (j + 1) (Nat.succ_lt_succ hj)⟩
    | some r' =>
      dsimp only
      constructor
      · intro h
        exact ⟨0, Nat.succ_pos n, hl.trans h, fun j hj => absurd hj (Nat.not_lt_zero j)⟩
      · rintro ⟨k, hk, hr, hbefore⟩
        cases k with
        | zero => exact hl.symm.trans hr
        | succ k => exact absurd (hl.symm.trans (hbefore 0 (Nat.succ_pos k))) (Option.some_ne_none r')

theorem poll_eq_some_iff {look : α → Option β} {value : Nat → α} {n : Nat} {r : β} :
    poll look value n = some r ↔ ∃ k < n, look (value k) = some r ∧ ∀ j < k, look (value j) = none := by
  rw [poll, pollFrom_eq_some_iff]
  simp only [Nat.zero_add]

end Angelic.Lib
