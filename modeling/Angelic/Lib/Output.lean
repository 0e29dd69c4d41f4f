import Angelic.Lib.StateRel

namespace Angelic.StateRel

/-! Computations that write to a log in their state: what they append, from a state that is known. -/

variable {σ ω α β ι : Type}

/-- From a state with `P` the run appends `w` to the log and ends with `Q` of its value and state. -/
def Writes (log : σ → List ω) (P : σ → Prop) (m : StateM σ α) (w : List ω) (Q : α → σ → Prop) : Prop :=
  ∀ s, P s → log (m s).2 = log s ++ w ∧ Q (m s).1 (m s).2

namespace Writes
variable {log : σ → List ω} {P P' : σ → Prop} {Q : α → σ → Prop} {T : β → σ → Prop} {w w' : List ω}
variable {m : StateM σ α}

theorem pure {a : α} (h : ∀ s, P s → Q a s) : Writes log P (Pure.pure a : StateM σ α) [] Q := by
  intro s hs
  exact ⟨(List.append_nil _).symm, h s hs⟩

/-- A computation that writes nothing. -/
theorem silent (hl : ∀ s, log (m s).2 = log s) (h : Triple P m Q) : Writes log P m [] Q := by
  intro s hs
  exact ⟨(hl s).trans (List.append_nil _).symm, h s hs⟩

theorem bind {k : α → StateM σ β} (hm : Writes log P m w Q)
    (hk : ∀ a, Writes log (Q a) (k a) w' T) : Writes log P (m >>= k) (w ++ w') T := by
  intro s hs
  obtain ⟨hw, hq⟩ := hm s hs
  obtain ⟨hw', ht⟩ := hk _ _ hq
  refine ⟨?_, ht⟩
  rw [bind_run, hw', hw, List.append_assoc]

/-- What is written later may depend on what was read. -/
theorem read {k : α → StateM σ β} (hm : ∀ s, (m s).2 = s)
    (hk : ∀ s, P s → Writes log P (k (m s).1) w T) : Writes log P (m >>= k) w T := by
  intro s hs
  rw [bind_run, hm]
  exact hk s hs s hs

theorem conseq (h : Writes log P m w Q) {Q' : α → σ → Prop} (hp : ∀ s, P' s → P s)
    (hq : ∀ a s, Q a s → Q' a s) : Writes log P' m w Q' := by
  intro s hs
  obtain ⟨hw, hr⟩ := h s (hp s hs)
  exact ⟨hw, hq _ _ hr⟩

theorem post (h : Writes log P m w Q) {Q' : α → σ → Prop} (hq : ∀ a s, Q a s → Q' a s) : Writes log P m w Q' :=
  h.conseq (fun _ hs => hs) hq

/-- A loop whose invariant speaks of the elements still to come. -/
theorem forM_rest {P : List ι → σ → Prop} {body : ι → StateM σ PUnit} {f : ι → List ω}
    (h : ∀ i l, Writes log (P (i :: l)) (body i) (f i) fun _ => P l) (l : List ι) :
    Writes log (P l) (l.forM body) (l.flatMap f) fun _ => P [] := by
  induction l with
  | nil => exact pure fun _ hs => hs
  | cons i l ih => exact bind (h i l) fun _ => ih

/-- A loop that collects whether some element met a condition. -/
theorem foldlM_any {body : Bool → ι → StateM σ Bool} {f : ι → List ω} {p : ι → Bool}
    (h : ∀ b i, Writes log P (body b i) (f i) fun r s => P s ∧ r = (b || p i)) (l : List ι) (b : Bool) :
    Writes log P (l.foldlM body b) (l.flatMap f) fun r s => P s ∧ r = (b || l.any p) := by
  induction l generalizing b with
  | nil => exact pure fun _ hs => ⟨hs, by simp⟩
  | cons i l ih =>
    refine bind (h b i) fun r => ?_
    intro s hs
    obtain ⟨hp, rfl⟩ := hs
    obtain ⟨hw, hq, hr⟩ := ih (b || p i) s hp
    exact ⟨hw, hq, by rw [hr, List.any_cons, Bool.or_assoc]⟩

end Writes

end Angelic.StateRel
