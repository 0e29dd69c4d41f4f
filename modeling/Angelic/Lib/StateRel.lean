import Mathlib.Logic.Relation
import Mathlib.Data.List.Basic

namespace Angelic.StateRel
open Relation

/-! Rules for what a state computation can do to its state, as a chain of steps. -/

variable {σ α β : Type} {R Q : σ → σ → Prop} {m : StateM σ α} {k : α → StateM σ β}

theorem bind_run (m : StateM σ α) (k : α → StateM σ β) (s : σ) : (m >>= k) s = k (m s).1 (m s).2 := rfl

theorem pure_run (a : α) (s : σ) : (pure a : StateM σ α) s = (a, s) := rfl

theorem ite_run (c : Prop) [Decidable c] (m n : StateM σ α) (s : σ) :
    (if c then m else n) s = if c then m s else n s := by
  split <;> rfl

/-- Every run is a chain of `R` steps. -/
def Does (R : σ → σ → Prop) (m : StateM σ α) : Prop := ∀ s, ReflTransGen R s (m s).2

namespace Does

theorem pure (a : α) : Does R (Pure.pure a : StateM σ α) := fun _ => .refl

theorem get : Does R (MonadState.get : StateM σ σ) := fun _ => .refl

/-- A computation that only reads. -/
theorem read (h : ∀ s, (m s).2 = s) : Does R m := fun s => by
  rw [h]

theorem step (h : ∀ s, R s (m s).2) : Does R m := fun s => .single (h s)

theorem bind (hm : Does R m) (hk : ∀ a, Does R (k a)) : Does R (m >>= k) := fun s => (hm s).trans (hk _ _)

theorem ite {c : Prop} [Decidable c] {n : StateM σ α} (hm : Does R m) (hn : Does R n) :
    Does R (if c then m else n) := by
  split
  · exact hm
  · exact hn

theorem mono (h : Does R m) (hq : ∀ s s', R s s' → ReflTransGen Q s s') : Does Q m := fun s => by
  have hs := h s
  generalize (m s).2 = t at hs ⊢
  induction hs with
  | refl => exact .refl
  | tail _ hr ih => exact ih.trans (hq _ _ hr)

theorem forM {l : List β} {body : β → StateM σ PUnit} (h : ∀ b, Does R (body b)) : Does R (l.forM body) := by
  induction l with
  | nil => exact pure _
  | cons b l ih => exact bind (h b) fun _ => ih

theorem foldlM {l : List β} {body : α → β → StateM σ α} (h : ∀ a b, Does R (body a b)) (a : α) :
    Does R (l.foldlM body a) := by
  induction l generalizing a with
  | nil => exact pure _
  | cons b l ih => exact bind (h a b) fun a => ih a

/-- What every step keeps, a run keeps. -/
theorem keeps (h : Does R m) {P : σ → Prop} (hp : ∀ s s', R s s' → P s → P s') {s : σ} (hs : P s) : P (m s).2 := by
  have hc := h s
  generalize (m s).2 = t at hc ⊢
  induction hc with
  | refl => exact hs
  | tail _ hr ih => exact hp _ _ hr ih

/-- A reflexive and transitive relation that contains the steps contains the runs. -/
theorem rel (h : Does R m) (hr : ∀ s, Q s s)
    (ht : ∀ a b c, Q a b → Q b c → Q a c) (hq : ∀ s s', R s s' → Q s s') (s : σ) : Q s (m s).2 := by
  have hc := h s
  generalize (m s).2 = t at hc ⊢
  induction hc with
  | refl => exact hr s
  | tail _ hs ih => exact ht _ _ _ ih (hq _ _ hs)

end Does

/-- From a state with `P` the run ends with `Q` of its value and state. -/
def Triple (P : σ → Prop) (m : StateM σ α) (Q : α → σ → Prop) : Prop :=
  ∀ s, P s → Q (m s).1 (m s).2

namespace Triple
variable {P P' : σ → Prop} {Q : α → σ → Prop} {T : β → σ → Prop}

theorem pure {a : α} (h : ∀ s, P s → Q a s) : Triple P (Pure.pure a : StateM σ α) Q := h

theorem bind (hm : Triple P m Q) (hk : ∀ a, Triple (Q a) (k a) T) : Triple P (m >>= k) T := fun s hs => hk _ _ (hm s hs)

theorem ite {c : Prop} [Decidable c] {n : StateM σ α} (hm : c → Triple P m Q)
    (hn : ¬ c → Triple P n Q) : Triple P (if c then m else n) Q := by
  split
  · exact hm ‹_›
  · exact hn ‹_›

theorem conseq (h : Triple P m Q) {Q' : α → σ → Prop} (hp : ∀ s, P' s → P s)
    (hq : ∀ a s, Q a s → Q' a s) : Triple P' m Q' := fun s hs => hq _ _ (h s (hp s hs))

theorem forM {l : List β} {body : β → StateM σ PUnit} (h : ∀ b, Triple P (body b) fun _ => P) :
    Triple P (l.forM body) fun _ => P := by
  induction l with
  | nil => exact pure fun _ hs => hs
  | cons b l ih => exact bind (h b) fun _ => ih

theorem of_does (h : Does R m) (hp : ∀ s s', R s s' → P s → P s') : Triple P m fun _ => P := fun _ hs => h.keeps hp hs

end Triple

/-- From a state with `P` the run is a chain of `R` steps and ends with `Q`. -/
def Trace (R : σ → σ → Prop) (P : σ → Prop) (m : StateM σ α) (Q : α → σ → Prop) : Prop :=
  ∀ s, P s → ReflTransGen R s (m s).2 ∧ Q (m s).1 (m s).2

namespace Trace
variable {P P' : σ → Prop} {Q : α → σ → Prop} {T : β → σ → Prop}

theorem pure {a : α} (h : ∀ s, P s → Q a s) : Trace R P (Pure.pure a : StateM σ α) Q :=
  fun s hs => ⟨.refl, h s hs⟩

/-- A computation that only reads. -/
theorem read (hm : ∀ s, (m s).2 = s) (h : ∀ s, P s → Q (m s).1 s) : Trace R P m Q :=
  fun s hs => by
    rw [hm]
    exact ⟨.refl, h s hs⟩

theorem step (h : ∀ s, P s → R s (m s).2 ∧ Q (m s).1 (m s).2) : Trace R P m Q :=
  fun s hs => ⟨.single (h s hs).1, (h s hs).2⟩

theorem bind (hm : Trace R P m Q) (hk : ∀ a, Trace R (Q a) (k a) T) : Trace R P (m >>= k) T := fun s hs =>
  have h := hm s hs
  have h' := hk _ _ h.2
  ⟨h.1.trans h'.1, h'.2⟩

theorem ite {c : Prop} [Decidable c] {n : StateM σ α} (hm : c → Trace R P m Q)
    (hn : ¬ c → Trace R P n Q) : Trace R P (if c then m else n) Q := by
  split
  · exact hm ‹_›
  · exact hn ‹_›

theorem conseq (h : Trace R P m Q) {Q' : α → σ → Prop} (hp : ∀ s, P' s → P s)
    (hq : ∀ a s, Q a s → Q' a s) : Trace R P' m Q' := fun s hs =>
  ⟨(h s (hp s hs)).1, hq _ _ (h s (hp s hs)).2⟩

/-- Each step is read as a chain of others. -/
theorem mono (h : Trace R P m Q) {S : σ → σ → Prop} (hr : ∀ s s', R s s' → ReflTransGen S s s') :
    Trace S P m Q := fun s hs => by
  obtain ⟨hc, hq⟩ := h s hs
  refine ⟨?_, hq⟩
  clear hq
  generalize (m s).2 = t at hc ⊢
  induction hc with
  | refl => exact .refl
  | tail _ h ih => exact ih.trans (hr _ _ h)

end Trace

/-- A fold of steps keeps what every step keeps. -/
theorem foldl_keeps {step : σ → α → σ} {P : σ → Prop} (hp : ∀ s a, P s → P (step s a)) (l : List α)
    {s : σ} (hs : P s) : P (l.foldl step s) := by
  induction l generalizing s with
  | nil => exact hs
  | cons a l ih => exact ih (hp s a hs)

theorem foldl_take_succ (step : σ → α → σ) (s : σ) (l : List α) (n : Fin l.length) :
    (l.take (n + 1)).foldl step s = step ((l.take n).foldl step s) (l.get n) := by
  have ht : l.take (n + 1) = l.take n ++ [l.get n] := (List.take_append_getElem n.isLt).symm
  rw [ht, List.foldl_append]
  rfl

/-- A property holds all along a fold when it holds at first and no step breaks it. -/
theorem foldl_all_iff {step : σ → α → σ} {P : σ → Prop} {Q : σ → α → Prop} {s : σ} {l : List α}
    (hstep : ∀ n : Fin l.length, P ((l.take n).foldl step s) →
      (P (step ((l.take n).foldl step s) (l.get n)) ↔ Q ((l.take n).foldl step s) (l.get n))) :
    (∀ n, P ((l.take n).foldl step s)) ↔ P s ∧ ∀ n : Fin l.length, Q ((l.take n).foldl step s) (l.get n) := by
  constructor
  · intro h
    refine ⟨h 0, fun n => (hstep n (h n)).mp ?_⟩
    rw [← foldl_take_succ step s l n]
    exact h (n + 1)
  · rintro ⟨h0, h⟩ n
    induction n with
    | zero => exact h0
    | succ n ih =>
      by_cases hn : n < l.length
      · rw [foldl_take_succ step s l ⟨n, hn⟩]
        exact (hstep ⟨n, hn⟩ ih).mpr (h ⟨n, hn⟩)
      · rw [List.take_of_length_le (by omega)] at ih ⊢
        exact ih

/-- What every step of the fold keeps holds all along it. -/
theorem foldl_all {step : σ → α → σ} {P : σ → Prop} {s : σ} {l : List α} (h0 : P s)
    (hp : ∀ s, ∀ a ∈ l, P s → P (step s a)) (n : Nat) : P ((l.take n).foldl step s) :=
  (foldl_all_iff (Q := fun _ _ => True) fun _ h => iff_of_true (hp _ _ (List.get_mem ..) h) trivial).mpr
    ⟨h0, fun _ => trivial⟩ n

end Angelic.StateRel
