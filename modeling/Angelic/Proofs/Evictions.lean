import Angelic.Proofs.Isolation

namespace Angelic.Proofs
open CString Model StateRel Relation

/-! Which context a new connection is given. -/

def isAccept : Event → Bool
  | .accept _ => true
  | _ => false

/-- The context whose turn it is: connections are dealt out in rotation. -/
def turnOf (es : List Event) : Slot := Fin.ofNat MAX_USERS (es.countP isAccept)

/-- Only an accepted connection moves the counter on. -/
theorem step_client_idx (s : Server) (e : Event) :
    (step s e).client_idx = if isAccept e then s.client_idx + 1 else s.client_idx := by
  by_cases ha : ∃ pcb, e = .accept pcb
  · obtain ⟨pcb, rfl⟩ := ha
    rw [accept_eq]
    rfl
  · have hf : isAccept e = false := by
      cases e with
      | accept pcb => exact absurd ⟨pcb, rfl⟩ ha
      | _ => rfl
    rw [hf, if_neg Bool.false_ne_true]
    cases hs : Event.slot s e with
    | none => rw [step_no_slot hs fun pcb hp => ha ⟨pcb, hp⟩]
    | some me => exact (event_apart hs).client_idx

theorem run_client_idx (m : Machine) (es : List Event) : (m.run es).client_idx = turnOf es := by
  have hrun : ∀ (s : Server) (n : Nat), s.client_idx = Fin.ofNat MAX_USERS n →
      (es.foldl step s).client_idx = Fin.ofNat MAX_USERS (n + es.countP isAccept) := by
    induction es with
    | nil => exact fun _ _ h => h
    | cons e es ih =>
      intro s n h
      rw [List.foldl_cons, List.countP_cons]
      by_cases he : isAccept e
      · have hstep : (step s e).client_idx = Fin.ofNat MAX_USERS (n + 1) := by
          rw [step_client_idx, if_pos he, h]
          exact Fin.ext (by simp [Fin.val_add, Fin.ofNat])
        rw [ih _ _ hstep, if_pos he, Nat.add_assoc, Nat.add_comm 1]
      · rw [ih _ n (by rw [step_client_idx, if_neg he, h]), if_neg he]
        rfl
  have h := hrun m.boot 0 rfl
  rwa [Nat.zero_add] at h

/-- Accepting a connection neither closes nor overwrites a context with a connection as long as
another one has none. -/
def Spares (s : Server) (newpcb : Pcb) : Prop :=
  ∀ i, (s.client_registry i).pcb.isSome → (∃ j, j ≠ i ∧ (s.client_registry j).pcb = none) →
    (step s (.accept newpcb)).client_registry i = s.client_registry i ∧
      .tcp_close (s.client_registry i).pcb ∉ (step s (.accept newpcb)).out.drop s.out.length

theorem accept_out (s : Server) (newpcb : Pcb) : (step s (.accept newpcb)).out.drop s.out.length = evicted s := by
  rw [accept_eq, List.drop_left]

theorem spares_iff (s : Server) (newpcb : Pcb) : Spares s newpcb ↔
      (s.client_registry s.client_idx).pcb = none ∨ ∀ j, (s.client_registry j).pcb ≠ none := by
  constructor
  · intro h
    by_contra hn
    push Not at hn
    obtain ⟨hlive, j, hj⟩ := hn
    have hne : j ≠ s.client_idx := fun he => hlive (he ▸ hj)
    have hsome := Option.isSome_iff_ne_none.mpr hlive
    obtain ⟨-, hout⟩ := h s.client_idx hsome ⟨j, hne, hj⟩
    rw [accept_out, evicted, if_pos hsome] at hout
    exact hout (.head _)
  · rintro (hfree | hfull) i hi ⟨j, -, hj⟩
    · have hne : i ≠ s.client_idx := fun he => by
        rw [he, hfree] at hi
        cases hi
      refine ⟨?_, ?_⟩
      · rw [accept_eq]
        simp [hne]
      · rw [accept_out, evicted, if_neg (by simp [hfree])]
        exact List.not_mem_nil
    · exact absurd hj (hfull j)

/-- In a run no connection is given the context of another while there is a free one, exactly when
each comes in at a time when the context whose turn it is is free, or none is. -/
theorem accepts_spare_iff (m : Machine) (es : List Event) :
    (∀ n pcb, es[n]? = some (.accept pcb) → Spares (m.run (es.take n)) pcb) ↔
      ∀ n pcb, es[n]? = some (.accept pcb) →
        ((m.run (es.take n)).client_registry (turnOf (es.take n))).pcb = none ∨
          ∀ j, ((m.run (es.take n)).client_registry j).pcb ≠ none := by
  simp only [spares_iff, run_client_idx]

/-- Everybody has come and somebody has left. -/
def oneLeft : List Event := (List.range MAX_USERS).map .accept ++ [.close 5]

/-- The next connection is given the context of the first one, which is closed, and not the free one. -/
theorem eviction_beside_free :
    ((blank.run oneLeft).client_registry 0).pcb = some 0 ∧ ((blank.run oneLeft).client_registry 5).pcb = none ∧
      ((step (blank.run oneLeft) (.accept 20)).client_registry 0).pcb = some 20 ∧
      .tcp_close (some 0) ∈ (step (blank.run oneLeft) (.accept 20)).out := by
  decide +kernel

end Angelic.Proofs
