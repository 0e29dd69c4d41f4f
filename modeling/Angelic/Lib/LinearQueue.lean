namespace Angelic.LinearQueue

/-! A queue kept in a linear array: what is pushed goes behind what is there, reading moves a position, and from
time to time the rest is moved to the front. -/

structure Queue (α : Type) where
  data : List α
  pos : Nat

inductive Op (α : Type) where
  | push (xs : List α)
  | read (n : Nat)
  | compact

variable {α : Type}

namespace Queue

/-- What has not been read yet. -/
def pending (b : Queue α) : List α := b.data.drop b.pos

def apply (b : Queue α) : Op α → Queue α
  | .push xs => ⟨b.data ++ xs, b.pos⟩
  | .read n => ⟨b.data, b.pos + min n (b.data.length - b.pos)⟩
  | .compact => ⟨b.pending, 0⟩

/-- What an operation reads. -/
def reads (b : Queue α) : Op α → List α
  | .read n => b.pending.take n
  | _ => []

def run (b : Queue α) (ops : List (Op α)) : Queue α := ops.foldl apply b

/-- All that is read, in order. -/
def output (b : Queue α) : List (Op α) → List α
  | [] => []
  | op :: ops => b.reads op ++ (b.apply op).output ops

/-- Every push has the room it needs. -/
def Fits (cap : Nat) (b : Queue α) : List (Op α) → Prop
  | [] => True
  | op :: ops => (b.apply op).data.length ≤ cap ∧ (b.apply op).Fits cap ops

end Queue

/-- All that is pushed, in order. -/
def input : List (Op α) → List α
  | [] => []
  | .push xs :: ops => xs ++ input ops
  | _ :: ops => input ops

namespace Queue

variable {cap : Nat}

variable {b : Queue α}

theorem apply_pos (h : b.pos ≤ b.data.length) (op : Op α) : (b.apply op).pos ≤ (b.apply op).data.length := by
  cases op with
  | push xs =>
    change b.pos ≤ (b.data ++ xs).length
    rw [List.length_append]
    omega
  | read n =>
    change b.pos + min n (b.data.length - b.pos) ≤ b.data.length
    omega
  | compact => exact Nat.zero_le _

/-- Nothing is lost, doubled or moved out of order: one operation. -/
theorem apply_fifo (h : b.pos ≤ b.data.length) (op : Op α) :
    b.pending ++ input [op] = b.reads op ++ (b.apply op).pending := by
  cases op with
  | push xs =>
    change b.data.drop b.pos ++ (xs ++ []) = [] ++ (b.data ++ xs).drop b.pos
    rw [List.append_nil, List.nil_append, List.drop_append_of_le_length h]
  | read n =>
    change b.pending ++ [] = b.pending.take n ++ b.data.drop (b.pos + min n (b.data.length - b.pos))
    have hl : b.data.length - b.pos = b.pending.length := List.length_drop.symm
    have hd : b.pending.drop (min n b.pending.length) = b.pending.drop n := by
      rcases Nat.le_total n b.pending.length with hn | hn
      · rw [Nat.min_eq_left hn]
      · rw [Nat.min_eq_right hn, List.drop_length, List.drop_of_length_le hn]
    rw [List.append_nil, ← List.drop_drop, ← pending, hl, hd, List.take_append_drop]
  | compact => exact List.append_nil _

theorem run_pos (h : b.pos ≤ b.data.length) (ops : List (Op α)) : (b.run ops).pos ≤ (b.run ops).data.length := by
  induction ops generalizing b with
  | nil => exact h
  | cons op ops ih => exact ih (apply_pos h op)

theorem input_cons (op : Op α) (ops : List (Op α)) : input (op :: ops) = input [op] ++ input ops := by
  cases op with
  | push xs =>
    change xs ++ input ops = xs ++ [] ++ input ops
    rw [List.append_nil]
  | read n => rfl
  | compact => rfl

/-- The same for a whole run: what was there and what is pushed is what is read and what is left. -/
theorem run_fifo (h : b.pos ≤ b.data.length) (ops : List (Op α)) :
    b.pending ++ input ops = b.output ops ++ (b.run ops).pending := by
  induction ops generalizing b with
  | nil => exact List.append_nil _
  | cons op ops ih =>
    calc b.pending ++ input (op :: ops)
        = b.reads op ++ (b.apply op).pending ++ input ops := by rw [input_cons, ← List.append_assoc, apply_fifo h op]
      _ = b.reads op ++ ((b.apply op).output ops ++ ((b.apply op).run ops).pending) := by
        rw [List.append_assoc, ih (apply_pos h op)]
      _ = b.output (op :: ops) ++ (b.run (op :: ops)).pending := (List.append_assoc ..).symm

variable {ops : List (Op α)}

theorem run_fits (hb : b.data.length ≤ cap) (h : b.Fits cap ops) (k : Nat) :
    (b.run (ops.take k)).data.length ≤ cap := by
  induction ops generalizing b k with
  | nil => rwa [List.take_nil]
  | cons op ops ih =>
    cases k with
    | zero => exact hb
    | succ k => exact ih h.1 h.2 k

theorem Fits.append {ops' : List (Op α)} (h : b.Fits cap ops) (h' : (b.run ops).Fits cap ops') :
    b.Fits cap (ops ++ ops') := by
  induction ops generalizing b with
  | nil => exact h'
  | cons op ops ih => exact ⟨h.1, ih h.2 h'⟩

theorem run_append (b : Queue α) (ops ops' : List (Op α)) : b.run (ops ++ ops') = (b.run ops).run ops' := List.foldl_append

/-- Reading and moving to the front bring nothing in. -/
def Quiet (ops : List (Op α)) : Prop := ∀ op ∈ ops, ∀ xs, op ≠ .push xs

theorem Quiet.append {ops' : List (Op α)} (h : Quiet ops) (h' : Quiet ops') : Quiet (ops ++ ops') := fun op hop =>
  (List.mem_append.mp hop).elim (h op) (h' op)

theorem quiet_reads (lens : List Nat) : Quiet (lens.map .read : List (Op α)) := by
  intro op hop xs
  obtain ⟨len, -, rfl⟩ := List.mem_map.mp hop
  exact nofun

theorem quiet_compact : Quiet ([.compact] : List (Op α)) := by
  intro op hop xs
  rw [List.mem_singleton.mp hop]
  exact nofun

theorem Quiet.input (h : Quiet ops) : input ops = [] := by
  induction ops with
  | nil => rfl
  | cons op ops ih =>
    have hrest := ih fun op' hm => h op' (List.mem_cons_of_mem op hm)
    cases op with
    | push xs => exact absurd rfl (h _ List.mem_cons_self xs)
    | read n => exact hrest
    | compact => exact hrest

/-- They need no room either. -/
theorem Quiet.fits (h : Quiet ops) (hb : b.data.length ≤ cap) : b.Fits cap ops := by
  induction ops generalizing b with
  | nil => trivial
  | cons op ops ih =>
    have hop : (b.apply op).data.length ≤ cap := by
      cases op with
      | push xs => exact absurd rfl (h _ List.mem_cons_self xs)
      | read n => exact hb
      | compact =>
        change (b.data.drop b.pos).length ≤ cap
        rw [List.length_drop]
        omega
    exact ⟨hop, ih (fun op' hm => h op' (List.mem_cons_of_mem op hm)) hop⟩

end Queue

end Angelic.LinearQueue
