import Angelic.Model.Transport
import Angelic.Lib.StateRel

namespace Angelic.Proofs
open CString Model StateRel

/-! The records that reach a client, when TCP can be short of memory. -/

/-- `tcp_write` takes all it is given or answers `ERR_MEM`. -/
def taking (ok : Nat → Bool) (k : Nat) : TcpWrite := if ok k then .ok else .mem

section Loop
variable {α : Type} {max : Nat} {ok : Nat → Bool} {pcb : Pcb}

/-- The calls of `send_raw` for some texts. -/
def sendAll (max : Nat) (ok : Nat → Bool) (pcb : Pcb) (texts : List (List α)) : StateM (SslOut α) PUnit :=
  texts.forM fun text => do
    let _ ← transmit (sslTransport max (taking ok)) true (some pcb) text

/-- The plaintext of the records that have reached the client. -/
def plaintext (max : Nat) (ok : Nat → Bool) (pcb : Pcb) (texts : List (List α)) : List α :=
  (sendAll max ok pcb texts ⟨none, [], 0⟩).2.received

/-- The call after the one that takes a record: the first or the second of two. -/
def attempt (ok : Nat → Bool) (k : Nat) : Option Nat :=
  if ok k then some (k + 1) else if ok (k + 1) then some (k + 2) else none

theorem attempt_some {k k' : Nat} (h : attempt ok k = some k') :
    (ok k = true ∧ k' = k + 1) ∨ (ok k = false ∧ ok (k + 1) = true ∧ k' = k + 2) := by
  unfold attempt at h
  split at h
  · exact .inl ⟨‹_›, (Option.some.inj h).symm⟩
  · split at h
    · exact .inr ⟨Bool.eq_false_iff.mpr ‹_›, ‹_›, (Option.some.inj h).symm⟩
    · cases h

theorem attempt_none {k : Nat} (h : attempt ok k = none) : ok k = false ∧ ok (k + 1) = false := by
  unfold attempt at h
  split at h
  · cases h
  · split at h
    · cases h
    · exact ⟨Bool.eq_false_iff.mpr ‹_›, Bool.eq_false_iff.mpr ‹_›⟩

/-- The loop of one `send_raw`. -/
abbrev sendLoop (max : Nat) (ok : Nat → Bool) (pcb : Pcb) : Nat → List α → StateM (SslOut α) (List α) :=
  tlsLoop (sslTransport max (taking ok)) (some pcb)

theorem write_ok {s : SslOut α} (p : List α) (h : ok s.calls = true) :
    (sslTransport max (taking ok)).ssl_write (some pcb) p s =
      (.wrote (min p.length max), ⟨none, s.received ++ s.pending.getD (p.take max), s.calls + 1⟩) := by
  simp only [sslTransport, mbedtls_ssl_write, tls_net_send, taking, h, Option.isSome_some, if_true]

theorem write_mem {s : SslOut α} (p : List α) (h : ok s.calls = false) :
    (sslTransport max (taking ok)).ssl_write (some pcb) p s =
      (.want, ⟨some (s.pending.getD (p.take max)), s.received, s.calls + 1⟩) := by
  simp only [sslTransport, mbedtls_ssl_write, tls_net_send, taking, h, Option.isSome_some, if_true,
    Bool.false_eq_true, if_false]

theorem loop_nil (fuel : Nat) (s : SslOut α) : (sendLoop max ok pcb fuel [] s).2 = s := by
  cases fuel <;> rfl

variable {p : List α} (hp : p ≠ []) (hmax : 0 < max) {s : SslOut α} {fuel : Nat}
include hp hmax

theorem drop_taken : ∃ n, min p.length max = n + 1 ∧ p.drop (n + 1) = p.drop max := by
  have hl := List.length_pos_iff.mpr hp
  refine ⟨min p.length max - 1, by omega, ?_⟩
  rw [show min p.length max - 1 + 1 = min p.length max by omega]
  by_cases h : p.length ≤ max
  · rw [Nat.min_eq_left h, List.drop_of_length_le (Nat.le_refl _), List.drop_of_length_le h]
  · rw [Nat.min_eq_right (by omega)]

/-- A record is sent, at the first attempt or at the second. -/
theorem loop_taken {k : Nat} (h : attempt ok s.calls = some k) : sendLoop max ok pcb (fuel + 1) p s =
      sendLoop max ok pcb fuel (p.drop max) ⟨none, s.received ++ s.pending.getD (p.take max), k⟩ := by
  obtain ⟨n, hn, hd⟩ := drop_taken hp hmax
  rw [sendLoop, tlsLoop, if_neg (by simpa using hp)]
  rcases attempt_some h with ⟨h₁, rfl⟩ | ⟨h₁, h₂, rfl⟩
  · simp only [bind_run, write_ok p h₁, reduceCtorEq, if_false, pure_run, hn, hd]
  · simp only [bind_run, write_mem p h₁, if_true]
    rw [write_ok p (by exact h₂)]
    simp only [hn, hd, Option.getD_some]

omit hmax in
/-- The record stays where it is and the rest of the text is given up. -/
theorem loop_stuck (h : attempt ok s.calls = none) :
    (sendLoop max ok pcb (fuel + 1) p s).2 = ⟨some (s.pending.getD (p.take max)), s.received, s.calls + 2⟩ := by
  obtain ⟨h₁, h₂⟩ := attempt_none h
  rw [sendLoop, tlsLoop, if_neg (by simpa using hp)]
  simp only [bind_run, write_mem p h₁, if_true]
  rw [write_mem p (by exact h₂)]
  rfl

end Loop

/-! The condition, on the numbers of records of the texts and the answers of `tcp_write`. -/

/-- The records of a text of `n` bytes. -/
def records (max n : Nat) : Nat := (n + max - 1) / max

/-- From the call `k` on nothing is taken. -/
def Silent (ok : Nat → Bool) : Nat → List Nat → Prop
  | _, [] => True
  | k, 0 :: ls => Silent ok k ls
  | k, (_ + 1) :: ls => attempt ok k = none ∧ Silent ok (k + 2) ls

/-- One record is taken, the one that was left, and it costs a text one of its own. -/
def Once (ok : Nat → Bool) : Nat → List Nat → Prop
  | _, [] => False
  | k, 0 :: ls => Once ok k ls
  | k, (c + 1) :: ls =>
    match attempt ok k with
    | some k' => Silent ok k' (c :: ls)
    | none => Once ok (k + 2) ls

/-- Every record is taken. Should one be refused twice, then it is the first of its text and nothing is
taken after it, or it is the last of its text and nothing is taken after it but itself. -/
def Orderly (ok : Nat → Bool) : Bool → Nat → List Nat → Prop
  | _, _, [] => True
  | _, k, 0 :: ls => Orderly ok false k ls
  | started, k, (c + 1) :: ls =>
    match attempt ok k with
    | some k' => Orderly ok true k' (c :: ls)
    | none => (started = false ∧ Silent ok (k + 2) ls) ∨ (c = 0 ∧ Once ok (k + 2) ls)
  termination_by _ _ ls => ls.sum + ls.length

theorem records_zero {max : Nat} (hmax : 0 < max) : records max 0 = 0 := by
  rw [records, Nat.zero_add]
  exact Nat.div_eq_of_lt (by omega)

theorem records_pos {max n : Nat} (hmax : 0 < max) (hn : 0 < n) : records max n = records max (n - max) + 1 := by
  unfold records
  by_cases h : n ≤ max
  · rw [Nat.sub_eq_zero_of_le h, Nat.zero_add, Nat.div_eq_of_lt (show max - 1 < max by omega)]
    exact Nat.div_eq_of_lt_le (by omega) (by omega)
  · rw [show n + max - 1 = n - max + max - 1 + max by omega, Nat.add_div_right _ hmax]

theorem records_eq_zero {max n : Nat} (hmax : 0 < max) : records max n = 0 ↔ n = 0 := by
  constructor
  · intro h
    by_contra hn
    rw [records_pos hmax (Nat.pos_of_ne_zero hn)] at h
    cases h
  · rintro rfl
    exact records_zero hmax

theorem silent_not_once {ok : Nat → Bool} {k : Nat} {ls : List Nat} (h : Silent ok k ls) : ¬ Once ok k ls := by
  fun_induction Silent ok k ls with
  | case1 => exact id
  | case2 k ls ih => exact ih h
  | case3 k c ls ih =>
    rw [Once, h.1]
    exact ih h.2

section Sequence
variable {α : Type} {max : Nat} {ok : Nat → Bool} {pcb : Pcb}

/-- More fuel than bytes makes no difference. -/
theorem loop_fuel (hmax : 0 < max) {fuel : Nat} {p : List α} (hf : p.length ≤ fuel) (s : SslOut α) :
    (sendLoop max ok pcb fuel p s).2 = (sendLoop max ok pcb p.length p s).2 := by
  have more : ∀ (fuel : Nat) (p : List α) (s : SslOut α), p.length ≤ fuel →
      (sendLoop max ok pcb (fuel + 1) p s).2 = (sendLoop max ok pcb fuel p s).2 := by
    intro fuel
    induction fuel with
    | zero =>
      intro p s h
      rw [List.eq_nil_of_length_eq_zero (Nat.le_zero.mp h), loop_nil, loop_nil]
    | succ fuel ih =>
      intro p s h
      by_cases hp : p = []
      · rw [hp, loop_nil, loop_nil]
      · cases ha : attempt ok s.calls with
        | none => rw [loop_stuck hp ha, loop_stuck hp ha]
        | some k =>
          rw [loop_taken hp hmax ha, loop_taken hp hmax ha]
          refine ih _ _ ?_
          rw [List.length_drop]
          omega
  induction fuel with
  | zero => rw [Nat.le_zero.mp hf]
  | succ fuel ih =>
    by_cases h : p.length = fuel + 1
    · rw [h]
    · rw [more fuel p s (by omega), ih (by omega)]

variable {p : List α} {texts : List (List α)} {s : SslOut α}

theorem sendAll_empty : (sendAll max ok pcb ([] :: texts) s).2 = (sendAll max ok pcb texts s).2 := rfl

theorem sendAll_taken (hmax : 0 < max) (hp : p ≠ []) {k : Nat} (h : attempt ok s.calls = some k) :
    (sendAll max ok pcb (p :: texts) s).2 =
      (sendAll max ok pcb (p.drop max :: texts) ⟨none, s.received ++ s.pending.getD (p.take max), k⟩).2 := by
  obtain ⟨n, hn⟩ : ∃ n, p.length = n + 1 := Nat.exists_eq_succ_of_ne_zero (List.length_pos_iff.mpr hp).ne'
  have hl : (p.drop max).length ≤ n := by
    rw [List.length_drop]
    omega
  change (sendAll max ok pcb texts (sendLoop max ok pcb p.length p s).2).2 =
    (sendAll max ok pcb texts (sendLoop max ok pcb (p.drop max).length (p.drop max) _).2).2
  rw [hn, loop_taken hp hmax h, loop_fuel hmax hl]

theorem sendAll_stuck (hp : p ≠ []) (h : attempt ok s.calls = none) : (sendAll max ok pcb (p :: texts) s).2 =
      (sendAll max ok pcb texts ⟨some (s.pending.getD (p.take max)), s.received, s.calls + 2⟩).2 := by
  obtain ⟨n, hn⟩ : ∃ n, p.length = n + 1 := Nat.exists_eq_succ_of_ne_zero (List.length_pos_iff.mpr hp).ne'
  change (sendAll max ok pcb texts (sendLoop max ok pcb p.length p s).2).2 = _
  rw [hn, loop_stuck hp h]

/-- What has reached the client stays with it. -/
theorem loop_grows (hmax : 0 < max) (fuel : Nat) (p : List α) (s : SslOut α) :
    s.received <+: (sendLoop max ok pcb fuel p s).2.received := by
  induction fuel generalizing p s with
  | zero => exact List.prefix_rfl
  | succ fuel ih =>
    by_cases hp : p = []
    · have he : (sendLoop max ok pcb (fuel + 1) p s).2.received = s.received := by rw [hp, loop_nil]
      exact ⟨[], by rw [List.append_nil, he]⟩
    · cases h : attempt ok s.calls with
      | some k =>
        have hr : s.received <+: s.received ++ s.pending.getD (p.take max) := List.prefix_append _ _
        rw [loop_taken hp hmax h]
        exact hr.trans (ih _ ⟨none, s.received ++ s.pending.getD (p.take max), k⟩)
      | none =>
        have he : (sendLoop max ok pcb (fuel + 1) p s).2.received = s.received := by rw [loop_stuck hp h]
        exact ⟨[], by rw [List.append_nil, he]⟩

theorem sendAll_grows (hmax : 0 < max) (texts : List (List α)) (s : SslOut α) :
    s.received <+: (sendAll max ok pcb texts s).2.received := by
  induction texts generalizing s with
  | nil => exact List.prefix_rfl
  | cons text texts ih => exact (loop_grows hmax text.length text s).trans (ih _)

/-- The numbers of records of some texts. -/
abbrev counts (max : Nat) (texts : List (List α)) : List Nat := texts.map fun text => records max text.length

theorem silent_cons (hmax : 0 < max) (hp : p ≠ []) (k : Nat) (ls : List Nat) :
    Silent ok k (records max p.length :: ls) ↔ attempt ok k = none ∧ Silent ok (k + 2) ls := by
  rw [records_pos hmax (List.length_pos_iff.mpr hp), Silent]

/-- The record that the next call tries to send. -/
theorem record_ne (hmax : 0 < max) (hp : p ≠ []) (hr : s.pending ≠ some []) : s.pending.getD (p.take max) ≠ [] := by
  cases h : s.pending with
  | none =>
    rw [Option.getD_none, ne_eq, List.take_eq_nil_iff]
    rintro (h₀ | h₀)
    · exact absurd h₀ (Nat.ne_of_gt hmax)
    · exact hp h₀
  | some r =>
    rintro rfl
    exact hr h

theorem mem_record {y : α} (h : y ∈ s.pending.getD (p.take max)) : y ∈ s.pending.getD [] ++ p := by
  cases hr : s.pending with
  | none =>
    rw [hr] at h
    exact List.mem_append_right _ (List.mem_of_mem_take h)
  | some r =>
    rw [hr] at h
    exact List.mem_append_left _ h

/-- The next byte that reaches the client is of the record that was left or of what there is to send. -/
theorem received_next (hmax : 0 < max) (hr : s.pending ≠ some []) (h : ¬ Silent ok s.calls (counts max texts)) :
    ∃ y ∈ s.pending.getD [] ++ texts.flatten, s.received ++ [y] <+: (sendAll max ok pcb texts s).2.received := by
  induction texts generalizing s with
  | nil => exact absurd trivial h
  | cons p texts ih =>
    by_cases hp : p = []
    · subst hp
      rw [counts, List.map_cons, List.length_nil, records_zero hmax] at h
      exact ih hr h
    · have hne := record_ne hmax hp hr
      cases ha : attempt ok s.calls with
      | some k =>
        -- the record goes out and with it its first byte
        obtain ⟨y, rest, hy⟩ := List.exists_cons_of_ne_nil hne
        have hmem : y ∈ s.pending.getD (p.take max) := hy ▸ List.mem_cons_self
        refine ⟨y, ?_, ?_⟩
        · rw [List.flatten_cons, ← List.append_assoc]
          exact List.mem_append_left _ (mem_record hmem)
        · rw [sendAll_taken hmax hp ha, hy]
          refine List.IsPrefix.trans ?_ (sendAll_grows hmax _ _)
          exact ⟨rest, by rw [List.append_assoc]; rfl⟩
      | none =>
        rw [counts, List.map_cons, silent_cons hmax hp, ha] at h
        rw [sendAll_stuck hp ha]
        obtain ⟨y, hy, hgo⟩ := ih (s := ⟨some (s.pending.getD (p.take max)), s.received, s.calls + 2⟩)
          (fun he => hne (Option.some.inj he)) fun hs => h ⟨rfl, hs⟩
        refine ⟨y, ?_, hgo⟩
        rw [List.flatten_cons, ← List.append_assoc]
        rcases List.mem_append.mp hy with hy | hy
        · exact List.mem_append_left _ (mem_record hy)
        · exact List.mem_append_right _ hy

theorem received_silent (hmax : 0 < max) (h : Silent ok s.calls (counts max texts)) :
    (sendAll max ok pcb texts s).2.received = s.received := by
  induction texts generalizing s with
  | nil => rfl
  | cons p texts ih =>
    by_cases hp : p = []
    · subst hp
      rw [counts, List.map_cons, List.length_nil, records_zero hmax] at h
      exact ih h
    · rw [counts, List.map_cons, silent_cons hmax hp] at h
      rw [sendAll_stuck hp h.1, ih h.2]

theorem mem_tail_append {p l : List α} {y : α} (hp : p ≠ []) (hmax : 0 < max) (h : y ∈ p.drop max ++ l) :
    y ∈ (p ++ l).tail := by
  obtain ⟨x, p', rfl⟩ := List.exists_cons_of_ne_nil hp
  obtain ⟨m, rfl⟩ := Nat.exists_eq_succ_of_ne_zero hmax.ne'
  rw [List.cons_append, List.tail_cons]
  rcases List.mem_append.mp h with h | h
  · exact List.mem_append_left _ (List.mem_of_mem_drop h)
  · exact List.mem_append_right _ h

/-- A record was left: it reaches the client alone, or not at all, or it is followed by what is not the
next byte to be sent. -/
theorem received_left (hmax : 0 < max) {r : List α} (hr : s.pending = some r) :
    (Once ok s.calls (counts max texts) → (sendAll max ok pcb texts s).2.received = s.received ++ r) ∧
      (¬ Once ok s.calls (counts max texts) → ¬ Silent ok s.calls (counts max texts) →
        ∃ y ∈ texts.flatten.tail, s.received ++ r ++ [y] <+: (sendAll max ok pcb texts s).2.received) := by
  induction texts generalizing s with
  | nil => exact ⟨False.elim, fun _ h => absurd trivial h⟩
  | cons p texts ih =>
    by_cases hp : p = []
    · subst hp
      rw [counts, List.map_cons, List.length_nil, records_zero hmax]
      exact ih hr
    · have hrec : s.pending.getD (p.take max) = r := by rw [hr, Option.getD_some]
      rw [counts, List.map_cons, silent_cons hmax hp, records_pos hmax (List.length_pos_iff.mpr hp), Once,
        List.flatten_cons]
      cases ha : attempt ok s.calls with
      | some k =>
        -- the text is one record short, whatever comes of the rest
        rw [sendAll_taken hmax hp ha, hrec, ← List.length_drop]
        refine ⟨fun h => received_silent hmax h, fun h _ => ?_⟩
        have hnext : ∃ y ∈ [] ++ (p.drop max :: texts).flatten, s.received ++ r ++ [y] <+:
            (sendAll max ok pcb (p.drop max :: texts) ⟨none, s.received ++ r, k⟩).2.received :=
          received_next (s := ⟨none, s.received ++ r, k⟩) hmax (by simp) h
        obtain ⟨y, hy, hgo⟩ := hnext
        exact ⟨y, mem_tail_append hp hmax hy, hgo⟩
      | none =>
        rw [sendAll_stuck hp ha, hrec]
        obtain ⟨hone, hmore⟩ := ih (s := ⟨some r, s.received, s.calls + 2⟩) rfl
        refine ⟨hone, fun h hs => ?_⟩
        obtain ⟨y, hy, hgo⟩ := hmore h fun hs' => hs ⟨rfl, hs'⟩
        exact ⟨y, mem_tail_append hp hmax (List.mem_append_right _ (List.mem_of_mem_tail hy)), hgo⟩

end Sequence

end Angelic.Proofs
