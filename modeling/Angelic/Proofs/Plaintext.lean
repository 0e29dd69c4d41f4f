import Angelic.Proofs.Records

namespace Angelic.Proofs
open CString Model StateRel

/-! What a client decrypts of the texts that are sent to it. -/

section Sequence
variable {α : Type} {max : Nat} {ok : Nat → Bool} {pcb : Pcb} {p : List α} {texts : List (List α)}
  {s : SslOut α}

/-- The client has some of the texts, whole and in order. -/
def Whole (texts : List (List α)) (l : List α) : Prop := ∃ n, l = (texts.take n).flatten

theorem flatten_take_front (texts : List (List α)) (n : Nat) : (texts.take n).flatten <+: texts.flatten :=
  ⟨(texts.drop n).flatten, by rw [← List.flatten_append, List.take_append_drop]⟩

theorem not_whole_inside {before : List (List α)} {text : List α} {l : List α}
    (h : before.flatten.length < l.length) (h' : l.length < before.flatten.length + text.length) :
    ¬ Whole (before ++ text :: texts) l := by
  rintro ⟨n, rfl⟩
  by_cases hn : n ≤ before.length
  · rw [List.take_append_of_le_length hn] at h
    have := (flatten_take_front before n).length_le
    omega
  · obtain ⟨m, hm⟩ : ∃ m, n = before.length + (m + 1) := ⟨n - before.length - 1, by omega⟩
    rw [hm, List.take_length_add_append, List.take_succ_cons, List.flatten_append, List.flatten_cons] at h'
    simp only [List.length_append] at h'
    omega

/-- A byte out of turn. -/
theorem not_whole_skipped {before l rest : List α} {y : α} (hw : texts.flatten = before ++ rest)
    (hy : before ++ [y] <+: l) (hn : ¬ [y] <+: rest) : ¬ Whole texts l := by
  rintro ⟨n, rfl⟩
  have hp : before ++ [y] <+: before ++ rest := hw ▸ hy.trans (flatten_take_front texts n)
  exact hn ((List.prefix_append_right_inj before).mp hp)

/-- The next byte in turn does not come again. -/
theorem not_next {p l : List α} {y : α} (hd : (p ++ l).Nodup) (hy : y ∈ l.tail) : ¬ [y] <+: p ++ l := by
  rintro ⟨rest, he⟩
  rw [← he] at hd
  have hout : y ∉ rest := (List.nodup_cons.mp hd).1
  cases p with
  | nil =>
    rw [List.nil_append] at he
    rw [← he] at hy
    exact hout hy
  | cons x p =>
    have hrest : rest = p ++ l := (List.cons.inj he).2
    exact hout (hrest ▸ List.mem_append_right _ (List.mem_of_mem_tail hy))

/-- A record has been refused twice. -/
theorem whole_iff_left (hmax : 0 < max) (hp : p ≠ []) {before : List (List α)} {sent : List α}
    (hs : s.pending = some (p.take max)) (hrec : s.received = before.flatten ++ sent)
    (hd : (before ++ (sent ++ p) :: texts).flatten.Nodup) :
    Whole (before ++ (sent ++ p) :: texts) (sendAll max ok pcb texts s).2.received ↔
      (sent = [] ∧ Silent ok s.calls (counts max texts)) ∨ (p.length ≤ max ∧ Once ok s.calls (counts max texts)) := by
  have hpos := List.length_pos_iff.mpr hp
  have hflat : (before ++ (sent ++ p) :: texts).flatten =
      before.flatten ++ sent ++ p.take max ++ (p.drop max ++ texts.flatten) := by
    simp only [List.flatten_append, List.flatten_cons, List.append_assoc, ← List.append_assoc (p.take max),
      List.take_append_drop]
  have hleft : (Once ok s.calls (counts max texts) →
        (sendAll max ok pcb texts s).2.received = s.received ++ p.take max) ∧
      (¬ Once ok s.calls (counts max texts) → ¬ Silent ok s.calls (counts max texts) →
        ∃ y ∈ texts.flatten.tail, s.received ++ p.take max ++ [y] <+:
          (sendAll max ok pcb texts s).2.received) := received_left hmax hs
  obtain ⟨hone, hmore⟩ := hleft
  by_cases hsil : Silent ok s.calls (counts max texts)
  · rw [received_silent hmax hsil, hrec]
    constructor
    · intro hw
      refine .inl ⟨?_, hsil⟩
      by_contra hne
      have hlen := List.length_pos_iff.mpr hne
      refine not_whole_inside ?_ ?_ hw
      · rw [List.length_append]
        omega
      · rw [List.length_append, List.length_append]
        omega
    · rintro (⟨rfl, -⟩ | ⟨-, ho⟩)
      · exact ⟨before.length, by rw [List.take_left, List.append_nil]⟩
      · exact absurd ho (silent_not_once hsil)
  · by_cases ho : Once ok s.calls (counts max texts)
    · rw [hone ho, hrec]
      constructor
      · intro hw
        refine .inr ⟨?_, ho⟩
        by_contra hlt
        have htake : (p.take max).length = max := by
          rw [List.length_take]
          omega
        refine not_whole_inside ?_ ?_ hw
        · simp only [List.length_append, htake]
          omega
        · simp only [List.length_append, htake]
          omega
      · rintro (⟨-, h⟩ | ⟨hle, -⟩)
        · exact absurd h hsil
        · refine ⟨before.length + 1, ?_⟩
          rw [List.take_of_length_le hle, List.take_length_add_append, List.take_succ_cons]
          simp
    · obtain ⟨y, hy, hgo⟩ := hmore ho hsil
      rw [hrec] at hgo
      refine iff_of_false (not_whole_skipped hflat hgo ?_) ?_
      · rw [hflat] at hd
        exact not_next hd.of_append_right hy
      · rintro (⟨-, h⟩ | ⟨-, h⟩)
        · exact hsil h
        · exact ho h

/-- The rest of a text of which a part has reached the client, and the texts after it. -/
theorem whole_iff_orderly (hmax : 0 < max) (p : List α) (texts : List (List α)) (s : SslOut α)
    (before : List (List α)) (sent : List α) (hs : s.pending = none) (hrec : s.received = before.flatten ++ sent)
    (hd : (before ++ (sent ++ p) :: texts).flatten.Nodup) :
    Whole (before ++ (sent ++ p) :: texts) (sendAll max ok pcb (p :: texts) s).2.received ↔
      Orderly ok (!sent.isEmpty) s.calls (counts max (p :: texts)) := by
  by_cases hp : p = []
  · -- the text has gone out
    subst hp
    rw [counts, List.map_cons, List.length_nil, records_zero hmax, Orderly, List.append_nil, sendAll_empty]
    cases htexts : texts with
    | nil =>
      refine iff_of_true ⟨before.length + 1, ?_⟩ (by rw [List.map_nil, Orderly]; trivial)
      change s.received = _
      rw [hrec, List.take_of_length_le (by simp), List.flatten_append, List.flatten_singleton]
    | cons text rest =>
      have hbefore : before ++ sent :: text :: rest = (before ++ [sent]) ++ ([] ++ text) :: rest := by simp
      rw [List.append_nil, htexts, hbefore] at hd
      rw [hbefore, whole_iff_orderly hmax text rest s (before ++ [sent]) [] hs (by rw [hrec]; simp) hd]
      rfl
  · have hpos := List.length_pos_iff.mpr hp
    rw [counts, List.map_cons, records_pos hmax hpos, Orderly]
    cases ha : attempt ok s.calls with
    | some k =>
      have hsplit : sent ++ p = (sent ++ p.take max) ++ p.drop max := by
        rw [List.append_assoc, List.take_append_drop]
      have hstarted : (!(sent ++ p.take max).isEmpty) = true := by
        have hne := record_ne (s := ⟨none, [], 0⟩) hmax hp (by simp)
        simp only [Option.getD_none] at hne
        simp [hne]
      rw [sendAll_taken hmax hp ha, hsplit, hs, Option.getD_none, ← List.length_drop]
      rw [hsplit] at hd
      have h := whole_iff_orderly hmax (p.drop max) texts ⟨none, s.received ++ p.take max, k⟩ before
        (sent ++ p.take max) rfl (by rw [hrec, List.append_assoc]) hd
      rw [hstarted] at h
      exact h
    | none =>
      have hempty : (!sent.isEmpty) = false ↔ sent = [] := by simp
      have hlast : records max (p.length - max) = 0 ↔ p.length ≤ max := by
        rw [records_eq_zero hmax, Nat.sub_eq_zero_iff_le]
      rw [sendAll_stuck hp ha, hs, Option.getD_none, hempty, hlast]
      exact whole_iff_left (s := ⟨some (p.take max), s.received, s.calls + 2⟩) hmax hp rfl hrec hd
termination_by (p :: texts).flatten.length + (p :: texts).length
decreasing_by
  · simp only [htexts, List.flatten_cons, List.length_append, List.length_cons]
    omega
  · simp only [List.flatten_cons, List.length_append, List.length_cons, List.length_drop]
    omega

end Sequence

/-! The bytes of the texts are told apart by where they stand. -/

section Marks
variable {α β : Type}

/-- Each byte with the number of its text and its place in it. -/
def marked : Nat → List (List α) → List (List (α × Nat × Nat))
  | _, [] => []
  | i, text :: texts => (text.zipIdx.map fun b => (b.1, i, b.2)) :: marked (i + 1) texts

theorem le_of_mem_marked {i : Nat} {texts : List (List α)} {b : α × Nat × Nat}
    (h : b ∈ (marked i texts).flatten) : i ≤ b.2.1 := by
  induction texts generalizing i with
  | nil => exact absurd h List.not_mem_nil
  | cons text texts ih =>
    rw [marked, List.flatten_cons] at h
    rcases List.mem_append.mp h with h | h
    · obtain ⟨c, -, rfl⟩ := List.mem_map.mp h
      exact Nat.le_refl _
    · exact Nat.le_of_succ_le (ih h)

theorem marked_nodup (i : Nat) (texts : List (List α)) : (marked i texts).flatten.Nodup := by
  induction texts generalizing i with
  | nil => exact List.nodup_nil
  | cons text texts ih =>
    rw [marked, List.flatten_cons]
    refine List.Nodup.append ?_ (ih (i + 1)) fun b hb hb' => ?_
    · refine List.Nodup.of_map (fun b => b.2.2) ?_
      rw [List.map_map]
      change (text.zipIdx.map Prod.snd).Nodup
      rw [List.zipIdx_map_snd]
      exact List.nodup_range'
    · obtain ⟨c, -, rfl⟩ := List.mem_map.mp hb
      exact absurd (le_of_mem_marked hb') (Nat.not_succ_le_self i)

theorem marked_fst (i : Nat) (texts : List (List α)) : (marked i texts).map (List.map Prod.fst) = texts := by
  induction texts generalizing i with
  | nil => rfl
  | cons text texts ih =>
    rw [marked, List.map_cons, ih, List.map_map]
    change text.zipIdx.map Prod.fst :: texts = _
    rw [List.zipIdx_map_fst]

variable {max : Nat} {ok : Nat → Bool} {pcb : Pcb}

/-- A session with the bytes replaced. -/
def SslOut.mapped (f : α → β) (s : SslOut α) : SslOut β := ⟨s.pending.map (List.map f), s.received.map f, s.calls⟩

theorem loop_mapped (hmax : 0 < max) (f : α → β) (fuel : Nat) (p : List α) (s : SslOut α) :
    (sendLoop max ok pcb fuel (p.map f) (SslOut.mapped f s)).2 = SslOut.mapped f (sendLoop max ok pcb fuel p s).2 := by
  induction fuel generalizing p s with
  | zero => rfl
  | succ fuel ih =>
    by_cases hp : p = []
    · rw [hp, List.map_nil, loop_nil, loop_nil]
    · have hp' : p.map f ≠ [] := fun h => hp (List.map_eq_nil_iff.mp h)
      have hrec : (SslOut.mapped f s).pending.getD ((p.map f).take max) = (s.pending.getD (p.take max)).map f := by
        rw [SslOut.mapped, ← List.map_take]
        cases s.pending <;> rfl
      cases h : attempt ok s.calls with
      | some k =>
        have hgo := ih (p.drop max) ⟨none, s.received ++ s.pending.getD (p.take max), k⟩
        rw [loop_taken hp hmax h, ← hgo, loop_taken (s := SslOut.mapped f s) hp' hmax h, hrec, ← List.map_drop]
        simp only [SslOut.mapped, Option.map_none, List.map_append]
      | none =>
        rw [loop_stuck hp h, loop_stuck (s := SslOut.mapped f s) hp' h, hrec]
        rfl

/-- What is sent does not depend on the bytes. -/
theorem sendAll_mapped (hmax : 0 < max) (f : α → β) (texts : List (List α)) (s : SslOut α) :
    (sendAll max ok pcb (texts.map (List.map f)) (SslOut.mapped f s)).2 =
      SslOut.mapped f (sendAll max ok pcb texts s).2 := by
  induction texts generalizing s with
  | nil => rfl
  | cons p texts ih =>
    have hp : (sendLoop max ok pcb p.length (p.map f) (SslOut.mapped f s)).2 =
        SslOut.mapped f (sendLoop max ok pcb p.length p s).2 := loop_mapped hmax f p.length p s
    change (sendAll max ok pcb (texts.map (List.map f))
      (sendLoop max ok pcb (p.map f).length (p.map f) (SslOut.mapped f s)).2).2 = _
    rw [List.length_map, hp, ih]
    rfl

end Marks

/-- The client decrypts some of the texts, every byte in its place, exactly when no record is refused twice
in a row, or the first that is begins a text and nothing is taken after it, or ends a text and nothing is
taken after it but itself. -/
theorem plaintext_whole_iff {max : Nat} (hmax : 0 < max) (ok : Nat → Bool) (pcb : Pcb) (texts : List Str) :
    plaintext max ok pcb texts = (plaintext max ok pcb (marked 0 texts)).map Prod.fst ∧
      (Whole (marked 0 texts) (plaintext max ok pcb (marked 0 texts)) ↔
        Orderly ok false 0 (texts.map fun text => records max text.length)) := by
  refine ⟨?_, ?_⟩
  · have h : (sendAll max ok pcb ((marked 0 texts).map (List.map Prod.fst)) ⟨none, [], 0⟩).2 =
        SslOut.mapped Prod.fst (sendAll max ok pcb (marked 0 texts) ⟨none, [], 0⟩).2 :=
      sendAll_mapped hmax Prod.fst (marked 0 texts) ⟨none, [], 0⟩
    rw [marked_fst] at h
    exact congrArg SslOut.received h
  · have hcounts : ∀ i, counts max (marked i texts) = texts.map fun text => records max text.length := by
      intro i
      induction texts generalizing i with
      | nil => rfl
      | cons text texts ih => simp [marked, counts, ← ih (i + 1)]
    rw [← hcounts 0]
    have hd := marked_nodup 0 texts
    cases hm : marked 0 texts with
    | nil => exact iff_of_true ⟨0, rfl⟩ (by rw [counts, List.map_nil, Orderly]; trivial)
    | cons p rest =>
      rw [hm] at hd
      exact whole_iff_orderly hmax p rest ⟨none, [], 0⟩ [] [] rfl rfl hd

/-- Two stanzas; the record of the second is taken at the second attempt. -/
theorem plaintext_whole_retried :
    Whole (marked 0 [lit "<a/>", lit "<b/>"]) (plaintext 16384 (fun k => k != 1) 7 (marked 0 [lit "<a/>", lit "<b/>"])) := by
  refine (plaintext_whole_iff (by decide) (fun k => k != 1) 7 [lit "<a/>", lit "<b/>"]).2.mpr ?_
  have hlen : ([lit "<a/>", lit "<b/>"].map fun text => records 16384 text.length) = [1, 1] := by decide
  rw [hlen]
  simp [Orderly, attempt]

/-- The first record is refused twice. The second call sends it and is told that its own text has gone, so
the client never sees that one. -/
theorem stanza_skipped :
    plaintext 16384 (fun k => 2 ≤ k) 7 [lit "<a/>", lit "<b/>", lit "<c/>"] = lit "<a/><c/>" := by
  decide

end Angelic.Proofs
