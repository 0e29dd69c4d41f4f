import Angelic.Model.Scanner
import Mathlib.Data.List.Infix

namespace Angelic.Proofs
open CString Model

variable {w p : List Byte} {c : Byte} (n : Nat)
variable {q : List Byte} (f : Nat)

/-- What the text of a tag, between `<` and the first `>` after it, does to the depth. -/
inductive TagKind where
  | skip | close | empty | opening
  deriving DecidableEq, Repr

def tagKind (w : List Byte) : TagKind :=
  if w.head? = some (ch '?') ∨ w.head? = some (ch '!') then .skip
  else if w.head? = some (ch '/') then .close
  else if w.getLast? = some (ch '/') then .empty
  else .opening

/-- The depth after a tag, or none when the tag ends the root element. -/
def TagKind.depth : TagKind → Int → Option Int
  | .skip, d => some d
  | .close, d => if d - 1 = 0 then none else some (d - 1)
  | .empty, d => if d = 0 then none else some d
  | .opening, d => some (d + 1)

/-- The scan as a judgment: from bytes and depth to what follows the root element, or none
when the bytes run out first. The three loops compute it. -/
inductive Scan : List Byte → Int → Option (List Byte) → Prop where
  | out {d} : Scan [] d none
  | text {c p d r} : c ≠ ch '<' → Scan p d r → Scan (c :: p) d r
  | unclosed {w d} : ch '>' ∉ w → Scan (ch '<' :: w) d none
  | tag {w p d d' r} : ch '>' ∉ w → (tagKind w).depth d = some d' → Scan p d' r →
      Scan (ch '<' :: (w ++ ch '>' :: p)) d r
  | root {w p d} : ch '>' ∉ w → (tagKind w).depth d = none →
      Scan (ch '<' :: (w ++ ch '>' :: p)) d (some p)

/-- The C return value for a buffer of `n` bytes. -/
def returned (n : Nat) : Option (List Byte) → Int
  | none => -1
  | some p => (n : Int) - (p.length : Int)

theorem memchr_append (h : c ∉ w) (r : List Byte) : memchr (w ++ c :: r) c = some (c :: r) := by
  induction w with
  | nil => simp [memchr]
  | cons a w ih =>
    simp only [List.mem_cons, not_or] at h
    simp [memchr, Ne.symm h.1, ih h.2]

theorem memchr_none (h : c ∉ w) : memchr w c = none := by
  induction w with
  | nil => rfl
  | cons a w ih =>
    simp only [List.mem_cons, not_or] at h
    simp [memchr, Ne.symm h.1, ih h.2]

theorem seekGt_append (h : ch '>' ∉ w) (r : List Byte) : seekGt (w ++ ch '>' :: r) = ch '>' :: r := by
  induction w with
  | nil => simp [seekGt]
  | cons a w ih =>
    simp only [List.mem_cons, not_or] at h
    simp [seekGt, Ne.symm h.1, ih h.2]

theorem seekGt_nil (h : ch '>' ∉ w) : seekGt w = [] := by
  induction w with
  | nil => rfl
  | cons a w ih =>
    simp only [List.mem_cons, not_or] at h
    simp [seekGt, Ne.symm h.1, ih h.2]

/-- Every buffer has a scan, so the judgment describes all inputs. -/
theorem Scan.total (p : List Byte) (d : Int) : ∃ r, Scan p d r := by
  match p with
  | [] => exact ⟨none, .out⟩
  | c :: p =>
    by_cases hc : c = ch '<'
    · subst hc
      by_cases hm : ch '>' ∈ p
      · obtain ⟨w, q, rfl, hw⟩ := List.eq_append_cons_of_mem hm
        cases hd : (tagKind w).depth d with
        | none => exact ⟨_, .root hw hd⟩
        | some d' =>
          obtain ⟨r, hr⟩ := Scan.total q d'
          exact ⟨r, .tag hw hd hr⟩
      · exact ⟨none, .unclosed hm⟩
    · obtain ⟨r, hr⟩ := Scan.total p d
      exact ⟨r, .text hc hr⟩
termination_by p.length
decreasing_by all_goals (subst_vars; simp only [List.length_cons, List.length_append]; omega)

/-- Bytes appended behind the root element change nothing. -/
theorem Scan.append (h : Scan p d (some r)) (x : List Byte) : Scan (p ++ x) d (some (r ++ x)) := by
  generalize ho : some r = o at h
  induction h with
  | out => cases ho
  | text hc _ ih => exact .text hc (ih ho)
  | unclosed => cases ho
  | tag hw hd _ ih =>
    rw [List.cons_append, List.append_assoc]
    exact .tag hw hd (ih ho)
  | root hw hd =>
    cases ho
    rw [List.cons_append, List.append_assoc]
    exact .root hw hd

theorem Scan.suffix (h : Scan p d (some r)) : r <:+ p := by
  generalize ho : some r = o at h
  induction h with
  | out => cases ho
  | text _ _ ih => exact (ih ho).trans (List.suffix_cons _ _)
  | unclosed => cases ho
  | @tag w p _ _ _ _ _ _ ih => exact (ih ho).trans ⟨ch '<' :: (w ++ [ch '>']), by simp⟩
  | @root w p _ _ _ =>
    cases ho
    exact ⟨ch '<' :: (w ++ [ch '>']), by simp⟩

theorem Scan.length_lt (h : Scan p d (some r)) : r.length < p.length := by
  generalize ho : some r = o at h
  induction h with
  | out => cases ho
  | text _ _ ih => exact Nat.lt_succ_of_lt (ih ho)
  | unclosed => cases ho
  | tag _ _ _ ih =>
    have := ih ho
    simp only [List.length_cons, List.length_append]
    omega
  | root =>
    cases ho
    simp only [List.length_cons, List.length_append]
    omega

/-- Text without `<` in front does not matter. -/
theorem Scan.skip {u : List Byte} (hu : ch '<' ∉ u) (h : Scan p d r) : Scan (u ++ p) d r := by
  induction u with
  | nil => exact h
  | cons a u ih =>
    simp only [List.mem_cons, not_or] at hu
    exact .text (Ne.symm hu.1) (ih hu.2)

theorem Scan.of_text (hc : c ≠ ch '<') (h : Scan (c :: p) d r) : Scan p d r := by
  generalize hq : c :: p = q at h
  cases h with
  | out => cases hq
  | text _ h =>
    cases hq
    exact h
  | unclosed | tag | root => exact absurd (List.cons.inj hq).1 hc

theorem Scan.of_skip {u : List Byte} (hu : ch '<' ∉ u) (h : Scan (u ++ p) d r) : Scan p d r := by
  induction u with
  | nil => exact h
  | cons a u ih =>
    simp only [List.mem_cons, not_or] at hu
    exact ih hu.2 (h.of_text (Ne.symm hu.1))

theorem endAt_gt (p : List Byte) : endAt n (ch '>' :: p) = returned n (some p) := by
  simp only [endAt, returned, List.length_cons]
  omega

theorem before_gt (w p : List Byte) :
    before (ch '<' :: (w ++ ch '>' :: p)) (ch '>' :: p) = (ch '<' :: w).getLast? := by
  have : (ch '<' :: (w ++ ch '>' :: p)).length - (ch '>' :: p).length = (ch '<' :: w).length := by
    simp only [List.length_cons, List.length_append]
    omega
  rw [before, upto, this, ← List.cons_append, List.take_left]

/-- The three tests of a loop on the bytes after `<` see the text of the tag only. -/
theorem tagKind_tests (w p : List Byte) (a b c e : α) :
    (if (w ++ ch '>' :: p).head? = some (ch '?') ∨ (w ++ ch '>' :: p).head? = some (ch '!') then a
      else if (w ++ ch '>' :: p).head? = some (ch '/') then b
      else if (ch '<' :: w).getLast? = some (ch '/') then c else e) =
    match tagKind w with
    | .skip => a
    | .close => b
    | .empty => c
    | .opening => e := by
  cases w with
  | nil => rfl
  | cons x w =>
    rw [tagKind, List.cons_append, List.head?_cons, List.head?_cons, List.getLast?_cons_cons]
    by_cases hs : some x = some (ch '?') ∨ some x = some (ch '!')
    · rw [if_pos hs, if_pos hs]
    · rw [if_neg hs, if_neg hs]
      by_cases hc : some x = some (ch '/')
      · rw [if_pos hc, if_pos hc]
      · rw [if_neg hc, if_neg hc]
        split <;> rfl

theorem not_mem_lt_cons (hw : ch '>' ∉ w) : ch '>' ∉ ch '<' :: w := by
  rw [List.mem_cons, not_or]
  exact ⟨by decide, hw⟩

theorem scalarLoop_tag (hw : ch '>' ∉ w) (p : List Byte) (d : Int) :
    scalarLoop n (f + 1) (ch '<' :: (w ++ ch '>' :: p)) d =
      match (tagKind w).depth d with
      | none => returned n (some p)
      | some d' => scalarLoop n f p d' := by
  have hm : memchr (ch '<' :: (w ++ ch '>' :: p)) (ch '>') = some (ch '>' :: p) :=
    memchr_append (not_mem_lt_cons hw) p
  simp only [scalarLoop, ne_eq, not_true_eq_false, if_false, hm, before_gt, endAt_gt, List.tail_cons]
  rw [tagKind_tests]
  cases tagKind w <;> simp only [TagKind.depth] <;> split_ifs <;> rfl

theorem plainLoop_tag (hw : ch '>' ∉ w) (p : List Byte) (d : Int) :
    plainLoop n (f + 1) (ch '<' :: (w ++ ch '>' :: p)) d =
      match (tagKind w).depth d with
      | none => returned n (some p)
      | some d' => plainLoop n f p d' := by
  simp only [plainLoop, ne_eq, not_true_eq_false, if_false, seekGt_append hw, before_gt, endAt_gt]
  rw [tagKind_tests]
  cases tagKind w <;> simp only [TagKind.depth] <;> split_ifs <;> rfl

/-- The scalar loop computes the scan. -/
theorem scalarLoop_scan (h : Scan p d r) : ∀ f, p.length ≤ f → scalarLoop n f p d = returned n r := by
  induction h with
  | out => intro f _; cases f <;> rfl
  | text hc _ ih =>
    intro f hf
    obtain ⟨f, rfl⟩ := Nat.exists_eq_succ_of_ne_zero (Nat.ne_zero_of_lt hf)
    rw [scalarLoop, if_pos hc]
    exact ih f (Nat.le_of_succ_le_succ hf)
  | @unclosed w d hw =>
    intro f hf
    obtain ⟨f, rfl⟩ := Nat.exists_eq_succ_of_ne_zero (Nat.ne_zero_of_lt hf)
    have hm : memchr (ch '<' :: w) (ch '>') = none := memchr_none (not_mem_lt_cons hw)
    simp only [scalarLoop, ne_eq, not_true_eq_false, if_false, hm]
    split_ifs <;> rfl
  | tag hw hd _ ih =>
    intro f hf
    obtain ⟨f, rfl⟩ := Nat.exists_eq_succ_of_ne_zero (Nat.ne_zero_of_lt hf)
    rw [scalarLoop_tag n f hw, hd]
    refine ih f ?_
    simp only [List.length_cons, List.length_append] at hf
    omega
  | root hw hd =>
    intro f hf
    obtain ⟨f, rfl⟩ := Nat.exists_eq_succ_of_ne_zero (Nat.ne_zero_of_lt hf)
    rw [scalarLoop_tag n f hw, hd]

theorem Scan.det (h : Scan p d r) (h' : Scan p d r') : r = r' := by
  have he := (scalarLoop_scan p.length h _ (Nat.le_refl _)).symm.trans (scalarLoop_scan p.length h' _ (Nat.le_refl _))
  cases r with
  | none =>
    cases r' with
    | none => rfl
    | some q' =>
      have := h'.suffix.length_le
      simp only [returned] at he
      omega
  | some q =>
    have hq := h.suffix
    have := hq.length_le
    cases r' with
    | none =>
      simp only [returned] at he
      omega
    | some q' =>
      have hl : q.length = q'.length := by
        simp only [returned] at he
        omega
      rw [List.suffix_iff_eq_drop.mp hq, List.suffix_iff_eq_drop.mp h'.suffix, hl]

theorem plainLoop_eq (p : List Byte) (d : Int) : plainLoop n f p d = scalarLoop n f p d := by
  induction f generalizing p d with
  | zero => rfl
  | succ f ih =>
    cases p with
    | nil => rfl
    | cons c p =>
      by_cases hc : c = ch '<'
      · subst hc
        by_cases hm : ch '>' ∈ p
        · obtain ⟨w, q, rfl, hw⟩ := List.eq_append_cons_of_mem hm
          rw [plainLoop_tag n f hw, scalarLoop_tag n f hw]
          split
          · rfl
          · exact ih _ _
        · simp only [plainLoop, scalarLoop, ne_eq, not_true_eq_false, if_false, seekGt_nil hm,
            memchr_none (not_mem_lt_cons hm)]
      · rw [plainLoop, scalarLoop, if_pos hc, if_pos hc]
        exact ih _ _

/-- The next 16 bytes have a NUL before any byte of the needle and a `<` behind it: the
instruction sees a string that ends at the NUL and reports no match. -/
def hidesTag (p : List Byte) : Bool :=
  decide (16 ≤ p.length) && mm_cmpistri XML_NEEDLE (p.take 16) == 16 && (p.take 16).contains (ch '<')

theorem cstr_isPrefix (w : List Byte) : cstr w <+: w := List.takeWhile_prefix _

/-- Before the byte the instruction reports there is no `<`. -/
theorem mm_cmpistri_before (h : mm_cmpistri XML_NEEDLE w ≠ 16) :
    mm_cmpistri XML_NEEDLE w < w.length ∧ ch '<' ∉ w.take (mm_cmpistri XML_NEEDLE w) := by
  unfold mm_cmpistri at h ⊢
  split at h
  · rename_i i hi
    obtain ⟨hl, _, hn⟩ := List.findIdx?_eq_some_iff_getElem.mp hi
    refine ⟨Nat.lt_of_lt_of_le hl (cstr_isPrefix w).length_le, fun hm => ?_⟩
    obtain ⟨t, ht⟩ := cstr_isPrefix w
    rw [← ht, List.take_append_of_le_length (Nat.le_of_lt hl)] at hm
    obtain ⟨j, hj, he⟩ := List.mem_take_iff_getElem.mp hm
    have := hn j (by omega)
    rw [he] at this
    exact this (by decide)
  · exact absurd rfl h

theorem sseIndex_skip (hh : ¬ hidesTag p) (h : sseIndex p = 16) : 16 ≤ p.length ∧ ch '<' ∉ p.take 16 := by
  unfold sseIndex at h
  split at h
  · rename_i hl
    refine ⟨hl, fun hm => hh ?_⟩
    simp [hidesTag, hl, h, hm]
  · omega

theorem sseIndex_before (hp : p ≠ []) (h : sseIndex p ≠ 16) :
    sseIndex p < p.length ∧ ch '<' ∉ p.take (sseIndex p) := by
  unfold sseIndex at h ⊢
  split at h
  · rename_i hl
    rw [if_pos hl]
    obtain ⟨hi, hm⟩ := mm_cmpistri_before h
    rw [List.length_take, Nat.min_eq_left hl] at hi
    rw [List.take_take, Nat.min_eq_left (Nat.le_of_lt hi)] at hm
    exact ⟨Nat.lt_of_lt_of_le hi hl, hm⟩
  · rename_i hl
    rw [if_neg hl]
    exact ⟨List.length_pos_iff.mpr hp, List.not_mem_nil⟩

/-- At a `<` the SSE loop does as the others do. -/
theorem sseLoop_tag {d : Int} (hi : sseIndex p ≠ 16)
    (hp : p.drop (sseIndex p) = ch '<' :: (w ++ ch '>' :: q)) (hw : ch '>' ∉ w) :
    sseLoop n (f + 1) p d =
      match (tagKind w).depth d with
      | none => returned n (some q)
      | some d' => sseLoop n f q d' := by
  have hm := memchr_append (not_mem_lt_cons hw) q
  rw [List.cons_append] at hm
  cases p with
  | nil => simp at hp
  | cons c₀ p =>
    simp only [sseLoop, hi, if_false, hp, ne_eq, not_true_eq_false, hm, before_gt, endAt_gt,
      List.tail_cons, List.append_eq_nil_iff, reduceCtorEq, and_false]
    rw [tagKind_tests]
    cases tagKind w <;> simp only [TagKind.depth] <;> split_ifs <;> rfl

theorem sseLoop_unclosed {d : Int} (hi : sseIndex p ≠ 16)
    (hp : p.drop (sseIndex p) = ch '<' :: w) (hw : ch '>' ∉ w) : sseLoop n (f + 1) p d = -1 := by
  cases p with
  | nil => simp at hp
  | cons c₀ p =>
    simp only [sseLoop, hi, if_false, hp, ne_eq, not_true_eq_false, memchr_none (not_mem_lt_cons hw)]
    split_ifs <;> rfl

theorem sseLoop_text {d : Int} (hi : sseIndex p ≠ 16)
    (hp : p.drop (sseIndex p) = c :: q) (hc : c ≠ ch '<') : sseLoop n (f + 1) p d = sseLoop n f q d := by
  cases p with
  | nil => simp at hp
  | cons c₀ p => simp only [sseLoop, hi, if_false, hp, ne_eq, hc, not_false_eq_true, if_true]

/-- From `p` at some depth the SSE loop comes to look at the bytes from `q`. -/
inductive Visits : List Byte → Int → List Byte → Prop where
  | here {p d} : Visits p d p
  | skip {p d q} (hi : sseIndex p = 16) (h : Visits (p.drop 16) d q) : Visits p d q
  | text {p d q c t} (hi : sseIndex p ≠ 16) (hp : p.drop (sseIndex p) = c :: t) (hc : c ≠ ch '<')
      (h : Visits t d q) : Visits p d q
  | tag {p d q w t d'} (hi : sseIndex p ≠ 16)
      (hp : p.drop (sseIndex p) = ch '<' :: (w ++ ch '>' :: t)) (hw : ch '>' ∉ w)
      (hd : (tagKind w).depth d = some d') (h : Visits t d' q) : Visits p d q

theorem Visits.suffix (h : Visits p d q) : q <:+ p := by
  induction h with
  | here => exact List.suffix_refl _
  | skip _ _ ih => exact ih.trans (List.drop_suffix _ _)
  | text _ hp _ _ ih => exact ih.trans ((List.suffix_cons _ _).trans (hp ▸ List.drop_suffix _ _))
  | @tag p d q w t d' _ hp _ _ _ ih =>
    have ht : t <:+ ch '<' :: (w ++ ch '>' :: t) := ⟨ch '<' :: (w ++ [ch '>']), by simp⟩
    exact ih.trans (ht.trans (hp ▸ List.drop_suffix _ _))

/-- Where no chunk the SSE loop looks at hides a tag, it computes the scan. -/
theorem sseLoop_scan (hf : p.length ≤ f)
    (hh : ∀ q, Visits p d q → (∀ t, r = some t → t.length < q.length) → ¬ hidesTag q)
    (h : Scan p d r) : sseLoop n f p d = returned n r := by
  induction f generalizing p d with
  | zero =>
    obtain rfl := List.length_eq_zero_iff.mp (Nat.le_zero.mp hf)
    rw [h.det .out]
    rfl
  | succ f ih =>
    by_cases hp : p = []
    · subst hp
      rw [h.det .out]
      rfl
    have step : ∀ q d', (∀ t, Visits q d' t → Visits p d t) → q.length < p.length → Scan q d' r →
        sseLoop n f q d' = returned n r := fun q d' hq hl hs =>
      ih (by omega) (fun t ht => hh t (hq t ht)) hs
    by_cases hi : sseIndex p = 16
    · have hlt : ∀ t, r = some t → t.length < p.length := fun t ht => (ht ▸ h).length_lt
      obtain ⟨hl, hm⟩ := sseIndex_skip (hh p .here hlt) hi
      have hs : sseLoop n (f + 1) p d = sseLoop n f (p.drop 16) d := by
        cases p with
        | nil => exact absurd rfl hp
        | cons c₀ p => simp only [sseLoop, hi, if_true]
      rw [hs]
      refine step _ d (fun _ => .skip hi) (by rw [List.length_drop]; omega) (Scan.of_skip hm ?_)
      rwa [List.take_append_drop]
    · obtain ⟨hl, hm⟩ := sseIndex_before hp hi
      have hd : Scan (p.drop (sseIndex p)) d r := Scan.of_skip hm (by rwa [List.take_append_drop])
      have hsuf := List.drop_suffix (sseIndex p) p
      obtain ⟨c, q, hq⟩ := List.exists_cons_of_length_pos (l := p.drop (sseIndex p))
        (by rw [List.length_drop]; omega)
      rw [hq] at hd hsuf
      have hlen := hsuf.length_le
      by_cases hc : c = ch '<'
      · subst hc
        by_cases hg : ch '>' ∈ q
        · obtain ⟨w, t, rfl, hw⟩ := List.eq_append_cons_of_mem hg
          rw [sseLoop_tag n f hi hq hw]
          have hlen' : t.length < p.length := by
            simp only [List.length_cons, List.length_append] at hlen
            omega
          cases hk : (tagKind w).depth d with
          | none => rw [hd.det (.root hw hk)]
          | some d' =>
            obtain ⟨r', hr'⟩ := Scan.total t d'
            cases hd.det (.tag hw hk hr')
            exact step t d' (fun _ => .tag hi hq hw hk) hlen' hr'
        · rw [sseLoop_unclosed n f hi hq hg, hd.det (.unclosed hg)]
          rfl
      · rw [sseLoop_text n f hi hq hc]
        exact step q d (fun _ => .text hi hq hc) (Nat.lt_of_succ_le hlen) (hd.of_text hc)

theorem find_stanza_end_plain_eq (xml : List Byte) : find_stanza_end_plain xml = find_stanza_end_scalar xml :=
  plainLoop_eq _ _ _ _

/-- The three scanners agree on every buffer in which no chunk that the SSE loop looks at hides a
tag behind a NUL. -/
theorem scanners_agree (xml : List Byte) (h : ∀ p, Visits xml 0 p → ¬ hidesTag p) :
    find_stanza_end_sse xml = find_stanza_end_scalar xml ∧
      find_stanza_end_plain xml = find_stanza_end_scalar xml := by
  refine ⟨?_, find_stanza_end_plain_eq xml⟩
  obtain ⟨r, hr⟩ := Scan.total xml 0
  rw [find_stanza_end_scalar, scalarLoop_scan _ hr _ (Nat.le_refl _)]
  exact sseLoop_scan _ _ (Nat.le_refl _) (fun q hq _ => h q hq) hr

theorem scanners_agree_on_ping :
    find_stanza_end_sse (lit "<iq><ping/></iq>  <a/>") =
        find_stanza_end_scalar (lit "<iq><ping/></iq>  <a/>") ∧
      find_stanza_end_plain (lit "<iq><ping/></iq>  <a/>") =
        find_stanza_end_scalar (lit "<iq><ping/></iq>  <a/>") := by
  have hh : ∀ p ∈ (lit "<iq><ping/></iq>  <a/>").tails, ¬ hidesTag p := by decide +kernel
  exact scanners_agree _ fun p hp => hh p ((List.mem_tails _ _).mpr hp.suffix)

/-- A NUL in front of a whole element: only the SSE scanner misses it. -/
theorem sse_misses_tag_behind_nul :
    find_stanza_end_scalar (0 :: lit "<a/>...........") = 5 ∧
      find_stanza_end_plain (0 :: lit "<a/>...........") = 5 ∧
      find_stanza_end_sse (0 :: lit "<a/>...........") = -1 := by
  decide +kernel

/-! The boundary of a sequence that is received piece by piece. -/

/-- The root element alone is scanned to its last byte. -/
theorem Scan.alone (h : Scan p d (some r)) : ∃ q, p = q ++ r ∧ Scan q d (some []) := by
  generalize ho : some r = o at h
  induction h with
  | out => cases ho
  | @text c p d _ hc _ ih =>
    obtain ⟨q, rfl, hq⟩ := ih ho
    exact ⟨c :: q, rfl, .text hc hq⟩
  | unclosed => cases ho
  | @tag w p _ _ _ hw hd _ ih =>
    obtain ⟨q, rfl, hq⟩ := ih ho
    exact ⟨ch '<' :: (w ++ ch '>' :: q), by simp, .tag hw hd hq⟩
  | @root w p d hw hd =>
    cases ho
    exact ⟨ch '<' :: (w ++ [ch '>']), by simp, .root hw hd⟩

/-- Without its last bytes it is not found. -/
theorem Scan.short {x : List Byte} (h : Scan (q ++ x) d (some [])) (hx : x ≠ []) : Scan q d none := by
  obtain ⟨r, hr⟩ := Scan.total q d
  cases r with
  | none => exact hr
  | some r =>
    have := (hr.append x).det h
    rw [Option.some.injEq, List.append_eq_nil_iff] at this
    exact absurd this.2 hx

theorem find_stanza_end_scalar_scan {xml : List Byte} (h : Scan xml 0 r) :
    find_stanza_end_scalar xml = returned xml.length r := scalarLoop_scan xml.length h _ (Nat.le_refl _)

/-- A boundary that was found at some length is found at every length that reaches it, and at none below. -/
theorem boundary_stable (xml : List Byte) (n : Nat) (h : 0 ≤ find_stanza_end_scalar (xml.take n)) :
    0 < find_stanza_end_scalar (xml.take n) ∧ find_stanza_end_scalar (xml.take n) ≤ n ∧
      ∀ m : Nat, find_stanza_end_scalar (xml.take m) =
        if find_stanza_end_scalar (xml.take n) ≤ m then find_stanza_end_scalar (xml.take n) else -1 := by
  obtain ⟨r, hr⟩ := Scan.total (xml.take n) 0
  cases r with
  | none =>
    rw [find_stanza_end_scalar_scan hr, returned] at h
    omega
  | some r =>
    obtain ⟨q, hq, hscan⟩ := hr.alone
    -- the boundary is the length of the root element
    have hk : find_stanza_end_scalar (xml.take n) = q.length := by
      rw [find_stanza_end_scalar_scan hr, returned, hq, List.length_append]
      omega
    have hpos : 0 < q.length := hscan.length_lt
    have hlen : q.length ≤ n := by
      have := congrArg List.length hq
      rw [List.length_append, List.length_take] at this
      omega
    have hpre : q <+: xml := (hq ▸ List.prefix_append q r : q <+: xml.take n).trans (List.take_prefix n xml)
    refine ⟨by rw [hk]; exact_mod_cast hpos, by rw [hk]; exact_mod_cast hlen, fun m => ?_⟩
    rw [hk]
    by_cases hm : q.length ≤ m
    · rw [if_pos (by exact_mod_cast hm)]
      obtain ⟨x, hx⟩ : q <+: xml.take m := List.prefix_take_iff.mpr ⟨hpre, hm⟩
      rw [← hx, find_stanza_end_scalar_scan (hscan.append x), returned, List.nil_append, List.length_append]
      omega
    · rw [if_neg (by exact_mod_cast hm)]
      have hcut : xml.take m = q.take m := by
        obtain ⟨x, rfl⟩ := hpre
        exact List.take_append_of_le_length (by omega)
      have hdrop : q.drop m ≠ [] := by
        rw [ne_eq, List.drop_eq_nil_iff]
        exact hm
      rw [hcut, find_stanza_end_scalar_scan (Scan.short (by rw [List.take_append_drop]; exact hscan) hdrop)]
      rfl

theorem boundary_of_ping : 0 ≤ find_stanza_end_scalar ((lit "<iq/><iq/>").take 7) ∧
    ∀ m : Nat, find_stanza_end_scalar ((lit "<iq/><iq/>").take m) = if (5 : Int) ≤ m then 5 else -1 := by
  have hk : find_stanza_end_scalar ((lit "<iq/><iq/>").take 7) = 5 := by decide
  have h := boundary_stable (lit "<iq/><iq/>") 7 (hk ▸ by decide)
  rw [hk] at h
  exact ⟨by decide, h.2.2⟩

end Angelic.Proofs
