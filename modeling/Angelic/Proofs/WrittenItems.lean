import Angelic.Proofs.RosterSets
import Angelic.Lib.Search
import Angelic.Lib.SlotRun

namespace Angelic.Proofs
open CString Model

/-! The items of a roster set as its text has them, and what the limits of size on the way to the store
leave of them: the copy of the stanza in 1024 bytes, that of an item in 256 and that of its contact in 64. -/

/-! The text between the header of a stanza and its closer. -/

def tagOf (text : Str) : Str := ((cstr text.tail).takeWhile (fun c => c != ch ' ' && c != ch '>')).take 31

def closerOf (text : Str) : Str := snprintf 40 (lit "</%s>") [.s (tagOf text)]

/-- Where it starts and where it ends. -/
def bodyOf (text : Str) : Option (Str × Str) :=
  (strchr text (ch '>')).bind fun header_end =>
    if before text header_end = some (ch '/') then none
    else (strstr header_end.tail (closerOf text)).map fun inner_end => (header_end.tail, inner_end)

def wholePayload (text : Str) : Str := (bodyOf text).elim [] fun p => upto p.1 p.2

/-- The number of bytes to the end of the closer. -/
def endOf (text : Str) : Nat := (bodyOf text).elim 0 fun p => text.length - p.2.length + (closerOf text).length

theorem extractPayload_eq (text : Str) : extractPayload text = (wholePayload text).take 4095 := by
  unfold extractPayload wholePayload bodyOf closerOf tagOf
  dsimp only
  cases strchr text (ch '>') with
  | none => rfl
  | some h =>
    dsimp only [Option.bind_some]
    split
    · rfl
    · generalize strstr h.tail _ = o
      cases o <;> rfl

theorem closerOf_clean (text : Str) : 0 ∉ closerOf text := vsnprintf_clean 40 (by decide) _

theorem closerOf_ne_nil (text : Str) : closerOf text ≠ [] :=
  List.ne_nil_of_length_pos (snprintf_pos (by decide) rfl _)

/-- A cut behind the name of the root leaves the closer. -/
theorem closerOf_take {text : Str} {n : Nat} (hn : 32 ≤ n) : closerOf (text.take n) = closerOf text := by
  have ht : tagOf (text.take n) = tagOf text := by
    rw [tagOf, ← List.drop_one, List.drop_take, cstr_take, takeWhile_take, List.take_take, Nat.min_eq_left (by omega),
      List.drop_one, ← tagOf]
  rw [closerOf, ht, closerOf]

section Cut
variable {text : Str} {n : Nat}

theorem strchr_append {c : Byte} (hc : c ≠ 0) {s e : Str} (hs : 0 ∉ s) (h : strchr s c = some e) (r : Str) :
    strchr (s ++ r) c = some (e ++ r) := by
  obtain ⟨a, b, rfl, rfl, ha⟩ := strchr_split hc h
  rw [List.append_assoc, List.cons_append]
  exact strchr_over (fun h0 => hs (List.mem_append_left _ h0)) ha

theorem upto_both (s e r : Str) : upto (s ++ r) (e ++ r) = upto s e := by
  rw [upto, upto, List.length_append, List.length_append, Nat.add_sub_add_right, List.take_append_of_le_length (by omega)]

/-- What is found in the cut text is what is found in the whole. -/
theorem bodyOf_append {r : Str} (hn : 32 ≤ text.length) (h0 : 0 ∉ text ++ r) {p : Str × Str} (h : bodyOf text = some p) :
    bodyOf (text ++ r) = some (p.1 ++ r, p.2 ++ r) := by
  have hclean : 0 ∉ text := fun hz => h0 (List.mem_append_left _ hz)
  have hclose : closerOf (text ++ r) = closerOf text := by
    have hcut : closerOf ((text ++ r).take text.length) = closerOf (text ++ r) := closerOf_take hn
    rw [List.take_left] at hcut
    exact hcut.symm
  unfold bodyOf at h ⊢
  cases hc : strchr text (ch '>') with
  | none => simp [hc] at h
  | some e =>
    obtain ⟨a, b, he, rfl, -⟩ := strchr_split (by decide) hc
    rw [hc, Option.bind_some] at h
    rw [strchr_append (by decide) hclean hc r, Option.bind_some, before, upto_both, ← before, hclose]
    split
    · rename_i hb
      simp [hb] at h
    · rename_i hb
      rw [if_neg hb] at h
      obtain ⟨e, hs, rfl⟩ := Option.map_eq_some_iff.mp h
      have hb0 : 0 ∉ b ++ r := fun hz => h0 (by
        rw [he]
        rcases List.mem_append.mp hz with hz | hz
        · simp [hz]
        · simp [hz])
      change (strstr (b ++ r) (closerOf text)).map _ = _
      rw [strstr_append (closerOf_clean text) (closerOf_ne_nil text) hb0 hs]
      rfl

theorem bodyOf_starts (h0 : 0 ∉ text) {p : Str × Str} (h : bodyOf text = some p) :
    ∃ a r, text = a ++ ch '>' :: p.1 ∧ ch '>' ∉ a ∧ p.2 <:+ p.1 ∧ p.2 = closerOf text ++ r := by
  unfold bodyOf at h
  cases hc : strchr text (ch '>') with
  | none => simp [hc] at h
  | some e =>
    obtain ⟨a, b, he, rfl, ha⟩ := strchr_split (by decide) hc
    rw [hc, Option.bind_some] at h
    split at h
    · cases h
    · obtain ⟨e, hs, rfl⟩ := Option.map_eq_some_iff.mp h
      have hb : 0 ∉ b := fun hz => h0 (by rw [he]; simp [hz])
      obtain ⟨r, hr⟩ := strstr_starts (closerOf_clean text) (closerOf_ne_nil text) hb hs
      exact ⟨a, r, he, ha, strstr_suffix hs, hr.symm⟩

/-- A text that is cut behind the closer still has it. -/
theorem bodyOf_take (hn : 32 ≤ n) (h0 : 0 ∉ text) {p : Str × Str} (h : bodyOf text = some p)
    (he : text.length - p.2.length + (closerOf text).length ≤ n) : bodyOf (text.take n) ≠ none := by
  obtain ⟨a, r, ht, ha, ⟨b, hb⟩, hr⟩ := bodyOf_starts h0 h
  have ha0 : 0 ∉ a := fun hz => h0 (by rw [ht]; simp [hz])
  have hslash : a.getLast? ≠ some (ch '/') := by
    intro hs
    unfold bodyOf at h
    rw [ht, strchr_over ha0 ha, Option.bind_some, before, upto_append, if_pos hs] at h
    cases h
  -- the cut falls behind the closer
  have hcut : text.take n = a ++ ch '>' :: (b ++ (closerOf text ++ r.take (n - (a.length + 1 + b.length +
      (closerOf text).length)))) := by
    have hlen : text.length - p.2.length = a.length + 1 + b.length := by
      rw [ht, ← hb]
      simp only [List.length_append, List.length_cons]
      omega
    have hsplit : text = (a ++ ch '>' :: (b ++ closerOf text)) ++ r := by
      rw [List.append_assoc, List.cons_append, List.append_assoc, ← hr, hb]
      exact ht
    rw [hlen] at he
    generalize closerOf text = c at he hsplit
    rw [hsplit, List.take_append, List.take_of_length_le (by
      simp only [List.length_append, List.length_cons]
      omega), List.append_assoc, List.cons_append, List.append_assoc]
    simp only [List.length_append, List.length_cons]
    congr 6
    omega
  have hinner : 0 ∉ b ++ (closerOf text ++ r.take (n - (a.length + 1 + b.length + (closerOf text).length))) := by
    intro hz
    refine h0 (List.mem_of_mem_take (i := n) ?_)
    rw [hcut]
    simp [hz]
  unfold bodyOf
  rw [closerOf_take hn, hcut, strchr_over ha0 ha, Option.bind_some, before, upto_append, if_neg hslash, List.tail_cons,
    Ne, Option.map_eq_none_iff, strstr_eq_none (closerOf_clean text) (closerOf_ne_nil text) hinner, not_not]
  exact ⟨b, r.take _, by rw [List.append_assoc]⟩

/-- The copy of a stanza has its payload whole if the closer is in it, and else none. -/
theorem extractPayload_take (hn : 32 ≤ n) (hmax : n ≤ 4095) (h0 : 0 ∉ text) :
    extractPayload (text.take n) = if endOf text ≤ n then wholePayload text else [] := by
  rw [extractPayload_eq]
  by_cases hlen : text.length ≤ n
  · have hw : (wholePayload text).length ≤ 4095 := by
      unfold wholePayload
      cases hp : bodyOf text with
      | none => simp
      | some p =>
        obtain ⟨a, r, ht, -, -, -⟩ := bodyOf_starts h0 hp
        have : text.length = a.length + (p.1.length + 1) := by rw [ht]; simp
        simp only [Option.elim_some, upto, List.length_take]
        omega
    have hend : endOf text ≤ n := by
      unfold endOf
      cases hp : bodyOf text with
      | none => simp
      | some p =>
        obtain ⟨a, r, ht, -, hs, hr⟩ := bodyOf_starts h0 hp
        have h1 : text.length = a.length + (p.1.length + 1) := by rw [ht]; simp
        have h2 : p.2.length = (closerOf text).length + r.length := by rw [hr]; simp
        have h3 := hs.length_le
        simp only [Option.elim_some]
        omega
    rw [List.take_of_length_le hlen, if_pos hend, List.take_of_length_le hw]
  · have htext : text = text.take n ++ text.drop n := (List.take_append_drop n text).symm
    have hcn : (text.take n).length = n := by
      rw [List.length_take]
      omega
    cases hp : bodyOf (text.take n) with
    | none =>
      have hnone : (wholePayload (text.take n)).take 4095 = [] := by simp [wholePayload, hp]
      rw [hnone]
      split
      · rename_i hend
        unfold wholePayload
        cases hq : bodyOf text with
        | none => rfl
        | some q =>
          rw [endOf, hq] at hend
          exact absurd hp (bodyOf_take hn h0 hq hend)
      · rfl
    | some p =>
      have h0' : 0 ∉ text.take n := fun hz => h0 (List.mem_of_mem_take hz)
      have hq := bodyOf_append (r := text.drop n) (by omega) (htext ▸ h0) hp
      rw [← htext] at hq
      obtain ⟨a, r, ht, -, hs, hr⟩ := bodyOf_starts h0' hp
      have h1 : (text.take n).length = a.length + (p.1.length + 1) := by rw [ht]; simp
      have h2 : p.2.length = (closerOf (text.take n)).length + r.length := by rw [hr]; simp
      have h3 := hs.length_le
      rw [closerOf_take hn] at h2
      have hend : endOf text ≤ n := by
        simp only [endOf, hq, Option.elim_some, List.length_append, List.length_drop]
        omega
      rw [if_pos hend, wholePayload, hp, wholePayload, hq, Option.elim_some, Option.elim_some, upto_both,
        List.take_of_length_le]
      rw [upto, List.length_take]
      omega

end Cut

/-! The items. -/

/-- The items of a payload, each from its start to the first `>`. -/
def rawItems : Nat → Str → List Str
  | 0, _ => []
  | fuel + 1, p =>
    match strstr p (lit "<item ") with
    | none => []
    | some p =>
      match strchr p (ch '>') with
      | none => []
      | some e => (upto p e ++ e.take 1) :: rawItems fuel e.tail

/-- An item closed with a slash, if it is not. -/
def closed (raw : Str) : Str :=
  if 2 ≤ raw.length ∧ raw[raw.length - 2]? ≠ some (ch '/') then raw.take (raw.length - 1) ++ [ch '/', ch '>'] else raw

/-- What the store is given of it. -/
def shortened (raw : Str) : Str :=
  let len := if raw.length ≥ 256 then 255 else raw.length
  let item := raw.take len
  if len ≥ 2 ∧ item[len - 2]? ≠ some (ch '/') ∧ len < 255 then item.take (len - 1) ++ [ch '/', ch '>'] else item

theorem rosterItems_eq (fuel : Nat) (p : Str) : rosterItems fuel p = (rawItems fuel p).map shortened := by
  induction fuel generalizing p with
  | zero => rfl
  | succ fuel ih =>
    rw [rosterItems, rawItems]
    cases strstr p (lit "<item ") with
    | none => rfl
    | some q =>
      dsimp only
      cases strchr q (ch '>') with
      | none => rfl
      | some e => exact congrArg _ (ih e.tail)

theorem closed_length (raw : Str) : raw.length ≤ (closed raw).length := by
  unfold closed
  split
  · simp only [List.length_append, List.length_take, List.length_cons, List.length_nil]
    omega
  · exact Nat.le_refl _

theorem shortened_eq_iff (raw : Str) : shortened raw = closed raw ↔ (closed raw).length ≤ 255 := by
  have hc := closed_length raw
  by_cases hl : raw.length ≥ 256
  · have hs : (shortened raw).length = 255 := by
      simp only [shortened, if_pos hl, Nat.lt_irrefl, and_false, if_false, List.length_take]
      omega
    refine iff_of_false (fun he => ?_) (by omega)
    rw [he] at hs
    omega
  · rw [shortened]
    simp only [if_neg hl, List.take_length]
    by_cases h255 : raw.length < 255
    · refine iff_of_true ?_ ?_
      · simp only [h255, and_true]
        rfl
      · unfold closed
        split
        · simp only [List.length_append, List.length_take, List.length_cons, List.length_nil]
          omega
        · omega
    · rw [if_neg fun h => h255 h.2.2, closed]
      split
      · refine iff_of_false (fun he => ?_) ?_
        · have := congrArg List.length he
          simp only [List.length_append, List.length_take, List.length_cons, List.length_nil] at this
          omega
        · simp only [List.length_append, List.length_take, List.length_cons, List.length_nil]
          omega
      · exact iff_of_true rfl (by omega)

/-- The value at a pointer to its opening quote, however long. -/
def quotedText : Str → Option Str
  | [] => none
  | q :: rest => if q = apos ∨ q = dquote then (strchr rest q).map (upto rest) else none

theorem quoted_eq (p : Str) (max : Nat) : quoted p max = (quotedText p).map (·.take (max - 1)) := by
  cases p with
  | nil => rfl
  | cons q rest =>
    rw [quoted, quotedText]
    split
    · cases strchr rest q <;> rfl
    · rfl

/-- The contact an item is for, however long. -/
def contactOf (item : Str) : Option Str :=
  (strstr item (lit "jid=")).bind fun p => quotedText (p.drop 4)

theorem roster_extract_jid_eq (item : Str) : roster_extract_jid item = (contactOf item).map (·.take 63) := by
  unfold roster_extract_jid contactOf
  cases strstr item (lit "jid=") with
  | none => rfl
  | some p => exact quoted_eq _ _

/-- The items that a roster set asks for, each with its contact. -/
def writtenItems (xml : Str) : List (Option Str × Str) :=
  let payload := wholePayload (cstr xml)
  ((rawItems payload.length payload).map closed).map fun item => (contactOf item, item)

/-- Those that the server finds. -/
def readItems (st : Stanza) : List (Option Str × Str) :=
  (rosterItems st.payload.length st.payload).map fun item => (roster_extract_jid item, item)

/-- The server finds the items as they are written exactly if their stanza is not too long, nor one of them, nor the
address of a contact. -/
theorem readItems_eq_iff (xml : List Byte) : readItems (parseStanza xml) = writtenItems xml ↔
    (writtenItems xml = [] ∨ endOf (cstr xml) ≤ 1023) ∧
      ∀ p ∈ writtenItems xml, p.2.length ≤ 255 ∧ ∀ jid, p.1 = some jid → jid.length ≤ 63 := by
  have hpay : (parseStanza xml).payload = if endOf (cstr xml) ≤ 1023 then wholePayload (cstr xml) else [] := by
    change extractPayload (cstr (xml.take 1023)) = _
    rw [cstr_take]
    exact extractPayload_take (by decide) (by decide) (zero_not_mem_cstr xml)
  have hread : ∀ p ∈ readItems (parseStanza xml), p.2.length ≤ 255 ∧ ∀ jid, p.1 = some jid → jid.length ≤ 63 := by
    intro p hp
    obtain ⟨item, hi, rfl⟩ := List.mem_map.mp hp
    have hh := rosterItems_holds (parseStanza_ok xml).2 item hi
    exact ⟨Nat.le_of_lt_succ hh.1, fun jid hj => Nat.le_of_lt_succ (extract_jid_holds hh.2 hj).1⟩
  constructor
  · intro he
    refine ⟨?_, fun p hp => hread p (he ▸ hp)⟩
    by_cases hend : endOf (cstr xml) ≤ 1023
    · exact .inr hend
    · rw [if_neg hend] at hpay
      refine .inl ?_
      rw [← he, readItems, hpay]
      rfl
  · rintro ⟨hend, hall⟩
    by_cases hle : endOf (cstr xml) ≤ 1023
    · rw [if_pos hle] at hpay
      unfold writtenItems at hall ⊢
      rw [readItems, hpay, rosterItems_eq]
      dsimp only at hall ⊢
      rw [List.map_map, List.map_map]
      rw [List.map_map] at hall
      refine List.map_congr_left fun raw hr => ?_
      obtain ⟨h1, h2⟩ := hall _ (List.mem_map_of_mem hr)
      have hs : shortened raw = closed raw := (shortened_eq_iff raw).mpr h1
      have hj : roster_extract_jid (closed raw) = contactOf (closed raw) := by
        rw [roster_extract_jid_eq]
        cases hc : contactOf (closed raw) with
        | none => rfl
        | some jid => exact congrArg some (List.take_of_length_le (h2 jid hc))
      simp only [Function.comp_apply, hs, hj]
    · rw [if_neg hle] at hpay
      rw [hend.resolve_right hle, readItems, hpay]
      rfl

end Angelic.Proofs
