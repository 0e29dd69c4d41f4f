import Angelic.Lib.Xml
import Angelic.Proofs.Scanner
import Mathlib.Data.List.TakeWhile

namespace Angelic.Proofs
open CString Model Xml

/-- The text of a tag as the scanner sees it, which ends at the first `>` wherever that is. -/
def seen (w : List Byte) : List Byte := w.takeWhile (· != ch '>')

/-- What the scanner takes for content although it is still in the tag. -/
def spill (w : List Byte) : List Byte := w.dropWhile (· != ch '>')

/-- No slash stands before the first `>`. -/
def opens (t : Tag) : Bool := (seen t.text).getLast? != some (ch '/')

def empties (t : Tag) : Bool := (seen (t.text ++ [ch '/'])).getLast? == some (ch '/')

def scannableMisc : Misc → Bool
  | .chars _ _ => true
  | .comment w _ | .cdata w _ | .pi w _ => !(spill w).contains (ch '<')

def scannableContent : Content → Bool
  | .done => true
  | .misc m rest => scannableMisc m && scannableContent rest
  | .empty t rest => empties t && scannableContent rest
  | .element t inner _ rest => opens t && scannableContent inner && scannableContent rest

/-- The elements whose end the scanner finds: a `>` in an attribute value does not make a start
tag look empty or an empty one open, and no `<` follows a `>` in a comment, CDATA section or
processing instruction. An empty root has no `>` in its values. -/
def scannable : Element → Bool
  | .empty t => !t.text.contains (ch '>')
  | .element t inner _ => opens t && scannableContent inner

theorem spill_append {w x : List Byte} (hw : ch '<' ∉ spill w) (hx : ch '<' ∉ x) : ch '<' ∉ spill (w ++ x) := by
  induction w with
  | nil => exact fun h => hx ((List.dropWhile_suffix _).subset h)
  | cons a w ih =>
    by_cases ha : a = ch '>'
    · subst ha
      simp only [spill, List.cons_append, List.dropWhile_cons, bne_self_eq_false, Bool.false_eq_true,
        if_false, List.mem_cons, List.mem_append, not_or] at hw ⊢
      exact ⟨hw.1, hw.2, hx⟩
    · have hd : ∀ l, spill (a :: l) = spill l := by simp [spill, ha]
      rw [List.cons_append, hd]
      exact ih (by rwa [hd] at hw)

/-- A tag, whatever `>` its text holds, when no `<` follows the first of them. -/
theorem Scan.lexeme {w : List Byte} (hw : ch '<' ∉ spill w)
    (hd : (tagKind (seen w)).depth d = some d') (h : Scan p d' r) : Scan (ch '<' :: (w ++ ch '>' :: p)) d r := by
  have hs : ch '>' ∉ seen w := fun hm => by simpa using List.mem_takeWhile_imp hm
  have he : w = seen w ++ spill w := (List.takeWhile_append_dropWhile).symm
  cases hr : spill w with
  | nil =>
    rw [hr, List.append_nil] at he
    rw [he]
    exact .tag hs hd h
  | cons c v =>
    have hc : c = ch '>' := by
      have := List.head?_dropWhile_not (· != ch '>') w
      rw [show w.dropWhile (· != ch '>') = c :: v from hr] at this
      simpa using this
    subst hc
    rw [hr] at hw he
    simp only [List.mem_cons, not_or] at hw
    have : ch '<' :: (w ++ ch '>' :: p) = ch '<' :: (seen w ++ ch '>' :: ((v ++ [ch '>']) ++ p)) := by
      conv_lhs => rw [he]
      simp
    rw [this]
    refine .tag hs hd (Scan.skip ?_ h)
    simp only [List.mem_append, List.mem_singleton, not_or]
    exact ⟨hw.2, by decide⟩

/-- Markup from an opening `u`, through arbitrary bytes, to a closing `b`. -/
theorem Scan.markup {u w b : List Byte} {c : Byte} (hc : c = ch '?' ∨ c = ch '!')
    (hu : ch '>' ∉ u) (hw : ch '<' ∉ spill w) (hb : ch '<' ∉ b) (h : Scan p d r) :
    Scan (ch '<' :: (c :: u ++ w ++ b ++ ch '>' :: p)) d r := by
  have hg : c ≠ ch '>' := by rcases hc with rfl | rfl <;> decide
  have hk : tagKind (seen (c :: (u ++ w ++ b))) = .skip := by
    rw [seen, List.takeWhile_cons_of_pos (by simp [hg])]
    rcases hc with rfl | rfl <;> rfl
  refine Scan.lexeme (spill_append ?_ hb) (by rw [List.cons_append, List.cons_append, hk]; rfl) h
  have : spill (c :: u ++ w) = spill w := List.dropWhile_append_of_pos fun a ha => by
    rcases List.mem_cons.mp ha with rfl | ha
    · simpa using hg
    · have : a ≠ ch '>' := fun he => hu (he ▸ ha)
      simpa using this
  rwa [this]

theorem Scan.misc {m : Misc} (hm : scannableMisc m) (h : Scan p d r) : Scan (m.text ++ p) d r := by
  cases m with
  | chars w ok => exact Scan.skip ok.1 h
  | comment w ok =>
    have hw : ch '<' ∉ spill w := by simpa [scannableMisc] using hm
    have ho : lit "<!--" = ch '<' :: ch '!' :: lit "--" := by decide
    have hc : lit "-->" = lit "--" ++ [ch '>'] := by decide
    simpa [Misc.text, ho, hc] using
      Scan.markup (u := lit "--") (b := lit "--") (.inr rfl) (by decide) hw (by decide) h
  | cdata w ok =>
    have hw : ch '<' ∉ spill w := by simpa [scannableMisc] using hm
    have ho : lit "<![CDATA[" = ch '<' :: ch '!' :: lit "[CDATA[" := by decide
    have hc : lit "]]>" = lit "]]" ++ [ch '>'] := by decide
    simpa [Misc.text, ho, hc] using
      Scan.markup (u := lit "[CDATA[") (b := lit "]]") (.inr rfl) (by decide) hw (by decide) h
  | pi w ok =>
    have hw : ch '<' ∉ spill w := by simpa [scannableMisc] using hm
    have ho : lit "<?" = [ch '<', ch '?'] := by decide
    have hc : lit "?>" = lit "?" ++ [ch '>'] := by decide
    simpa [Misc.text, ho, hc] using
      Scan.markup (u := []) (b := lit "?") (.inl rfl) (by decide) hw (by decide) h

theorem spill_tag {t : Tag} : ch '<' ∉ spill t.text := fun h =>
  t.lt_not_mem ((List.dropWhile_suffix _).subset h)

/-- The name of a tag decides that it is no markup and no end tag. -/
theorem tagKind_name {t : Tag} (x : List Byte) :
    tagKind (seen (t.text ++ x)) =
      if (seen (t.text ++ x)).getLast? = some (ch '/') then .empty else .opening := by
  have hn := t.name.first_ok
  have hne : ∀ c, ¬ isNameStart c → t.name.first ≠ c := fun c hc he => hc (he ▸ hn)
  have he : (seen (t.text ++ x)).head? = some t.name.first := by
    have : t.text ++ x = t.name.first :: (t.name.rest ++ t.attrs.flatMap Attr.text ++ t.trail.text ++ x) := by
      simp [Tag.text, Name.text]
    rw [this, seen, List.takeWhile_cons_of_pos (by simpa using hne _ (by decide))]
    rfl
  simp only [tagKind, he, Option.some.injEq, hne (ch '?') (by decide), hne (ch '!') (by decide),
    hne (ch '/') (by decide), or_self, if_false]

theorem Scan.openTag {t : Tag} (ho : opens t) (h : Scan p (d + 1) r) :
    Scan (ch '<' :: (t.text ++ ch '>' :: p)) d r := by
  refine Scan.lexeme spill_tag ?_ h
  have hk := tagKind_name (t := t) []
  rw [List.append_nil, if_neg (by simpa [opens] using ho)] at hk
  rw [hk]
  rfl

theorem Scan.emptyTag {t : Tag} (he : empties t) (hd : d ≠ 0) (h : Scan p d r) : Scan (emptyText t ++ p) d r := by
  have hk := tagKind_name (t := t) [ch '/']
  rw [if_pos (by simpa [empties] using he)] at hk
  have := Scan.lexeme (spill_append (spill_tag (t := t)) (x := [ch '/']) (by decide))
    (by rw [hk, TagKind.depth, if_neg hd]) h
  have hl : lit "/>" = [ch '/', ch '>'] := by decide
  simpa [emptyText, hl] using this

/-- The text of an end tag. -/
def endText (n : Name) (trail : Space) : List Byte := ch '/' :: (n.text ++ trail.text)

theorem endText_gt (n : Name) (trail : Space) : ch '>' ∉ endText n trail := by
  intro h
  simp only [endText, List.mem_cons, List.mem_append] at h
  rcases h with h | h | h
  · exact absurd h (by decide)
  · exact absurd (Name.mem h) (by decide)
  · exact absurd (List.all_eq_true.mp trail.ok _ h) (by decide)

theorem Scan.content {c : Content} (hc : scannableContent c) (hd : 0 < d) (h : Scan p d r) :
    Scan (c.text ++ p) d r := by
  induction c generalizing d p with
  | done => exact h
  | misc m rest ih =>
    simp only [scannableContent, Bool.and_eq_true] at hc
    rw [Content.text, List.append_assoc]
    exact Scan.misc hc.1 (ih hc.2 hd h)
  | empty t rest ih =>
    simp only [scannableContent, Bool.and_eq_true] at hc
    rw [Content.text, List.append_assoc]
    exact Scan.emptyTag hc.1 (by omega) (ih hc.2 hd h)
  | element t inner trail rest ihi ihr =>
    simp only [scannableContent, Bool.and_eq_true] at hc
    have hr := ihr hc.2 hd h
    have he := Scan.tag (d := d + 1) (endText_gt t.name trail)
      (show _ = some d by rw [show tagKind (endText t.name trail) = .close from rfl, TagKind.depth,
        if_neg (by omega)]; simp) hr
    simpa [Content.text, elementText, endText] using
      Scan.openTag hc.1.1 (ihi hc.1.2 (by omega) he)

/-- The scan of an element ends behind it. -/
theorem Scan.element {e : Element} (he : scannable e) (p : List Byte) : Scan (e.text ++ p) 0 (some p) := by
  cases e with
  | empty t =>
    have hg : ch '>' ∉ t.text ++ [ch '/'] := by
      simp only [scannable, Bool.not_eq_true', List.contains_eq_mem, decide_eq_false_iff_not] at he
      simp only [List.mem_append, List.mem_singleton, not_or]
      exact ⟨he, by decide⟩
    have hs : seen (t.text ++ [ch '/']) = t.text ++ [ch '/'] :=
      List.takeWhile_eq_self_iff.mpr fun a ha => bne_iff_ne.mpr fun h => hg (h ▸ ha)
    have hk := tagKind_name (t := t) [ch '/']
    rw [hs, if_pos (by simp)] at hk
    have := Scan.root (d := 0) (p := p) hg (by rw [hk]; rfl)
    have hl : lit "/>" = [ch '/', ch '>'] := by decide
    simpa [Element.text, emptyText, hl] using this
  | element t inner trail =>
    simp only [scannable, Bool.and_eq_true] at he
    have hr := Scan.root (d := 1) (p := p) (endText_gt t.name trail) rfl
    have hc := Scan.openTag (d := 0) he.1 (Scan.content he.2 (by omega) hr)
    simpa [Element.text, elementText, endText] using hc

theorem Element.text_gt (e : Element) : ∃ u, e.text = u ++ [ch '>'] := by
  have hl : lit "/>" = [ch '/', ch '>'] := by decide
  cases e with
  | empty t => exact ⟨ch '<' :: (t.text ++ [ch '/']), by simp [Element.text, emptyText, hl]⟩
  | element t inner trail =>
    exact ⟨ch '<' :: (t.text ++ ch '>' :: (inner.text ++ ch '<' :: endText t.name trail)),
      by simp [Element.text, elementText, endText]⟩

/-- A chunk the instruction finds nothing in has no needle byte before its first NUL. -/
theorem mm_cmpistri_none {w x : List Byte} (hw : 0 ∉ w) (hl : (w ++ x).length ≤ 16)
    (h : mm_cmpistri XML_NEEDLE (w ++ x) = 16) : ch '<' ∉ w ∧ ch '>' ∉ w := by
  have hc : cstr (w ++ x) = w ++ cstr x :=
    List.takeWhile_append_of_pos fun a ha => bne_iff_ne.mpr fun he => hw (he ▸ ha)
  have hn : ∀ b ∈ w, ¬ (cstr XML_NEEDLE).contains b := by
    unfold mm_cmpistri at h
    split at h
    · rename_i i hi
      obtain ⟨hi, _⟩ := List.findIdx?_eq_some_iff_getElem.mp hi
      have := Nat.lt_of_lt_of_le hi (cstr_isPrefix _).length_le
      omega
    · rename_i hi
      intro b hb
      exact Bool.not_eq_true _ ▸ List.findIdx?_eq_none_iff.mp hi b (hc ▸ List.mem_append_left _ hb)
  exact ⟨fun hm => hn _ hm (by decide), fun hm => hn _ hm (by decide)⟩

/-- Inside an element no chunk hides a tag, since a chunk that reaches its end has a `>` in it. -/
theorem not_hidesTag {e : Element} {p q : List Byte} (hq : q <:+ e.text ++ p)
    (hl : p.length < q.length) : ¬ hidesTag q := by
  obtain ⟨v, rfl⟩ : ∃ v, q = v ++ p := by
    obtain ⟨v, hv⟩ := List.suffix_of_suffix_length_le (List.suffix_append e.text p) hq (Nat.le_of_lt hl)
    exact ⟨v, hv.symm⟩
  have hs : v <:+ e.text := List.suffix_append_self_iff.mp hq
  have hz : 0 ∉ v := fun h => Element.zero_not_mem e (hs.subset h)
  have hgt : ch '>' ∈ v := by
    obtain ⟨u, hu⟩ := Element.text_gt e
    rcases List.suffix_concat_iff.mp (hu ▸ hs) with rfl | ⟨t, rfl, _⟩
    · simp at hl
    · simp
  intro hh
  simp only [hidesTag, Bool.and_eq_true, decide_eq_true_eq, beq_iff_eq, List.contains_eq_mem] at hh
  obtain ⟨⟨_, hm⟩, hlt⟩ := hh
  have hlen : ((v ++ p).take 16).length ≤ 16 := by rw [List.length_take]; omega
  rw [List.take_append] at hm hlt hlen
  obtain ⟨hlt', hgt'⟩ := mm_cmpistri_none (fun h => hz (List.mem_of_mem_take h)) hlen hm
  by_cases hv : v.length ≤ 16
  · rw [List.take_of_length_le hv] at hgt'
    exact hgt' hgt
  · rw [show 16 - v.length = 0 by omega, List.take_zero, List.append_nil] at hlt
    exact hlt' hlt

/-- Every scanner returns the length of an element it can scan, whatever follows. -/
theorem find_stanza_end_element (e : Element) (he : scannable e) (rest : List Byte) (sse42 : Bool) :
    find_stanza_end_dispatch sse42 (e.text ++ rest) = e.text.length ∧
      find_stanza_end_plain (e.text ++ rest) = e.text.length := by
  have hs := Scan.element he rest
  have hr : returned (e.text ++ rest).length (some rest) = e.text.length := by
    simp only [returned, List.length_append]
    omega
  have hscalar : find_stanza_end_scalar (e.text ++ rest) = e.text.length :=
    (scalarLoop_scan _ hs _ (Nat.le_refl _)).trans hr
  refine ⟨?_, (find_stanza_end_plain_eq _).trans hscalar⟩
  cases sse42 with
  | false => exact hscalar
  | true =>
    refine Eq.trans (sseLoop_scan _ _ (Nat.le_refl _) (fun q hq hl => ?_) hs) hr
    exact not_hidesTag hq.suffix (hl rest rfl)

def noSpace : Space := .none
def nameA : Name := ⟨ch 'a', [], by decide, by decide⟩
def attrGt : Attr := .single ⟨ch 'x', [], by decide, by decide⟩ (lit ">") (by decide)

/-- `<a x='>'><!-- > --></a>`. -/
def elementGt : Element :=
  .element ⟨nameA, [attrGt], noSpace⟩ (.misc (.comment (lit " > ") (by decide)) .done) noSpace

theorem find_stanza_end_elementGt :
    find_stanza_end_dispatch true (elementGt.text ++ lit "<b/>\x00") = elementGt.text.length ∧
      find_stanza_end_plain (elementGt.text ++ lit "<b/>\x00") = elementGt.text.length :=
  find_stanza_end_element elementGt (by decide) _ true

/-- `<a x='>'/>`. -/
def emptyGt : Element := .empty ⟨nameA, [attrGt], noSpace⟩

/-- `<a><!-- > </a> --></a>`. -/
def commentedEnd : Element :=
  .element ⟨nameA, [], noSpace⟩ (.misc (.comment (lit " > </a> ") (by decide)) .done) noSpace

/-- No scanner finds the end of the first, and the second is cut inside its comment. -/
theorem find_stanza_end_misses :
    (∀ sse42, find_stanza_end_dispatch sse42 emptyGt.text = -1) ∧
      (∀ sse42, find_stanza_end_dispatch sse42 commentedEnd.text = 14) ∧
      commentedEnd.text.length = 22 := by
  decide +kernel

end Angelic.Proofs
