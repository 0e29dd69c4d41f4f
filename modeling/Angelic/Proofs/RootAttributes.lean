import Angelic.Proofs.ParserEvents
import Mathlib.Data.List.TakeWhile

namespace Angelic.Proofs
open CString Model

variable {r : RootState} {b : Bool} (es : List XmlEvent)

/-! Only the root's own attributes reach the fields of a stanza. -/

def isElemStart : XmlEvent → Bool
  | .elemStart _ => true
  | _ => false

/-- The events before the first element, the root's start, and the events up to the next element. -/
def prolog (es : List XmlEvent) : List XmlEvent := es.takeWhile (! isElemStart ·)
def rootTag (es : List XmlEvent) : List XmlEvent := (es.dropWhile (! isElemStart ·)).take 1
def rootPart (es : List XmlEvent) : List XmlEvent := ((es.dropWhile (! isElemStart ·)).drop 1).takeWhile (! isElemStart ·)

/-- The events before the second element's start. -/
def beforeSecond (es : List XmlEvent) : List XmlEvent := prolog es ++ rootTag es ++ rootPart es

/-- The events from the second element's start on. -/
def fromSecond (es : List XmlEvent) : List XmlEvent := ((es.dropWhile (! isElemStart ·)).drop 1).dropWhile (! isElemStart ·)

theorem split_second : es = beforeSecond es ++ fromSecond es := by
  rw [beforeSecond, fromSecond, List.append_assoc, rootPart, List.takeWhile_append_dropWhile, List.append_assoc, rootTag,
    List.take_append_drop, prolog, List.takeWhile_append_dropWhile]

namespace RootState

/-- All but what the parser keeps for itself. -/
def fields (r : RootState) : RootState := { r with depth := 0, current_attr := [] }

theorem value_depth (r : RootState) (elem d : Str) : (r.value elem d).depth = r.depth := by
  unfold value
  repeat' first | rfl | split

theorem value_attr (r : RootState) (elem d : Str) : (r.value elem d).current_attr = r.current_attr := by
  unfold value
  repeat' first | rfl | split

theorem on_depth (r : RootState) {e : XmlEvent} (h : isElemStart e = false) : (r.on e).depth = r.depth := by
  cases e with
  | elemStart elem => cases h
  | attrStart attr => rfl
  | attrVal elem d =>
    rw [on]
    split
    · exact value_depth r elem d
    · rfl

theorem start_depth (r : RootState) (elem : Str) : (r.start elem).depth = r.depth := by
  unfold start
  repeat' first | rfl | split

theorem foldl_depth (es : List XmlEvent) (r : RootState) (h : ∀ e ∈ es, isElemStart e = false) :
    (es.foldl on r).depth = r.depth := by
  induction es generalizing r with
  | nil => rfl
  | cons e es ih =>
    rw [List.foldl_cons, ih _ fun e' he => h e' (List.mem_cons_of_mem e he), on_depth r (h e List.mem_cons_self)]

/-- Below the root nothing is collected. -/
theorem on_deep (e : XmlEvent) (h : 2 ≤ r.depth) : 2 ≤ (r.on e).depth ∧ (r.on e).fields = r.fields := by
  cases e with
  | elemStart elem =>
    rw [on, if_neg (by omega)]
    exact ⟨Nat.le_succ_of_le h, rfl⟩
  | attrStart attr => exact ⟨h, rfl⟩
  | attrVal elem d =>
    rw [on, if_neg (by omega)]
    exact ⟨h, rfl⟩

theorem foldl_deep (es : List XmlEvent) (h : 2 ≤ r.depth) : (es.foldl on r).fields = r.fields := by
  induction es generalizing r with
  | nil => rfl
  | cons e es ih =>
    obtain ⟨hd, hf⟩ := on_deep e h
    exact (ih hd).trans hf

end RootState

theorem prolog_plain : ∀ e ∈ prolog es, isElemStart e = false := by
  intro e he
  simpa using List.mem_takeWhile_imp he

theorem rootPart_plain : ∀ e ∈ rootPart es, isElemStart e = false := by
  intro e he
  simpa using List.mem_takeWhile_imp he

theorem dropWhile_start {es rest : List XmlEvent} {e : XmlEvent} (h : es.dropWhile (! isElemStart ·) = e :: rest) :
    ∃ elem, e = .elemStart elem := by
  have hs := List.head?_dropWhile_not (! isElemStart ·) es
  rw [h] at hs
  cases e with
  | elemStart elem => exact ⟨elem, rfl⟩
  | attrStart attr => exact absurd hs (by simp [isElemStart])
  | attrVal elem d => exact absurd hs (by simp [isElemStart])

theorem Grouped.takeWhile {es : List XmlEvent} (h : Grouped b es) (p : XmlEvent → Bool) : Grouped b (es.takeWhile p) := by
  induction es generalizing b with
  | nil => exact trivial
  | cons e es ih =>
    rw [List.takeWhile_cons]
    split
    · cases e with
      | elemStart elem => exact ih h
      | attrStart attr => exact ih h
      | attrVal elem d => exact ⟨h.1, ih h.2⟩
    · exact trivial

theorem Grouped.rest {es rest : List XmlEvent} {elem : Str} (h : Grouped b es)
    (hd : es.dropWhile (! isElemStart ·) = .elemStart elem :: rest) : Grouped false rest := by
  induction es generalizing b with
  | nil => cases hd
  | cons e es ih =>
    cases e with
    | elemStart elem' =>
      cases hd
      exact h
    | attrStart attr => exact ih h hd
    | attrVal elem d => exact ih h.2 hd

/-- What the root's start and its attributes leave; the rest of the events finds the parser below the root. -/
theorem foldl_second (h : r.depth = 0) :
    (es.foldl RootState.on r).fields = ((beforeSecond es).foldl RootState.on r).fields := by
  conv_lhs => rw [split_second es, List.foldl_append]
  generalize hr : (beforeSecond es).foldl RootState.on r = r'
  cases hs : fromSecond es with
  | nil => rfl
  | cons e rest =>
    obtain ⟨elem, rfl⟩ := dropWhile_start hs
    -- a second element presupposes a first
    have hd : r'.depth = 1 := by
      rw [← hr, beforeSecond, List.foldl_append, RootState.foldl_depth _ _ (rootPart_plain es), List.foldl_append, rootTag]
      cases ht : es.dropWhile (! isElemStart ·) with
      | nil =>
        rw [fromSecond, ht] at hs
        cases hs
      | cons e' rest' =>
        obtain ⟨elem', rfl⟩ := dropWhile_start ht
        have h0 : ((prolog es).foldl RootState.on r).depth = 0 := (RootState.foldl_depth _ _ (prolog_plain es)).trans h
        rw [List.take_succ_cons, List.take_zero, List.foldl_cons, List.foldl_nil, RootState.on, if_pos h0, RootState.start_depth]
    have hon : r'.on (.elemStart elem) = { r' with depth := 2 } := by
      rw [RootState.on, if_neg (by omega), hd]
    rw [List.foldl_cons, RootState.foldl_deep rest (hon ▸ Nat.le_refl 2), hon]
    rfl

/-! The attributes of the root, as the events name them. -/

/-- The text of the values in front. -/
def vals : List XmlEvent → Str
  | .attrVal _ d :: es => cstr d ++ vals es
  | _ => []

def collect : List XmlEvent → List (Str × Str)
  | .attrStart a :: es => (a, vals es) :: collect es
  | _ :: es => collect es
  | [] => []

/-- The root's attributes with their decoded values, in the order of the text. -/
def rootAttrs (es : List XmlEvent) : List (Str × Str) := collect (rootPart es)

/-- The value of an attribute, empty where the root has none of that name. -/
def rootAttr (name : Str) (es : List XmlEvent) : Str := ((rootAttrs es).lookup name).getD []

/-- The text reported while the attribute of a name is open. -/
def total (name : Str) : Str → List XmlEvent → Str
  | _, [] => []
  | cur, .elemStart _ :: es => total name cur es
  | _, .attrStart a :: es => total name a es
  | cur, .attrVal _ d :: es => (if cur = name then cstr d else []) ++ total name cur es

def valuesOf (name : Str) (attrs : List (Str × Str)) : Str := attrs.flatMap fun a => if a.1 = name then a.2 else []

theorem total_collect (name cur : Str) (es : List XmlEvent) (h : ∀ e ∈ es, isElemStart e = false) :
    total name cur es = (if cur = name then vals es else []) ++ valuesOf name (collect es) := by
  induction es generalizing cur with
  | nil => simp [total, vals, collect, valuesOf]
  | cons e es ih =>
    have hes : ∀ e ∈ es, isElemStart e = false := fun e' he => h e' (List.mem_cons_of_mem e he)
    cases e with
    | elemStart elem => exact absurd (h _ List.mem_cons_self) (by simp [isElemStart])
    | attrStart a =>
      have hv : vals (.attrStart a :: es) = [] := rfl
      rw [total, ih a hes, hv, ite_self, List.nil_append, collect, valuesOf, valuesOf, List.flatMap_cons]
    | attrVal elem d =>
      have hc : collect (.attrVal elem d :: es) = collect es := rfl
      rw [total, ih cur hes, vals, hc]
      split
      · rw [List.append_assoc]
      · rfl

/-- Where no name is repeated, an attribute is reported once. -/
theorem named_of_nodup (name : Str) {attrs : List (Str × Str)} (h : (attrs.map Prod.fst).Nodup) :
    valuesOf name attrs = (attrs.lookup name).getD [] := by
  induction attrs with
  | nil => rfl
  | cons a attrs ih =>
    obtain ⟨b, v⟩ := a
    rw [List.map_cons, List.nodup_cons] at h
    rw [valuesOf, List.flatMap_cons, ← valuesOf, List.lookup_cons]
    by_cases hb : b = name
    · subst hb
      have hnone : valuesOf b attrs = [] := by
        rw [valuesOf, List.flatMap_eq_nil_iff]
        intro c hc
        rw [if_neg]
        intro heq
        exact h.1 (List.mem_map.mpr ⟨c, hc, heq⟩)
      simp [hnone]
    · have hb' : (name == b) = false := by simpa using fun e => hb e.symm
      rw [if_neg hb, hb', ih h.2]
      rfl

/-! The fields collect them. -/

theorem take_eq_short {a name : Str} (h : name.length < 63) : a.take 63 = name ↔ a = name := by
  constructor
  · intro he
    have hl : (a.take 63).length < 63 := he ▸ h
    rw [List.length_take] at hl
    rw [← he, List.take_of_length_le (by omega)]
  · rintro rfl
    exact List.take_of_length_le (by omega)

theorem strncat_take (n : Nat) (acc d : Str) : strncat (n + 1) (acc.take n) d = (acc ++ cstr d).take n := by
  rw [strncat, List.take_append, Nat.add_sub_cancel, List.length_take]
  congr 2
  omega

/-- A field that takes the values of one attribute of the root. -/
structure Tracks (name : Str) (field : RootState → Str) : Prop where
  short : name.length < 63
  fresh : field .init = []
  value : ∀ r elem d, field (r.value elem d) = if r.current_attr = name then strncat 64 (field r) d else field r
  start : ∀ r elem, field (r.start elem) = field r
  fields : ∀ r : RootState, field r.fields = field r
  attr : ∀ (r : RootState) a, field { r with current_attr := a } = field r

theorem tracks_to : Tracks (lit "to") RootState.to_ where
  short := by decide
  fresh := rfl
  value := by
    intro r elem d
    unfold RootState.value
    repeat' first | rfl | split
  start := by
    intro r elem
    unfold RootState.start
    repeat' first | rfl | split
  fields _ := rfl
  attr _ _ := rfl

theorem tracks_from : Tracks (lit "from") RootState.from_ where
  short := by decide
  fresh := rfl
  value := by
    intro r elem d
    unfold RootState.value
    by_cases hto : r.current_attr = lit "to"
    · rw [if_pos hto, hto, if_neg (by decide)]
    rw [if_neg hto]
    repeat' first | rfl | split
  start := by
    intro r elem
    unfold RootState.start
    repeat' first | rfl | split
  fields _ := rfl
  attr _ _ := rfl

theorem tracks_id : Tracks (lit "id") RootState.id where
  short := by decide
  fresh := rfl
  value := by
    intro r elem d
    unfold RootState.value
    by_cases hto : r.current_attr = lit "to"
    · rw [if_pos hto, hto, if_neg (by decide)]
    by_cases hfrom : r.current_attr = lit "from"
    · rw [if_neg hto, if_pos hfrom, hfrom, if_neg (by decide)]
    rw [if_neg hto, if_neg hfrom]
    repeat' first | rfl | split
  start := by
    intro r elem
    unfold RootState.start
    repeat' first | rfl | split
  fields _ := rfl
  attr _ _ := rfl

namespace Tracks
variable {name : Str} {field : RootState → Str} (ht : Tracks name field)
include ht

theorem foldl_root (es : List XmlEvent) {cur acc : Str} (hes : ∀ e ∈ es, isElemStart e = false)
    (hd : r.depth = 1) (hc : r.current_attr = cur.take 63) (hf : field r = acc.take 63) :
    field (es.foldl RootState.on r) = (acc ++ total name cur es).take 63 := by
  induction es generalizing r cur acc with
  | nil => rw [List.foldl_nil, total, List.append_nil, hf]
  | cons e es ih =>
    have hrest : ∀ e ∈ es, isElemStart e = false := fun e' he => hes e' (List.mem_cons_of_mem e he)
    rw [List.foldl_cons]
    cases e with
    | elemStart elem => exact absurd (hes _ List.mem_cons_self) (by simp [isElemStart])
    | attrStart a => exact ih hrest hd rfl ((ht.attr r _).trans hf)
    | attrVal elem d =>
      rw [RootState.on, if_pos hd, total, ← List.append_assoc]
      refine ih hrest ((RootState.value_depth r elem d).trans hd) ((RootState.value_attr r elem d).trans hc) ?_
      rw [ht.value, hc, hf]
      by_cases hn : cur = name
      · rw [if_pos ((take_eq_short ht.short).mpr hn), if_pos hn, strncat_take 63]
      · rw [if_neg (mt (take_eq_short ht.short).mp hn), if_neg hn, List.append_nil]

/-- Before the root nothing is collected either. -/
theorem foldl_prolog (es : List XmlEvent) (hes : ∀ e ∈ es, isElemStart e = false) (hd : r.depth = 0) :
    field (es.foldl RootState.on r) = field r := by
  induction es generalizing r with
  | nil => rfl
  | cons e es ih =>
    have hrest : ∀ e ∈ es, isElemStart e = false := fun e' he => hes e' (List.mem_cons_of_mem e he)
    rw [List.foldl_cons, ih hrest ((RootState.on_depth r (hes e List.mem_cons_self)).trans hd)]
    cases e with
    | elemStart elem => exact absurd (hes _ List.mem_cons_self) (by simp [isElemStart])
    | attrStart a => exact ht.attr r _
    | attrVal elem d => rw [RootState.on, if_neg (by omega)]

theorem foldl_fresh (es : List XmlEvent) (hes : ∀ e ∈ es, isElemStart e = false) (hg : Grouped false es)
    (hd : r.depth = 1) (hf : field r = []) : field (es.foldl RootState.on r) = (valuesOf name (collect es)).take 63 := by
  cases es with
  | nil => exact hf
  | cons e es =>
    have hrest : ∀ e ∈ es, isElemStart e = false := fun e' he => hes e' (List.mem_cons_of_mem e he)
    cases e with
    | elemStart elem => exact absurd (hes _ List.mem_cons_self) (by simp [isElemStart])
    | attrStart a =>
      have hnew : field (r.on (.attrStart a)) = List.take 63 [] := (ht.attr r _).trans hf
      have hfold := ht.foldl_root es (r := r.on (.attrStart a)) hrest hd rfl hnew
      rw [List.nil_append, total_collect name a es hrest] at hfold
      rw [List.foldl_cons, hfold, collect, valuesOf, valuesOf, List.flatMap_cons]
    | attrVal elem d => exact absurd hg.1 (by decide)

/-- The field of a whole run holds the root's attribute. -/
theorem foldl_init (es : List XmlEvent) (hg : Grouped b es) (hn : ((rootAttrs es).map Prod.fst).Nodup) :
    field (es.foldl RootState.on .init) = (rootAttr name es).take 63 := by
  rw [rootAttr, ← named_of_nodup name hn, rootAttrs, ← ht.fields, foldl_second es (r := .init) rfl, ht.fields, beforeSecond,
    List.foldl_append, List.foldl_append]
  have h0 : ((prolog es).foldl RootState.on .init).depth = 0 := RootState.foldl_depth _ _ (prolog_plain es)
  have hp : field ((prolog es).foldl RootState.on .init) = [] := (ht.foldl_prolog _ (prolog_plain es) rfl).trans ht.fresh
  cases hd : es.dropWhile (! isElemStart ·) with
  | nil =>
    rw [rootTag, rootPart, hd]
    exact hp
  | cons e rest =>
    obtain ⟨elem, rfl⟩ := dropWhile_start hd
    have hg' : Grouped false (rootPart es) := by
      rw [rootPart, hd]
      exact (hg.rest hd).takeWhile _
    refine ht.foldl_fresh (rootPart es) (rootPart_plain es) hg' ?_ ?_
    · rw [rootTag, hd, List.take_succ_cons, List.take_zero, List.foldl_cons, List.foldl_nil, RootState.on, if_pos h0,
        RootState.start_depth]
    · rw [rootTag, hd, List.take_succ_cons, List.take_zero, List.foldl_cons, List.foldl_nil, RootState.on, if_pos h0, ht.start]
      exact (ht.fields _).symm.trans ((ht.fields ((prolog es).foldl RootState.on .init)).trans hp)

end Tracks

/-- The bytes of the stanza behind the white space in front. -/
def stanzaText (payload : List Byte) (bytes_consumed : Nat) : List Byte :=
  (payload.take bytes_consumed).drop (payload.takeWhile isSpace).length

/-- What yxml reports over a stanza. -/
def stanzaEvents (payload : List Byte) (bytes_consumed : Nat) : List XmlEvent :=
  yxmlEvents (yxml_init 1024) (stanzaText payload bytes_consumed)

theorem stanza_of_text {sse42 free : Bool} {payload : List Byte} {st : Stanza} {n : Nat}
    (h : parse_xml_stream sse42 free payload = .stanza st n) : st = parseStanza (stanzaText payload n) := by
  have hsplit : (payload.takeWhile isSpace).length + (payload.dropWhile isSpace).length = payload.length := by
    rw [← List.length_append, List.takeWhile_append_dropWhile]
  have hdrop : payload.drop (payload.takeWhile isSpace).length = payload.dropWhile isSpace := by
    have := @List.drop_left _ (payload.takeWhile isSpace) (payload.dropWhile isSpace)
    rwa [List.takeWhile_append_dropWhile] at this
  unfold parse_xml_stream at h
  dsimp only at h
  split at h
  · cases h
  · split at h
    · cases h
    · split at h
      · cases h
      · cases h
        rw [stanzaText, List.drop_take, hdrop]
        congr 2
        omega

/-- The fields of the root after a stanza's events. -/
def rootEnd (es : List XmlEvent) : RootState := (es.foldl RootState.on .init).fields

theorem rootEnd_second : rootEnd es = rootEnd (beforeSecond es) := foldl_second es rfl

theorem parse_root (xml : List Byte) :
    rootOf (xml.foldl parseByte .init) = (yxmlEvents (yxml_init 1024) xml).foldl RootState.on .init :=
  rootOf_parse xml .init

theorem parse_fields (xml : List Byte) :
    let st := parseStanza xml
    let r := rootEnd (yxmlEvents (yxml_init 1024) xml)
    st.to_ = r.to_ ∧ st.from_ = r.from_ ∧ st.id = r.id ∧ st.mechanism = r.mechanism ∧ st.type = r.finalType := by
  intro st r
  have hr : r = (rootOf (xml.foldl parseByte .init)).fields := by rw [parse_root]; rfl
  rw [hr]
  exact ⟨rfl, rfl, rfl, rfl, rfl⟩

/-- The fields of a stanza come from the root's start and attributes: what follows the second element's start, nested
attributes included, does not reach them, and where the root repeats no attribute the addresses and the id are its
decoded values, cut to the field. -/
theorem root_attributes_isolated {sse42 free : Bool} {payload : List Byte} {st : Stanza} {n : Nat}
    (h : parse_xml_stream sse42 free payload = .stanza st n) :
    (∀ {sse42' free' : Bool} {payload' : List Byte} {st' : Stanza} {n' : Nat},
      parse_xml_stream sse42' free' payload' = .stanza st' n' →
      beforeSecond (stanzaEvents payload n) = beforeSecond (stanzaEvents payload' n') →
      st.to_ = st'.to_ ∧ st.from_ = st'.from_ ∧ st.id = st'.id ∧ st.mechanism = st'.mechanism ∧ st.type = st'.type) ∧
    (((rootAttrs (stanzaEvents payload n)).map Prod.fst).Nodup →
      st.to_ = (rootAttr (lit "to") (stanzaEvents payload n)).take 63 ∧
      st.from_ = (rootAttr (lit "from") (stanzaEvents payload n)).take 63 ∧
      st.id = (rootAttr (lit "id") (stanzaEvents payload n)).take 63) := by
  have hst := stanza_of_text h
  subst hst
  obtain ⟨hto, hfrom, hid, hmech, htype⟩ := parse_fields (stanzaText payload n)
  constructor
  · intro sse42' free' payload' st' n' h' hagree
    have hst' := stanza_of_text h'
    subst hst'
    obtain ⟨hto', hfrom', hid', hmech', htype'⟩ := parse_fields (stanzaText payload' n')
    have hroot : rootEnd (stanzaEvents payload n) = rootEnd (stanzaEvents payload' n') := by
      rw [rootEnd_second, hagree, ← rootEnd_second]
    rw [stanzaEvents, stanzaEvents] at hroot
    rw [hto, hto', hfrom, hfrom', hid, hid', hmech, hmech', htype, htype', hroot]
    exact ⟨rfl, rfl, rfl, rfl, rfl⟩
  · intro hnodup
    have hg := yxml_grouped (stanzaText payload n) (yxml_init 1024) rfl
    refine ⟨hto.trans ?_, hfrom.trans ?_, hid.trans ?_⟩
    · exact tracks_to.foldl_init _ hg hnodup
    · exact tracks_from.foldl_init _ hg hnodup
    · exact tracks_id.foldl_init _ hg hnodup

def plainGet : List Byte := lit "<iq to='a' id='1' type='get'><q to='b'/></iq>"
def deepGet : List Byte := lit "  <iq to='a' id='1' type='get'><p id='2'><q type='set' from='c'/></p><r to='d'/></iq>"

/-- Nested attributes and the white space in front make no difference. -/
theorem nested_ignored :
    ∃ st st' n n', parse_xml_stream true true plainGet = .stanza st n ∧ parse_xml_stream true true deepGet = .stanza st' n' ∧
      st.to_ = st'.to_ ∧ st.type = st'.type ∧ st.to_ = (rootAttr (lit "to") (stanzaEvents plainGet n)).take 63 := by
  obtain ⟨⟨hp, hd⟩, hagree, hnodup⟩ :
      (parse_xml_stream true true plainGet = .stanza (parseStanza (stanzaText plainGet 45)) 45 ∧
        parse_xml_stream true true deepGet = .stanza (parseStanza (stanzaText deepGet 85)) 85) ∧
      beforeSecond (stanzaEvents plainGet 45) = beforeSecond (stanzaEvents deepGet 85) ∧
      ((rootAttrs (stanzaEvents plainGet 45)).map Prod.fst).Nodup := by decide +kernel
  obtain ⟨hsame, hvalue⟩ := root_attributes_isolated hp
  obtain ⟨hto, _, _, _, htype⟩ := hsame hd hagree
  exact ⟨_, _, _, _, hp, hd, hto, htype, (hvalue hnodup).1⟩

end Angelic.Proofs
