import Angelic.Lib.CString
import Mathlib.Data.List.Infix

namespace Angelic.Xml
open CString

variable {c : Byte} {l : List Byte}

/-! XML elements as syntax trees. A tree carries the proofs that its lexemes are well formed, so
`text` writes well-formed XML only. References are not restricted: a value or a text may hold
any `&`. -/

def isSpace (c : Byte) : Bool := c == ch ' ' || c == ch '\t' || c == ch '\n' || c == ch '\r'

def isNameStart (c : Byte) : Bool :=
  (ch 'a' ≤ c && c ≤ ch 'z') || (ch 'A' ≤ c && c ≤ ch 'Z') || c == ch '_' || c == ch ':' || 128 ≤ c

def isNameChar (c : Byte) : Bool :=
  isNameStart c || (ch '0' ≤ c && c ≤ ch '9') || c == ch '-' || c == ch '.'

theorem isNameChar_of_start (h : isNameStart c) : isNameChar c := by simp [isNameChar, h]

structure Name where
  first : Byte
  rest : List Byte
  first_ok : isNameStart first
  rest_ok : rest.all isNameChar

/-- A name given by its first character and the rest. -/
abbrev Name.of (c : Char) (s : String) (h : isNameStart (ch c) ∧ (lit s).all isNameChar) : Name := ⟨ch c, lit s, h.1, h.2⟩

def Name.text (n : Name) : List Byte := n.first :: n.rest

variable {n : Name}

theorem Name.mem (h : c ∈ n.text) : isNameChar c := by
  rcases List.mem_cons.mp h with rfl | h
  · exact isNameChar_of_start n.first_ok
  · exact List.all_eq_true.mp n.rest_ok c h

structure Space where
  text : List Byte
  ok : text.all isSpace

def Space.none : Space := ⟨[], rfl⟩

/-- An attribute with the space before it and around its equals sign. -/
structure Attr where
  lead : Space
  name : Name
  before : Space
  after : Space
  quote : Byte
  value : List Byte
  lead_ok : lead.text ≠ []
  quote_ok : quote = apos ∨ quote = dquote
  value_ok : quote ∉ value ∧ ch '<' ∉ value ∧ 0 ∉ value

def Attr.text (a : Attr) : List Byte :=
  a.lead.text ++ a.name.text ++ a.before.text ++ [ch '='] ++ a.after.text ++
    [a.quote] ++ a.value ++ [a.quote]

variable {a : Attr}

/-- What a byte of an attribute outside its value can be. -/
theorem Attr.mem (h : c ∈ a.text) : isSpace c ∨ isNameChar c ∨ c = ch '=' ∨ c = apos ∨ c = dquote ∨ c ∈ a.value := by
  have hq := a.quote_ok
  simp only [Attr.text, List.mem_append, List.mem_singleton] at h
  have space : ∀ s : Space, c ∈ s.text → isSpace c := fun s => List.all_eq_true.mp s.ok c
  rcases h with ((((((h | h) | h) | h) | h) | h) | h) | h
  · exact .inl (space _ h)
  · exact .inr (.inl (Name.mem h))
  · exact .inl (space _ h)
  · simp [h]
  · exact .inl (space _ h)
  · rcases hq with hq | hq <;> simp [h, hq]
  · simp [h]
  · rcases hq with hq | hq <;> simp [h, hq]

/-- An attribute with one space in front, between apostrophes. -/
def Attr.single (n : Name) (value : List Byte) (h : apos ∉ value ∧ ch '<' ∉ value ∧ 0 ∉ value) : Attr where
  lead := ⟨[ch ' '], by decide⟩
  name := n
  before := .none
  after := .none
  quote := apos
  value := value
  lead_ok := List.cons_ne_nil _ _
  quote_ok := .inl rfl
  value_ok := h

theorem Attr.single_text {value : List Byte} (h : apos ∉ value ∧ ch '<' ∉ value ∧ 0 ∉ value) :
    (Attr.single n value h).text = ch ' ' :: (n.text ++ ch '=' :: apos :: (value ++ [apos])) := by
  simp [Attr.single, Attr.text, Space.none]

structure Tag where
  name : Name
  attrs : List Attr
  trail : Space

/-- The text of a start tag between its angle brackets, without the slash of an empty one. -/
def Tag.text (t : Tag) : List Byte := t.name.text ++ t.attrs.flatMap Attr.text ++ t.trail.text

/-- A byte no lexeme outside attribute values can hold is in a tag only through a value. -/
theorem Tag.mem {t : Tag} (hs : ¬ isSpace c) (hn : ¬ isNameChar c) (he : c ≠ ch '=')
    (ha : c ≠ apos) (hd : c ≠ dquote) (h : c ∈ t.text) : ∃ a ∈ t.attrs, c ∈ a.value := by
  simp only [Tag.text, List.mem_append, List.mem_flatMap] at h
  rcases h with (h | ⟨a, hm, h⟩) | h
  · exact absurd (Name.mem h) hn
  · rcases Attr.mem h with h | h | h | h | h | h
    · exact absurd h hs
    · exact absurd h hn
    · exact absurd h he
    · exact absurd h ha
    · exact absurd h hd
    · exact ⟨a, hm, h⟩
  · exact absurd (List.all_eq_true.mp t.trail.ok c h) hs

theorem Tag.lt_not_mem (t : Tag) : ch '<' ∉ t.text := by
  intro h
  obtain ⟨a, _, ha⟩ := Tag.mem (by decide) (by decide) (by decide) (by decide) (by decide) h
  exact a.value_ok.2.1 ha

theorem Tag.zero_not_mem (t : Tag) : 0 ∉ t.text := by
  intro h
  obtain ⟨a, _, ha⟩ := Tag.mem (by decide) (by decide) (by decide) (by decide) (by decide) h
  exact a.value_ok.2.2 ha

/-- What stands between elements: character data, comments, CDATA sections and processing
instructions. -/
inductive Misc where
  | chars (w : List Byte) (ok : ch '<' ∉ w ∧ 0 ∉ w)
  | comment (w : List Byte) (ok : ¬ lit "--" <:+: w ++ [ch '-'] ∧ 0 ∉ w)
  | cdata (w : List Byte) (ok : ¬ lit "]]>" <:+: w ∧ 0 ∉ w)
  | pi (w : List Byte) (ok : ¬ lit "?>" <:+: w ∧ 0 ∉ w)

def Misc.text : Misc → List Byte
  | .chars w _ => w
  | .comment w _ => lit "<!--" ++ w ++ lit "-->"
  | .cdata w _ => lit "<![CDATA[" ++ w ++ lit "]]>"
  | .pi w _ => lit "<?" ++ w ++ lit "?>"

inductive Content where
  | done
  | misc (m : Misc) (rest : Content)
  | empty (t : Tag) (rest : Content)
  | element (t : Tag) (inner : Content) (trail : Space) (rest : Content)

def emptyText (t : Tag) : List Byte := ch '<' :: (t.text ++ lit "/>")

def elementText (t : Tag) (inner : List Byte) (trail : Space) : List Byte :=
  ch '<' :: (t.text ++ ch '>' :: (inner ++ ch '<' :: (ch '/' :: (t.name.text ++ trail.text) ++ [ch '>'])))

def Content.text : Content → List Byte
  | .done => []
  | .misc m rest => m.text ++ rest.text
  | .empty t rest => emptyText t ++ rest.text
  | .element t inner trail rest => elementText t inner.text trail ++ rest.text

inductive Element where
  | empty (t : Tag)
  | element (t : Tag) (inner : Content) (trail : Space)

def Element.text : Element → List Byte
  | .empty t => emptyText t
  | .element t inner trail => elementText t inner.text trail

/-! No text holds a terminator. -/

theorem Misc.zero_not_mem (m : Misc) : 0 ∉ m.text := by
  cases m with
  | chars w ok => exact ok.2
  | comment w ok | cdata w ok | pi w ok =>
    simp only [Misc.text, List.mem_append, not_or]
    exact ⟨⟨by decide, ok.2⟩, by decide⟩

theorem emptyText_zero (t : Tag) : 0 ∉ emptyText t := by
  simp only [emptyText, List.mem_cons, List.mem_append, not_or]
  exact ⟨by decide, t.zero_not_mem, by decide⟩

theorem elementText_zero (t : Tag) {inner : List Byte} (hi : 0 ∉ inner) (trail : Space) :
    0 ∉ elementText t inner trail := by
  have hn : 0 ∉ t.name.text := fun h => absurd (Name.mem h) (by decide)
  have ht : 0 ∉ trail.text := fun h => absurd (List.all_eq_true.mp trail.ok _ h) (by decide)
  simp only [elementText, List.mem_cons, List.mem_append, not_or]
  exact ⟨by decide, t.zero_not_mem, by decide, hi, by decide, ⟨by decide, hn, ht⟩, by decide⟩

theorem Content.zero_not_mem (c : Content) : 0 ∉ c.text := by
  induction c with
  | done => exact List.not_mem_nil
  | misc m rest ih => exact fun h => (List.mem_append.mp h).elim (Misc.zero_not_mem m) ih
  | empty t rest ih => exact fun h => (List.mem_append.mp h).elim (emptyText_zero t) ih
  | element t inner trail rest ihi ihr =>
    exact fun h => (List.mem_append.mp h).elim (elementText_zero t ihi trail) ihr

theorem Element.zero_not_mem (e : Element) : 0 ∉ e.text := by
  cases e with
  | empty t => exact emptyText_zero t
  | element t inner trail => exact elementText_zero t (Content.zero_not_mem inner) trail

/-! Reading a tree. -/

/-- The first element of a name, in the order of the text. -/
def Content.first (name : List Byte) : Content → Option Tag
  | .done => none
  | .misc _ rest => rest.first name
  | .empty t rest => if t.name.text = name then some t else rest.first name
  | .element t inner _ rest => if t.name.text = name then some t else (inner.first name).or (rest.first name)

/-- The end tag of an element, and what follows it. -/
def endTag (t : Tag) (trail : Space) (w : List Byte) : List Byte :=
  ch '<' :: (ch '/' :: (t.name.text ++ trail.text) ++ ch '>' :: w)

/-- The first element that is picked, in the order of the text or among those on top: its content, and the text behind
its start tag when `w` follows the tree. -/
def Content.find (deep : Bool) (pick : Tag → Bool) : Content → List Byte → Option (Content × List Byte)
  | .done, _ => none
  | .misc _ rest, w => rest.find deep pick w
  | .empty t rest, w => if pick t then some (.done, rest.text ++ w) else rest.find deep pick w
  | .element t inner trail rest, w =>
    let close := endTag t trail (rest.text ++ w)
    if pick t then some (inner, inner.text ++ close)
    else (if deep then inner.find deep pick close else none).or (rest.find deep pick w)

/-- Behind the start tag stands the content, and then a tag. -/
theorem Content.find_behind {deep : Bool} {pick : Tag → Bool} {c inner : Content} {w behind : List Byte}
    (h : c.find deep pick w = some (inner, behind)) : inner.text = [] ∨ ∃ z, behind = inner.text ++ ch '<' :: z := by
  induction c generalizing w with
  | done => cases h
  | misc m rest ih => exact ih h
  | empty t rest ih =>
    rw [Content.find] at h
    split at h
    · cases h
      exact .inl rfl
    · exact ih h
  | element t inner' trail rest ihi ihr =>
    rw [Content.find] at h
    split at h
    · cases h
      exact .inr ⟨_, rfl⟩
    · rcases Option.or_eq_some_iff.mp h with h | ⟨-, h⟩
      · cases deep with
        | true => exact ihi h
        | false => cases h
      · exact ihr h

/-- The value of an attribute as it is written. -/
def Tag.attr (t : Tag) (name : List Byte) : Option (List Byte) :=
  (t.attrs.find? (·.name.text == name)).map (·.value)

theorem Tag.attr_first {as : List Attr} {trail : Space} {name : List Byte} (h : a.name.text = name) :
    Tag.attr ⟨n, a :: as, trail⟩ name = some a.value := by
  simp [Tag.attr, h]

/-- Attributes end in a quote. -/
theorem attrs_last {as : List Attr} (h : (as.flatMap Attr.text).getLast? = some c) : c = apos ∨ c = dquote := by
  rcases List.eq_nil_or_concat as with rfl | ⟨as, a, rfl⟩
  · cases h
  · rw [List.concat_eq_append, List.flatMap_append, List.flatMap_singleton, Attr.text, ← List.append_assoc,
      List.getLast?_concat] at h
    cases h
    exact a.quote_ok

/-- A tag ends in a name, a quote or a space. -/
theorem Tag.last {t : Tag} (h : t.text.getLast? = some c) : isSpace c ∨ isNameChar c ∨ c = apos ∨ c = dquote := by
  unfold Tag.text at h
  rw [List.getLast?_append] at h
  rcases Option.or_eq_some_iff.mp h with h | ⟨-, h⟩
  · exact .inl (List.all_eq_true.mp t.trail.ok c (List.mem_of_getLast? h))
  · rw [List.getLast?_append] at h
    rcases Option.or_eq_some_iff.mp h with h | ⟨-, h⟩
    · exact .inr (.inr (attrs_last h))
    · exact .inr (.inl (Name.mem (List.mem_of_getLast? h)))

/-! How a text is read as attributes: the lexemes follow from it. -/

/-- Two texts that start with a stretch of one kind of byte, up to a byte that is not, have the same stretch. -/
theorem split_unique {p : Byte → Bool} {l' x x' : List Byte} (hl : l.all p) (hl' : l'.all p)
    (hx : ∀ c ∈ x.head?, p c = false) (hx' : ∀ c ∈ x'.head?, p c = false) (h : l ++ x = l' ++ x') : l = l' ∧ x = x' := by
  have stretch : ∀ {l x : List Byte}, l.all p → (∀ c ∈ x.head?, p c = false) → (l ++ x).takeWhile p = l := by
    intro l x hl hx
    rw [List.takeWhile_append_of_pos fun c hc => List.all_eq_true.mp hl c hc]
    cases x with
    | nil => simp
    | cons c x => rw [List.takeWhile_cons_of_neg (by rw [hx c rfl]; decide), List.append_nil]
  have he : l = l' := by rw [← stretch hl hx, h, stretch hl' hx']
  subst he
  exact ⟨rfl, List.append_cancel_left h⟩

/-- And where one of the texts starts otherwise, the stretch of the other is empty. -/
theorem split_none {p : Byte → Bool} {x x' : List Byte} (hl : l.all p) (hx : ∀ c ∈ x.head?, p c = false)
    (hx' : ∀ c ∈ x'.head?, p c = false) (h : l ++ x = x') : x = x' :=
  (split_unique hl (List.all_nil : List.all [] p) hx hx' h).2

theorem isNameChar_space (h : isSpace c) : isNameChar c = false := by
  simp only [isSpace, Bool.or_eq_true, beq_iff_eq] at h
  rcases h with ((rfl | rfl) | rfl) | rfl <;> decide

theorem isSpace_name (h : isNameChar c) : isSpace c = false := by
  rw [Bool.eq_false_iff]
  intro hs
  rw [isNameChar_space hs] at h
  cases h

theorem isSpace_quote (h : c = apos ∨ c = dquote) : isSpace c = false := by
  rcases h with rfl | rfl <;> decide

theorem Space.all (s : Space) : s.text.all isSpace := s.ok

theorem Name.all (n : Name) : n.text.all isNameChar := List.all_eq_true.mpr fun _ hc => Name.mem hc

/-- No name goes on into a space. -/
theorem head_space {x : List Byte} (hl : l.all isSpace) (hx : ∀ c ∈ x.head?, isNameChar c = false) :
    ∀ c ∈ (l ++ x).head?, isNameChar c = false := by
  cases l with
  | nil => exact hx
  | cons d l =>
    intro c hc
    obtain rfl : d = c := Option.some.inj hc
    exact isNameChar_space (List.all_eq_true.mp hl d List.mem_cons_self)

/-- No space goes on into a name. -/
theorem head_name {x : List Byte} (hl : l.all isNameChar) (hne : l ≠ []) : ∀ c ∈ (l ++ x).head?, isSpace c = false := by
  cases l with
  | nil => exact absurd rfl hne
  | cons d l =>
    intro c hc
    obtain rfl : d = c := Option.some.inj hc
    exact isSpace_name (List.all_eq_true.mp hl d List.mem_cons_self)

/-- An attribute that stands where one is written without any space to spare is that one. -/
theorem Attr.read {q : Byte} {r w : List Byte} (hq : q = apos ∨ q = dquote)
    (h : a.text ++ r = ch ' ' :: (n.text ++ ch '=' :: q :: w)) :
    a.name.text = n.text ∧ a.quote = q ∧ a.value ++ a.quote :: r = w := by
  have heq : isNameChar (ch '=') = false ∧ isSpace (ch '=') = false := by decide
  have hne : ∀ n : Name, n.text ≠ [] := fun n => List.cons_ne_nil _ _
  -- the space, the name, the space before the equals sign and the one behind it, one after the other
  have h1 : a.lead.text ++ (a.name.text ++ (a.before.text ++ ch '=' :: (a.after.text ++ a.quote :: (a.value ++ a.quote :: r)))) =
      [ch ' '] ++ (n.text ++ ch '=' :: q :: w) := by
    simpa [Attr.text] using h
  obtain ⟨-, h2⟩ := split_unique a.lead.all (by decide) (head_name a.name.all (hne _)) (head_name n.all (hne _)) h1
  obtain ⟨hn, h3⟩ := split_unique a.name.all n.all (head_space a.before.all (by rintro c ⟨⟩; exact heq.1))
    (by rintro c ⟨⟩; exact heq.1) h2
  have h4 := split_none a.before.all (by rintro c ⟨⟩; exact heq.2) (by rintro c ⟨⟩; exact heq.2) h3
  have h5 := split_none a.after.all (by rintro c ⟨⟩; exact isSpace_quote a.quote_ok)
    (by rintro c ⟨⟩; exact isSpace_quote hq) (List.cons.inj h4).2
  exact ⟨hn, (List.cons.inj h5).1, (List.cons.inj h5).2⟩

/-- The last attribute of a text that ends in one without any space to spare is that one. -/
theorem Attr.read_back {q : Byte} {v r w : List Byte} (hq : q ∉ v)
    (hr : ∀ c ∈ r.getLast?, isSpace c = false) (hw : ∀ c ∈ w.getLast?, isSpace c = false)
    (h : r ++ a.text = w ++ ch ' ' :: (n.text ++ ch '=' :: q :: (v ++ [q]))) : r = w := by
  have heq : isNameChar (ch '=') = false ∧ isSpace (ch '=') = false := by decide
  have hrev : ∀ {l : List Byte} {p : Byte → Bool}, l.all p → l.reverse.all p := by
    intro l p hl
    rwa [List.all_reverse]
  have hne : ∀ n : Name, n.text.reverse ≠ [] := fun n => by simp [Name.text]
  -- the same lexemes, from the end
  have h0 := congrArg List.reverse h
  simp only [Attr.text, List.reverse_append, List.reverse_cons, List.reverse_nil, List.nil_append, List.cons_append,
    List.append_assoc] at h0
  obtain ⟨hquote, h1⟩ := List.cons.inj h0
  subst hquote
  have hstop : ∀ {l : List Byte}, a.quote ∉ l → l.reverse.all (· != a.quote) := by
    intro l hl
    rw [List.all_reverse, List.all_eq_true]
    intro c hc
    exact bne_iff_ne.mpr fun he => hl (he ▸ hc)
  obtain ⟨-, h2⟩ := split_unique (hstop a.value_ok.1) (hstop hq) (by rintro c ⟨⟩; exact bne_self_eq_false _)
    (by rintro c ⟨⟩; exact bne_self_eq_false _) h1
  have h3 := split_none (hrev a.after.all) (by rintro c ⟨⟩; exact heq.2) (by rintro c ⟨⟩; exact heq.2)
    (List.cons.inj h2).2
  have h4 := split_none (hrev a.before.all) (head_name (hrev a.name.all) (hne _))
    (head_name (hrev n.all) (hne _)) (List.cons.inj h3).2
  have hlead : ∀ c ∈ (a.lead.text.reverse ++ r.reverse).head?, isNameChar c = false := by
    intro c hc
    rw [List.head?_append_of_ne_nil _ (by simpa using a.lead_ok)] at hc
    refine isNameChar_space (List.all_eq_true.mp a.lead.ok c ?_)
    exact List.mem_reverse.mp (List.mem_of_mem_head? hc)
  obtain ⟨-, h5⟩ := split_unique (hrev a.name.all) (hrev n.all) hlead (by rintro c ⟨⟩; decide) h4
  have h6 : a.lead.text.reverse ++ r.reverse = [ch ' '] ++ w.reverse := h5
  refine List.reverse_injective (split_unique (hrev a.lead.all) (by decide) ?_ ?_ h6).2
  · rwa [List.head?_reverse]
  · rwa [List.head?_reverse]

/-! Where the markup of a content ends. -/

/-- Behind every `<` comes a `>`. -/
def Closes (l : List Byte) : Prop := ∀ b s, l = b ++ ch '<' :: s → ch '>' ∈ s

theorem Closes.of_plain (h : ch '<' ∉ l) : Closes l := by
  rintro b s rfl
  exact absurd (List.mem_append_right _ List.mem_cons_self) h

theorem Closes.of_last : Closes (l ++ [ch '>']) := by
  intro b s h
  rcases List.eq_nil_or_concat s with rfl | ⟨s', c, rfl⟩
  · have := (List.append_inj' h rfl).2
    exact absurd (List.cons.inj this).1 (by decide)
  · rw [List.concat_eq_append, ← List.cons_append, ← List.append_assoc] at h
    have := (List.append_inj' h rfl).2
    rw [List.concat_eq_append, ← (List.cons.inj this).1]
    exact List.mem_append_right _ List.mem_cons_self

theorem Closes.append {r : List Byte} (hl : Closes l) (hr : Closes r) : Closes (l ++ r) := by
  intro b s h
  rcases List.append_eq_append_iff.mp h with ⟨m, rfl, hm⟩ | ⟨m, rfl, hm⟩
  · exact hr m s hm
  · cases m with
    | nil => exact hr [] s hm.symm
    | cons c m =>
      obtain ⟨rfl, rfl⟩ := List.cons.inj hm
      exact List.mem_append_left _ (hl b m rfl)

theorem Misc.closes (m : Misc) : Closes m.text := by
  have hend : lit "-->" = lit "--" ++ [ch '>'] ∧ lit "]]>" = lit "]]" ++ [ch '>'] ∧ lit "?>" = lit "?" ++ [ch '>'] := by
    decide
  cases m with
  | chars w ok => exact .of_plain ok.1
  | comment w ok =>
    rw [Misc.text, hend.1, ← List.append_assoc]
    exact .of_last
  | cdata w ok =>
    rw [Misc.text, hend.2.1, ← List.append_assoc]
    exact .of_last
  | pi w ok =>
    rw [Misc.text, hend.2.2, ← List.append_assoc]
    exact .of_last

theorem emptyText_closes (t : Tag) : Closes (emptyText t) := by
  have hend : emptyText t = (ch '<' :: (t.text ++ [ch '/'])) ++ [ch '>'] := by
    have hlit : lit "/>" = [ch '/', ch '>'] := by decide
    simp only [emptyText, hlit, List.cons_append, List.append_assoc, List.nil_append]
  rw [hend]
  exact .of_last

theorem elementText_closes (t : Tag) (inner : List Byte) (trail : Space) : Closes (elementText t inner trail) := by
  have hend : elementText t inner trail =
      (ch '<' :: (t.text ++ ch '>' :: (inner ++ ch '<' :: (ch '/' :: (t.name.text ++ trail.text))))) ++ [ch '>'] := by
    simp only [elementText, List.cons_append, List.append_assoc]
  rw [hend]
  exact .of_last

theorem Content.closes (c : Content) : Closes c.text := by
  induction c with
  | done => exact .of_plain List.not_mem_nil
  | misc m rest ih => exact m.closes.append ih
  | empty t rest ih => exact (emptyText_closes t).append ih
  | element t inner trail rest _ ih => exact (elementText_closes t _ trail).append ih

/-- A content does not start with an end tag. -/
theorem Content.no_end (c : Content) (h : c.text ≠ []) (r : List Byte) : ¬ lit "</" <+: c.text ++ r := by
  have hlit : lit "</" = [ch '<', ch '/'] := by decide
  have second : ∀ {x : Byte} {l : List Byte}, x ≠ ch '/' → ¬ lit "</" <+: ch '<' :: x :: l := by
    intro x l hx hp
    rw [hlit, List.cons_prefix_cons, List.cons_prefix_cons] at hp
    exact hx hp.2.1.symm
  have tag : ∀ (t : Tag) (l : List Byte), ¬ lit "</" <+: ch '<' :: (t.text ++ l) := by
    intro t l
    refine second (x := t.name.first) fun he => ?_
    have := t.name.first_ok
    rw [he] at this
    revert this
    decide
  induction c with
  | done => exact absurd rfl h
  | misc m rest ih =>
    cases m with
    | chars w ok =>
      cases w with
      | nil => exact ih h
      | cons x w =>
        intro hp
        rw [hlit] at hp
        exact ok.1 (List.mem_cons.mpr (.inl (List.cons_prefix_cons.mp hp).1))
    | comment w ok => exact second (by decide)
    | cdata w ok => exact second (by decide)
    | pi w ok => exact second (by decide)
  | empty t rest _ =>
    simp only [Content.text, emptyText, List.cons_append, List.append_assoc]
    exact tag t _
  | element t inner trail rest _ _ =>
    simp only [Content.text, elementText, List.cons_append, List.append_assoc]
    exact tag t _

end Angelic.Xml
