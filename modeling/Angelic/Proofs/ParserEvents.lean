import Angelic.Model.Parser

namespace Angelic.Proofs
open CString Model

/-! The parser seen from the events of yxml: what it reads of an event, and what of that reaches the fields of the
root. -/

inductive XmlEvent where
  | elemStart (elem : Str)
  | attrStart (attr : Str)
  | attrVal (elem data : Str)
  deriving DecidableEq, Repr

/-- What the parser reads after a byte. -/
def eventOf (x : Yxml) : YxmlRet → Option XmlEvent
  | .ELEMSTART => some (.elemStart (x.name x.elem))
  | .ATTRSTART => some (.attrStart (x.name x.attr))
  | .ATTRVAL => some (.attrVal (x.name x.elem) x.data)
  | _ => none

def yxmlEvents : Yxml → List Byte → List XmlEvent
  | _, [] => []
  | x, c :: cs => (eventOf (yxml_parse x c).1 (yxml_parse x c).2).toList ++ yxmlEvents (yxml_parse x c).1 cs

/-- The locals and fields that come from the root. -/
structure RootState where
  depth : Nat
  current_attr : Str
  to_ : Str
  from_ : Str
  id : Str
  mechanism : Str
  type : StanzaType
  iq_type_buf : Str
  pres_type_buf : Str
  is_iq : Bool
  is_pres : Bool
  deriving DecidableEq, Repr

def rootOf (p : ParseState) : RootState :=
  ⟨p.depth, p.current_attr, p.s.to_, p.s.from_, p.s.id, p.s.mechanism, p.s.type, p.iq_type_buf, p.pres_type_buf,
    p.is_iq, p.is_pres⟩

namespace RootState

/-- The name of the root. -/
def start (r : RootState) (elem : Str) : RootState :=
  if elem = lit "message" then { r with type := .MESSAGE }
  else if elem = lit "iq" then { r with type := .UNKNOWN, is_iq := true }
  else if elem = lit "presence" then { r with type := .PRESENCE, is_pres := true }
  else r

/-- A piece of an attribute's value. -/
def value (r : RootState) (elem d : Str) : RootState :=
  if r.current_attr = lit "to" then { r with to_ := strncat 64 r.to_ d }
  else if r.current_attr = lit "from" then { r with from_ := strncat 64 r.from_ d }
  else if r.current_attr = lit "id" then { r with id := strncat 64 r.id d }
  else if r.current_attr = lit "type" ∧ r.is_iq then { r with iq_type_buf := strncat 16 r.iq_type_buf d }
  else if r.current_attr = lit "type" ∧ r.is_pres then { r with pres_type_buf := strncat 16 r.pres_type_buf d }
  else if r.current_attr = lit "mechanism" ∧ elem = lit "auth" then { r with mechanism := strncat 32 r.mechanism d }
  else r

def on (r : RootState) : XmlEvent → RootState
  | .elemStart elem =>
    if r.depth = 0 then { r with depth := 1 }.start elem else { r with depth := r.depth + 1 }
  | .attrStart attr => { r with current_attr := attr.take 63 }
  | .attrVal elem d => if r.depth = 1 then r.value elem d else r

def init : RootState := rootOf .init

/-- The type that the collected values give. -/
def finalType (r : RootState) : StanzaType :=
  let t := if r.is_iq then iqType r.iq_type_buf r.type else r.type
  if r.is_pres ∧ r.pres_type_buf ≠ [] then presType r.pres_type_buf t else t

end RootState

section View
variable (p : ParseState)

theorem rootOf_elemStart : rootOf (onElemStart p) = (rootOf p).on (.elemStart (p.x.name p.x.elem)) := by
  have hdepth : (rootOf p).depth = p.depth := rfl
  unfold onElemStart
  dsimp only
  by_cases hd : p.depth = 0
  · have h1 : p.depth + 1 = 1 := by omega
    rw [if_pos h1, RootState.on, hdepth, if_pos hd, RootState.start]
    by_cases hm : p.x.name p.x.elem = lit "message"
    · rw [if_pos hm, if_pos hm, rootOf, h1]
      rfl
    rw [if_neg hm, if_neg hm]
    by_cases hi : p.x.name p.x.elem = lit "iq"
    · rw [if_pos hi, if_pos hi, rootOf, h1]
      rfl
    rw [if_neg hi, if_neg hi]
    by_cases hp : p.x.name p.x.elem = lit "presence"
    · rw [if_pos hp, if_pos hp, rootOf, h1]
      rfl
    rw [if_neg hp, if_neg hp]
    split
    · rw [rootOf, h1]
      rfl
    · rw [rootOf, h1]
      rfl
  · have h1 : p.depth + 1 ≠ 1 := by omega
    rw [if_neg h1, RootState.on, hdepth, if_neg hd]
    repeat' first | rfl | split

theorem rootOf_attrVal : rootOf (onAttrVal p) = (rootOf p).on (.attrVal (p.x.name p.x.elem) p.x.data) := by
  have hdepth : (rootOf p).depth = p.depth := rfl
  unfold onAttrVal
  dsimp only
  by_cases hd : p.depth = 1
  · rw [if_pos hd, RootState.on, hdepth, if_pos hd, RootState.value]
    have hattr : (rootOf p).current_attr = p.current_attr := rfl
    have hiq : (rootOf p).is_iq = p.is_iq := rfl
    have hpres : (rootOf p).is_pres = p.is_pres := rfl
    rw [hattr, hiq, hpres]
    repeat' first | rfl | (rw [apply_ite rootOf]; congr 1)
  · rw [if_neg hd, RootState.on, hdepth, if_neg hd]
    repeat' first | rfl | split

theorem rootOf_parseByte (c : Byte) : rootOf (parseByte p c) =
      (eventOf (yxml_parse p.x c).1 (yxml_parse p.x c).2).toList.foldl RootState.on (rootOf p) := by
  unfold parseByte
  dsimp only
  cases hr : (yxml_parse p.x c).2 with
  | ELEMSTART => exact rootOf_elemStart { p with x := (yxml_parse p.x c).1 }
  | ATTRSTART => rfl
  | ATTRVAL => exact rootOf_attrVal { p with x := (yxml_parse p.x c).1 }
  | _ => rfl

end View

theorem parseByte_x (p : ParseState) (c : Byte) : (parseByte p c).x = (yxml_parse p.x c).1 := by
  unfold parseByte
  dsimp only
  split
  · unfold onElemStart
    dsimp only
    repeat' first | rfl | split
  · rfl
  · unfold onAttrVal
    dsimp only
    repeat' first | rfl | split
  · rfl

/-- The root's fields come from the events alone. -/
theorem rootOf_parse (xml : List Byte) (p : ParseState) :
    rootOf (xml.foldl parseByte p) = (yxmlEvents p.x xml).foldl RootState.on (rootOf p) := by
  induction xml generalizing p with
  | nil => rfl
  | cons c xml ih =>
    rw [List.foldl_cons, ih, yxmlEvents, List.foldl_append, rootOf_parseByte, parseByte_x]

/-! A value is reported only behind the name of an attribute. -/

/-- Inside an attribute, behind its name. -/
def inValue : YxmlState → Bool
  | .attr1 | .attr2 | .attr3 | .attr4 => true
  | _ => false

/-- What a step from one state to another may report: a value only inside an attribute, which is entered with its
name and not with an element. -/
def reports (s s' : YxmlState) : YxmlRet → Bool
  | .ATTRSTART => true
  | .ATTRVAL => inValue s && inValue s'
  | .ELEMSTART => !inValue s'
  | _ => !inValue s' || inValue s

structure ValueStep (s : YxmlState) (r : Yxml × YxmlRet) : Prop where
  next : inValue r.1.nextstate = false
  report : reports s r.1.state r.2 = true

/-- The functions that fill the stack and the data. -/
structure Inert (y : Yxml) (r : Yxml × YxmlRet) : Prop where
  state : r.1.state = y.state
  next : r.1.nextstate = y.nextstate
  ret : ∀ s s', reports s s' r.2 = reports s s' .OK

theorem ValueStep.of_inert {s : YxmlState} {y : Yxml} {r : Yxml × YxmlRet} (h : Inert y r)
    (hn : inValue y.nextstate = false) (hs : reports s y.state .OK = true) : ValueStep s r :=
  ⟨by rw [h.next, hn], by rw [h.ret, h.state, hs]⟩

section Inert
variable (y : Yxml) (c : Byte)

theorem inert_pushstackc : Inert y (y.pushstackc c) := by
  unfold Yxml.pushstackc
  split
  · exact ⟨rfl, rfl, fun _ _ => rfl⟩
  · exact ⟨rfl, rfl, fun _ _ => rfl⟩

/-- The three functions that begin a name differ in the pointer they set. -/
theorem inert_pushstack {k : Yxml × Nat → Yxml} (hk : ∀ x p, (k (x, p)).state = x.state ∧ (k (x, p)).nextstate = x.nextstate) :
    Inert y (match y.pushstack c with
      | none => (y, .ESTACK)
      | some (x, p) => (k (x, p), .OK)) := by
  unfold Yxml.pushstack
  split
  · exact ⟨rfl, rfl, fun _ _ => rfl⟩
  · rename_i h
    split at h
    · cases h
    · cases h
      exact ⟨(hk _ _).1, (hk _ _).2, fun _ _ => rfl⟩

theorem inert_elemstart : Inert y (y.elemstart c) := inert_pushstack y c (k := fun q => { q.1 with elem := q.2 }) fun _ _ => ⟨rfl, rfl⟩
theorem inert_attrstart : Inert y (y.attrstart c) := inert_pushstack y c (k := fun q => { q.1 with attr := q.2 }) fun _ _ => ⟨rfl, rfl⟩
theorem inert_pistart : Inert y (y.pistart c) := inert_pushstack y c (k := fun q => { q.1 with pi := q.2 }) fun _ _ => ⟨rfl, rfl⟩

theorem inert_ref : Inert y (y.ref c) := by
  unfold Yxml.ref
  split
  · exact ⟨rfl, rfl, fun _ _ => rfl⟩
  · exact ⟨rfl, rfl, fun _ _ => rfl⟩

theorem inert_elemclose : Inert y (y.elemclose c) := by
  unfold Yxml.elemclose
  split
  · exact ⟨rfl, rfl, fun _ _ => rfl⟩
  · exact ⟨rfl, rfl, fun _ _ => rfl⟩

theorem inert_pinameend : Inert y y.pinameend := by
  unfold Yxml.pinameend
  split
  · split
    · exact ⟨rfl, rfl, fun _ _ => rfl⟩
    · exact ⟨rfl, rfl, fun _ _ => rfl⟩
  · exact ⟨rfl, rfl, fun _ _ => rfl⟩

end Inert

section Ends
variable {s : YxmlState} {y : Yxml} (hn : inValue y.nextstate = false) (hs : inValue y.state = false)
include hn hs

theorem selfclose_value : ValueStep s y.selfclose := by
  unfold Yxml.selfclose
  dsimp only
  split
  · refine ⟨hn, ?_⟩
    change (!inValue y.state || inValue s) = true
    rw [hs]
    rfl
  · exact ⟨hn, rfl⟩

theorem elemcloseend_value : ValueStep s y.elemcloseend := by
  unfold Yxml.elemcloseend
  split
  · refine ⟨hn, ?_⟩
    change (!inValue y.state || inValue s) = true
    rw [hs]
    rfl
  · exact selfclose_value hn hs

end Ends

theorem refend_value {s : YxmlState} {y : Yxml} {ret : YxmlRet} (hn : inValue y.nextstate = false)
    (hs : reports s y.state ret = true) (hs' : reports s y.state .EREF = true) : ValueStep s (y.refend ret) := by
  unfold Yxml.refend
  dsimp only
  split
  · exact ⟨hn, hs'⟩
  · exact ⟨hn, hs⟩

theorem step_value (x : Yxml) (c : Byte) (h : inValue x.nextstate = false) : ValueStep x.state (x.step c) := by
  obtain ⟨elem, data, attr, pi, state, stack, stacksize, quote, next, ignore, string⟩ := x
  have hback : ∀ s, reports s next .OK = true := by
    intro s
    change (!inValue next || inValue s) = true
    rw [show inValue next = false from h]
    rfl
  unfold Yxml.step
  cases state <;> dsimp only
  all_goals repeat' split
  -- what a branch does to the state, from the most frequent on
  all_goals first
    | exact ⟨h, rfl⟩
    | exact ⟨rfl, rfl⟩
    | exact .of_inert (inert_pushstackc _ _) h rfl
    | exact .of_inert (inert_pinameend _) h rfl
    | exact ⟨h, hback _⟩
    | exact .of_inert (inert_elemstart _ _) h rfl
    | exact .of_inert (inert_ref _ _) h rfl
    | exact .of_inert (inert_elemclose _ _) h rfl
    | exact elemcloseend_value h rfl
    | exact .of_inert (inert_attrstart _ _) h rfl
    | exact .of_inert (inert_pistart _ _) h rfl
    | exact .of_inert (inert_pistart _ _) rfl rfl
    | exact selfclose_value h rfl
    | exact refend_value h rfl rfl
theorem parse_value (x : Yxml) (c : Byte) (h : inValue x.nextstate = false) : ValueStep x.state (yxml_parse x c) := by
  have hstay : ∀ s, (!inValue s || inValue s) = true := by
    intro s
    cases inValue s <;> rfl
  unfold yxml_parse
  split
  · exact ⟨h, hstay x.state⟩
  · split
    · exact ⟨h, hstay x.state⟩
    · exact step_value { x with ignore := if c = 0xd then 0xa else 0 } _ h

/-- Between an element's start and a value there is the start of an attribute; `inside` says whether one is open. -/
def Grouped : Bool → List XmlEvent → Prop
  | _, [] => True
  | _, .elemStart _ :: es => Grouped false es
  | _, .attrStart _ :: es => Grouped true es
  | inside, .attrVal _ _ :: es => inside = true ∧ Grouped true es

theorem Grouped.inside {b : Bool} {es : List XmlEvent} (h : Grouped b es) : Grouped true es := by
  cases es with
  | nil => exact trivial
  | cons e es =>
    cases e with
    | elemStart elem => exact h
    | attrStart attr => exact h
    | attrVal elem d => exact ⟨rfl, h.2⟩

theorem Grouped.mono {b b' : Bool} {es : List XmlEvent} (h : Grouped b es) (hb : b = true → b' = true) : Grouped b' es := by
  cases b with
  | true => exact hb rfl ▸ h
  | false =>
    cases b' with
    | false => exact h
    | true => exact h.inside

theorem yxml_grouped (cs : List Byte) (x : Yxml) (h : inValue x.nextstate = false) :
    Grouped (inValue x.state) (yxmlEvents x cs) := by
  induction cs generalizing x with
  | nil => exact trivial
  | cons c cs ih =>
    obtain ⟨hn, hr⟩ := parse_value x c h
    have hrest := ih (yxml_parse x c).1 hn
    rw [yxmlEvents]
    cases hret : (yxml_parse x c).2 with
    | ELEMSTART =>
      rw [hret, reports, Bool.not_eq_true'] at hr
      rw [hr] at hrest
      exact hrest
    | ATTRSTART => exact hrest.inside
    | ATTRVAL =>
      rw [hret, reports, Bool.and_eq_true] at hr
      exact ⟨hr.1, hrest.inside⟩
    | _ =>
      refine hrest.mono fun hv => ?_
      rw [hret] at hr
      change (!inValue (yxml_parse x c).1.state || inValue x.state) = true at hr
      rw [hv] at hr
      exact hr

end Angelic.Proofs
