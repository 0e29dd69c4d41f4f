import Angelic.Proofs.FormReading
import Angelic.Proofs.RoomTexts
import Angelic.Proofs.TextSizes

namespace Angelic.Proofs
open CString Model

variable {label name : Str}

/-! The handler's own form: texts in angle brackets, with what is filled in before each of them. -/

def filled : List (Str × Str) → Str → Str
  | [], last => last
  | (w, mid) :: l, last => w ++ ch '<' :: (mid ++ ch '>' :: filled l last)

theorem filled_contains {l : List (Str × Str)} {last : Str} {x : Str × Str} (h : x ∈ l) : x.1 <:+: filled l last := by
  induction l with
  | nil => exact absurd h List.not_mem_nil
  | cons y l ih =>
    rcases List.mem_cons.mp h with rfl | h
    · exact (List.prefix_append _ _).isInfix
    · exact (ih h).trans ⟨y.1 ++ ch '<' :: (y.2 ++ [ch '>']), [], by simp [filled]⟩

section Search
variable {n : Str} (hn : 0 ∉ n) (hne : n ≠ []) (hlt : ch '<' ∉ n) (hgt : ch '>' ∉ n)
include hn hne hlt hgt

theorem readAt_hop {w mid rest : Str} (h0 : 0 ∉ w ++ ch '<' :: (mid ++ ch '>' :: rest)) (hw : ¬ n <:+: w)
    (hm : ¬ n <:+: mid) : readAt (w ++ ch '<' :: (mid ++ ch '>' :: rest)) n = readAt rest n := by
  have h0' : 0 ∉ mid ++ ch '>' :: rest := fun h => h0 (List.mem_append_right w (List.mem_cons_of_mem _ h))
  rw [readAt, strstr_over hn hne hlt h0 hw, strstr_over hn hne hgt h0' hm, readAt]

omit hgt in
theorem readAt_land {w mid rest : Str} (h0 : 0 ∉ w ++ ch '<' :: (mid ++ ch '>' :: rest)) (hw : ¬ n <:+: w)
    (hm : (strstr (mid ++ [ch '>']) n).bind (strstr · (lit "<value>")) = some (lit "<value>")) :
    readAt (w ++ ch '<' :: (mid ++ ch '>' :: rest)) n = some rest := by
  obtain ⟨t, ht, hv⟩ := Option.bind_eq_some_iff.mp hm
  have h0' : 0 ∉ mid ++ [ch '>'] ++ rest := fun h => by
    rw [List.append_assoc] at h
    exact h0 (List.mem_append_right w (List.mem_cons_of_mem _ h))
  have htail : 0 ∉ t ++ rest := fun h =>
    h0' ((List.mem_append.mp h).elim (fun h => List.mem_append_left _ ((strstr_suffix ht).subset h))
      (List.mem_append_right _))
  have hmid : mid ++ ch '>' :: rest = mid ++ [ch '>'] ++ rest := by rw [List.append_assoc]; rfl
  rw [readAt, strstr_over hn hne hlt h0 hw, hmid, strstr_append hn hne h0' ht, Option.bind_some,
    strstr_append (by decide) (by decide) htail hv, Option.map_some]
  exact congrArg some (List.drop_left' rfl)

/-- The value read is the one behind the text that names it. -/
theorem readAt_filled (l₁ l₂ : List (Str × Str)) {w mid last : Str}
    (h0 : 0 ∉ filled (l₁ ++ (w, mid) :: l₂) last) (hl : ∀ x ∈ l₁, ¬ n <:+: x.1 ∧ ¬ n <:+: x.2) (hw : ¬ n <:+: w)
    (hm : (strstr (mid ++ [ch '>']) n).bind (strstr · (lit "<value>")) = some (lit "<value>")) :
    readAt (filled (l₁ ++ (w, mid) :: l₂) last) n = some (filled l₂ last) := by
  induction l₁ with
  | nil => exact readAt_land hn hne hlt h0 hw hm
  | cons x l₁ ih =>
    obtain ⟨hx, hl⟩ := List.forall_mem_cons.mp hl
    have h0' : 0 ∉ filled (l₁ ++ (w, mid) :: l₂) last := fun h =>
      h0 (List.mem_append_right _ (List.mem_cons_of_mem _ (List.mem_append_right _ (List.mem_cons_of_mem _ h))))
    exact (readAt_hop hn hne hlt hgt h0 hx.1 hx.2).trans (ih h0' hl)

end Search

/-- The end of a field, and the next one up to its value. -/
def fieldText (kind var label : String) : Str :=
  cat ["/value></field><field type='", kind, "' var='muc#roomconfig_", var, "' label='", label, "'><value"]

/-- The texts of the form before its arguments, without the angle brackets around them. -/
def mid : Nat → Str
  | 3 => cat ["query xmlns='http://jabber.org/protocol/muc#owner'><x xmlns='jabber:x:data' type='form'>",
      "<field type='hidden' var='FORM_TYPE'><value>http://jabber.org/protocol/muc#roomconfig<"] ++
      fieldText "text-single" "roomname" "room name"
  | 4 => fieldText "text-single" "roomdesc" "short description of room" ++ lit "><" ++
      fieldText "boolean" "persistentroom" "make room persistent"
  | 5 => fieldText "boolean" "publicroom" "make room publicly listed"
  | 6 => fieldText "boolean" "moderatedroom" "enable moderation"
  | 7 => fieldText "boolean" "membersonly" "make room members-only"
  | 8 => fieldText "boolean" "allowinvites" "allow occupants to invite others"
  | _ => fieldText "list-single" "whois" "who can see occupant real jids"

def formEnd : Str :=
  cat ["</value><option label='moderators only'><value>moderators</value></option>",
    "<option label='anyone'><value>anyone</value></option></field></x></query>"]

def number (v : Int32) : Str := Arg.text (.d v.toInt)

/-- The element that the answer has in it. -/
def formText (label : Str) (r : Room) : Str :=
  filled [([], mid 3), (label, mid 4), (number r.persistent, mid 5), (lit "1", mid 6), (number r.moderated, mid 7),
    (number r.members_only, mid 8), (lit "1", mid 9)] (lit (if r.semi_anon ≠ 0 then "moderators" else "anyone") ++ formEnd)

theorem pieces_form : pieces fmtRoomForm =
      [lit "<iq type='result' id='", lit "' to='", lit "' from='", lit "'>" ++ ch '<' :: (mid 3 ++ [ch '>']),
        ch '<' :: (mid 4 ++ [ch '>']), ch '<' :: (mid 5 ++ [ch '>']), ch '<' :: (mid 6 ++ [ch '>']),
        ch '<' :: (mid 7 ++ [ch '>']), ch '<' :: (mid 8 ++ [ch '>']), ch '<' :: (mid 9 ++ [ch '>']),
        formEnd ++ lit "</iq>"] ∧ literal fmtRoomForm = 1245 := by decide +kernel

/-- The texts before the one that has the name of a setting, and that one. -/
def Setting.place : Setting → List Nat × Nat
  | .persistentroom => ([3], 4)
  | .moderatedroom => ([3, 4, 5], 6)
  | .membersonly => ([3, 4, 5, 6], 7)
  | .whois => ([3, 4, 5, 6, 7, 8], 9)

/-- What the searches find in the texts. -/
theorem form_words :
    (∀ i ∈ [3, 4, 5, 6, 7, 8, 9], 0 ∉ mid i ∧ ¬ ch '<' :: lit "destroy" <:+: ch '<' :: mid i) ∧
    (∀ b : Bool, 0 ∉ lit (if b then "moderators" else "anyone") ++ formEnd ∧
      strstr (lit (if b then "moderators" else "anyone") ++ formEnd) (ch '<' :: lit "destroy") = none) ∧
    (∀ k ∈ [Setting.persistentroom, .moderatedroom, .membersonly, .whois],
      (∀ i ∈ k.place.1, ¬ lit k.var <:+: mid i) ∧
      (strstr (mid k.place.2 ++ [ch '>']) (lit k.var)).bind (strstr · (lit "<value>")) = some (lit "<value>")) ∧
    ch '<' :: formEnd.tail = formEnd ∧
    (strstr (ch '<' :: (mid 4 ++ [ch '>'])) (ch '<' :: lit "value>")).map (·.take 8) = some (lit "<value><") := by
  decide +kernel

theorem place_words (k : Setting) : (∀ i ∈ k.place.1, ¬ lit k.var <:+: mid i) ∧
    (strstr (mid k.place.2 ++ [ch '>']) (lit k.var)).bind (strstr · (lit "<value>")) = some (lit "<value>") :=
  form_words.2.2.1 k (by cases k <;> decide)

theorem form_full {get : Stanza} (hid : 0 ∉ get.id) (hto : 0 ∉ get.to_) {full_jid : Str} (hj : 0 ∉ full_jid) (name : Str)
    (r : Room) : (Texts.form get full_jid name r).full =
      (lit "<iq type='result' id='" ++ get.id ++ lit "' to='" ++ full_jid ++ lit "' from='" ++ get.to_ ++ lit "'>") ++
        formText (cstr (if name ≠ [] then name else lit "unnamed room")) r ++ lit "</iq>" := by
  have hone : Arg.text (.d 1) = lit "1" := by decide
  have hs : ∀ v, Arg.text (.s v) = cstr v := fun _ => rfl
  have hwho : ∀ b : Bool, cstr (lit (if b then "moderators" else "anyone")) = lit (if b then "moderators" else "anyone") := by
    decide
  have hwho' : cstr (lit (if r.semi_anon ≠ 0 then "moderators" else "anyone")) =
      lit (if r.semi_anon ≠ 0 then "moderators" else "anyone") := by
    simpa using hwho (decide (r.semi_anon ≠ 0))
  rw [Text.full, Texts.form, pieces_form.1]
  simp only [weave, formText, filled, number, hone, hs, cstr_of_clean hid, cstr_of_clean hto, cstr_of_clean hj, hwho',
    List.append_assoc, List.cons_append, List.nil_append]

theorem number_clean (v : Int32) : 0 ∉ number v := Arg.text_clean _

/-- No letter is in a number, so no word is. -/
theorem number_plain {b : Byte} (hb : 57 < b.toNat) {n : Str} (hn : b ∈ n) (v : Int32) : ¬ n <:+: number v := by
  intro h
  have hm : b ∈ number v := h.subset hn
  have hd : ∀ n, b ∉ decimal n := fun n hm => absurd (mem_decimal hm).2 (Nat.not_le.mpr hb)
  unfold number Arg.text at hm
  dsimp only at hm
  split at hm
  · rcases List.mem_cons.mp hm with h | h
    · rw [h] at hb
      exact absurd hb (by decide)
    · exact hd _ h
  · exact hd _ hm

theorem formText_clean (hl : 0 ∉ label) (r : Room) : 0 ∉ formText label r := by
  have hmid : ∀ i ∈ [3, 4, 5, 6, 7, 8, 9], 0 ∉ mid i := fun i hi => (form_words.1 i hi).1
  have hend' : 0 ∉ lit (if r.semi_anon ≠ 0 then "moderators" else "anyone") ++ formEnd := by
    simpa using (form_words.2.1 (decide (r.semi_anon ≠ 0))).1
  have hfilled : ∀ {l last}, (∀ x ∈ l, 0 ∉ x.1 ∧ 0 ∉ x.2) → 0 ∉ last → 0 ∉ filled l last := by
    intro l last h hlast
    induction l with
    | nil => exact hlast
    | cons x l ih =>
      obtain ⟨hx, h⟩ := List.forall_mem_cons.mp h
      simp only [filled, List.mem_append, List.mem_cons, not_or]
      exact ⟨hx.1, by decide, hx.2, by decide, ih h⟩
  refine hfilled ?_ hend'
  simp only [List.forall_mem_cons, List.not_mem_nil, false_imp_iff, implies_true, and_true]
  exact ⟨⟨not_false, hmid 3 (by decide)⟩, ⟨hl, hmid 4 (by decide)⟩, ⟨number_clean _, hmid 5 (by decide)⟩,
    ⟨by decide, hmid 6 (by decide)⟩, ⟨number_clean _, hmid 7 (by decide)⟩, ⟨number_clean _, hmid 8 (by decide)⟩,
    by decide, hmid 9 (by decide)⟩

/-- What the form has for a setting. -/
def Setting.shown : Setting → Room → Str
  | .whois, r => lit (if r.semi_anon ≠ 0 then "moderators" else "anyone")
  | k, r => number (k.flag r)

/-- Where the label does not have the name of a setting, the handler finds the value shown for it. -/
theorem readAt_shown (k : Setting) (hl : 0 ∉ label) (hk : ¬ lit k.var <:+: label) (r : Room) :
    ∃ z, readAt (formText label r) (lit k.var) = some (k.shown r ++ ch '<' :: z) := by
  obtain ⟨hv, hne, hlt, hgt⟩ := var_clean k
  have h0 := formText_clean hl r
  have hnum := number_plain (b := ch 'm') (by decide) (show ch 'm' ∈ lit k.var by cases k <;> decide)
  have hnil : ¬ lit k.var <:+: [] := fun h => hne (List.eq_nil_of_infix_nil h)
  have hone : ¬ lit k.var <:+: lit "1" := by cases k <;> decide
  obtain ⟨hm, hland⟩ := place_words k
  cases k with
  | persistentroom =>
    refine ⟨_, readAt_filled hv hne hlt hgt [([], mid 3)] _ h0 ?_ hk hland⟩
    simp only [Setting.place, List.forall_mem_cons, List.not_mem_nil, false_imp_iff, implies_true, and_true] at hm ⊢
    exact ⟨hnil, hm⟩
  | moderatedroom =>
    refine ⟨_, readAt_filled hv hne hlt hgt [([], mid 3), (label, mid 4), (number r.persistent, mid 5)] _ h0 ?_ hone
      hland⟩
    simp only [Setting.place, List.forall_mem_cons, List.not_mem_nil, false_imp_iff, implies_true, and_true] at hm ⊢
    exact ⟨⟨hnil, hm.1⟩, ⟨hk, hm.2.1⟩, hnum _, hm.2.2⟩
  | membersonly =>
    refine ⟨_, readAt_filled hv hne hlt hgt
      [([], mid 3), (label, mid 4), (number r.persistent, mid 5), (lit "1", mid 6)] _ h0 ?_ (hnum _) hland⟩
    simp only [Setting.place, List.forall_mem_cons, List.not_mem_nil, false_imp_iff, implies_true, and_true] at hm ⊢
    exact ⟨⟨hnil, hm.1⟩, ⟨hk, hm.2.1⟩, ⟨hnum _, hm.2.2.1⟩, hone, hm.2.2.2⟩
  | whois =>
    refine ⟨formEnd.tail, ?_⟩
    rw [form_words.2.2.2.1]
    refine readAt_filled hv hne hlt hgt
      [([], mid 3), (label, mid 4), (number r.persistent, mid 5), (lit "1", mid 6), (number r.moderated, mid 7),
        (number r.members_only, mid 8)] [] h0 ?_ hone hland
    simp only [Setting.place, List.forall_mem_cons, List.not_mem_nil, false_imp_iff, implies_true, and_true] at hm ⊢
    exact ⟨⟨hnil, hm.1⟩, ⟨hk, hm.2.1⟩, ⟨hnum _, hm.2.2.1⟩, ⟨hone, hm.2.2.2.1⟩, ⟨hnum _, hm.2.2.2.2.1⟩, hnum _,
      hm.2.2.2.2.2⟩

/-- A label with the name of a setting hides the field: what is read is no value of it. -/
theorem readAt_label (k : Setting) {rest : Str} (hlen : label.length ≤ 31)
    (h0 : 0 ∉ label ++ ch '<' :: (mid 4 ++ ch '>' :: rest)) (hk : lit k.var <:+: label) :
    ∃ after, readAt (label ++ ch '<' :: (mid 4 ++ ch '>' :: rest)) (lit k.var) = some after ∧ k.reads after = 0 := by
  obtain ⟨hv, hne, hlt, -⟩ := var_clean k
  have hval : lit "<value>" = ch '<' :: lit "value>" ∧ 0 ∉ ch '<' :: lit "value>" ∧ ch '<' ∉ lit "value>" := by decide
  have hl : 0 ∉ label := fun h => h0 (List.mem_append_left _ h)
  obtain ⟨t, ht⟩ := Option.isSome_iff_exists.mp ((strstr_isSome hv hne hl).mpr hk)
  obtain ⟨u, rfl, -⟩ := (strstr_eq_some_iff hv hne hl).mp ht
  have hu : (lit k.var).length + u.length ≤ 31 := by
    rw [← List.length_append]
    exact (strstr_suffix ht).length_le.trans hlen
  have h0' : 0 ∉ lit k.var ++ u ++ ch '<' :: (mid 4 ++ ch '>' :: rest) := fun h =>
    h0 ((List.mem_append.mp h).elim (fun h => List.mem_append_left _ ((strstr_suffix ht).subset h))
      (List.mem_append_right _))
  rw [readAt, strstr_append hv hne h0 ht, Option.bind_some, hval.1]
  by_cases hin : ch '<' :: lit "value>" <:+: lit k.var ++ u
  · -- a value behind the name, in the label itself: only the shortest name leaves room for it
    have h0u : 0 ∉ lit k.var ++ u := fun h => h0' (List.mem_append_left _ h)
    obtain ⟨v, hvt⟩ := Option.isSome_iff_exists.mp ((strstr_isSome hval.2.1 (by decide) h0u).mpr hin)
    have hbehind := strstr_behind hval.2.1 h0u hlt
    obtain ⟨u', rfl, -⟩ := (strstr_eq_some_iff hval.2.1 (by decide) h0u).mp hvt
    have hu' : 7 + u'.length ≤ u.length := by
      have := (strstr_suffix (hbehind.symm.trans hvt)).length_le
      rw [List.length_append] at this
      exact this
    refine ⟨u' ++ ch '<' :: (mid 4 ++ ch '>' :: rest), ?_, ?_⟩
    · rw [strstr_append hval.2.1 (by decide) h0' hvt, Option.map_some]
      rfl
    · have hlong : k = .whois ∨ 26 ≤ (lit k.var).length := by cases k <;> decide
      rcases hlong with rfl | hlong
      · have hshort : (lit Setting.whois.var).length = 20 := by decide
        have hmem : ch '<' ∈ (u' ++ ch '<' :: (mid 4 ++ ch '>' :: rest)).take 10 := by
          obtain ⟨m, hm⟩ : ∃ m, 10 - u'.length = m + 1 := ⟨9 - u'.length, by omega⟩
          rw [List.take_append, hm, List.take_succ_cons]
          exact List.mem_append_right _ List.mem_cons_self
        refine if_neg fun h => ?_
        rw [h] at hmem
        exact absurd hmem (by decide)
      · omega
  · -- the next value is the one of the description, which is empty
    obtain ⟨x, hx, hx8⟩ := Option.map_eq_some_iff.mp form_words.2.2.2.2
    have hsplit : ch '<' :: (mid 4 ++ ch '>' :: rest) = ch '<' :: (mid 4 ++ [ch '>']) ++ rest := by
      rw [List.cons_append, List.append_assoc]
      rfl
    have h0r : 0 ∉ ch '<' :: (mid 4 ++ [ch '>']) ++ rest := by
      rw [← hsplit]
      exact fun h => h0' (List.mem_append_right _ h)
    refine ⟨ch '<' :: (x.drop 8 ++ rest), ?_, by cases k <;> rfl⟩
    rw [strstr_at hval.2.1 hval.2.2 h0' hin, hsplit, strstr_append hval.2.1 (by decide) h0r hx, Option.map_some]
    conv_lhs => rw [← List.take_append_drop 8 x, hx8]
    rfl

/-- Read back, a flag is what it was if it is one and the label does not have its name. -/
theorem own_flag_iff (k : Setting) (hl : 0 ∉ label) (hlen : label.length ≤ 31) (r : Room) :
    k.flag (r.configure (formText label r)) = k.flag r ↔ k.flag r = 0 ∨ k.flag r = 1 ∧ ¬ lit k.var <:+: label := by
  have h0 := formText_clean hl r
  rw [configure_flag]
  by_cases hk : lit k.var <:+: label
  · obtain ⟨hv, hne, hlt, hgt⟩ := var_clean k
    have hnil : ¬ lit k.var <:+: [] := fun h => hne (List.eq_nil_of_infix_nil h)
    have hm : ¬ lit k.var <:+: mid 3 := (place_words k).1 3 (by cases k <;> decide)
    have hhop := readAt_hop hv hne hlt hgt h0 hnil hm
    have h0' : (0 : Byte) ∉ _ := fun h => h0 (List.mem_append_right [] (List.mem_cons_of_mem _ (List.mem_append_right _
      (List.mem_cons_of_mem _ h))))
    obtain ⟨after, ha, hr⟩ := readAt_label k hlen h0' hk
    rw [show readAt (formText label r) (lit k.var) = some after from hhop.trans ha]
    change k.reads after = _ ↔ _
    rw [hr]
    exact ⟨fun h => .inl h.symm, fun h => h.elim Eq.symm fun h => absurd hk h.2⟩
  · obtain ⟨z, hz⟩ := readAt_shown k hl hk r
    rw [hz]
    change k.reads (k.shown r ++ ch '<' :: z) = _ ↔ _
    have hbit : ∀ t, k.reads t = 0 ∨ k.reads t = 1 := fun t => by
      cases k <;> simp only [Setting.reads] <;> split <;> simp
    constructor
    · intro h
      rcases hbit (k.shown r ++ ch '<' :: z) with hb | hb
      · exact .inl (h.symm.trans hb)
      · exact .inr ⟨h.symm.trans hb, hk⟩
    · have hzero : number 0 = lit "0" := by decide
      have hone : number 1 = lit "1" := by decide
      rintro (h | ⟨h, -⟩)
      · cases k with
        | persistentroom | moderatedroom | membersonly =>
          change Setting.reads _ (number (Setting.flag _ r) ++ ch '<' :: z) = _
          rw [h, hzero]
          rfl
        | whois =>
          rw [Setting.shown, if_neg fun hn => hn h, h]
          rfl
      · cases k with
        | persistentroom | moderatedroom | membersonly =>
          change Setting.reads _ (number (Setting.flag _ r) ++ ch '<' :: z) = _
          rw [h, hone]
          rfl
        | whois =>
          rw [Setting.shown, if_pos (by rw [show r.semi_anon = 1 from h]; decide), h]
          rfl

/-- The form asks for the end of the room only if the label does. -/
theorem destroy_iff (hl : 0 ∉ label) (r : Room) :
    (strstr (formText label r) (lit "<destroy")).isSome ↔ lit "<destroy" <:+: label := by
  have hn : 0 ∉ ch '<' :: lit "destroy" ∧ ch '<' ∉ lit "destroy" ∧ ch '>' ∉ ch '<' :: lit "destroy" := by decide
  have hop : ∀ {l : List (Str × Str)} {last : Str}, 0 ∉ filled l last →
      (∀ x ∈ l, ¬ ch '<' :: lit "destroy" <:+: x.1 ∧ ¬ ch '<' :: lit "destroy" <:+: ch '<' :: x.2) →
      strstr (filled l last) (ch '<' :: lit "destroy") = strstr last (ch '<' :: lit "destroy") := by
    intro l last h0 hx
    induction l with
    | nil => rfl
    | cons x l ih =>
      obtain ⟨hx, hl⟩ := List.forall_mem_cons.mp hx
      have h0' : (0 : Byte) ∉ ch '<' :: x.2 ++ ch '>' :: filled l last := fun h => h0 (List.mem_append_right x.1 h)
      refine (strstr_at hn.1 hn.2.1 h0 hx.1).trans ?_
      refine (strstr_over hn.1 (by decide) hn.2.2 h0' hx.2).trans ?_
      exact ih (fun h => h0' (List.mem_append_right _ (List.mem_cons_of_mem _ h))) hl
  have h0 := formText_clean hl r
  constructor
  · intro h
    by_contra hd
    have hnum := number_plain (b := ch 'd') (by decide) (show ch 'd' ∈ ch '<' :: lit "destroy" by decide)
    have hmid : ∀ i ∈ [3, 4, 5, 6, 7, 8, 9], ¬ ch '<' :: lit "destroy" <:+: ch '<' :: mid i := fun i hi =>
      (form_words.1 i hi).2
    have hnone : strstr (formText label r) (ch '<' :: lit "destroy") = none := by
      refine (hop h0 ?_).trans ?_
      · simp only [List.forall_mem_cons, List.not_mem_nil, false_imp_iff, implies_true, and_true] at hmid ⊢
        exact ⟨⟨by decide, hmid.1⟩, ⟨hd, hmid.2.1⟩, ⟨hnum _, hmid.2.2.1⟩, ⟨by decide, hmid.2.2.2.1⟩,
          ⟨hnum _, hmid.2.2.2.2.1⟩, ⟨hnum _, hmid.2.2.2.2.2.1⟩, by decide, hmid.2.2.2.2.2.2⟩
      · simpa using (form_words.2.1 (decide (r.semi_anon ≠ 0))).2
    have hsome : (strstr (formText label r) (ch '<' :: lit "destroy")).isSome := h
    rw [hnone] at hsome
    cases hsome
  · intro h
    exact (strstr_isSome (by decide) (by decide) h0).mpr
      (h.trans (filled_contains (List.mem_cons_of_mem _ (List.mem_cons_self (a := (label, mid 4))))))

theorem configure_same_iff (r : Room) (p : Str) :
    r.configure p = { r with locked := 0 } ↔ ∀ k : Setting, k.flag (r.configure p) = k.flag r := by
  constructor
  · intro h k
    rw [h]
    cases k <;> rfl
  · intro h
    have h1 := h .persistentroom
    have h2 := h .moderatedroom
    have h3 := h .membersonly
    have h4 := h .whois
    simp only [Setting.flag, Room.configure] at h1 h2 h3 h4
    rw [Room.configure, h1, h2, h3, h4]

/-- The name that the form shows. -/
def labelOf (name : Str) : Str := if name ≠ [] then name else lit "unnamed room"

theorem infix_label {n : Str} (hne : n ≠ []) (hn : ¬ n <:+: lit "unnamed room") :
    n <:+: labelOf name ↔ n <:+: name := by
  unfold labelOf
  split
  · exact Iff.rfl
  · rename_i h
    rw [not_not.mp h]
    exact iff_of_false hn fun h => hne (List.eq_nil_of_infix_nil h)

theorem roomName_holds {to_ : Str} (h : 0 ∉ to_) : Holds 32 (roomName to_) := by
  unfold roomName
  split
  · exact localPart_holds h
  · exact ⟨by decide, List.not_mem_nil⟩

theorem labelOf_holds (h : Holds 32 name) : Holds 32 (labelOf name) := by
  unfold labelOf
  split
  · exact h
  · exact ⟨by decide, by decide⟩

/-- The answer to a request for the form has all of it. -/
theorem form_fits {get : Stanza} (hid : Holds 64 get.id) (hto : Holds 64 get.to_) {full_jid : Str}
    (hj : Holds 64 full_jid) (hn : Holds 32 name) (r : Room) : (Texts.form get full_jid name r).Fits := by
  have hnum : ∀ v : Int32, (Arg.text (.d v.toInt)).length ≤ 11 := fun v => by
    have hv : v.toInt.natAbs < 10 ^ 10 := by
      have := v.toInt_lt
      have := v.le_toInt
      omega
    have hd := decimal_length_le (by decide) hv
    rw [Arg.text]
    split
    · rw [List.length_cons]
      omega
    · omega
  have hwho : ∀ b : Bool, (Arg.text (.s (lit (if b then "moderators" else "anyone")))).length ≤ 10 := by decide
  have hwho' : (Arg.text (.s (lit (if r.semi_anon ≠ 0 then "moderators" else "anyone")))).length ≤ 10 := by
    simpa using hwho (decide (r.semi_anon ≠ 0))
  have h1 := text_s_length hid.1
  have h2 := text_s_length hto.1
  have h3 := text_s_length hj.1
  have h4 := text_s_length (labelOf_holds hn).1
  have h5 := hnum r.persistent
  have h6 := hnum r.moderated
  have h7 := hnum r.members_only
  have hone : (Arg.text (.d 1)).length = 1 := by decide
  refine Text.fits_of_le ?_
  unfold labelOf at h4
  simp only [Texts.form, pieces_form.2, List.map_cons, List.map_nil, List.sum_cons, List.sum_nil, hone]
  omega

theorem owner_rooms (me : Slot) (st : Stanza) (s : Server) :
    (handle_muc_owner me st s).2.stores.rooms = RoomTable.owner s.stores.rooms st :=
  (stirs_handle_muc_owner s ⟨rfl, rfl, rfl⟩ : _ ∧ At me _ (s.client_registry me) _).2.rooms

/-- Submitted, the form that the handler shows leaves a room as it is exactly if its flags are flags, and none that is set
has its name in the name of the room. -/
theorem resubmitted_iff {T : RoomTable} {i : Fin MAX_ROOMS} {set : Stanza} (hi : T.find (roomName set.to_) = some i)
    (hto : 0 ∉ set.to_) (hset : set.type = .IQ_SET) (hp : set.payload = formText (labelOf (roomName set.to_)) (T i)) :
    T.owner set i = { T i with locked := 0 } ↔
      ¬ lit "<destroy" <:+: roomName set.to_ ∧ ∀ k : Setting, k.flag (T i) = 0 ∨
        k.flag (T i) = 1 ∧ ¬ lit k.var <:+: roomName set.to_ := by
  have hl := labelOf_holds (roomName_holds hto)
  have hdestroy : RoomTable.wantDestroy set ↔ lit "<destroy" <:+: roomName set.to_ := by
    rw [RoomTable.wantDestroy, hp, destroy_iff hl.2, infix_label (by decide) (by decide)]
    exact and_iff_right hset
  by_cases hd : lit "<destroy" <:+: roomName set.to_
  · refine iff_of_false (fun h => ?_) fun h => h.1 hd
    rw [RoomTable.owner, if_pos (hdestroy.mpr hd), RoomTable.owned, hi] at h
    dsimp only at h
    rw [T.mod_self] at h
    exact (RoomTable.find_some hi).1 (congrArg Room.active h).symm
  · have hr : T.owner set i = (T i).configure set.payload := by
      rw [RoomTable.owner, if_neg fun h => hd (hdestroy.mp h), if_pos (.inl hset), RoomTable.owned, hi]
      exact RoomTable.mod_self ..
    have hvar : ∀ k : Setting, lit k.var ≠ [] ∧ ¬ lit k.var <:+: lit "unnamed room" := fun k => by cases k <;> decide
    rw [hr, configure_same_iff, hp, and_iff_right hd]
    refine forall_congr' fun k => ?_
    rw [own_flag_iff k hl.2 (Nat.le_of_lt_succ hl.1), infix_label (hvar k).1 (hvar k).2]

/-- A form sets the flags as it gives them exactly if each setting is found where its field is, or reads the same where
it is found. The form that the handler itself answers with leaves the room as it is under the condition of
`resubmitted_iff`. -/
theorem room_form_iff (s : Server) (me : Slot) (i : Fin MAX_ROOMS) :
    (∀ (st : Stanza) (c : Xml.Content), st.payload = c.text → RoomTable.wantConfigure st → ¬ RoomTable.wantDestroy st →
      RoomTable.find s.stores.rooms (roomName st.to_) = some i →
      (FormSets c (s.stores.rooms i) ((handle_muc_owner me st s).2.stores.rooms i) ↔
        ∀ k b, Setting.wanted k c (k.flag (s.stores.rooms i)) = some b → k.Taken c (s.stores.rooms i) b)) ∧
    ∀ (get set : Stanza) (form : Str), ¬ RoomTable.wantConfigure get → Holds 64 get.id → Holds 64 get.to_ →
      Holds 64 (s.client_registry me).full_jid → RoomTable.find s.stores.rooms (roomName get.to_) = some i →
      sends (handle_muc_owner me get s).2 = sends s ++ [(me,
        (lit "<iq type='result' id='" ++ get.id ++ lit "' to='" ++ (s.client_registry me).full_jid ++ lit "' from='" ++
          get.to_ ++ lit "'>") ++ form ++ lit "</iq>")] →
      set.type = .IQ_SET → set.to_ = get.to_ → set.payload = form →
      ((handle_muc_owner me set (handle_muc_owner me get s).2).2.stores.rooms i =
          { s.stores.rooms i with locked := 0 } ↔
        ¬ lit "<destroy" <:+: roomName get.to_ ∧ ∀ k : Setting, k.flag (s.stores.rooms i) = 0 ∨
          k.flag (s.stores.rooms i) = 1 ∧ ¬ lit k.var <:+: roomName get.to_) := by
  refine ⟨fun st c hp hc hd hi => ?_, fun get set form hget hid hto hj hi hsent hset hto' hform => ?_⟩
  · have hr : (handle_muc_owner me st s).2.stores.rooms i = (s.stores.rooms i).configure c.text := by
      rw [owner_rooms, RoomTable.owner, if_neg hd, if_pos hc, RoomTable.owned, hi, ← hp]
      exact RoomTable.mod_self ..
    rw [hr]
    exact forall_congr' fun k => forall_congr' fun b => forall_congr' fun hb => configured_iff c _ k hb
  · have hdestroy : ¬ RoomTable.wantDestroy get := fun h => hget (.inl h.1)
    have hroom : Texts.formRoom s.stores (roomName get.to_) = s.stores.rooms i := by
      unfold Texts.formRoom
      rw [show findRoom s.stores (roomName get.to_) = some i from hi]
    have htext := (sends_handle_muc_owner me get s (Now.refl (G := fun _ => True) trivial)).1
    rw [Texts.owner, if_neg hdestroy, if_neg hget, hroom, hsent] at htext
    have hstr := (Prod.mk.inj (List.cons.inj (List.append_cancel_left htext)).1).2
    have hfits := form_fits hid hto hj (roomName_holds hto.2) (s.stores.rooms i)
    have hl := labelOf_holds (roomName_holds hto.2)
    have hfull := form_full hid.2 hto.2 hj.2 (roomName get.to_) (s.stores.rooms i)
    rw [show (if roomName get.to_ ≠ [] then roomName get.to_ else lit "unnamed room") = labelOf (roomName get.to_) from rfl,
      cstr_of_clean hl.2] at hfull
    have hown : form = formText (labelOf (roomName get.to_)) (s.stores.rooms i) :=
      List.append_cancel_left (List.append_cancel_right (hstr.trans (hfits.str.trans hfull)))
    rw [owner_rooms, owner_rooms, show RoomTable.owner s.stores.rooms get = s.stores.rooms by
      rw [RoomTable.owner, if_neg hdestroy, if_neg hget]]
    rw [← hto'] at hi hto hown ⊢
    exact resubmitted_iff hi hto.2 hset (hform.trans hown)

/-! Forms for the hall. -/

def FIELD : Xml.Name := ⟨ch 'f', lit "ield", by decide, by decide⟩
def VAR : Xml.Name := ⟨ch 'v', lit "ar", by decide, by decide⟩
def VALUE : Xml.Name := ⟨ch 'v', lit "alue", by decide, by decide⟩

def fieldElement (k : Setting) (inner rest : Xml.Content) : Xml.Content :=
  .element ⟨FIELD, [plainAttr VAR (lit k.var) (by cases k <;> decide)], .none⟩ inner .none rest

def valueElement (v : Str) (ok : ch '<' ∉ v ∧ 0 ∉ v) : Xml.Content :=
  .element ⟨VALUE, [], .none⟩ (.misc (.chars v ok) .done) .none .done

def formSet (c : Xml.Content) : Stanza := { adminSet c with xmlns := RoomTable.NS_OWNER }

/-- The form gives all the values. -/
def wholeForm : Xml.Content :=
  fieldElement .whois (valueElement (lit "anyone") (by decide)) <|
    fieldElement .persistentroom (valueElement (lit "1") (by decide)) <|
      fieldElement .membersonly (valueElement (lit "false") (by decide)) <|
        fieldElement .moderatedroom (valueElement (lit "true") (by decide)) .done

theorem whole_form_sets :
    (Setting.whois.wanted wholeForm 1 = some 0 ∧ Setting.persistentroom.wanted wholeForm 0 = some 1 ∧
      Setting.membersonly.wanted wholeForm 0 = some 0 ∧ Setting.moderatedroom.wanted wholeForm 0 = some 1) ∧
    FormSets wholeForm (gathered.stores.rooms 0)
      ((handle_muc_owner 0 (formSet wholeForm) gathered).2.stores.rooms 0) := by
  have hfacts : (Setting.whois.wanted wholeForm 1 = some 0 ∧ Setting.persistentroom.wanted wholeForm 0 = some 1 ∧
      Setting.membersonly.wanted wholeForm 0 = some 0 ∧ Setting.moderatedroom.wanted wholeForm 0 = some 1) ∧
      ¬ RoomTable.wantDestroy (formSet wholeForm) ∧
      RoomTable.find gathered.stores.rooms (roomName (formSet wholeForm).to_) = some 0 ∧
      ∀ k ∈ [Setting.persistentroom, .moderatedroom, .membersonly, .whois],
        (readAt wholeForm.text (lit k.var)).map k.reads = k.wanted wholeForm (k.flag (gathered.stores.rooms 0)) := by
    decide +kernel
  obtain ⟨hwanted, hd, hi, hread⟩ := hfacts
  refine ⟨hwanted, ((room_form_iff gathered 0 0).1 _ wholeForm rfl (.inl rfl) hd hi).mpr fun k b hb => .inr (.inl ?_)⟩
  have hk := hread k (by cases k <;> decide)
  rw [hb] at hk
  obtain ⟨t, ht, hr⟩ := Option.map_eq_some_iff.mp hk
  exact ⟨t, (readAt_iff k wholeForm.zero_not_mem).mp ht, hr⟩

/-- The first field has no value. -/
def gappedForm : Xml.Content :=
  fieldElement .persistentroom .done <| fieldElement .moderatedroom (valueElement (lit "1") (by decide)) .done

/-- It gets that of the next one. -/
theorem value_taken_from_next :
    Setting.persistentroom.wanted gappedForm 0 = some 0 ∧ (gathered.stores.rooms 0).persistent = 0 ∧
      ((handle_muc_owner 0 (formSet gappedForm) gathered).2.stores.rooms 0).persistent = 1 := by
  decide +kernel

end Angelic.Proofs
