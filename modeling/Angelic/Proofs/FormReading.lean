import Angelic.Proofs.Kicks

namespace Angelic.Proofs
open CString Model

/-! What a submitted form makes of the configuration of a room. -/

inductive Setting where
  | persistentroom | moderatedroom | membersonly | whois
  deriving DecidableEq

namespace Setting

def var : Setting → String
  | persistentroom => "muc#roomconfig_persistentroom"
  | moderatedroom => "muc#roomconfig_moderatedroom"
  | membersonly => "muc#roomconfig_membersonly"
  | whois => "muc#roomconfig_whois"

def flag : Setting → Room → Int32
  | persistentroom, r => r.persistent
  | moderatedroom, r => r.moderated
  | membersonly, r => r.members_only
  | whois, r => r.semi_anon

/-- The values that a field can have, and the flags they stand for. -/
def meaning : Setting → Str → Option Int32
  | whois, v => if v = lit "moderators" then some 1 else if v = lit "anyone" then some 0 else none
  | _, v => if v = lit "1" ∨ v = lit "true" then some 1 else if v = lit "0" ∨ v = lit "false" then some 0 else none

/-- The flag that the handler takes from the text behind a `<value>`. -/
def reads : Setting → Str → Int32
  | whois, t => if t.take 10 = lit "moderators" then 1 else 0
  | _, t => if t.head? = some (ch '1') ∨ t.take 4 = lit "true" then 1 else 0

/-- The first field of the setting has a value element of its own: its text, and all that stands behind its start
tag. -/
def own (k : Setting) (c : Xml.Content) : Option (Str × Str) :=
  (c.find true (fun t => t.name.text == lit "field" && t.attr (lit "var") == some (lit k.var)) []).bind fun f =>
    (f.1.find false (·.name.text == lit "value") (f.2.drop f.1.text.length)).map fun v => (v.1.text, v.2)

/-- What the flag should be after the form: it is left alone if the form gives no value. Nothing is asked for a value that
the field cannot have. -/
def wanted (k : Setting) (c : Xml.Content) (old : Int32) : Option Int32 :=
  match k.own c with
  | none => some old
  | some (v, _) => k.meaning v

/-- The text behind the first `<value>` behind the first place where the payload has the name of the setting. -/
def Found (k : Setting) (p after : Str) : Prop :=
  ∃ a, FirstAt (lit k.var) p a ∧ FirstAt (lit "<value>") (lit k.var ++ a) after

/-- The flag comes out as `b`: the value element that is found is the one of the field, or there is neither; or another
one is found that reads the same, or none and the flag is so already. -/
def Taken (k : Setting) (c : Xml.Content) (r : Room) (b : Int32) : Prop :=
  (match k.own c with
    | some (_, behind) => k.Found c.text behind
    | none => ∀ after, ¬ k.Found c.text after) ∨
  (∃ after, k.Found c.text after ∧ k.reads after = b) ∨ (∀ after, ¬ k.Found c.text after) ∧ k.flag r = b

end Setting

/-- Every flag is as the form wants it. -/
def FormSets (c : Xml.Content) (r r' : Room) : Prop :=
  ∀ k : Setting, ∀ b, k.wanted c (k.flag r) = some b → k.flag r' = b

/-! What the handler reads. -/

def readAt (p var : Str) : Option Str :=
  (strstr p var).bind fun vp => (strstr vp (lit "<value>")).map (·.drop 7)

theorem configure_flag (r : Room) (p : Str) (k : Setting) :
    k.flag (r.configure p) = ((readAt p (lit k.var)).map k.reads).getD (k.flag r) := by
  have hbool : ∀ (var : String) (old : Int32), boolField p var old =
      ((readAt p (lit var)).map Setting.persistentroom.reads).getD old := by
    intro var old
    unfold boolField readAt
    cases strstr p (lit var) with
    | none => rfl
    | some vp =>
      dsimp only
      cases hv : strstr vp (lit "<value>") with
      | none => simp [hv]
      | some v => simp [hv, Setting.reads]
  cases k with
  | persistentroom => exact hbool _ _
  | moderatedroom => exact hbool _ _
  | membersonly => exact hbool _ _
  | whois =>
    change whoisField p r.semi_anon = _
    unfold whoisField readAt
    change _ = (((strstr p (lit "muc#roomconfig_whois")).bind _).map _).getD r.semi_anon
    cases strstr p (lit "muc#roomconfig_whois") with
    | none => rfl
    | some wp =>
      dsimp only
      cases hv : strstr wp (lit "<value>") with
      | none => simp [hv]
      | some v => simp [hv, Setting.reads]

section Var
variable (k : Setting)

theorem var_clean : 0 ∉ lit k.var ∧ lit k.var ≠ [] ∧ ch '<' ∉ lit k.var ∧ ch '>' ∉ lit k.var := by
  cases k <;> decide

theorem readAt_iff {p after : Str} (h0 : 0 ∉ p) : readAt p (lit k.var) = some after ↔ k.Found p after := by
  obtain ⟨hv, hne, -, -⟩ := var_clean k
  have hval : 0 ∉ lit "<value>" ∧ lit "<value>" ≠ [] := by decide
  have hdrop : ∀ x : Str, (lit "<value>" ++ x).drop 7 = x := fun _ => List.drop_left' rfl
  have hclean : ∀ {a}, FirstAt (lit k.var) p a → 0 ∉ lit k.var ++ a := by
    rintro a ⟨before, hp, -⟩ hm
    refine h0 ?_
    rw [hp]
    exact List.mem_append_right _ hm
  rw [readAt, Option.bind_eq_some_iff]
  constructor
  · rintro ⟨vp, hvp, hm⟩
    obtain ⟨a, rfl, ha⟩ := (strstr_eq_some_iff hv hne h0).mp hvp
    obtain ⟨v, hv', rfl⟩ := Option.map_eq_some_iff.mp hm
    obtain ⟨x, rfl, hx⟩ := (strstr_eq_some_iff hval.1 hval.2 (hclean ha)).mp hv'
    rw [hdrop]
    exact ⟨a, ha, hx⟩
  · rintro ⟨a, ha, hx⟩
    refine ⟨lit k.var ++ a, (strstr_eq_some_iff hv hne h0).mpr ⟨a, rfl, ha⟩, ?_⟩
    rw [(strstr_eq_some_iff hval.1 hval.2 (hclean ha)).mpr ⟨after, rfl, hx⟩, Option.map_some, hdrop]

end Var

/-- A value that a field can have is read as it is meant. -/
theorem reads_meaning {k : Setting} {v : Str} {b : Int32} (h : k.meaning v = some b) :
    v ≠ [] ∧ ∀ z, k.reads (v ++ ch '<' :: z) = b := by
  have hbool : ∀ {v : Str} {b : Int32}, Setting.persistentroom.meaning v = some b →
      v ≠ [] ∧ ∀ z, Setting.persistentroom.reads (v ++ ch '<' :: z) = b := by
    intro v b h
    simp only [Setting.meaning] at h
    split at h
    · rename_i hv
      cases h
      rcases hv with rfl | rfl
      · exact ⟨by decide, fun _ => rfl⟩
      · exact ⟨by decide, fun _ => rfl⟩
    · split at h
      · rename_i hv
        cases h
        rcases hv with rfl | rfl
        · exact ⟨by decide, fun _ => rfl⟩
        · exact ⟨by decide, fun _ => rfl⟩
      · cases h
  cases k with
  | persistentroom | moderatedroom | membersonly => exact hbool h
  | whois =>
    simp only [Setting.meaning] at h
    split at h
    · rename_i hv
      cases h
      subst hv
      exact ⟨by decide, fun _ => rfl⟩
    · split at h
      · rename_i hv
        cases h
        subst hv
        exact ⟨by decide, fun _ => rfl⟩
      · cases h

theorem own_reads {k : Setting} {c : Xml.Content} {v behind : Str} {b : Int32} (h : k.own c = some (v, behind))
    (hb : k.meaning v = some b) : k.reads behind = b := by
  obtain ⟨f, -, hf⟩ := Option.bind_eq_some_iff.mp h
  obtain ⟨⟨inner, w⟩, hx, he⟩ := Option.map_eq_some_iff.mp hf
  obtain ⟨rfl, rfl⟩ := Prod.mk.inj he
  obtain ⟨hne, hreads⟩ := reads_meaning hb
  rcases Xml.Content.find_behind hx with hnil | ⟨z, hz⟩
  · exact absurd hnil hne
  · rw [hz]
    exact hreads z

theorem configured_iff (c : Xml.Content) (r : Room) (k : Setting) {b : Int32}
    (hb : k.wanted c (k.flag r) = some b) : k.flag (r.configure c.text) = b ↔ k.Taken c r b := by
  have hiff : ∀ after, readAt c.text (lit k.var) = some after ↔ k.Found c.text after := fun _ =>
    readAt_iff k c.zero_not_mem
  rw [configure_flag]
  cases hr : readAt c.text (lit k.var) with
  | none =>
    have hno : ∀ after, ¬ k.Found c.text after := fun after hf => by
      rw [(hiff after).mpr hf] at hr
      cases hr
    constructor
    · exact fun h => .inr (.inr ⟨hno, h⟩)
    · rintro (h | ⟨after, hf, -⟩ | ⟨-, h⟩)
      · unfold Setting.wanted at hb
        cases ho : k.own c with
        | none =>
          rw [ho] at hb
          exact Option.some.inj hb
        | some x =>
          rw [ho] at h
          exact absurd h (hno _)
      · exact absurd hf (hno after)
      · exact h
  | some t =>
    have hf : k.Found c.text t := (hiff t).mp hr
    have honly : ∀ after, k.Found c.text after → after = t := fun after h =>
      Option.some.inj (((hiff after).mpr h).symm.trans hr)
    constructor
    · exact fun h => .inr (.inl ⟨t, hf, h⟩)
    · rintro (h | ⟨after, ha, h⟩ | ⟨hno, -⟩)
      · unfold Setting.wanted at hb
        cases ho : k.own c with
        | none =>
          rw [ho] at h
          exact absurd hf (h t)
        | some x =>
          rw [ho] at h hb
          rw [← honly _ h]
          exact own_reads ho hb
      · rw [← honly after ha]
        exact h
      · exact absurd hf (hno t)

end Angelic.Proofs
