import Angelic.Lib.Search
import Angelic.Lib.Xml
import Angelic.Proofs.PrivateStore

namespace Angelic.Proofs
open CString Model
open Xml (Tag elementText)

/-! The child of a private set is cut out of the payload by searches: this says when they find what the elements are. -/

/-- The namespace of a request: what stands between quotes behind the first `xmlns=` that comes behind the first `>`. -/
def NamesNs (payload ns : Str) : Prop :=
  ∃ head rest q w, payload = head ++ ch '>' :: rest ∧ ch '>' ∉ head ∧ FirstAt (lit "xmlns=") rest (q :: (ns ++ q :: w)) ∧
    (q = apos ∨ q = dquote) ∧ q ∉ ns ∧ 0 < ns.length ∧ ns.length < 127

theorem namesNs_iff {payload : Str} (ns : Str) (hp : 0 ∉ payload) :
    NamesNs payload ns ↔ (privateChild payload).2 = ns ∧ ns ≠ [] := by
  have hlen : (lit "xmlns=").length = 6 := by decide
  constructor
  · rintro ⟨head, rest, q, w, rfl, hh, hf, hq, hqn, h0, h127⟩
    have hhead : 0 ∉ head := fun hz => hp (List.mem_append_left _ hz)
    have hrest : 0 ∉ rest := fun hz => hp (List.mem_append_right _ (List.mem_cons_of_mem _ hz))
    have hs : strstr rest (lit "xmlns=") = some (lit "xmlns=" ++ q :: (ns ++ q :: w)) :=
      (strstr_eq_some_iff (by decide) (by decide) hrest).mpr ⟨_, rfl, hf⟩
    have hns : 0 ∉ ns := by
      obtain ⟨before, hb, -⟩ := hf
      exact fun hz => hrest (by rw [hb]; simp [hz])
    have hquoted : quoted (q :: (ns ++ q :: w)) 4096 = some ns := by
      rw [quoted, if_pos hq, strchr_over hns hqn]
      dsimp only
      rw [upto_append, List.take_of_length_le (by omega)]
    refine ⟨?_, List.ne_nil_of_length_pos h0⟩
    rw [privateChild, strchr_over hhead hh]
    dsimp only [List.tail_cons]
    rw [hs]
    dsimp only
    rw [← hlen, List.drop_left, hquoted]
    exact if_pos ⟨h0, h127⟩
  · rintro ⟨h, hne⟩
    unfold privateChild at h
    cases hc : strchr payload (ch '>') with
    | none =>
      rw [hc] at h
      exact absurd h.symm hne
    | some e =>
      obtain ⟨head, rest, rfl, rfl, hh⟩ := strchr_split (by decide) hc
      rw [hc] at h
      dsimp only [List.tail_cons] at h
      have hrest : 0 ∉ rest := fun hz => hp (List.mem_append_right _ (List.mem_cons_of_mem _ hz))
      cases hs : strstr rest (lit "xmlns=") with
      | none =>
        rw [hs] at h
        exact absurd h.symm hne
      | some x =>
        obtain ⟨after, rfl, hf⟩ := (strstr_eq_some_iff (by decide) (by decide) hrest).mp hs
        rw [hs] at h
        dsimp only at h
        rw [← hlen, List.drop_left] at h
        cases hq : quoted after 4096 with
        | none =>
          rw [hq] at h
          exact absurd h.symm hne
        | some v =>
          rw [hq] at h
          dsimp only at h
          split at h
          · rename_i hv
            subst h
            unfold quoted at hq
            split at hq
            · rename_i q r
              split at hq
              · rename_i hquote
                split at hq
                · rename_i e he
                  have hq0 : q ≠ 0 := by rcases hquote with rfl | rfl <;> decide
                  obtain ⟨a, b, rfl, rfl, ha⟩ := strchr_split hq0 he
                  rw [upto_append] at hq
                  have hva : v = a.take 4095 := (Option.some.inj hq).symm
                  have hal : a.length < 4095 := by
                    have := congrArg List.length hva
                    rw [List.length_take] at this
                    omega
                  rw [List.take_of_length_le (Nat.le_of_lt hal)] at hva
                  subst hva
                  exact ⟨head, rest, q, b, rfl, hh, hf, hquote, ha, hv.1, hv.2⟩
                · cases hq
              · cases hq
            · cases hq
          · exact absurd h.symm hne

/-! The child. -/

/-- The end tag of an element. -/
def closing (q : Tag) (trail : Xml.Space) : Str := ch '<' :: (ch '/' :: (q.name.text ++ trail.text) ++ [ch '>'])

/-- What makes the searches agree with the elements: the first `>` ends the start tag of the query, the first `</query>` is
its end tag, and what is between them fits an entry. -/
structure WholeChild (q : Tag) (inner : Str) (trail : Xml.Space) : Prop where
  header : ch '>' ∉ q.text
  nested : ¬ lit "</query>" <:+: inner
  name : q.name.text = lit "query"
  trail : trail.text = []
  short : inner.length ≤ 899

section Child
variable {q : Tag} {inner : Str} {trail : Xml.Space}

theorem elementText_closing (q : Tag) (inner : Str) (trail : Xml.Space) :
    elementText q inner trail = ch '<' :: (q.text ++ ch '>' :: (inner ++ closing q trail)) := rfl

theorem closing_tail_plain (q : Tag) (trail : Xml.Space) : ch '<' ∉ ch '/' :: (q.name.text ++ trail.text) ++ [ch '>'] := by
  have hn : ch '<' ∉ q.name.text := fun h => absurd (Xml.Name.mem h) (by decide)
  have ht : ch '<' ∉ trail.text := fun h => absurd (List.all_eq_true.mp trail.ok _ h) (by decide)
  simp only [List.cons_append, List.mem_cons, List.mem_append, hn, ht, List.not_mem_nil, or_false, false_or, not_or]
  decide

theorem closing_eq {after : Str} (h : closing q trail = lit "</query>" ++ after) :
    q.name.text = lit "query" ∧ trail.text = [] := by
  have hlit : lit "</query>" = ch '<' :: ch '/' :: (lit "query" ++ [ch '>']) := by decide
  rw [closing, hlit] at h
  simp only [List.cons_append, List.append_assoc] at h
  have h1 : q.name.text ++ (trail.text ++ [ch '>']) = lit "query" ++ ch '>' :: after :=
    (List.cons.inj (List.cons.inj h).2).2
  -- the name ends where a space or the bracket comes
  obtain ⟨hn, h2⟩ := Xml.split_unique q.name.all (by decide)
    (Xml.head_space trail.all (by rintro c ⟨⟩; decide)) (by rintro c ⟨⟩; decide) h1
  refine ⟨hn, ?_⟩
  cases ht : trail.text with
  | nil => rfl
  | cons x l =>
    rw [ht] at h2
    have hx := List.all_eq_true.mp trail.ok x (by rw [ht]; exact List.mem_cons_self)
    rw [(List.cons.inj h2).1] at hx
    exact absurd hx (by decide)

/-- Where `</query>` can be: in the content, or as the end tag. -/
theorem closer_at (hc : Xml.Closes inner) {before after : Str}
    (h : inner ++ closing q trail = before ++ (lit "</query>" ++ after)) :
    (∃ r, inner = before ++ (lit "</query>" ++ r)) ∨ before = inner ∧ q.name.text = lit "query" ∧ trail.text = [] := by
  have hopen : lit "</query>" = ch '<' :: lit "/query>" := by decide
  have hend : lit "</query>" = lit "</query" ++ [ch '>'] := by decide
  rcases List.append_eq_append_iff.mp h with ⟨m, rfl, hm⟩ | ⟨m, rfl, hm⟩
  · cases m with
    | nil => exact .inr ⟨List.append_nil _, closing_eq hm⟩
    | cons x m =>
      -- there is no other `<` in an end tag
      refine absurd ?_ (closing_tail_plain q trail)
      rw [(List.cons.inj hm).2, hopen]
      exact List.mem_append_right _ (List.mem_append_left _ List.mem_cons_self)
  · rcases List.append_eq_append_iff.mp hm.symm with ⟨r, hr, hq⟩ | ⟨r, rfl, -⟩
    · cases m with
      | nil => exact .inr ⟨(List.append_nil _).symm, closing_eq hm.symm⟩
      | cons x s =>
        rcases List.eq_nil_or_concat r with rfl | ⟨r', y, rfl⟩
        · exact .inl ⟨[], by rw [List.append_nil, hr, List.append_nil]⟩
        · -- a tag that is cut off does not end a content
          rw [List.concat_eq_append, hend, ← List.append_assoc] at hr
          have hs : lit "</query" = x :: s ++ r' := (List.append_inj' hr rfl).1
          have hcut : lit "</query" = ch '<' :: lit "/query" := by decide
          rw [hcut] at hs
          obtain ⟨rfl, hs'⟩ := List.cons.inj hs
          have hgt := hc before s rfl
          have hplain : ch '>' ∉ lit "/query" := by decide
          rw [hs'] at hplain
          exact absurd (List.mem_append_left _ hgt) hplain
    · exact .inl ⟨r, rfl⟩

/-- The search for the end tag starts behind the start tag. -/
theorem strstr_element (h0 : 0 ∉ elementText q inner trail) :
    strstr (elementText q inner trail) (lit "</query>") = strstr (inner ++ closing q trail) (lit "</query>") := by
  have hopen : lit "</query>" = ch '<' :: ch '/' :: lit "query>" := by decide
  have hfirst : ¬ lit "</query>" <+: elementText q inner trail := by
    intro hp
    rw [elementText_closing, hopen, List.cons_prefix_cons] at hp
    have hname := (List.cons_prefix_cons.mp hp.2).1
    have hok := q.name.first_ok
    rw [← show ch '/' = q.name.first from hname] at hok
    exact absurd hok (by decide)
  have hplain : ch '<' ∉ q.text ++ [ch '>'] := by
    simp only [List.mem_append, q.lt_not_mem, false_or]
    decide
  rw [elementText_closing] at h0 hfirst ⊢
  have h0' : 0 ∉ (q.text ++ [ch '>']) ++ (inner ++ closing q trail) := by
    intro hz
    refine h0 (List.mem_cons_of_mem _ ?_)
    simpa using hz
  rw [strstr_cons (by decide) (by decide) h0, if_neg hfirst, hopen,
    show q.text ++ ch '>' :: (inner ++ closing q trail) = (q.text ++ [ch '>']) ++ (inner ++ closing q trail) by simp]
  exact strstr_behind (by decide) h0' hplain

/-- What the first `>` leaves in front of the content. -/
theorem strchr_element (q : Tag) (inner : Str) (trail : Xml.Space) :
    ∃ lead, ch '<' ∉ lead ∧ (lead = [] ↔ ch '>' ∉ q.text) ∧
      strchr (elementText q inner trail) (ch '>') = some (ch '>' :: (lead ++ (inner ++ closing q trail))) := by
  have htag : 0 ∉ ch '<' :: q.text := by
    intro hz
    rcases List.mem_cons.mp hz with hz | hz
    · exact absurd hz (by decide)
    · exact q.zero_not_mem hz
  by_cases hgt : ch '>' ∈ q.text
  · obtain ⟨a, w, he, ha⟩ := List.eq_append_cons_of_mem hgt
    refine ⟨w ++ [ch '>'], ?_, iff_of_false (by simp) (not_not.mpr hgt), ?_⟩
    · intro hm
      rcases List.mem_append.mp hm with hm | hm
      · exact q.lt_not_mem (by rw [he]; exact List.mem_append_right _ (List.mem_cons_of_mem _ hm))
      · exact absurd hm (by decide)
    · have hsplit : elementText q inner trail =
          (ch '<' :: a) ++ ch '>' :: (w ++ [ch '>'] ++ (inner ++ closing q trail)) := by
        rw [elementText_closing, he]
        simp only [List.cons_append, List.append_assoc, List.nil_append]
      rw [hsplit]
      refine strchr_over (fun hz => htag ?_) fun hm => ?_
      · rw [he, ← List.cons_append]
        exact List.mem_append_left _ hz
      · rcases List.mem_cons.mp hm with hm | hm
        · exact absurd hm (by decide)
        · exact ha hm
  · refine ⟨[], List.not_mem_nil, iff_of_true rfl hgt, ?_⟩
    rw [elementText_closing, ← List.cons_append]
    refine strchr_over htag fun hm => ?_
    rcases List.mem_cons.mp hm with hm | hm
    · exact absurd hm (by decide)
    · exact hgt hm

theorem infix_element (h0 : 0 ∉ elementText q inner trail) :
    lit "</query>" <:+: elementText q inner trail ↔ lit "</query>" <:+: inner ++ closing q trail := by
  have h0' : 0 ∉ inner ++ closing q trail := by
    intro hz
    rw [elementText_closing] at h0
    exact h0 (List.mem_cons_of_mem _ (List.mem_append_right _ (List.mem_cons_of_mem _ hz)))
  rw [← strstr_isSome (by decide) (by decide) h0, strstr_element h0, strstr_isSome (by decide) (by decide) h0']

/-- A text that is a prefix of itself with something in front has only the bytes of that. -/
theorem periodic_plain {u before l : Str} {x : Byte} {n : Nat} (hu : u ≠ []) (hx : x ∉ u) (hb : before <+: l)
    (hl : l = (u ++ before).take n) : x ∉ l := by
  have hpos : 0 < u.length := List.length_pos_of_ne_nil hu
  have all : ∀ k, x ∉ l.take k := by
    intro k
    induction k using Nat.strongRecOn with
    | ind k ih =>
      rw [hl, List.take_take, List.take_append]
      intro hm
      rcases List.mem_append.mp hm with hm | hm
      · exact hx (List.mem_of_mem_take hm)
      · rw [List.prefix_iff_eq_take.mp hb, List.take_take] at hm
        have hk : min (min k n - u.length) before.length < k ∨ min k n = 0 := by omega
        rcases hk with hk | hk
        · exact ih _ hk hm
        · rw [hk, Nat.zero_sub, Nat.zero_min, List.take_zero] at hm
          cases hm
  have := all l.length
  rwa [List.take_length] at this

/-- What is cut out of a query: all from the first `>` to the first `</query>`, if there is one. -/
theorem privateXml_element (h0 : 0 ∉ elementText q inner trail) (hstart : ¬ lit "</" <+: inner ++ closing q trail) :
    ∃ lead, ch '<' ∉ lead ∧ (lead = [] ↔ ch '>' ∉ q.text) ∧
      ((¬ lit "</query>" <:+: elementText q inner trail ∧ privateXml (elementText q inner trail) = none) ∨
        ∃ before after, inner ++ closing q trail = before ++ (lit "</query>" ++ after) ∧
          (∀ b a, inner ++ closing q trail = b ++ (lit "</query>" ++ a) → before.length ≤ b.length) ∧
          lit "</query>" <:+: elementText q inner trail ∧
          privateXml (elementText q inner trail) = some (lead ++ before)) := by
  obtain ⟨lead, hplain, hlead, hc⟩ := strchr_element q inner trail
  refine ⟨lead, hplain, hlead, ?_⟩
  have h0' : 0 ∉ inner ++ closing q trail := by
    intro hz
    rw [elementText_closing] at h0
    exact h0 (List.mem_cons_of_mem _ (List.mem_append_right _ (List.mem_cons_of_mem _ hz)))
  unfold privateXml
  rw [hc, strstr_element h0, infix_element h0]
  cases hs : strstr (inner ++ closing q trail) (lit "</query>") with
  | none => exact .inl ⟨(strstr_eq_none (by decide) (by decide) h0').mp hs, rfl⟩
  | some e =>
    obtain ⟨after, rfl, before, hb, hmin⟩ := (strstr_eq_some_iff (by decide) (by decide) h0').mp hs
    have hne : before ≠ [] := by
      rintro rfl
      have hopen : lit "</query>" = lit "</" ++ lit "query>" := by decide
      rw [hb, hopen, List.nil_append, List.append_assoc] at hstart
      exact hstart (List.prefix_append _ _)
    have hlen : (lit "</query>" ++ after).length < (lead ++ (inner ++ closing q trail)).length := by
      have := List.length_pos_of_ne_nil hne
      rw [hb]
      simp only [List.length_append]
      omega
    refine .inr ⟨before, after, hb, hmin, ⟨before, after, by rw [hb, List.append_assoc]⟩, ?_⟩
    refine (if_pos hlen).trans ?_
    rw [List.tail_cons, hb, ← List.append_assoc, upto_append]

/-- What is kept of it is the content, exactly if the searches agree with the elements. -/
theorem privateXml_take_iff (h0 : 0 ∉ elementText q inner trail) (hc : Xml.Closes inner)
    (hstart : ¬ lit "</" <+: inner ++ closing q trail) (hlt : ch '<' ∈ inner) {xml : Str}
    (hx : privateXml (elementText q inner trail) = some xml) : xml.take 899 = inner ↔ WholeChild q inner trail := by
  obtain ⟨lead, hplain, hlead, ⟨-, hn⟩ | ⟨before, after, hb, hmin, -, hs⟩⟩ := privateXml_element h0 hstart
  · rw [hn] at hx
    cases hx
  rw [hs] at hx
  cases hx
  have hpre : before <+: inner := by
    rcases closer_at hc hb with ⟨r, hr⟩ | ⟨he, -⟩
    · exact ⟨_, hr.symm⟩
    · exact he ▸ List.prefix_refl _
  constructor
  · intro ht
    have hnil : lead = [] := by
      by_contra hne
      exact periodic_plain hne hplain hpre ht.symm hlt
    rw [hnil, List.nil_append] at ht
    have hwhole : before = inner := by
      refine hpre.eq_of_length_le ?_
      rw [← ht]
      exact List.length_take_le' ..
    rcases closer_at hc hb with ⟨r, hr⟩ | ⟨-, hname, htrail⟩
    · have := congrArg List.length hr
      have hpos : 0 < (lit "</query>").length := by decide
      rw [hwhole] at this
      simp only [List.length_append] at this
      omega
    · refine ⟨hlead.mp hnil, ?_, hname, htrail, ?_⟩
      · rintro ⟨b, a, hba⟩
        have hpos : 0 < (lit "</query>").length := by decide
        have := hmin b (a ++ closing q trail) (by rw [← hba]; simp only [List.append_assoc])
        rw [hwhole, ← hba] at this
        simp only [List.length_append] at this
        omega
      · rw [hwhole] at ht
        have := congrArg List.length ht
        rw [List.length_take] at this
        omega
  · rintro ⟨hgt, hno, hname, htrail, hshort⟩
    have hwhole : before = inner := by
      rcases closer_at hc hb with ⟨r, hr⟩ | ⟨he, -⟩
      · exact absurd ⟨before, r, by rw [hr, List.append_assoc]⟩ hno
      · exact he
    rw [hlead.mpr hgt, hwhole, List.nil_append, List.take_of_length_le hshort]

end Child

end Angelic.Proofs
