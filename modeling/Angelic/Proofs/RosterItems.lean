import Angelic.Lib.Xml
import Angelic.Proofs.ItemText
import Angelic.Proofs.WrittenItems

namespace Angelic.Proofs
open CString Model StateRel
open Xml (Tag Attr emptyText)

/-! What stands in the entries of a roster: the text of one element, with the address of the entry. -/

/-- One empty element `item` whose first `jid` is the address. -/
def OneItem (xml jid : Str) : Prop :=
  ∃ t : Tag, t.name.text = lit "item" ∧ xml = emptyText t ∧ t.attr (lit "jid") = some jid

/-- And a search for `jid=` comes upon it. -/
def SoundItem (xml jid : Str) : Prop := OneItem xml jid ∧ roster_extract_jid xml = some jid

/-- What is so for the text and the address of every active entry. -/
def EveryItem (P : Str → Str → Prop) (t : Stores) : Prop :=
  ∀ i, (t.roster_store i).active ≠ 0 → P (t.roster_store i).item_xml.str (t.roster_store i).jid.str

/-! As a table. -/

section Table
variable {P : Str → Str → Prop} {T : Roster} {user jid xml : Str}

def Roster.Every (P : Str → Str → Prop) (T : Roster) : Prop :=
  ∀ i user jid xml, T i = some ((user, jid), xml) → P xml jid

theorem everyItem_iff (t : Stores) : EveryItem P t ↔ (rosterView t.roster_store).Every P := by
  constructor
  · intro h i user jid xml hi
    obtain ⟨ha, -, rfl, rfl⟩ := rosterView_some hi
    exact h i ha
  · intro h i ha
    exact h i _ _ _ (if_pos ha)

theorem Roster.Every.get (h : T.Every P) (hg : T.get (user, jid) = some xml) : P xml jid := by
  unfold SlotTable.get at hg
  obtain ⟨i, hs, hi⟩ := Option.bind_eq_some_iff.mp hg
  obtain ⟨a, ha⟩ := SlotTable.slot_some hs
  rw [ha] at hi
  cases hi
  exact h i user jid _ ha

/-- A text that is put in is as the others, unless there is no slot for it. -/
theorem Roster.Every.put_iff (h : T.Every P) :
    Roster.Every P (T.put (user, jid) xml) ↔ P xml jid ∨ T.slot (user, jid) = none ∧ T.free = none := by
  rcases T.put_cases (user, jid) xml with ⟨he, hn⟩ | ⟨i, he, hi⟩
  · rw [he]
    exact iff_of_true h (.inr hn)
  · rw [he]
    constructor
    · exact fun hp => .inl (hp i user jid xml (Function.update_self ..))
    · rintro (hp | ⟨hs, hf⟩)
      · intro j u k x hj
        by_cases hji : j = i
        · rw [hji, Function.update_self] at hj
          cases hj
          exact hp
        · rw [Function.update_of_ne hji] at hj
          exact h j u k x hj
      · rcases hi with hi | ⟨-, hi⟩
        · rw [hs] at hi
          cases hi
        · rw [hf] at hi
          cases hi

/-- Nothing is written for an item: it has no address, takes one away, or there is no slot. -/
def Unwritten (T : Roster) (user item : Str) : Prop :=
  roster_extract_jid item = none ∨ hasAttr item "subscription='remove'" "subscription=\"remove\"" = true ∨
    ∃ jid, roster_extract_jid item = some jid ∧ T.slot (user, jid) = none ∧ T.free = none

/-- An item of a list that is written, and that no later one with its address replaces or takes away. -/
def Remains (T : Roster) (user : Str) (items : List Str) (item : Str) : Prop :=
  ∃ before after, items = before ++ item :: after ∧ ¬ Unwritten (T.setItems user before) user item ∧
    ∀ later ∈ after, roster_extract_jid later ≠ roster_extract_jid item

section Lists
variable {items : List Str} {item : Str}

theorem Remains.more (h : Remains T user items item) {r : Str} (hr : roster_extract_jid r ≠ roster_extract_jid item) :
    Remains T user (items ++ [r]) item := by
  obtain ⟨before, after, rfl, hw, hl⟩ := h
  refine ⟨before, after ++ [r], by simp, hw, fun later hm => ?_⟩
  rcases List.mem_append.mp hm with hm | hm
  · exact hl later hm
  · rw [List.mem_singleton.mp hm]
    exact hr

theorem Remains.cases {r : Str} (h : Remains T user (items ++ [r]) item) :
    Remains T user items item ∧ roster_extract_jid r ≠ roster_extract_jid item ∨
      item = r ∧ ¬ Unwritten (T.setItems user items) user r := by
  obtain ⟨before, after, he, hw, hl⟩ := h
  rcases List.eq_nil_or_concat after with rfl | ⟨after', last, rfl⟩
  · obtain ⟨rfl, hr⟩ := List.append_inj' he rfl
    cases hr
    exact .inr ⟨rfl, hw⟩
  · rw [List.concat_eq_append] at he hl
    rw [← List.cons_append, ← List.append_assoc] at he
    obtain ⟨rfl, hr⟩ := List.append_inj' he rfl
    cases hr
    exact .inl ⟨⟨before, after', rfl, hw, fun later hm => hl later (List.mem_append_left _ hm)⟩,
      hl r (List.mem_append_right _ List.mem_cons_self)⟩

theorem setItems_concat (T : Roster) (user : Str) (items : List Str) (r : Str) :
    T.setItems user (items ++ [r]) = (T.setItems user items).upsert user r := by
  unfold Roster.setItems
  rw [List.foldl_append]
  rfl

/-- What an item does to the table: nothing, or one slot is emptied or written. -/
theorem upsert_cases (T : Roster) (user r : Str) :
    (Unwritten T user r ∧ T.upsert user r = T ∧ ∀ jid, roster_extract_jid r = some jid → T.slot (user, jid) = none) ∨
      ∃ jid i, roster_extract_jid r = some jid ∧
        (Unwritten T user r ∧ T.slot (user, jid) = some i ∧ T.upsert user r = Function.update T i none ∨
          ¬ Unwritten T user r ∧ T.upsert user r = Function.update T i (some ((user, jid), r)) ∧
            (T.slot (user, jid) = some i ∨ T.slot (user, jid) = none ∧ T.free = some i)) := by
  unfold Roster.upsert Unwritten
  cases hj : roster_extract_jid r with
  | none => exact .inl ⟨.inl rfl, rfl, fun jid h => by cases h⟩
  | some jid =>
    dsimp only
    split
    · rename_i hr
      unfold SlotTable.drop
      cases hs : T.slot (user, jid) with
      | none =>
        refine .inl ⟨.inr (.inl hr), rfl, fun j h => ?_⟩
        cases h
        exact hs
      | some i => exact .inr ⟨jid, i, rfl, .inl ⟨.inr (.inl hr), hs, rfl⟩⟩
    · rename_i hr
      rcases T.put_cases (user, jid) r with ⟨he, hn⟩ | ⟨i, he, hi⟩
      · refine .inl ⟨.inr (.inr ⟨jid, rfl, hn⟩), he, fun j h => ?_⟩
        cases h
        exact hn.1
      · refine .inr ⟨jid, i, rfl, .inr ⟨?_, he, hi⟩⟩
        rintro (hn | hn | ⟨j, h, hs, hf⟩)
        · cases hn
        · exact hr hn
        · cases h
          rcases hi with hi | ⟨-, hi⟩
          · rw [hs] at hi
            cases hi
          · rw [hf] at hi
            cases hi

/-- An entry with the text of an item that stays; it is the first one of its contact. -/
def FromItem (T T' : Roster) (user : Str) (items : List Str) (i : Fin MAX_ROSTER_ENTRIES) (u jid xml : Str) : Prop :=
  u = user ∧ T'.slot (user, jid) = some i ∧ roster_extract_jid xml = some jid ∧ Remains T user items xml

-- the last item is taken first: what it leaves alone stays, and what it writes is there
theorem setItems_entry (h : T.Every P) (items : List Str) {i : Fin MAX_ROSTER_ENTRIES} {u j x : Str}
    (hi : T.setItems user items i = some ((u, j), x)) : P x j ∨ FromItem T (T.setItems user items) user items i u j x := by
  induction items using List.reverseRecOn generalizing i u j x with
  | nil => exact .inl (h i u j x hi)
  | append_singleton items r ih =>
    rw [setItems_concat] at hi ⊢
    rcases upsert_cases (T.setItems user items) user r with
      ⟨-, he, hn⟩ | ⟨jr, k, hjr, ⟨-, hs, he⟩ | ⟨hw, he, hs⟩⟩
    · rw [he] at hi ⊢
      refine (ih hi).imp_right fun ⟨hu, hs, hx, hst⟩ => ⟨hu, hs, hx, hst.more fun hr => ?_⟩
      rw [hx] at hr
      rw [hn j hr] at hs
      cases hs
    · rw [he] at hi ⊢
      have hik : i ≠ k := fun hik => by rw [hik, Function.update_self] at hi; cases hi
      rw [Function.update_of_ne hik] at hi
      refine (ih hi).imp_right fun ⟨hu, hs', hx, hst⟩ => ⟨hu, ?_, hx, hst.more fun hr => ?_⟩
      · exact SlotTable.slot_update hs' (iff_of_false (fun ⟨_, h⟩ => by cases h) (Ne.symm hik))
      · rw [hjr, hx] at hr
        cases hr
        rw [hs] at hs'
        cases hs'
        exact hik rfl
    · rw [he] at hi ⊢
      by_cases hik : i = k
      · rw [hik, Function.update_self] at hi
        cases hi
        refine .inr ⟨rfl, ?_, hjr, items, [], rfl, hw, fun _ hm => absurd hm List.not_mem_nil⟩
        rw [hik]
        rcases hs with hs | ⟨hs, -⟩
        · exact SlotTable.slot_update hs (iff_of_true ⟨r, rfl⟩ rfl)
        · refine SlotTable.first_unique (SlotTable.holds_iff.mpr ⟨r, Function.update_self ..⟩) fun l hl => ?_
          obtain ⟨a, ha⟩ := SlotTable.holds_iff.mp hl
          by_contra hlk
          rw [Function.update_of_ne hlk] at ha
          exact SlotTable.slot_none hs l a ha
      · rw [Function.update_of_ne hik] at hi
        refine (ih hi).imp_right fun ⟨hu, hs', hx, hst⟩ => ?_
        have hjj : jr ≠ j := by
          rintro rfl
          rw [hs'] at hs
          rcases hs with hs | ⟨hs, -⟩
          · cases hs
            exact hik rfl
          · cases hs
        refine ⟨hu, SlotTable.slot_update hs' (iff_of_false ?_ (Ne.symm hik)), hx, hst.more fun hr => ?_⟩
        · rintro ⟨a, h⟩
          cases h
          exact hjj rfl
        · rw [hjr, hx] at hr
          cases hr
          exact hjj rfl

theorem Remains.entry (h : Remains T user items item) :
    ∃ jid i, roster_extract_jid item = some jid ∧ T.setItems user items i = some ((user, jid), item) := by
  induction items using List.reverseRecOn with
  | nil =>
    obtain ⟨before, after, he, -⟩ := h
    cases before <;> cases he
  | append_singleton items r ih =>
    rw [setItems_concat]
    rcases h.cases with ⟨hst, hne⟩ | ⟨rfl, hw⟩
    · obtain ⟨jid, i, hj, hi⟩ := ih hst
      refine ⟨jid, i, hj, ?_⟩
      -- the slot of another contact, or an empty one, is another slot
      rcases upsert_cases (T.setItems user items) user r with
        ⟨-, he, -⟩ | ⟨jr, k, hjr, ⟨-, hs, he⟩ | ⟨-, he, hs⟩⟩
      · rw [he, hi]
      · rw [he, Function.update_of_ne, hi]
        rintro rfl
        obtain ⟨a, ha⟩ := SlotTable.slot_some hs
        rw [hi] at ha
        cases ha
        exact hne (hjr.trans hj.symm)
      · rw [he, Function.update_of_ne, hi]
        rintro rfl
        rcases hs with hs | ⟨-, hf⟩
        · obtain ⟨a, ha⟩ := SlotTable.slot_some hs
          rw [hi] at ha
          cases ha
          exact hne (hjr.trans hj.symm)
        · rw [SlotTable.free_some hf] at hi
          cases hi
    · rcases upsert_cases (T.setItems user items) user item with
        ⟨hn, -⟩ | ⟨jr, k, hjr, ⟨hn, -⟩ | ⟨-, he, -⟩⟩
      · exact absurd hn hw
      · exact absurd hn hw
      · exact ⟨jr, k, hjr, by rw [he, Function.update_self]⟩

/-- A whole list leaves the table as it was, if and only if each item that stays is so. -/
theorem Roster.Every.setItems_iff (h : T.Every P) (items : List Str) : (T.setItems user items).Every P ↔
      ∀ item jid, Remains T user items item → roster_extract_jid item = some jid → P item jid := by
  constructor
  · intro hp item jid hst hj
    obtain ⟨jid', i, hj', hi⟩ := hst.entry
    rw [hj] at hj'
    cases hj'
    exact hp i user jid item hi
  · intro hp i u j x hi
    rcases setItems_entry h items hi with hpx | ⟨-, -, hx, hst⟩
    · exact hpx
    · exact hp x j hst hx

end Lists

end Table

/-! Items of a roster set. -/

/-- The text up to the first `>` is a whole tag; closed, it fits the entry; and what stands behind the first `jid=`,
cut to 63 bytes, is its address. -/
structure WholeItem (raw : Str) : Prop where
  short : (closed raw).length ≤ 255
  tag : ∃ t : Tag, t.name.text = lit "item" ∧ (raw = ch '<' :: (t.text ++ lit ">") ∨ raw = emptyText t) ∧
    ∃ jid, contactOf (closed raw) = some jid ∧ t.attr (lit "jid") = some (jid.take 63)

section Items
variable {raw : Str}

/-- Where the loop cuts a text: behind the first `>`. -/
def CutItem (raw : Str) : Prop := ∃ w, w ≠ [] ∧ ch '>' ∉ w ∧ raw = w ++ lit ">"

theorem closed_cut {w : Str} (hw : w ≠ []) :
    closed (w ++ lit ">") = if w.getLast? = some (ch '/') then w ++ lit ">" else w ++ lit "/>" := by
  have hl : 0 < w.length := List.length_pos_of_ne_nil hw
  have hone : (lit ">").length = 1 := by decide
  have hlast : (w ++ lit ">")[(w ++ lit ">").length - 2]? = w.getLast? := by
    rw [List.length_append, hone, List.getElem?_append_left (by omega), List.getLast?_eq_getElem?]
    congr 1
  have htake : (w ++ lit ">").take ((w ++ lit ">").length - 1) = w := by
    rw [List.length_append, hone, Nat.add_sub_cancel]
    exact List.take_left
  have hlen : 2 ≤ (w ++ lit ">").length := by
    rw [List.length_append, hone]
    omega
  unfold closed
  rw [hlast, htake]
  by_cases h : w.getLast? = some (ch '/')
  · rw [if_pos h, if_neg fun hn => hn.2 h]
  · rw [if_neg h, if_pos ⟨hlen, h⟩]
    rfl

/-- A text that was cut short is not closed. -/
theorem shortened_ends (hc : CutItem raw) (h : lit "/>" <:+ shortened raw) : (closed raw).length ≤ 255 := by
  obtain ⟨w, hw, hgt, rfl⟩ := hc
  have hone : (lit ">").length = 1 := by decide
  have htwo : (lit "/>").length = 2 := by decide
  have hlen : (w ++ lit ">").length = w.length + 1 := by rw [List.length_append, hone]
  by_cases hlong : (w ++ lit ">").length ≥ 256
  · -- only the first 255 bytes are there, and none of them is a `>`
    have hs : shortened (w ++ lit ">") = w.take 255 := by
      simp only [shortened, if_pos hlong, Nat.lt_irrefl, and_false, if_false]
      exact List.take_append_of_le_length (by omega)
    rw [hs] at h
    exact absurd (List.mem_of_mem_take (h.subset (by decide : ch '>' ∈ lit "/>"))) hgt
  · rw [closed_cut hw]
    split
    · omega
    · rename_i hslash
      by_cases h254 : w.length < 254
      · rw [List.length_append, htwo]
        omega
      · have hs : shortened (w ++ lit ">") = w ++ lit ">" := by
          simp only [shortened, if_neg hlong, List.take_length]
          rw [if_neg fun hn => by omega]
        rw [hs] at h
        obtain ⟨v, hv⟩ := h
        have hsplit : lit "/>" = [ch '/'] ++ lit ">" := by decide
        rw [hsplit, ← List.append_assoc] at hv
        rw [← List.append_cancel_right hv] at hslash
        exact absurd List.getLast?_concat hslash

theorem emptyText_eq (t : Tag) : emptyText t = ch '<' :: t.text ++ lit "/>" := rfl

/-- A tag is closed as it should be. -/
theorem closed_tag {t : Tag} (h : raw = ch '<' :: (t.text ++ lit ">") ∨ raw = emptyText t) : closed raw = emptyText t := by
  rcases h with rfl | rfl
  · have hlast : (ch '<' :: t.text).getLast? ≠ some (ch '/') := by
      intro hl
      have hne : t.text ≠ [] := by
        unfold Tag.text Xml.Name.text
        simp
      rw [List.getLast?_cons_of_ne_nil hne] at hl
      rcases Tag.last hl with h | h | h | h
      all_goals
        revert h
        decide
    have hc := closed_cut (w := ch '<' :: t.text) (List.cons_ne_nil _ _)
    rw [if_neg hlast] at hc
    exact hc
  · have hsplit : emptyText t = (ch '<' :: t.text ++ [ch '/']) ++ lit ">" := by
      rw [emptyText_eq, List.append_assoc]
      rfl
    rw [hsplit, closed_cut (by simp), if_pos List.getLast?_concat]

theorem tag_of_closed (hc : CutItem raw) {t : Tag} (h : closed raw = emptyText t) :
    raw = ch '<' :: (t.text ++ lit ">") ∨ raw = emptyText t := by
  obtain ⟨w, hw, -, rfl⟩ := hc
  rw [closed_cut hw] at h
  split at h
  · exact .inr h
  · rw [emptyText_eq] at h
    exact .inl (congrArg (· ++ lit ">") (List.append_cancel_right h))

theorem oneItem_shortened_iff (hc : CutItem raw) {jid : Str} (hj : roster_extract_jid (shortened raw) = some jid) :
    OneItem (shortened raw) jid ↔ WholeItem raw := by
  have hcontact : (closed raw).length ≤ 255 → ∃ c, contactOf (closed raw) = some c ∧ c.take 63 = jid := by
    intro hs
    rw [(shortened_eq_iff raw).mpr hs, roster_extract_jid_eq] at hj
    exact Option.map_eq_some_iff.mp hj
  constructor
  · rintro ⟨t, hn, he, ha⟩
    have hs : (closed raw).length ≤ 255 := shortened_ends hc ⟨ch '<' :: t.text, he.symm⟩
    obtain ⟨c, hcc, rfl⟩ := hcontact hs
    rw [(shortened_eq_iff raw).mpr hs] at he
    exact ⟨hs, t, hn, tag_of_closed hc he, c, hcc, ha⟩
  · rintro ⟨hs, t, hn, ht, c, hcc, ha⟩
    obtain ⟨c', hcc', rfl⟩ := hcontact hs
    rw [hcc] at hcc'
    cases hcc'
    exact ⟨t, hn, ((shortened_eq_iff raw).mpr hs).trans (closed_tag ht), ha⟩

theorem rawItems_cut {fuel : Nat} {p : Str} (hp : 0 ∉ p) : ∀ raw ∈ rawItems fuel p, CutItem raw := by
  induction fuel generalizing p with
  | zero => exact fun _ h => absurd h List.not_mem_nil
  | succ fuel ih =>
    intro raw hm
    rw [rawItems] at hm
    cases hs : strstr p (lit "<item ") with
    | none => simp [hs] at hm
    | some q =>
      have hq : 0 ∉ q := fun hz => hp ((strstr_suffix hs).subset hz)
      cases hc : strchr q (ch '>') with
      | none => simp [hs, hc] at hm
      | some e =>
        simp only [hs, hc, List.mem_cons] at hm
        rcases hm with rfl | hm
        · obtain ⟨a, b, rfl, rfl, ha⟩ := strchr_split (by decide) hc
          rw [upto_append]
          refine ⟨a, ?_, ha, rfl⟩
          -- what was found starts with the name, so something is in front
          rintro rfl
          have hstart : lit "<item " <+: ch '>' :: b := strstr_starts (by decide) (by decide) hp hs
          have hfirst : lit "<item " = ch '<' :: lit "item " := by decide
          rw [hfirst, List.cons_prefix_cons] at hstart
          exact absurd hstart.1 (by decide)
        · exact ih (fun hz => hq ((strchr_suffix hc).subset (List.mem_of_mem_tail hz))) raw hm

/-- A roster set keeps the entries as they should be, if and only if the items that stay are whole. -/
theorem set_items_iff {t : Stores} (h : EveryItem SoundItem t) {user payload : Str} (hu : Holds 32 user)
    (hp : 0 ∉ payload) {P : Str → Str → Prop} (hP : P = OneItem ∨ P = SoundItem) :
    EveryItem P (roster_store_set_from_payload user payload t) ↔ ∀ raw ∈ rawItems payload.length payload,
        Remains (rosterView t.roster_store) user (rosterItems payload.length payload) (shortened raw) → WholeItem raw := by
  have hone : ∀ {xml jid}, roster_extract_jid xml = some jid → (P xml jid ↔ OneItem xml jid) := by
    intro xml jid hj
    rcases hP with rfl | rfl
    · exact Iff.rfl
    · exact ⟨fun hs => hs.1, fun ho => ⟨ho, hj⟩⟩
  have hT : (rosterView t.roster_store).Every P := by
    refine (everyItem_iff t).mp fun i ha => ?_
    exact (hone (h i ha).2).mpr (h i ha).1
  rw [everyItem_iff, set_from_payload_view hu hp, hT.setItems_iff]
  constructor
  · intro hall raw hr hst
    obtain ⟨jid, -, hj, -⟩ := hst.entry
    exact (oneItem_shortened_iff (rawItems_cut hp raw hr) hj).mp ((hone hj).mp (hall _ _ hst hj))
  · intro hall item jid hst hj
    obtain ⟨before, after, he, -⟩ := id hst
    have hm : item ∈ rosterItems payload.length payload := by
      rw [he]
      exact List.mem_append_right _ List.mem_cons_self
    rw [rosterItems_eq] at hm
    obtain ⟨raw, hr, rfl⟩ := List.mem_map.mp hm
    exact (hone hj).mpr ((oneItem_shortened_iff (rawItems_cut hp raw hr) hj).mpr (hall raw hr hst))

end Items

end Angelic.Proofs
