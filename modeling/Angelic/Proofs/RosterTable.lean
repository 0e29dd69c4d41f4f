import Angelic.Lib.SlotTable
import Angelic.Proofs.Routing

namespace Angelic.Proofs
open CString Model

variable {e : RosterEntry} {user : Str} {t : Stores}

/-! The rosters as what they are for: a table from a user and a contact to the text of the item. The
operations on the store are those of the table. -/

abbrev Roster := SlotTable MAX_ROSTER_ENTRIES (Str × Str) Str

/-- The entries in use, without what stands behind their terminators. -/
def rosterView (R : Fin MAX_ROSTER_ENTRIES → RosterEntry) : Roster := fun i =>
  if (R i).active ≠ 0 then some (((R i).username.str, (R i).jid.str), (R i).item_xml.str) else none

namespace Roster

/-- An item of a roster set: a contact is removed or written, as the item says. -/
def upsert (T : Roster) (user item : Str) : Roster :=
  match roster_extract_jid item with
  | none => T
  | some jid =>
    if hasAttr item "subscription='remove'" "subscription=\"remove\"" then T.drop (user, jid)
    else T.put (user, jid) item

def setItems (T : Roster) (user : Str) (items : List Str) : Roster :=
  items.foldl (fun T item => T.upsert user item) T

/-- The subscription of a contact; one that is not on the roster has none. -/
def subscription (T : Roster) (user jid : Str) : Subscription :=
  (T.get (user, jid)).elim .none_ subscriptionOf

/-- A presence changes the subscription of a contact, and rewrites its item if that is another. -/
def subscribe (T : Roster) (user jid : Str) (inbound subscribed : Bool) : Roster :=
  let cur := T.subscription user jid
  let new := newSubscription inbound subscribed cur
  if new = cur then T
  else T.put (user, jid) (subscriptionItem ((T.get (user, jid)).getD []) jid new)

end Roster

section Keys
variable {t : Stores} {user jid : Str}

theorem bufIs_iff (b : Buf n) {s : Str} (h : Holds n s) : bufIs b s = true ↔ b.str = s := by
  rw [bufIs, beq_iff_eq, Buf.strncmp_bytes, cstr_of_clean h.2, List.take_of_length_le (Nat.le_of_lt h.1)]

theorem rosterSlot_eq (hu : Holds 32 user) (hj : Holds 64 jid) :
    rosterSlot t user jid = (rosterView t.roster_store).slot (user, jid) := by
  unfold rosterSlot SlotTable.slot SlotTable.first firstIdx
  congr 1
  funext i
  rw [Bool.eq_iff_iff, SlotTable.holds_iff]
  simp only [Bool.and_eq_true, bne_iff_ne, bufIs_iff _ hu, bufIs_iff _ hj, rosterView]
  by_cases ha : (t.roster_store i).active = 0
  · simp [ha]
  · simp [ha]

theorem freeRosterSlot_eq : freeRosterSlot t = (rosterView t.roster_store).free := by
  unfold freeRosterSlot SlotTable.free SlotTable.first firstIdx
  congr 1
  funext i
  simp only [rosterView]
  by_cases ha : (t.roster_store i).active = 0
  · simp [ha]
  · simp [ha]

/-- Writing an entry writes the slot of the table. -/
theorem rosterView_set (i : Fin MAX_ROSTER_ENTRIES) (e : RosterEntry) :
    rosterView (t.setRoster i e).roster_store = Function.update (rosterView t.roster_store) i
      (if e.active ≠ 0 then some ((e.username.str, e.jid.str), e.item_xml.str) else none) := by
  funext j
  by_cases hj : j = i
  · subst hj
    simp [rosterView, Stores.setRoster]
  · simp [rosterView, Stores.setRoster, hj]

end Keys

/-! Roster sets. -/

theorem quoted_holds {p s : Str} {max : Nat} (hm : 0 < max) (hp : 0 ∉ p) (h : quoted p max = some s) :
    Holds max s := by
  unfold quoted at h
  split at h
  · rename_i q rest
    split at h
    · split at h
      · cases h
        refine ⟨?_, fun hz => hp ?_⟩
        · rw [List.length_take]
          omega
        · exact List.mem_cons_of_mem _ (upto_subset _ _ (List.mem_of_mem_take hz))
      · cases h
    · cases h
  · cases h

theorem extract_jid_holds {item jid : Str} (hi : 0 ∉ item) (h : roster_extract_jid item = some jid) :
    Holds 64 jid := by
  unfold roster_extract_jid at h
  split at h
  · rename_i p hp
    exact quoted_holds (by decide) (fun hz => hi ((strstr_suffix hp).subset (List.mem_of_mem_drop hz))) h
  · cases h

theorem rosterEntry_str {jid item : Str} (hu : Holds 32 user) (hj : Holds 64 jid) (hi : Holds 256 item) :
    (rosterEntry e user jid item).username.str = user ∧ (rosterEntry e user jid item).jid.str = jid ∧
      (rosterEntry e user jid item).item_xml.str = item := by
  have hl : min (strlen item) 255 = item.length := by
    rw [strlen, cstr_of_clean hi.2]
    have := hi.1
    omega
  refine ⟨?_, ?_, ?_⟩
  · rw [rosterEntry, Buf.copied_str _ (by decide), cstr_of_clean hu.2, List.take_of_length_le (by have := hu.1; omega)]
  · rw [rosterEntry, Buf.copied_str _ (by decide), cstr_of_clean hj.2, List.take_of_length_le (by have := hj.1; omega)]
  · simp only [rosterEntry, hl]
    rw [Buf.copied_str _ hi.1, cstr_of_clean hi.2, List.take_of_length_le (Nat.le_refl _)]

theorem upsert_view {item : Str} (hu : Holds 32 user) (hi : Holds 256 item) :
    rosterView (roster_store_upsert_item user item t).roster_store =
      Roster.upsert (rosterView t.roster_store) user item := by
  unfold roster_store_upsert_item Roster.upsert
  cases hj : roster_extract_jid item with
  | none => rfl
  | some jid =>
    have hh := extract_jid_holds hi.2 hj
    dsimp only
    rw [rosterSlot_eq hu hh, freeRosterSlot_eq]
    split
    · unfold SlotTable.drop
      cases (rosterView t.roster_store).slot (user, jid) with
      | none => rfl
      | some i =>
        dsimp only
        rw [rosterView_set]
        rfl
    · unfold SlotTable.put
      cases ((rosterView t.roster_store).slot (user, jid)).or (rosterView t.roster_store).free with
      | none => rfl
      | some i =>
        obtain ⟨h1, h2, h3⟩ := rosterEntry_str (e := t.roster_store i) hu hh hi
        dsimp only
        rw [rosterView_set, h1, h2, h3]
        rfl

theorem itemText_holds {p e : Str} (hp : 0 ∉ p) (he : e <:+ p) : Holds 256 (itemText p e) := by
  have hfull : 0 ∉ upto p e ++ e.take 1 := by
    intro hz
    rcases List.mem_append.mp hz with hz | hz
    · exact hp (upto_subset _ _ hz)
    · exact hp (he.subset (List.mem_of_mem_take hz))
  unfold itemText
  dsimp only
  generalize upto p e ++ e.take 1 = full at hfull
  have hlen : (if full.length ≥ 256 then 255 else full.length) ≤ 255 := by
    split <;> omega
  generalize (if full.length ≥ 256 then 255 else full.length) = len at hlen
  split
  · rename_i h
    refine ⟨?_, fun hz => ?_⟩
    · simp only [List.length_append, List.length_take, List.length_cons, List.length_nil]
      omega
    · rcases List.mem_append.mp hz with hz | hz
      · exact hfull (List.mem_of_mem_take (List.mem_of_mem_take hz))
      · revert hz
        decide
  · refine ⟨?_, fun hz => hfull (List.mem_of_mem_take hz)⟩
    rw [List.length_take]
    omega

theorem rosterItems_holds {fuel : Nat} {p : Str} (hp : 0 ∉ p) : ∀ item ∈ rosterItems fuel p, Holds 256 item := by
  induction fuel generalizing p with
  | zero => exact fun _ h => absurd h List.not_mem_nil
  | succ fuel ih =>
    intro item hm
    rw [rosterItems] at hm
    cases hs : strstr p (lit "<item ") with
    | none => simp [hs] at hm
    | some q =>
      have hq : 0 ∉ q := fun hz => hp ((strstr_suffix hs).subset hz)
      cases hc : strchr q (ch '>') with
      | none => simp [hs, hc] at hm
      | some e =>
        have he := strchr_suffix hc
        simp only [hs, hc, List.mem_cons] at hm
        rcases hm with rfl | hm
        · exact itemText_holds hq he
        · exact ih (fun hz => hq (he.subset (List.mem_of_mem_tail hz))) item hm

theorem set_from_payload_view {payload : Str} (hu : Holds 32 user) (hp : 0 ∉ payload) :
    rosterView (roster_store_set_from_payload user payload t).roster_store =
      Roster.setItems (rosterView t.roster_store) user (rosterItems payload.length payload) := by
  have hall : ∀ item ∈ rosterItems payload.length payload, Holds 256 item := rosterItems_holds hp
  unfold roster_store_set_from_payload Roster.setItems
  generalize rosterItems payload.length payload = items at hall
  induction items generalizing t with
  | nil => rfl
  | cons item items ih =>
    rw [List.foldl_cons, List.foldl_cons, ← upsert_view hu (hall item List.mem_cons_self)]
    exact ih fun i hi => hall i (List.mem_cons_of_mem _ hi)

/-! Changes of subscriptions. -/

theorem subscriptionItem_holds (xml jid : Str) (sub : Subscription) : Holds 256 (subscriptionItem xml jid sub) :=
  snprintf_holds (by decide) (by decide) _

theorem set0_zero_str {n : Nat} (b : Buf (n + 1)) : (b.set0 0).str = [] := by
  obtain ⟨w, hw⟩ := b
  cases w with
  | nil => cases hw
  | cons a w => exact cstr_cons_zero w

theorem newRosterEntry_str {jid : Str} (hu : Holds 32 user) (hj : Holds 64 jid) :
    (newRosterEntry e user jid).username.str = user ∧ (newRosterEntry e user jid).jid.str = jid ∧
      (newRosterEntry e user jid).item_xml.str = [] := by
  refine ⟨?_, ?_, ?_⟩
  · rw [newRosterEntry, Buf.copied_str _ (by decide), cstr_of_clean hu.2,
      List.take_of_length_le (by have := hu.1; omega)]
  · rw [newRosterEntry, Buf.copied_str _ (by decide), cstr_of_clean hj.2,
      List.take_of_length_le (by have := hj.1; omega)]
  · exact set0_zero_str e.item_xml

/-- What a slot of the table says of its entry. -/
theorem rosterView_some {R : Fin MAX_ROSTER_ENTRIES → RosterEntry} {i : Fin MAX_ROSTER_ENTRIES} {jid xml : Str}
    (h : rosterView R i = some ((user, jid), xml)) :
    (R i).active ≠ 0 ∧ (R i).username.str = user ∧ (R i).jid.str = jid ∧ (R i).item_xml.str = xml := by
  unfold rosterView at h
  split at h
  · rename_i ha
    simp only [Option.some.injEq, Prod.mk.injEq] at h
    exact ⟨ha, h.1.1, h.1.2, h.2⟩
  · cases h

theorem withItem_str {xml : Str} (h : Holds 256 xml) : ((e.item_xml.strncpy 255 xml).set0 255).str = xml := by
  rw [Buf.copied_str _ (by decide), cstr_of_clean h.2, List.take_of_length_le (Nat.le_of_lt_succ h.1)]

theorem subscription_view {jid : Str} {inbound subscribed : Bool} (hu : Holds 32 user)
    (hj : Holds 64 jid) (s : Server) :
    rosterView (Texts.rosterUpdate s t user jid inbound subscribed).1.roster_store =
      Roster.subscribe (rosterView t.roster_store) user jid inbound subscribed := by
  unfold Texts.rosterUpdate subscriptionChange Roster.subscribe Roster.subscription SlotTable.put SlotTable.get
  rw [rosterSlot_eq hu hj, freeRosterSlot_eq]
  cases hs : (rosterView t.roster_store).slot (user, jid) with
  | some i =>
    obtain ⟨xml, hx⟩ := SlotTable.slot_some hs
    obtain ⟨ha, hun, hjd, hxml⟩ := rosterView_some hx
    simp only [hx, hxml, Option.bind_some, Option.map_some, Option.elim_some, Option.getD_some, Option.some_or]
    generalize newSubscription inbound subscribed (subscriptionOf xml) = new
    by_cases hn : new = subscriptionOf xml
    · simp only [if_pos hn, Option.map_none]
    · simp only [if_neg hn, Option.map_some, rosterView_set, hxml]
      rw [if_pos ha, hun, hjd, withItem_str (subscriptionItem_holds _ _ _)]
  | none =>
    simp only [Option.bind_none, Option.elim_none, Option.getD_none, Option.none_or]
    by_cases hn : newSubscription inbound subscribed .none_ = .none_
    · simp only [hn, reduceIte, Option.map_none]
    · simp only [hn, reduceIte]
      cases hf : (rosterView t.roster_store).free with
      | none => rfl
      | some i =>
        obtain ⟨h1, h2, h3⟩ := newRosterEntry_str (e := t.roster_store i) hu hj
        simp only [Option.map_some, rosterView_set, h1, h2, h3, withItem_str (subscriptionItem_holds _ _ _)]
        rfl

end Angelic.Proofs
