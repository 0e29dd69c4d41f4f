import Angelic.Proofs.RosterGets
import Angelic.Proofs.TextSizes
import Angelic.Proofs.WrittenItems
import Mathlib.Algebra.BigOperators.Fin

namespace Angelic.Proofs
open CString Model Spec StateRel Relation

variable {T : Roster}

/-! What a user gets back of a roster set: the items pass the limits of the stanza, the slots of the store and the
size of the answer. -/

namespace Roster

/-- What the items of a roster set do to the table. -/
def ops (user : Str) (items : List (Option Str × Str)) : List ((Str × Str) × Option Str) :=
  items.filterMap fun p => p.1.map fun jid => ((user, jid), if Removes p.2 then none else some p.2)

theorem setItems_run (T : Roster) (user : Str) (items : List Str) :
    T.setItems user items = T.run (ops user (items.map fun item => (roster_extract_jid item, item))) := by
  induction items generalizing T with
  | nil => rfl
  | cons item items ih =>
    rw [setItems, List.foldl_cons, List.map_cons]
    cases hj : roster_extract_jid item with
    | none =>
      have hu : T.upsert user item = T := by rw [upsert, hj]
      rw [hu]
      exact ih T
    | some jid =>
      have hu : T.upsert user item = T.apply ((user, jid), if Removes item then none else some item) := by
        rw [upsert, hj]
        dsimp only
        cases hr : Removes item with
        | true => exact if_pos hr
        | false => exact if_neg (by rw [← Removes, hr]; decide)
      rw [hu]
      exact ih _

/-! The entries of a user as a part of the table. -/

theorem entryOf_some {user jid item : Str} {i : Fin MAX_ROSTER_ENTRIES} :
    T.entryOf user i = some (jid, item) ↔ T i = some ((user, jid), item) := by
  unfold entryOf
  cases T i with
  | none => simp
  | some e =>
    obtain ⟨⟨u, j⟩, t⟩ := e
    by_cases hu : u = user
    · subst hu
      simp
    · simp [hu]

theorem mem_entries (h : T.Distinct) {user jid item : Str} :
    (jid, item) ∈ T.entries user ↔ T.get (user, jid) = some item := by
  rw [entries, List.mem_filterMap, h.get]
  simp only [List.mem_finRange, true_and, entryOf_some]

theorem entries_nodup (h : T.Distinct) (user : Str) : (T.entries user).Nodup := by
  refine List.Nodup.filterMap ?_ (List.nodup_finRange _)
  rintro i j ⟨jid, item⟩ hi hj
  exact h (user, jid) i j (SlotTable.holds_iff.mpr ⟨item, entryOf_some.mp hi⟩)
    (SlotTable.holds_iff.mpr ⟨item, entryOf_some.mp hj⟩)

theorem fitting_starts (room : Nat) (es : List (Str × Str)) : fitting room es <+: es := by
  induction es generalizing room with
  | nil => exact List.prefix_rfl
  | cons e es ih =>
    rw [fitting]
    split
    · exact (List.prefix_cons_inj e).mpr (ih _)
    · exact List.nil_prefix

/-- All entries are shown exactly if there is room for them. -/
theorem shown_all_iff (h : T.Distinct) (user : Str) :
    (∀ e ∈ T.entries user, e ∈ T.shown user) ↔ (itemsText (T.entries user)).length < 2047 := by
  rw [← fitting_eq_self (by decide)]
  constructor
  · intro hall
    have hsub : T.entries user ⊆ T.shown user := fun e he => hall e he
    exact (fitting_starts _ _).eq_of_length_le ((entries_nodup h user).subperm hsub).length_le
  · intro he e hm
    rw [shown, he]
    exact hm

theorem itemsText_length (h : T.Distinct) (user : Str) : (itemsText (T.entries user)).length =
    ∑ k ∈ T.keys with k.1 = user, ((T.get k).getD []).length := by
  have hslots : (itemsText (T.entries user)).length =
      ∑ i, (T i).elim 0 fun e => if e.1.1 = user then e.2.length else 0 := by
    rw [itemsText, List.length_flatMap, entries, Fin.sum_univ_def]
    induction List.finRange MAX_ROSTER_ENTRIES with
    | nil => rfl
    | cons i l ih =>
      rw [List.map_cons, List.sum_cons, ← ih, List.filterMap_cons]
      unfold entryOf
      cases T i with
      | none => simp
      | some e =>
        by_cases hu : e.1.1 = user
        · simp [hu]
        · simp [hu]
  rw [hslots, ← h.sum_keys fun k item => if k.1 = user then item.length else 0, Finset.sum_filter]
  refine Finset.sum_congr rfl fun k _ => ?_
  cases T.get k with
  | none => simp
  | some item => rfl

/-- What a user is to have for a contact when the items were written, none if it was removed. -/
def wanted (T : Roster) (W : List ((Str × Str) × Option Str)) (k : Str × Str) : Option Str :=
  (SlotTable.lastOf k W).getD (T.get k)

/-- The length of all that a user is to have. -/
def wantedLength (T : Roster) (W : List ((Str × Str) × Option Str)) (user : Str) : Nat :=
  ∑ k ∈ SlotTable.wishes T.keys W with k.1 = user, ((T.wanted W k).getD []).length

theorem stored_shown_iff (h : T.Distinct) {W : List ((Str × Str) × Option Str)} (user : Str)
    (hs : T.Stored W) : (∀ jid item, T.wanted W (user, jid) = some item → (jid, item) ∈ shown (T.run W) user) ↔
      T.wantedLength W user < 2047 := by
  have hd := h.run W
  have hget : ∀ k, (T.run W).get k = T.wanted W k := hs.get h
  have hkeys : (T.run W).keys = SlotTable.wishes T.keys W := hs.keys h
  have hlen : (itemsText (entries (T.run W) user)).length = T.wantedLength W user := by
    rw [itemsText_length hd, hkeys, wantedLength]
    simp only [hget]
  rw [← hlen, ← shown_all_iff hd]
  simp only [Prod.forall, mem_entries hd, hget]

end Roster

section Answer
variable {s : Server} {me : Slot} {st : Stanza}

/-- The answer to a request, before it is cut to its array. -/
def rosterAnswer (s : Server) (me : Slot) (st : Stanza) : Text :=
  let c := s.client_registry me
  let items := Roster.itemsText ((rosterView s.stores.roster_store).shown c.username)
  if wantsVersion st then ⟨2300, fmtRosterVer, [.s st.id, .s c.full_jid, .d s.roster_version, .s items]⟩
  else ⟨2300, fmtRoster, [.s st.id, .s c.full_jid, .s items]⟩

theorem shown_length (T : Roster) (user : Str) : (Roster.itemsText (T.shown user)).length ≤ 2046 := by
  have key : ∀ (es : List (Str × Str)) (room : Nat), 0 < room →
      (Roster.itemsText (Roster.fitting room es)).length < room := by
    intro es
    induction es with
    | nil => exact fun room h => h
    | cons e es ih =>
      intro room h
      rw [Roster.fitting]
      split
      · rename_i hf
        have := ih (room - e.2.length) (by omega)
        rw [Roster.itemsText, List.flatMap_cons, List.length_append, ← Roster.itemsText]
        omega
      · exact h
  exact Nat.le_of_lt_succ (key _ 2047 (by decide))

theorem rosterAnswer_fits (hn : (abs s).Named) (hid : Holds 64 st.id)
    (hv : 0 ≤ s.roster_version ∧ s.roster_version < 2 ^ 31) : (rosterAnswer s me st).Fits := by
  have hitems := text_s_length (Nat.lt_succ_of_le (shown_length (rosterView s.stores.roster_store)
    (s.client_registry me).username))
  have hjid := text_s_length (hn.session me).full_jid.1
  have hid := text_s_length hid.1
  have hver : (Arg.text (.d s.roster_version)).length ≤ 10 := by
    rw [Arg.text, if_neg (by omega)]
    exact decimal_length_le (by decide) (by omega)
  change (Arg.text (.s (s.client_registry me).full_jid)).length < 64 at hjid
  unfold rosterAnswer
  split
  · have hp : literal fmtRosterVer ≤ 90 := by decide
    refine Text.fits_of_le ?_
    simp only [List.map_cons, List.map_nil, List.sum_cons, List.sum_nil]
    omega
  · have hp : literal fmtRoster ≤ 90 := by decide
    refine Text.fits_of_le ?_
    simp only [List.map_cons, List.map_nil, List.sum_cons, List.sum_nil]
    omega

/-- The answer is sent whole. -/
theorem roster_answer_whole (h : asksRoster (s.client_registry me) st) (hn : (abs s).Named) (hid : Holds 64 st.id)
    (hv : 0 ≤ s.roster_version ∧ s.roster_version < 2 ^ 31) :
    sends (xmpp_route_stanza me st s).2 = sends s ++ [(me, (rosterAnswer s me st).full)] := by
  have hs : sent s me st = [(me, rosterAnswer s me st)] := by
    rw [sent_roster h (hn.session me).username]
    exact (apply_ite (fun t => [(me, t)]) _ _ _).symm
  rw [(route_sends s me st).1, hs, List.map_singleton, rendered, (rosterAnswer_fits hn hid hv).str]

end Answer

/-! From a roster set to the next answer. -/

/-- Nothing of a roster set is lost: the server finds its items as they are written, every item is in its slot when it
was put there, and the next answer shows the item of each contact that was written or was there, and not removed. -/
structure Roster.Returns (T T' : Roster) (user : Str) (xml : List Byte) : Prop where
  read : readItems (parseStanza xml) = writtenItems xml
  stored : T.Stored (ops user (writtenItems xml))
  shown : ∀ jid item, T.wanted (ops user (writtenItems xml)) (user, jid) = some item → (jid, item) ∈ T'.shown user

/-- The sizes are within the limits. -/
structure Roster.Bounded (T : Roster) (user : Str) (xml : List Byte) : Prop where
  stanza : writtenItems xml = [] ∨ endOf (cstr xml) ≤ 1023
  items : ∀ p ∈ writtenItems xml, p.2.length ≤ 255 ∧ ∀ jid, p.1 = some jid → jid.length ≤ 63
  slots : ∀ n, (SlotTable.wishes T.keys ((ops user (writtenItems xml)).take n)).card ≤ MAX_ROSTER_ENTRIES
  answer : T.wantedLength (ops user (writtenItems xml)) user < 2047

theorem Roster.returns_iff (h : T.Distinct) (user : Str) (xml : List Byte) :
    T.Returns (T.setItems user (rosterItems (parseStanza xml).payload.length (parseStanza xml).payload)) user xml ↔
      T.Bounded user xml := by
  have hrun : readItems (parseStanza xml) = writtenItems xml →
      T.setItems user (rosterItems (parseStanza xml).payload.length (parseStanza xml).payload) =
        T.run (ops user (writtenItems xml)) := by
    intro he
    rw [setItems_run, ← he]
    rfl
  constructor
  · rintro ⟨hr, hs, hw⟩
    obtain ⟨h1, h2⟩ := (readItems_eq_iff xml).mp hr
    rw [hrun hr] at hw
    exact ⟨h1, h2, (h.stored_iff _).mp hs, (stored_shown_iff h user hs).mp hw⟩
  · rintro ⟨h1, h2, h3, h4⟩
    have hr := (readItems_eq_iff xml).mpr ⟨h1, h2⟩
    have hs := (h.stored_iff _).mpr h3
    refine ⟨hr, hs, ?_⟩
    rw [hrun hr]
    exact (stored_shown_iff h user hs).mpr h4

/-- After every roster set the next request of the user is answered whole with what the roster shows, and nothing of the
set is lost exactly if all sizes are within the limits. -/
theorem roster_set_returned_iff (d : Disk) (hd : (rosterView (rosterImage d)).Distinct) (ls : List Life) (l : Life)
    (me : Slot) (xml : List Byte) :
    let s := l.run (reboots d ls)
    let user := (s.client_registry me).username
    let s' := (xmpp_route_stanza me (parseStanza xml) s).2
    let T := rosterView s.stores.roster_store
    let T' := rosterView s'.stores.roster_store
    setsRoster (s.client_registry me) (parseStanza xml) →
      (∀ you request, asksRoster (s'.client_registry you) (parseStanza request) → s'.roster_version < 2 ^ 31 →
        sends (xmpp_route_stanza you (parseStanza request) s').2 =
          sends s' ++ [(you, (rosterAnswer s' you (parseStanza request)).full)]) ∧
      (T.Returns T' user xml ↔ T.Bounded user xml) := by
  intro s user s' T T' hset
  have hok : RosterOk s := life_rosterOk l (reboots_rosterOk ls hd)
  have hstate : .AUTHENTICATED ≤ (s.client_registry me).state :=
    Nat.le_trans (by decide : ClientState.rank .AUTHENTICATED ≤ ClientState.rank .SESSION) hset.2.2.1
  have hact : Action s s' := .turn me (.stanza s (parseStanza_ok xml) hstate)
  have hrun := (run_actions (l.on (reboots d ls)) l.events).tail hact
  refine ⟨fun you request ha hv => ?_, ?_⟩
  · obtain ⟨hn, ⟨log, he⟩, -⟩ := actions_entered hrun (boot_named _)
    have hpos : 0 ≤ s'.roster_version := by
      rw [he.version]
      exact Int.add_nonneg (Int.le_refl 0) (Int.natCast_nonneg _)
    exact roster_answer_whole ha hn (parseStanza_attrs request).2 ⟨hpos, hv⟩
  · have hT : T' = T.setItems user (rosterItems (parseStanza xml).payload.length (parseStanza xml).payload) :=
      route_sets_items (run_names _ _) (parseStanza_ok xml) hset
    rw [hT]
    exact Roster.returns_iff hok.rosters user xml

def newcomer : Life := lifeOf (visit 7 authAdmin [])

def oneItem : Str := rosterSet " name='One'"

/-- A contact that fits. -/
theorem roster_set_returned_iff_short :
    let s := newcomer.run (reboots (fun _ => []) [])
    (rosterView s.stores.roster_store).Returns
      (rosterView (xmpp_route_stanza 0 (parseStanza oneItem) s).2.stores.roster_store) (lit "admin") oneItem := by
  have hu : ((newcomer.run (reboots (fun _ => []) [])).client_registry 0).username = lit "admin" := by decide +kernel
  have hset : setsRoster ((newcomer.run (reboots (fun _ => []) [])).client_registry 0) (parseStanza oneItem) := by
    decide +kernel
  have hw : writtenItems oneItem =
      [(some (lit "user1@angelic.local"), lit "<item jid='user1@angelic.local' name='One'/>")] := by decide +kernel
  have hkeys : (rosterView (newcomer.run (reboots (fun _ => []) [])).stores.roster_store).keys = ∅ := by decide +kernel
  have h := (roster_set_returned_iff (fun _ => []) distinct_blank [] newcomer 0 oneItem hset).2
  rw [hu] at h
  refine h.mpr ⟨.inr (by decide +kernel), ?_, fun n => ?_, by decide +kernel⟩
  · rw [hw]
    intro p hp
    obtain rfl := List.mem_singleton.mp hp
    refine ⟨by decide, fun jid hj => ?_⟩
    obtain rfl := Option.some.inj hj
    decide
  · rw [hw, hkeys]
    cases n with
    | zero => decide
    | succ n =>
      rw [List.take_of_length_le (by exact Nat.le_add_left 1 n)]
      decide

/-- One contact in a stanza of more than 1023 bytes. -/
def wideSet : Str :=
  cat ["<iq type='set' id='r2'><query xmlns='jabber:iq:roster'><item jid='user1@angelic.local'/>"] ++
    List.replicate 940 (ch ' ') ++ lit "</query></iq>"

set_option maxRecDepth 20000 in
/-- The roster set is answered with a result, and the request behind it without the contact. -/
theorem wide_set_lost :
    let s := (lifeOf (visit 7 authAdmin [wideSet, rosterGet])).run fun _ => []
    let full_jid := lit "admin@angelic.local/unikernel-0"
    (0, snprintf 1024 fmtResult [.s (lit "r2"), .s full_jid]) ∈ sends s ∧
      (0, snprintf 2300 fmtRosterVer [.s (lit "g1"), .s full_jid, .d 1, .s []]) ∈ sends s ∧
      writtenItems wideSet = [(some (lit "user1@angelic.local"), lit "<item jid='user1@angelic.local'/>")] := by
  decide +kernel

end Angelic.Proofs
