import Angelic.Proofs.Isolation
import Angelic.Proofs.Solicited

namespace Angelic.Proofs
open CString Model Spec StateRel Relation

/-! The answer to a request for the roster, and the version it is marked with. -/

namespace Roster

/-- The contact and the item in a slot, if it is one of the user's. -/
def entryOf (T : Roster) (user : Str) (i : Fin MAX_ROSTER_ENTRIES) : Option (Str × Str) :=
  (T i).bind fun e => if e.1.1 = user then some (e.1.2, e.2) else none

/-- The contacts of a user with their items, in the order of the slots. -/
def entries (T : Roster) (user : Str) : List (Str × Str) :=
  (List.finRange MAX_ROSTER_ENTRIES).filterMap (T.entryOf user)

/-- The entries that fit, up to the first that does not. -/
def fitting : Nat → List (Str × Str) → List (Str × Str)
  | _, [] => []
  | room, e :: es => if e.2.length < room then e :: fitting (room - e.2.length) es else []

def itemsText (es : List (Str × Str)) : Str := es.flatMap Prod.snd

/-- What an answer shows of a roster. -/
def shown (T : Roster) (user : Str) : List (Str × Str) := fitting 2047 (T.entries user)

theorem fitting_eq_self {room : Nat} {es : List (Str × Str)} (hr : 0 < room) :
    fitting room es = es ↔ (itemsText es).length < room := by
  induction es generalizing room with
  | nil => simpa [fitting, itemsText] using hr
  | cons e es ih =>
    rw [fitting, itemsText, List.flatMap_cons, List.length_append]
    by_cases he : e.2.length < room
    · rw [if_pos he, List.cons_inj_right, ih (by omega), itemsText]
      omega
    · rw [if_neg he]
      simp only [reduceCtorEq, false_iff]
      omega

end Roster

/-- The loop over the entries, once it has stopped. -/
theorem collect_stopped {t : Stores} {user : Str} {n : Nat} (acc : Str) (l : List (Fin MAX_ROSTER_ENTRIES)) :
    l.foldl (collectItem t user n) (acc, true) = (acc, true) := by
  induction l with
  | nil => rfl
  | cons i l ih =>
    have hi : collectItem t user n (acc, true) i = (acc, true) := by
      rw [collectItem]
      exact if_pos (.inl rfl)
    rw [List.foldl_cons, hi, ih]

theorem get_items_view {t : Stores} {user : Str} (hu : Holds 32 user) (n : Nat) : roster_store_get_items t user n =
      Roster.itemsText (Roster.fitting (n - 1) ((rosterView t.roster_store).entries user)) := by
  have key : ∀ (l : List (Fin MAX_ROSTER_ENTRIES)) (acc : Str),
      (l.foldl (collectItem t user n) (acc, false)).1 = acc ++ Roster.itemsText (Roster.fitting (n - 1 - acc.length)
        (l.filterMap ((rosterView t.roster_store).entryOf user))) := by
    intro l
    induction l with
    | nil => simp [Roster.fitting, Roster.itemsText]
    | cons i l ih =>
      intro acc
      rw [List.foldl_cons]
      by_cases ha : (t.roster_store i).active ≠ 0 ∧ (t.roster_store i).username.str = user
      · have hv : rosterView t.roster_store i =
            some (((t.roster_store i).username.str, (t.roster_store i).jid.str), (t.roster_store i).item_xml.str) :=
          if_pos ha.1
        have hskip : ¬ ((acc, false).2 = true ∨ (t.roster_store i).active = 0 ∨
            ¬ bufIs (t.roster_store i).username user = true) := by
          simp [ha.1, (bufIs_iff _ hu).mpr ha.2]
        rw [collectItem]
        dsimp only
        rw [if_neg hskip, List.filterMap_cons_some (by rw [Roster.entryOf, hv, Option.bind_some, if_pos ha.2]),
          Roster.fitting]
        by_cases hf : acc.length + (t.roster_store i).item_xml.str.length ≥ n - 1
        · rw [if_pos hf, collect_stopped, if_neg (by dsimp only; omega)]
          simp [Roster.itemsText]
        · rw [if_neg hf, ih, if_pos (by dsimp only; omega), List.length_append, Roster.itemsText, Roster.itemsText,
            List.flatMap_cons, List.append_assoc, Nat.sub_add_eq]
      · have hskip : (acc, false).2 = true ∨ (t.roster_store i).active = 0 ∨
            ¬ bufIs (t.roster_store i).username user = true := by
          rw [not_and_or, not_not] at ha
          rw [bufIs_iff _ hu]
          exact .inr ha
        have hnone : (rosterView t.roster_store).entryOf user i = none := by
          unfold Roster.entryOf rosterView
          split
          · rename_i hact
            rw [Option.bind_some, if_neg fun h => ha ⟨hact, h⟩]
          · rfl
        have hi : collectItem t user n (acc, false) i = (acc, false) := by
          rw [collectItem]
          exact if_pos hskip
        rw [hi, ih, List.filterMap_cons_none hnone]
  have h := key (List.finRange MAX_ROSTER_ENTRIES) []
  rw [List.nil_append, List.length_nil, Nat.sub_zero] at h
  exact h

/-! The points of a run at which stanzas are handled. -/

/-- A stanza was handled for a context of a server on the way from one server to another. -/
structure Passed (s₀ s : Server) (log : List (Ctx × Stanza)) (p : Ctx × Stanza) (s' : Server) (me : Slot) : Prop where
  before : ReflTransGen Action s₀ s'
  entered : Entered s₀ s' log
  ctx : s'.client_registry me = p.1
  after : ReflTransGen Action (xmpp_route_stanza me p.2 s').2 s

/-- Every stanza of the log was handled, when those before it had been. -/
theorem actions_pass {s₀ s : Server} (h : ReflTransGen Action s₀ s) (hn : (abs s₀).Named) :
    ∃ log, Entered s₀ s log ∧ ∀ n : Fin log.length, ∃ s' me, Passed s₀ s (log.take n) (log.get n) s' me := by
  induction h with
  | refl => exact ⟨[], .of_frame rfl rfl rfl, fun n => n.elim0⟩
  | @tail b c hb ha ih =>
    obtain ⟨log, hl, hp⟩ := ih
    have hbn : (abs b).Named := (actions_entered hb hn).1
    have more : ∀ n : Fin log.length, ∃ s' me, Passed s₀ c (log.take n) (log.get n) s' me := by
      intro n
      obtain ⟨s', me, hs⟩ := hp n
      exact ⟨s', me, hs.before, hs.entered, hs.ctx, hs.after.tail ha⟩
    by_cases hst : ∃ me st, c = (xmpp_route_stanza me st b).2 ∧ StanzaOk st ∧ .AUTHENTICATED ≤ (b.client_registry me).state
    · obtain ⟨me, st, rfl, ok, hstate⟩ := hst
      have he := route_entered ok (hbn.session me).username hstate
      refine ⟨_, hl.trans he, fun n => ?_⟩
      by_cases hlt : n < log.length
      · rw [List.take_append_of_le_length (Nat.le_of_lt hlt), List.get_eq_getElem, List.getElem_append_left hlt]
        exact more ⟨n, hlt⟩
      · have hlen : (n : Nat) = log.length := by
          have := n.isLt
          simp only [List.length_append, List.length_singleton] at this
          omega
        refine ⟨b, me, hb, ?_, ?_, ?_⟩
        · rw [hlen, List.take_left]
          exact hl
        · simp [hlen]
        · simp [hlen, ReflTransGen.refl]
    · have he : Entered b c [] := by
        cases ha with
        | turn me h =>
          cases h with
          | own h =>
            obtain ⟨hm, hr⟩ := local_frame (.single h)
            exact .of_frame hm (local_version h) hr
          | stanza ok h => exact absurd ⟨me, _, rfl, ok, h⟩ hst
        | accept pcb =>
          obtain ⟨o, he⟩ := accept_run pcb b
          rw [he]
          exact .of_frame rfl rfl rfl
      have hl' := hl.trans he
      rw [List.append_nil] at hl'
      exact ⟨log, hl', more⟩

theorem run_passes (m : Machine) (es : List Event) (n : Fin (m.run es).routed.length) :
    ∃ s' me, Passed m.boot (m.run es) ((m.run es).routed.take n) ((m.run es).routed.get n) s' me := by
  obtain ⟨log, hl, hp⟩ := actions_pass (run_actions m es) (boot_named m)
  have hr : (m.run es).routed = log := hl.routed
  revert n
  rw [hr]
  exact hp

/-! Versions. -/

/-- A request for the roster. -/
def asksRoster (c : Ctx) (st : Stanza) : Prop :=
  ¬ restarts st ∧ Service.of st.xmlns = some .roster ∧ .SESSION ≤ c.state ∧ st.type ≠ .IQ_SET

/-- It names a version, so that the answer does. -/
def wantsVersion (st : Stanza) : Bool := hasAttr st.payload "ver=" "ver "

theorem sent_roster {s : Server} {me : Slot} {st : Stanza} (h : asksRoster (s.client_registry me) st)
    (hu : Holds 32 (s.client_registry me).username) :
    let c := s.client_registry me
    let items := Roster.itemsText ((rosterView s.stores.roster_store).shown c.username)
    sent s me st = if wantsVersion st then
        [(me, ⟨2300, fmtRosterVer, [.s st.id, .s c.full_jid, .d s.roster_version, .s items]⟩)]
      else [(me, ⟨2300, fmtRoster, [.s st.id, .s c.full_jid, .s items]⟩)] := by
  obtain ⟨hr, hk, hs, ht⟩ := h
  have hmin : ¬ (s.client_registry me).state < Service.min_state .roster := Nat.not_lt.mpr hs
  unfold sent
  rw [if_neg hr, hk]
  dsimp only
  rw [if_neg hmin]
  change Texts.roster s me st = _
  rw [Texts.roster, if_neg ht, get_items_view hu]
  rfl

/-- The version after the first stanzas of a life. -/
def versionAt (log : List (Ctx × Stanza)) (n : Nat) : Int := (log.take n).countP fun p => setsRoster p.1 p.2

theorem versionAt_succ (log : List (Ctx × Stanza)) (n : Fin log.length) :
    versionAt log (n + 1) = versionAt log n + if setsRoster (log.get n).1 (log.get n).2 then 1 else 0 := by
  have ht : log.take (n + 1) = log.take n ++ [log.get n] := (List.take_append_getElem n.isLt).symm
  rw [versionAt, ht, List.countP_append, List.countP_singleton, versionAt]
  by_cases hs : setsRoster (log.get n).1 (log.get n).2
  · simp
  · simp

theorem versionAt_mono (log : List (Ctx × Stanza)) {n k : Nat} (h : n ≤ k) : versionAt log n ≤ versionAt log k := by
  have : (log.take n).Sublist (log.take k) := List.take_sublist_take_left h
  exact Int.ofNat_le.mpr this.countP_le

/-- What does not change without a roster set depends on the version alone. -/
theorem same_version_iff {α : Type} {log : List (Ctx × Stanza)} {f : Nat → α}
    (hend : ∀ n, log.length ≤ n → f (n + 1) = f n) : (∀ n k, versionAt log n = versionAt log k → f n = f k) ↔
      ∀ n : Fin log.length, ¬ setsRoster (log.get n).1 (log.get n).2 → f (n + 1) = f n := by
  constructor
  · intro h n hs
    refine h _ _ ?_
    rw [versionAt_succ, if_neg hs, Int.add_zero]
  · intro h
    have up : ∀ n j, versionAt log n = versionAt log (n + j) → f n = f (n + j) := by
      intro n j
      induction j with
      | zero => exact fun _ => rfl
      | succ j ih =>
        intro (he : versionAt log n = versionAt log (n + j + 1))
        have h1 := versionAt_mono log (Nat.le_add_right n j)
        have h2 := versionAt_mono log (Nat.le_succ (n + j))
        rw [ih (by rw [Nat.succ_eq_add_one] at h2; omega)]
        change f (n + j) = f (n + j + 1)
        by_cases hn : n + j < log.length
        · refine (h ⟨n + j, hn⟩ fun hs => ?_).symm
          have hv : versionAt log (n + j + 1) = _ := versionAt_succ log ⟨n + j, hn⟩
          rw [if_pos hs] at hv
          dsimp only at hv
          omega
        · exact (hend _ (by omega)).symm
    intro n k he
    rcases Nat.le_total n k with hnk | hnk
    · obtain ⟨j, rfl⟩ := Nat.exists_eq_add_of_le hnk
      exact up n j he
    · obtain ⟨j, rfl⟩ := Nat.exists_eq_add_of_le hnk
      exact (up k j he.symm).symm

def rosterGet : Str := cat ["<iq type='get' id='g1'><query xmlns='jabber:iq:roster' ver='0'/></iq>"]

end Angelic.Proofs
