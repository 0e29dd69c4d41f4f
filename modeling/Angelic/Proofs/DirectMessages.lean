import Angelic.Proofs.Addressees
import Angelic.Proofs.RoomChanges

namespace Angelic.Proofs
open CString Model Relation Spec

variable {m : Machine} {s : Server}

/-! What becomes of a message to a user: it is delivered, stored or refused, and only one of the three. -/

/-- An address without the resource, whatever its length. -/
def bareJid (jid : Str) : Str := (cstr jid).takeWhile (· != ch '/')

/-- A client in session with the bare address of the stanza. -/
structure Addressee (s : Server) (st : Stanza) (i : Slot) : Prop where
  live : (s.client_registry i).live
  jid : bareJid (s.client_registry i).full_jid = bareJid st.to_

instance (s : Server) (st : Stanza) (i : Slot) : Decidable (Addressee s st i) :=
  decidable_of_iff ((s.client_registry i).live = true ∧ bareJid (s.client_registry i).full_jid = bareJid st.to_)
    ⟨fun h => ⟨h.1, h.2⟩, fun h => ⟨h.1, h.2⟩⟩

section Outcomes
variable (me : Slot) (st : Stanza) (s s' : Server)

/-- Each session of the addressee gets one copy, nothing else is sent and no store changes. -/
structure Delivered : Prop where
  present : ∃ i, Addressee s st i
  sent : sends s' = sends s ++
    ((List.finRange MAX_USERS).filter fun i => decide (Addressee s st i)).map fun i =>
      (i, chatText st (s.client_registry me).full_jid)
  stores : s'.stores = s.stores

/-- There is no session of the addressee; the message takes a free slot and nothing is sent. -/
structure Stored : Prop where
  absent : ∀ i, ¬ Addressee s st i
  sent : sends s' = sends s
  stores : ∃ i, (s.stores.offline_store i).active = 0 ∧ (letter s me st i).active = 1 ∧
    s'.stores = { s.stores with offline_store := Function.update s.stores.offline_store i (letter s me st i) }

/-- There is no session of the addressee; no store changes and the sender gets one error. -/
structure TurnedDown : Prop where
  absent : ∀ i, ¬ Addressee s st i
  sent : sends s' = sends s ++ [(me, snprintf 512 fmtNotDelivered [.s st.to_, .s (s.client_registry me).full_jid])]
  stores : s'.stores = s.stores

end Outcomes

/-! Addresses. The handler compares the first 63 bytes, and no session has a bare address that long. -/

theorem bare_eq_take (jid : Str) : bare jid = (bareJid jid).take 63 := by
  rw [bare, strncpy, bareJid]
  exact takeWhile_take _ _ _

theorem length_takeWhile_le {p : α → Bool} {x : α} (hx : p x = false) (l l' : List α) :
    ((l ++ x :: l').takeWhile p).length ≤ l.length := by
  induction l with
  | nil => simp [hx]
  | cons a l ih =>
    by_cases ha : p a
    · simpa [ha] using ih
    · simp [ha]

theorem length_bareJid_fullJid {u : Str} (hu : Holds 32 u) {n : Nat} (hn : n < 9999) :
    (bareJid (fullJid u n)).length < 63 := by
  have hd : lit "@angelic.local/unikernel-" = lit "@angelic.local" ++ ch '/' :: lit "unikernel-" := by decide
  have hsplit : fullJid u n = (u ++ lit "@angelic.local") ++ ch '/' :: (lit "unikernel-" ++ decimal n) := by
    rw [fullJid_eq hu hn, hd]
    simp
  have hlen : (u ++ lit "@angelic.local").length < 63 := by
    have hl : (lit "@angelic.local").length = 14 := by decide
    have := hu.1
    rw [List.length_append, hl]
    omega
  rw [bareJid, cstr_of_clean (fullJid_holds u n).2, hsplit]
  exact Nat.lt_of_le_of_lt (length_takeWhile_le (by decide) _ _) hlen

theorem Arises.named (h : Arises m s) : (abs s).Named :=
  Registry.reach_keeps (fun _ _ hs => hs.names) (actions_refines h) .empty

/-- In a state that arises the addresses of clients in session are short. -/
theorem Arises.short (h : Arises m s) {i : Slot} (hi : (s.client_registry i).live) :
    (bareJid (s.client_registry i).full_jid).length < 63 := by
  have haddr : (abs s).Addressed := Registry.reach_keeps (fun _ _ hs => hs.addressed) (actions_refines h) .empty
  have hpcb : (s.client_registry i).pcb.isSome := by
    rw [Ctx.live, Bool.and_eq_true] at hi
    exact hi.1
  have hjid : (s.client_registry i).full_jid = [] ∨
      ∃ n < 9999, (s.client_registry i).full_jid = fullJid (s.client_registry i).username n :=
    (haddr.session i).full_jid hpcb
  rcases hjid with hj | ⟨n, hn, hj⟩
  · rw [hj]
    decide
  · rw [hj]
    exact length_bareJid_fullJid (h.named.session i).username hn

theorem Arises.at_iff (h : Arises m s) (st : Stanza) (i : Slot) :
    Texts.at_ s (bare st.to_) i = true ↔ Addressee s st i := by
  rw [Proofs.at_iff, bare_eq_take, bare_eq_take]
  refine ⟨fun ⟨hl, he⟩ => ⟨hl, ?_⟩, fun ha => ⟨ha.live, by rw [ha.jid]⟩⟩
  have hs := h.short hl
  rw [List.take_of_length_le (Nat.le_of_lt hs)] at he
  have hlt : ((bareJid st.to_).take 63).length < 63 := he ▸ hs
  rw [List.length_take] at hlt
  rw [he, List.take_of_length_le (by omega)]

section Outcome
variable {m : Machine} {s : Server} {me : Slot} {st : Stanza}

theorem Arises.present_iff (h : Arises m s) : present s st = true ↔ ∃ i, Addressee s st i := by
  rw [present, List.any_eq_true]
  refine ⟨fun ⟨i, _, hi⟩ => ⟨i, (h.at_iff st i).mp hi⟩, fun ⟨i, hi⟩ => ⟨i, List.mem_finRange i, (h.at_iff st i).mpr hi⟩⟩

/-- The copies the handler sends. -/
theorem Arises.copies (h : Arises m s) :
    (each MAX_USERS fun i => if Texts.at_ s (bare st.to_) i then
        [(i, Texts.chat st (s.client_registry me).full_jid)] else []).map rendered =
      ((List.finRange MAX_USERS).filter fun i => decide (Addressee s st i)).map fun i =>
        (i, chatText st (s.client_registry me).full_jid) := by
  have hp : Texts.at_ s (bare st.to_) = fun i => decide (Addressee s st i) := by
    funext i
    rw [Bool.eq_iff_iff, decide_eq_true_eq]
    exact h.at_iff st i
  rw [each, flatMap_if, List.map_map, hp]
  rfl

theorem copies_absent (hn : ∀ i, ¬ Addressee s st i) :
    ((List.finRange MAX_USERS).filter fun i => decide (Addressee s st i)) = [] :=
  List.filter_eq_nil_iff.mpr fun i _ hi => hn i (of_decide_eq_true hi)

theorem directSlot_inactive {i : Fin MAX_OFFLINE_MSGS} (h : directSlot s st = some i) :
    (s.stores.offline_store i).active = 0 := by
  by_contra ha
  have hf := directSlot_free h
  rw [keyOf, if_pos ha] at hf
  cases hf

/-- What the handler sends and leaves, by the sessions there are and the slot there is. -/
theorem Arises.direct (h : Arises m s) (hc : ¬ (strstr st.to_ CONFERENCE).isSome) :
    sends (handle_chat_message me st s).2 = sends s ++
        (((List.finRange MAX_USERS).filter fun i => decide (Addressee s st i)).map fun i =>
          (i, chatText st (s.client_registry me).full_jid)) ++
        (if present s st ∨ (directSlot s st).isSome then []
          else [(me, snprintf 512 fmtNotDelivered [.s st.to_, .s (s.client_registry me).full_jid])]) ∧
      (handle_chat_message me st s).2.stores =
        { s.stores with offline_store := posted s me st (directSlot s st) } := by
  have hrun : handle_chat_message me st = directMessage me st := if_neg hc
  obtain ⟨hs, hn⟩ := sends_directMessage me st s (Now.refl (G := fun _ => True) trivial)
  have hu : Texts.undelivered s st = true ↔ ¬ (present s st = true ∨ (directSlot s st).isSome = true) := by
    unfold Texts.undelivered directSlot freeMail
    rw [← present]
    cases present s st with
    | true => simp
    | false =>
      cases offline_msg_is_full s.stores (localPart (bare st.to_)) with
      | true => simp
      | false => simp
  rw [hrun]
  refine ⟨?_, hn.stores⟩
  rw [hs, Texts.directMessage, List.map_append, List.append_assoc]
  refine congrArg (sends s ++ ·) (congrArg₂ (· ++ ·) h.copies ?_)
  by_cases hd : Texts.undelivered s st = true
  · rw [if_pos hd, if_neg (hu.mp hd)]
    rfl
  · rw [if_neg hd, if_pos (not_not.mp fun hn => hd (hu.mpr hn))]
    rfl

end Outcome

/-- In every state that arises a message that is not for the conference service is delivered to the sessions of
its addressee, stored for later or refused, and only one of the three happens. -/
theorem direct_message_outcomes (m : Machine) (s : Server) (h : Arises m s) (me : Slot) (st : Stanza)
    (hc : ¬ (strstr st.to_ CONFERENCE).isSome) :
    let s' := (handle_chat_message me st s).2
    (Delivered me st s s' ∨ Stored me st s s' ∨ TurnedDown me st s s') ∧ ¬ (Delivered me st s s' ∧ Stored me st s s') ∧
      ¬ (Delivered me st s s' ∧ TurnedDown me st s s') ∧ ¬ (Stored me st s s' ∧ TurnedDown me st s s') := by
  intro s'
  refine ⟨?_, fun ⟨hd, hs⟩ => ?_, fun ⟨hd, hr⟩ => ?_, fun ⟨hs, hr⟩ => ?_⟩
  · obtain ⟨hsent, hstores⟩ := @Arises.direct _ _ me _ h hc
    by_cases hp : present s st = true
    · have hslot : directSlot s st = none := if_pos (.inl hp)
      rw [if_pos (.inl hp), List.append_nil] at hsent
      rw [hslot] at hstores
      exact .inl ⟨h.present_iff.mp hp, hsent, hstores⟩
    · have habsent : ∀ i, ¬ Addressee s st i := fun i hi => hp (h.present_iff.mpr ⟨i, hi⟩)
      rw [copies_absent habsent, List.map_nil, List.append_nil] at hsent
      cases hslot : directSlot s st with
      | none =>
        rw [hslot] at hstores hsent
        rw [if_neg fun ho => ho.elim hp Bool.false_ne_true] at hsent
        exact .inr (.inr ⟨habsent, hsent, hstores⟩)
      | some i =>
        rw [hslot] at hstores hsent
        rw [if_pos (.inr rfl), List.append_nil] at hsent
        exact .inr (.inl ⟨habsent, hsent, i, directSlot_inactive hslot, rfl, hstores⟩)
  · obtain ⟨i, hi⟩ := hd.present
    exact hs.absent i hi
  · obtain ⟨i, hi⟩ := hd.present
    exact hr.absent i hi
  · have hlen := congrArg List.length (hs.sent.symm.trans hr.sent)
    rw [List.length_append, List.length_singleton] at hlen
    omega

/-- Two users in session. -/
def bothHere : Server := blank.run (visit 7 authAdmin [] ++ visit 8 authUser1 [])

def greeting : Stanza :=
  { Stanza.zero with
    type := .MESSAGE, to_ := lit "user1@angelic.local/unikernel-5", payload := lit "<body>hi</body>" }

/-- The message of one to the other is delivered, though to another session than the one it names. -/
theorem greeting_delivered :
    let s' := (handle_chat_message 0 greeting bothHere).2
    (Delivered 0 greeting bothHere s' ∨ Stored 0 greeting bothHere s' ∨ TurnedDown 0 greeting bothHere s') ∧
      sends s' = sends bothHere ++ [(1, cat
        ["<message from='admin@angelic.local/unikernel-0' to='user1@angelic.local/unikernel-5' type='chat'>",
          "<body>hi</body>", "</message>"])] := by
  refine ⟨(direct_message_outcomes blank bothHere (run_actions _ _) 0 greeting (by decide)).1, ?_⟩
  decide +kernel

end Angelic.Proofs
