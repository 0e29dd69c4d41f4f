import Mathlib.Order.WithBot
import Angelic.Lib.SlotQueue
import Angelic.Proofs.Isolation
import Angelic.Proofs.Routing

namespace Angelic.Proofs
open CString Model StateRel

variable {v : Server} {i : Fin MAX_OFFLINE_MSGS}
variable {n : Nat} {s : Server} {d : Deed} {me : Slot} {st : Stanza}

/-! Where the entries of the queues come from, and in which order a user is sent the messages. -/

/-- For every slot of the queues the place in the course of the stanza that is kept there. What
was on the disk when the run began is older than all of them. -/
structure Origins where
  messages : Fin MAX_OFFLINE_MSGS → WithBot Nat
  subscriptions : Fin MAX_PENDING_SUBS → WithBot Nat

def filed (g : Fin k → WithBot Nat) (n : Nat) : Option (Fin k) → Fin k → WithBot Nat
  | some i => Function.update g i n
  | none => g

def Origins.record (o : Origins) (n : Nat) (s : Server) : Deed → Origins
  | .stanza me st => ⟨filed o.messages n (mailSlot s me st), filed o.subscriptions n (subSlot s me st)⟩
  | _ => o

variable {o : Origins}

theorem record_of_not_stanza (h : ∀ me st, d ≠ .stanza me st) : o.record n s d = o := by
  cases d with
  | stanza me st => exact absurd rfl (h me st)
  | _ => rfl

def originsAt (s : Server) (ds : List Deed) : Nat → Origins
  | 0 => ⟨fun _ => ⊥, fun _ => ⊥⟩
  | n + 1 => ds[n]?.elim (originsAt s ds n) ((originsAt s ds n).record n (stateAt s ds n))

section Origins
variable {s : Server} {ds : List Deed} {n : Nat} {d : Deed}

theorem originsAt_succ (h : ds[n]? = some d) :
    originsAt s ds (n + 1) = (originsAt s ds n).record n (stateAt s ds n) d := by
  rw [originsAt, h]
  rfl

theorem originsAt_end (h : ds[n]? = none) : originsAt s ds (n + 1) = originsAt s ds n := by
  rw [originsAt, h]
  rfl

theorem filed_lt {g : Fin k → WithBot Nat} (hg : ∀ i, g i < n) (at_ : Option (Fin k)) (i : Fin k) :
    filed g n at_ i < (n + 1 : Nat) := by
  have hn : (n : WithBot Nat) < (n + 1 : Nat) := WithBot.coe_lt_coe.mpr (Nat.lt_succ_self n)
  cases at_ with
  | none => exact (hg i).trans hn
  | some j =>
    by_cases hj : i = j
    · subst hj
      rw [filed, Function.update_self]
      exact hn
    · rw [filed, Function.update_of_ne hj]
      exact (hg i).trans hn

/-- Entries come from stanzas that were handled before. -/
theorem originsAt_lt (s : Server) (ds : List Deed) (n : Nat) :
    (∀ i, (originsAt s ds n).messages i < n) ∧ ∀ i, (originsAt s ds n).subscriptions i < n := by
  induction n with
  | zero => exact ⟨fun _ => WithBot.bot_lt_coe 0, fun _ => WithBot.bot_lt_coe 0⟩
  | succ n ih =>
    have same : (∀ i, (originsAt s ds n).messages i < (n + 1 : Nat)) ∧
        ∀ i, (originsAt s ds n).subscriptions i < (n + 1 : Nat) :=
      ⟨filed_lt ih.1 none, filed_lt ih.2 none⟩
    cases hd : ds[n]? with
    | none =>
      rw [originsAt_end hd]
      exact same
    | some d =>
      rw [originsAt_succ hd]
      cases d with
      | stanza me st => exact ⟨filed_lt ih.1 _, filed_lt ih.2 _⟩
      | _ => exact same

end Origins

/-! What a deed makes of the lists. -/

theorem after_lists (h : d.Due s) (hd : ∀ me st, d ≠ .stanza me st) : lists (after s d).stores = lists s.stores :=
  congrArg (fun m : Mem => lists m.stores) (after_mem h hd)

theorem after_stanza (s : Server) (me : Slot) (st : Stanza) :
    lists (after s (.stanza me st)).stores = listsAfter s me st ∧
      sends (after s (.stanza me st)) = sends s ++ (sent s me st).map rendered := by
  obtain ⟨hsent, hserved⟩ := route_sends s me st
  exact ⟨hserved.lists, hsent⟩

theorem sent_initial (h : logsIn (v.client_registry me) st) : sent v me st = Texts.initialPresence v me st := by
  obtain ⟨hr, hx, hs, hc, ht, hi⟩ := h
  have hp : st.type.isPresence := by rw [ht]; rfl
  have hm : ¬ (ClientState.SESSION ≤ (v.client_registry me).state ∧ st.type = .MESSAGE) := fun hm => by
    rw [ht] at hm
    cases hm.2
  rw [sent, if_neg hr, hx]
  dsimp only
  rw [Texts.byKind]
  dsimp only [Texts.reg]
  rw [if_neg hm, if_pos ⟨hs, hp⟩, Texts.routePresence, if_neg hc]
  dsimp only [Texts.reg]
  rw [if_pos ⟨ht, hi⟩]

/-- A login is sent the subscriptions and then the messages of its user, in the order of the arrays. -/
theorem sent_login (h : logsIn (v.client_registry me) st) : ∃ front, sent v me st =
      front ++ ((requestsOf v me).map fun i => (me, subText (v.client_registry me) (v.stores.pending_subs i))) ++
        (mailOf v me).map fun i => (me, mailText (v.client_registry me) (v.stores.offline_store i)) := by
  rw [sent_initial h, Texts.initialPresence, each_offline, each_pending]
  exact ⟨_, rfl⟩

/-! The order of the messages. -/

/-- The user a message waits for. -/
def keyOf (e : OfflineMsg) : Option Str := if e.active ≠ 0 then some e.to_user.str else none

theorem keyOf_eq_some {e : OfflineMsg} {u : Str} : keyOf e = some u ↔ waits u e := by
  unfold keyOf waits
  split <;> simp [*]

/-- What a login of any user would be sent now comes in the order in which it was accepted. -/
def InOrder (s : Server) (o : Origins) : Prop :=
  ∀ u i j, i < j → waits u (s.stores.offline_store i) → waits u (s.stores.offline_store j) →
    o.messages i ≤ o.messages j

/-- The message a stanza leaves is behind all that wait for the same user. -/
def Behind (s : Server) : Deed → Prop
  | .stanza me st => ∀ i, mailSlot s me st = some i →
      ∀ j, waits (localPart (bare st.to_)) (s.stores.offline_store j) → j < i
  | _ => True

def messageKeys (s : Server) (i : Fin MAX_OFFLINE_MSGS) : Option Str := keyOf (s.stores.offline_store i)

theorem inOrder_iff : InOrder s o ↔ SlotQueue.InOrder (messageKeys s) o.messages := by
  simp only [InOrder, SlotQueue.InOrder, messageKeys, keyOf_eq_some]

theorem keyOf_drained (u : Str) (e : OfflineMsg) : keyOf (drainedOne u e) = keyOf e ∨ keyOf (drainedOne u e) = none := by
  unfold drainedOne
  split
  · exact .inr rfl
  · exact .inl rfl

theorem keyOf_letter (v : Server) (me : Slot) (st : Stanza) (i : Fin MAX_OFFLINE_MSGS) :
    keyOf (letter v me st i) = some (localPart (bare st.to_)) := by
  have hu : (letter v me st i).to_user.str = localPart (bare st.to_) :=
    Buf.copied_whole _ (by decide) (localPart_holds (bare_holds st.to_).2)
  exact congrArg some hu

theorem directSlot_free (h : directSlot v st = some i) : keyOf (v.stores.offline_store i) = none := by
  unfold directSlot at h
  split at h
  · cases h
  · have hi : ((v.stores.offline_store i).active == 0) = true :=
      List.find?_some (p := fun i => (v.stores.offline_store i).active == 0) h
    rw [keyOf, if_neg (not_not.mpr (beq_iff_eq.mp hi))]

theorem mailSlot_free (h : mailSlot v me st = some i) : keyOf (v.stores.offline_store i) = none := by
  unfold mailSlot at h
  split at h
  · exact directSlot_free h
  · cases h

theorem mailSlot_of_login (h : logsIn (v.client_registry me) st) : mailSlot v me st = none := if_neg fun hm => by
  have ht := hm.2.2.2.2
  rw [h.2.2.2.2.1] at ht
  cases ht

section Stanza
variable {s : Server} {me : Slot} {st : Stanza}

theorem messageKeys_kept (h : mailSlot s me st = none) (i : Fin MAX_OFFLINE_MSGS) :
    messageKeys (after s (.stanza me st)) i = messageKeys s i ∨ messageKeys (after s (.stanza me st)) i = none := by
  have hm : (after s (.stanza me st)).stores.offline_store = messagesAfter s me st :=
    congrArg Lists.messages (after_stanza s me st).1
  rw [messageKeys, hm, messagesAfter, h]
  split
  · exact keyOf_drained _ _
  · exact .inl rfl

theorem messageKeys_put (h : mailSlot s me st = some i) : messageKeys (after s (.stanza me st)) =
      Function.update (messageKeys s) i (some (localPart (bare st.to_))) := by
  have hl : ¬ logsIn (s.client_registry me) st := fun hl => by
    rw [mailSlot_of_login hl] at h
    cases h
  have hm : (after s (.stanza me st)).stores.offline_store = messagesAfter s me st :=
    congrArg Lists.messages (after_stanza s me st).1
  change (fun j => keyOf ((after s (.stanza me st)).stores.offline_store j)) = _
  rw [hm, messagesAfter, if_neg hl, h, posted, ← keyOf_letter s me st i]
  exact Function.comp_update keyOf ..

end Stanza

/-- A login keeps the order of what it leaves, a message keeps it when it is put last. -/
theorem stanza_inOrder_iff (ho : ∀ i, o.messages i < n) (me : Slot) (st : Stanza) (h : InOrder s o) :
    InOrder (after s (.stanza me st)) (o.record n s (.stanza me st)) ↔ Behind s (.stanza me st) := by
  rw [inOrder_iff] at h ⊢
  change SlotQueue.InOrder _ (filed o.messages n (mailSlot s me st)) ↔ ∀ i, mailSlot s me st = some i → _
  cases hi : mailSlot s me st with
  | none => exact iff_of_true (h.take (messageKeys_kept hi)) fun i hi => absurd hi (Option.some_ne_none i).symm
  | some i =>
    rw [messageKeys_put hi, filed, h.put_iff (mailSlot_free hi) ho]
    simp only [messageKeys, keyOf_eq_some, Option.some.injEq, forall_eq']

theorem deed_inOrder_iff (hd : d.Due s)
    (ho : ∀ i, o.messages i < n) (h : InOrder s o) : InOrder (after s d) (o.record n s d) ↔ Behind s d := by
  by_cases hst : ∃ me st, d = .stanza me st
  · obtain ⟨me, st, rfl⟩ := hst
    exact stanza_inOrder_iff ho me st h
  · have hne : ∀ me st, d ≠ .stanza me st := fun me st he => hst ⟨me, st, he⟩
    have hm : (after s d).stores.offline_store = s.stores.offline_store :=
      congrArg Lists.messages (after_lists hd hne)
    have hb : Behind s d := by
      cases d with
      | stanza me st => exact absurd rfl (hne me st)
      | _ => trivial
    refine iff_of_true ?_ hb
    rw [record_of_not_stanza hne]
    exact fun u i j hij => hm ▸ h u i j hij

theorem course_inOrder_iff {ds : List Deed} (h : Course s ds) : (∀ n, InOrder (stateAt s ds n) (originsAt s ds n)) ↔
      ∀ n, ∀ d ∈ ds[n]?, Behind (stateAt s ds n) d := by
  refine all_states_iff (fun _ _ _ _ _ _ => le_refl _) fun n hn => ?_
  cases hd : ds[n]? with
  | none =>
    rw [stateAt_end hd, originsAt_end hd]
    exact iff_of_true hn fun d hd => by cases hd
  | some d =>
    rw [stateAt_succ hd, originsAt_succ hd, deed_inOrder_iff (h n d hd) (originsAt_lt s ds n).1 hn]
    simp

/-- Every run has a course, and in each course a login is sent the messages of its user last, in the
order of the array. All along they are in the order in which they were accepted exactly when each
that was accepted found none of the same user behind its slot. -/
theorem offline_order_iff (m : Machine) (es : List Event) :
    (∃ ds, Machine.Courses m es ds) ∧ ∀ ds, Machine.Courses m es ds →
      (∀ n me st, ds[n]? = some (.stanza me st) → logsIn ((stateAt m.boot ds n).client_registry me) st →
        ∃ front, sends (stateAt m.boot ds (n + 1)) = sends (stateAt m.boot ds n) ++ front ++
          (mailOf (stateAt m.boot ds n) me).map fun i =>
            (me, (mailText ((stateAt m.boot ds n).client_registry me)
              ((stateAt m.boot ds n).stores.offline_store i)).str)) ∧
      ((∀ n, InOrder (stateAt m.boot ds n) (originsAt m.boot ds n)) ↔
        ∀ n, ∀ d ∈ ds[n]?, Behind (stateAt m.boot ds n) d) := by
  refine ⟨run_course m es, fun ds hc => ⟨fun n me st hd hl => ?_, course_inOrder_iff hc.1⟩⟩
  obtain ⟨front, hf⟩ := sent_login hl
  rw [stateAt_succ hd, (after_stanza _ me st).2, hf, List.map_append, List.map_map, ← List.append_assoc]
  exact ⟨_, rfl⟩

def authUser2 : Str := lit "<auth mechanism='PLAIN'>AHVzZXIyAHBhc3My</auth>"

def body (text : String) : Str := cat ["<body>", text, "</body>"]

def chatTo (user text : String) : Str :=
  cat ["<message to='", user, "@angelic.local' type='chat'>", "<body>", text, "</body></message>"]

/-- A message for one user, two for another, and a login of the first in between. -/
def swapped : List Event :=
  visit 7 authAdmin [chatTo "user1" "other", chatTo "user2" "first"] ++ visit 8 authUser1 [lit "<presence/>"] ++
    [.recv 7 [passed (chatTo "user2" "second")] true] ++ visit 9 authUser2 [lit "<presence/>"]

/-- The message accepted last is delivered first. -/
theorem second_before_first :
    let s := blank.run swapped
    (s.routed.filterMap fun p => if mails p.1 p.2 then some p.2.payload else none) =
        [body "other", body "first", body "second"] ∧
      (sends s).drop ((sends s).length - 2) =
        ["second", "first"].map fun text =>
          (2, cat (["<message from='admin@angelic.local/unikernel-0' to='user2@angelic.local/unikernel-0' type='chat'>",
            "<body>", text, "</body>"] ++ DELAY)) := by
  decide +kernel

end Angelic.Proofs
