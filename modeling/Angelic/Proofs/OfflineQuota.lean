import Angelic.Proofs.OfflineOrder
import Angelic.Proofs.StoreImages

namespace Angelic.Proofs
open CString Model StateRel Relation

/-! The share of the message store that one addressee can have, over all runs and starts. -/

/-- The entries that wait for a user. -/
def entriesOf (q : Messages) (user : Str) : List (Fin MAX_OFFLINE_MSGS) :=
  (List.finRange MAX_OFFLINE_MSGS).filter fun i => decide ((q i).active ≠ 0 ∧ (q i).to_user.str = user)

/-- No user has more than half of the store. -/
def WithinQuota (t : Stores) : Prop := ∀ user, (entriesOf t.offline_store user).length ≤ MAX_OFFLINE_MSGS / 2

section Quota
variable {s : Server} {me : Slot} {st : Stanza}

theorem length_entriesOf (q : Messages) (user : Str) :
    (entriesOf q user).length = SlotQueue.share (fun i => keyOf (q i)) user := by
  have hp : (fun i => decide ((q i).active ≠ 0 ∧ (q i).to_user.str = user)) =
      fun i => decide (keyOf (q i) = some user) := by
    funext i
    exact decide_eq_decide.mpr keyOf_eq_some.symm
  rw [entriesOf, SlotQueue.share, hp]

theorem withinQuota_iff (t : Stores) :
    WithinQuota t ↔ SlotQueue.Bounded (fun i => keyOf (t.offline_store i)) (MAX_OFFLINE_MSGS / 2) := by
  simp only [WithinQuota, SlotQueue.Bounded, length_entriesOf]

/-- The check of the handler is about the key that the store computes anew. -/
theorem is_full_iff (t : Stores) (user : Str) :
    offline_msg_is_full t user = true ↔ MAX_OFFLINE_MSGS / 2 ≤ (entriesOf t.offline_store user).length := by
  have hp : (fun i => (t.offline_store i).active != 0 && (t.offline_store i).to_user.str == user) =
      fun i => decide ((t.offline_store i).active ≠ 0 ∧ (t.offline_store i).to_user.str = user) := by
    funext i
    rw [Bool.eq_iff_iff, decide_eq_true_eq, Bool.and_eq_true, bne_iff_ne, beq_iff_eq]
  rw [offline_msg_is_full, decide_eq_true_eq, hp, entriesOf]

theorem directSlot_below {i : Fin MAX_OFFLINE_MSGS} (h : directSlot s st = some i) :
    (entriesOf s.stores.offline_store (localPart (bare st.to_))).length < MAX_OFFLINE_MSGS / 2 := by
  unfold directSlot at h
  split at h
  · cases h
  · rename_i hn
    rw [← Nat.not_le, ← is_full_iff]
    exact fun hf => hn (.inr hf)

theorem posted_within (h : WithinQuota s.stores) :
    SlotQueue.Bounded (fun i => keyOf (posted s me st (mailSlot s me st) i)) (MAX_OFFLINE_MSGS / 2) := by
  rw [withinQuota_iff] at h
  cases hi : mailSlot s me st with
  | none => exact h
  | some i =>
    have hd : directSlot s st = some i := by
      unfold mailSlot at hi
      split at hi
      · exact hi
      · cases hi
    have hlt := directSlot_below hd
    rw [length_entriesOf] at hlt
    have hput := h.put hlt i
    have he : (fun j => keyOf (posted s me st (some i) j)) =
        Function.update (fun j => keyOf (s.stores.offline_store j)) i (some (localPart (bare st.to_))) := by
      funext j
      by_cases hj : j = i
      · subst hj
        rw [posted, Function.update_self, Function.update_self, keyOf_letter]
      · rw [posted, Function.update_of_ne hj, Function.update_of_ne hj]
    rwa [he]

theorem quota_lasts : Lasting .offline WithinQuota := by
  refine ⟨fun t u he h user => ?_, fun user => ?_, fun {s me st} _ _ h => ?_⟩
  · have hu : u.offline_store = t.offline_store := he
    rw [hu]
    exact h user
  · have hnone : entriesOf Stores.zero.offline_store user = [] :=
      List.filter_eq_nil_iff.mpr fun i _ hi => (of_decide_eq_true hi).1 rfl
    rw [hnone]
    exact Nat.zero_le _
  · rw [withinQuota_iff, (route_sends s me st).2.messages]
    unfold messagesAfter
    split
    · exact ((withinQuota_iff _).mp h).take fun i => keyOf_drained _ _
    · exact posted_within h

end Quota

/-- An enqueue leaves every active entry, and fails only if there is nothing else. -/
theorem enqueue_spares_active (to_bare from_jid msg_id payload : Str) (s : Server) :
    (∀ i, (s.stores.offline_store i).active ≠ 0 →
      (offline_msg_enqueue to_bare from_jid msg_id payload s).2.stores.offline_store i = s.stores.offline_store i) ∧
    ((offline_msg_enqueue to_bare from_jid msg_id payload s).1 = false →
      ∀ i, (s.stores.offline_store i).active ≠ 0) := by
  unfold offline_msg_enqueue
  simp only [bind_run, getStores]
  cases hf : firstIdx fun i => (s.stores.offline_store i).active == 0 with
  | none => exact ⟨fun _ _ => rfl, fun _ i hi => by simpa [hi] using firstIdx_none hf i⟩
  | some i =>
    have hi : (s.stores.offline_store i).active = 0 := by simpa using List.find?_some hf
    refine ⟨fun j hj => ?_, fun h => absurd h.symm Bool.false_ne_true⟩
    have hne : j ≠ i := fun he => hj (he ▸ hi)
    have hst : ∀ s' : Server, (persist xmpp_persist_save_offline s').2.stores = s'.stores := fun s' =>
      (save_cases .offline s'.mem).1
    have hput : ∀ e, (persist xmpp_persist_save_offline (s.setStores { s.stores with
        offline_store := Function.update s.stores.offline_store i e })).2.stores.offline_store j =
          s.stores.offline_store j := fun e => by
      rw [hst]
      exact Function.update_of_ne hne _ _
    exact hput _

/-- In every state of every run, on the disk that any number of runs before left, no addressee has more than half of
the message store; and an enqueue leaves every active entry and fails only if all are active. -/
theorem offline_quota_kept (d : Disk) (hd : WithinQuota (diskStores d)) (ls : List Life) (l : Life) (s : Server)
    (hs : Arises (l.on (reboots d ls)) s) :
    (∀ user, (entriesOf s.stores.offline_store user).length ≤ MAX_OFFLINE_MSGS / 2) ∧
      ∀ to_bare from_jid msg_id payload,
        (∀ i, (s.stores.offline_store i).active ≠ 0 →
          (offline_msg_enqueue to_bare from_jid msg_id payload s).2.stores.offline_store i =
            s.stores.offline_store i) ∧
        ((offline_msg_enqueue to_bare from_jid msg_id payload s).1 = false →
          ∀ i, (s.stores.offline_store i).active ≠ 0) := by
  have hk : StoreId.Single .offline := .inr (.inl rfl)
  have hdisk : WithinQuota (diskStores (reboots d ls)) := quota_lasts.reboots hk hd ls
  have hboth : InBoth WithinQuota s := quota_lasts.arises hk (m := l.on (reboots d ls)) hdisk hs
  refine ⟨hboth.store, fun to_bare from_jid msg_id payload => ?_⟩
  exact enqueue_spares_active to_bare from_jid msg_id payload s

/-- The administrator writes twice to a user who is away. -/
def twoLetters : Life :=
  lifeOf (visit 7 authAdmin [lit "<message to='user1@angelic.local' type='chat'><body>one</body></message>",
    lit "<message to='user1@angelic.local/home' type='chat'><body>two</body></message>"])

theorem two_letters_wait :
    let q := (twoLetters.run (reboots (fun _ => []) [])).stores.offline_store
    (entriesOf q (lit "user1")).length = 2 ∧ (entriesOf q (lit "user1")).length ≤ MAX_OFFLINE_MSGS / 2 := by
  have hk : StoreId.Single .offline := .inr (.inl rfl)
  refine ⟨by decide +kernel, ?_⟩
  exact (offline_quota_kept (fun _ => []) (quota_lasts.blank hk) [] twoLetters _ (Arises.life _ _)).1 _

end Angelic.Proofs
