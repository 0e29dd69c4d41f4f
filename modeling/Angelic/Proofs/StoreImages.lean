import Angelic.Proofs.Isolation
import Angelic.Proofs.RoomChanges
import Angelic.Proofs.StoreFrames

namespace Angelic.Proofs
open CString Model StateRel Relation Spec

/-! A store whose property every stanza keeps in memory has it on the disk too, however the writes of the
disk fail, and has it again after any number of starts. -/

/-- After every run the disk has of one store what it had before, or what is in memory. -/
def Persists (k : StoreId) (m : M α) : Prop := ∀ s, Backs k s (m s).2

/-- The stores with one writer at a time: a stanza saves each of them once at most. -/
def StoreId.Single (k : StoreId) : Prop := k = .private_ ∨ k = .offline ∨ k = .pending_subs

theorem StoreId.Single.ne {k : StoreId} (h : k.Single) : k ≠ .rooms ∧ k ≠ .roster := by
  rcases h with rfl | rfl | rfl <;> decide

section Rules
variable {k : StoreId}
variable {m : M α}

theorem persists_of_spares (h : Does (Untouched k) m) : Persists k m := fun s => (spares_of_does h s).backs

theorem Persists.before {f : α → M β} (h : Persists k m) (hf : ∀ a, Does (Untouched k) (f a)) :
    Persists k (m >>= f) := fun s => (h s).before (spares_of_does (hf _) _)

theorem Persists.after {f : α → M β} (hm : Does (Untouched k) m) (hf : ∀ a, Persists k (f a)) :
    Persists k (m >>= f) := fun s => (hf _ _).after (spares_of_does hm s)

theorem Persists.ite {c : Prop} [Decidable c] {n : M α} (hm : Persists k m) (hn : Persists k n) :
    Persists k (if c then m else n) := by
  split
  · exact hm
  · exact hn

theorem touches_disk {s s' : Server} (h : ReflTransGen (Touch k) s s') : s'.mem.disk = s.mem.disk := by
  induction h with
  | refl => rfl
  | tail _ ht ih => cases ht <;> exact ih

theorem backs_touched (hk : k ≠ .rooms) (h : Does (Touch k) m) (s : Server) :
    Backs k s (persist k.save (m s).2).2 := by
  have hb := backs_save hk (m s).2
  rwa [Backs, touches_disk (h s)] at hb

/-- Work on a store and the save that ends it. -/
theorem persists_saved {rest : Unit → M β} (hk : k ≠ .rooms) (h : Does (Touch k) m)
    (hr : ∀ a, Does (Untouched k) (rest a)) : Persists k (m >>= fun _ => persist k.save >>= rest) := fun s =>
  (backs_touched hk h s).before (spares_of_does (hr _) _)

theorem persists_saved_last (hk : k ≠ .rooms) (h : Does (Touch k) m) : Persists k (m >>= fun _ => persist k.save) :=
  backs_touched hk h

end Rules

/-! The handlers with a store of their own. -/

section Handlers
variable {k : StoreId} (hk : k.Single)
include hk
variable {st : Stanza} (me : Slot)

theorem persists_offline_msg_enqueue (to_bare from_jid msg_id payload : Str) :
    Persists k (offline_msg_enqueue to_bare from_jid msg_id payload) := by
  by_cases ho : k = .offline
  · subst ho
    refine .after does_getStores fun s => ?_
    split
    · exact persists_of_spares (.pure _)
    · exact persists_saved (k := .offline) hk.ne.1 (touch_change (fun _ => rfl) fun _ h => h) fun _ => .pure _
  · exact persists_of_spares ((allows_untouched k 0).offline_msg_enqueue (Ne.symm ho) _ _ _ _)

theorem persists_offline_msg_drain : Persists k (offline_msg_drain me) := by
  by_cases ho : k = .offline
  · subst ho
    exact persists_saved_last hk.ne.1 (does_forAll (touch_drainOne me))
  · exact persists_of_spares ((allows_untouched k me).offline_msg_drain (Ne.symm ho))

theorem persists_pending_sub_drain : Persists k (pending_sub_drain me) := by
  by_cases hp : k = .pending_subs
  · subst hp
    exact persists_saved_last hk.ne.1 (does_forAll (touch_pendingDrainOne me))
  · exact persists_of_spares ((allows_untouched k me).pending_sub_drain (Ne.symm hp))

theorem persists_pending_sub_enqueue (type from_ to_user : Str) :
    Persists k (pending_sub_enqueue type from_ to_user) := by
  by_cases hp : k = .pending_subs
  · subst hp
    refine .after does_getStores fun s => ?_
    dsimp only
    split
    · exact persists_of_spares (.pure _)
    · exact persists_saved_last hk.ne.1 (touch_change (fun _ => rfl) fun _ h => h)
  · exact persists_of_spares ((allows_untouched k 0).pending_sub_enqueue (Ne.symm hp) _ _ _)

theorem persists_privateSet (st : Stanza) (inner_ns : Str) : Persists k (privateSet me st inner_ns) := by
  by_cases hp : k = .private_
  · subst hp
    intro s
    rcases privateSet_cases me st inner_ns s with ⟨-, he⟩ | ⟨xml, -, ⟨-, he⟩ | ⟨t, ht, he⟩⟩
    · rw [he]
      exact persists_of_spares (spares_replyResult _ _ _) s
    · rw [he]
      exact persists_of_spares (spares_send _ _) s
    · have hsave : Backs .private_ s (persist xmpp_persist_save_private (s.setStores t)).2 :=
        backs_save (k := .private_) (by decide) (s.setStores t)
      rw [he]
      exact hsave.before (spares_of_does (spares_replyResult _ _ _) _)
  · exact persists_of_spares ((allows_untouched k me).privateSet (Ne.symm hp) _ _)

theorem persists_handle_private_storage (st : Stanza) : Persists k (handle_private_storage me st) :=
  .after (does_ctxOf me) fun _ => .after does_getStores fun _ =>
    .ite (persists_of_spares (spares_send _ _)) (.ite (persists_privateSet hk _ _ _)
      (.ite (persists_of_spares (spares_send _ _)) (persists_of_spares (spares_send _ _))))

theorem persists_directMessage (st : Stanza) : Persists k (directMessage me st) := by
  refine .after (does_ctxOf me) fun c => .after (.foldlM ((allows_untouched k me).deliverOne _ (formatted_chatText st _)) _) fun d =>
    .ite (.after does_getStores fun s => ?_) (persists_of_spares (.pure _))
  have refuse : ∀ stored : Bool, Does (Untouched k) (if ¬ stored then
      send_raw me (snprintf 512 fmtNotDelivered [.s st.to_, .s c.full_jid]) else pure ()) := fun _ =>
    .ite (spares_send _ _) (.pure _)
  exact .ite (.before (persists_of_spares (.pure _)) refuse) (.before (persists_offline_msg_enqueue hk _ _ _ _) refuse)

theorem persists_handle_initial_presence (st : Stanza) : Persists k (handle_initial_presence me st) := by
  refine .after (spares_modCtx _ _) fun _ => .after (spares_forAll (allows_untouched k me).announceOne) fun _ =>
    .after (spares_forAll (allows_untouched k me).probeOne) fun _ => ?_
  by_cases hp : k = .pending_subs
  · subst hp
    exact .before (persists_pending_sub_drain hk me) fun _ => (allows_untouched _ me).offline_msg_drain (by decide)
  · exact .after ((allows_untouched k me).pending_sub_drain (Ne.symm hp)) fun _ => persists_offline_msg_drain hk me

theorem persists_subscriptionPresence (st : Stanza) (word : String) : Persists k (subscriptionPresence me st word) :=
  .after (does_ctxOf me) fun _ => .after (.foldlM ((allows_untouched k me).subDeliverOne _ _ _) _) fun _ =>
    .ite (.before (persists_pending_sub_enqueue hk _ _ _) fun _ => (allows_untouched k me).updates hk.ne.2.symm st _ _)
      (persists_of_spares ((allows_untouched k me).updates hk.ne.2.symm st _ _))

theorem persists_handle_broadcast_presence (st : Stanza) : Persists k (handle_broadcast_presence me st) := by
  refine .after (spares_modCtx _ _) fun _ => .ite (persists_of_spares (spares_forAll ((allows_untouched k me).probeAnswerOne _))) ?_
  split
  · exact persists_subscriptionPresence hk _ _ _
  · exact .ite (persists_of_spares (spares_forAll ((allows_untouched k me).directPresenceOne _)))
      (persists_of_spares (spares_forAll ((allows_untouched k me).broadcastOne st)))

theorem persists_routePresence (h : StanzaOk st) : Persists k (routePresence me st) :=
  .after (does_ctxOf me) fun _ => .ite (persists_of_spares (Stirs.spares hk.ne.1 fun _ _ => stirs_handle_muc_presence h.to_))
    (.ite (.after (spares_modCtx _ _) fun _ => persists_handle_initial_presence hk _ _)
      (persists_handle_broadcast_presence hk _ _))

theorem persists_unknownRequest (st : Stanza) : Persists k (unknownRequest me st) :=
  .after (does_ctxOf me) fun _ => .ite (persists_of_spares (Stirs.spares hk.ne.1 fun _ _ => stirs_handle_muc_owner))
    (.ite (persists_of_spares (spares_send _ _)) (persists_of_spares (spares_send _ _)))

theorem persists_handle_chat_message (h : StanzaOk st) : Persists k (handle_chat_message me st) := by
  by_cases hc : (strstr st.to_ CONFERENCE).isSome
  · exact persists_of_spares (Stirs.spares hk.ne.1 fun _ _ => stirs_messages h.payload hc)
  · rw [handle_chat_message, if_neg hc]
    exact persists_directMessage hk me st

theorem persists_routeByKind (h : StanzaOk st) : Persists k (routeByKind me st) :=
  .after (does_ctxOf me) fun _ => .ite (persists_handle_chat_message hk _ h) (.ite (persists_routePresence hk _ h)
    (.ite (persists_unknownRequest hk _ _) (.ite (persists_of_spares (spares_send _ _)) (persists_of_spares (.pure _)))))

theorem persists_dispatch (c : Ctx) (h : StanzaOk st) : Persists k (dispatch me c st) :=
  dispatch_spares hk.ne.1 hk.ne.2 h (fun _ => persists_of_spares) (persists_handle_private_storage hk me st)
    (persists_routeByKind hk me h)

theorem route_backs (h : StanzaOk st) : Persists k (xmpp_route_stanza me st) :=
  .after (does_ctxOf me) fun _ => .after (.step fun _ => .of_mem rfl) fun _ => persists_dispatch hk me _ (stamped_ok h)

end Handlers

/-! Runs. -/

/-- A property of one store that nothing has to be stored for and every stanza keeps. -/
structure Lasting (k : StoreId) (Q : Stores → Prop) : Prop where
  part : ∀ t u, k.Same t u → Q t → Q u
  zero : Q .zero
  stanza : ∀ {s : Server} {me : Slot} {st : Stanza}, StanzaOk st → (abs s).Named → Q s.stores →
    Q (xmpp_route_stanza me st s).2.stores

/-- A property of the stores, in memory and on the disk. -/
structure InBoth (Q : Stores → Prop) (s : Server) : Prop where
  store : Q s.stores
  image : Q (diskStores s.mem.disk)

theorem InBoth.of_mem {Q : Stores → Prop} {s s' : Server} (h : InBoth Q s) (hm : s'.mem = s.mem) : InBoth Q s' := by
  refine ⟨?_, ?_⟩
  · rw [Server.stores, hm]
    exact h.store
  · rw [hm]
    exact h.image

namespace Lasting
variable {k : StoreId} {Q : Stores → Prop} (h : Lasting k Q)
include h

theorem backs {s s' : Server} (hb : Backs k s s') (hi : Q (diskStores s.mem.disk)) (hs : Q s'.stores) : InBoth Q s' :=
  ⟨hs, hb.elim (fun he => h.part _ _ he hi) fun he => h.part _ _ he hs⟩

theorem action (hk : k.Single) {s s' : Server} (ha : Action s s') (hn : (abs s).Named) (hq : InBoth Q s) :
    InBoth Q s' := by
  cases ha with
  | turn me ht =>
    cases ht with
    | own hl => exact hq.of_mem (local_frame (.single hl)).1
    | stanza ok _ => exact h.backs (route_backs hk me ok s) hq.image (h.stanza ok hn hq.store)
  | accept pcb =>
    obtain ⟨o, he⟩ := accept_run pcb s
    rw [he]
    exact ⟨hq.store, hq.image⟩

theorem cleared (hk : k.Single) : KeptByClearing fun d => Q (diskStores d) :=
  image_keeps h.part (h.part _ _ (Stores.packed_same hk.ne.1 _) h.zero)

theorem boot (hk : k.Single) (m : Machine) (hd : Q (diskStores m.disk)) : InBoth Q m.boot := by
  rcases boot_mem (h.cleared hk) m with ⟨hs, hi⟩ | ⟨hz, hi⟩
  · refine ⟨?_, ?_⟩
    · rwa [hs]
    · rwa [hi]
  · refine ⟨?_, hi hd⟩
    rw [hz]
    exact h.zero

/-- In every state of a run from a disk that has the property. -/
theorem arises (hk : k.Single) {m : Machine} (hd : Q (diskStores m.disk)) {s : Server} (hs : Arises m s) :
    InBoth Q s := by
  have hall : InBoth Q s ∧ (abs s).Named := by
    induction hs with
    | refl => exact ⟨h.boot hk m hd, boot_named m⟩
    | tail _ ha ih =>
      exact ⟨h.action hk ha ih.2 ih.1, Registry.reach_keeps (fun _ _ hs => hs.names) (actions_refines (.single ha)) ih.2⟩
  exact hall.1

/-- And after any number of runs, each on the disk the one before left. -/
theorem reboots (hk : k.Single) {d : Disk} (hd : Q (diskStores d)) (ls : List Life) :
    Q (diskStores (Proofs.reboots d ls)) :=
  foldl_keeps (P := fun d => Q (diskStores d)) (fun d l hd => (h.arises hk hd (Arises.life l d)).image) ls hd

end Lasting

/-- A disk that was never written holds nothing. -/
theorem same_blank {k : StoreId} (hk : k.Single) : k.Same .zero (diskStores fun _ => []) := by
  have hget : Disk.get (fun _ => []) k.region = [] := by
    rcases hk with rfl | rfl | rfl <;> decide +kernel
  rcases hk with rfl | rfl | rfl
  all_goals
    simp only [StoreId.region] at hget
    simp only [StoreId.Same, diskStores, decodeStores, hget, arrayAt, List.drop_nil, List.take_nil]
  · have hz : PrivateEntry.dec [] = .zero := by decide +kernel
    rw [hz]
    rfl
  · have hz : OfflineMsg.dec [] = .zero := by decide +kernel
    rw [hz]
    rfl
  · have hz : PendingSub.dec [] = .zero := by decide +kernel
    rw [hz]
    rfl

theorem Lasting.blank {k : StoreId} {Q : Stores → Prop} (h : Lasting k Q) (hk : k.Single) :
    Q (diskStores fun _ => []) := h.part _ _ (same_blank hk) h.zero

end Angelic.Proofs
