import Angelic.Proofs.RoomSteps

namespace Angelic.Proofs
open CString Model StateRel Relation

variable {m : M α} {size : Nat} {k : StoreId}

/-! Every handler of stanzas is a chain of effects. -/

/-- An effect that has nothing to do with rooms. -/
def Plain (me : Slot) (s s' : Server) : Prop := Effect me s s' ∧ view s' = view s

theorem Plain.effects {me : Slot} (h : Does (Plain me) m) : Does (Effect me) m :=
  h.mono fun _ _ he => .single he.1

section Rules
variable {R : Server → Server → Prop} {k : StoreId}

theorem touch_send (i : Slot) {text : Str} (h : Formatted text) : Does (Touch k) (send_raw i text) :=
  .step fun s => .send s i h

theorem does_ctxOf (i : Slot) : Does R (ctxOf i) := .read fun _ => rfl

theorem does_getStores : Does R getStores := .read fun _ => rfl

theorem does_forAll {n : Nat} {body : Fin n → M Unit} (h : ∀ i, Does R (body i)) : Does R (forAll n body) := .forM h

theorem touch_change {f : Stores → Stores} (ho : ∀ t, k.OnlyIn t (f t))
    (hk : ∀ t, StoresOk t → StoresOk (f t)) : Does (Touch k) (modStores f) :=
  .step fun s => .change s _ (ho _) (hk _)

theorem touches_view (hk : k ≠ .rooms) {s s' : Server} (h : ReflTransGen (Touch k) s s') : view s' = view s := by
  induction h with
  | refl => rfl
  | tail _ ht ih =>
    cases ht with
    | send => exact ih
    | change t ho _ =>
      refine Eq.trans ?_ ih
      have hr : t.rooms = _ := congrArg Stores.rooms ho.eq_copy
      have hc : ∀ u : Stores, (StoreId.copy u t k).rooms = u.rooms := fun u => by
        cases k <;> first | rfl | exact absurd rfl hk
      exact congrArg (fun T => Rooms.mk T _) (hr.trans (hc _))

end Rules

/-! What is changed between reading a store and saving it, and the texts. -/

theorem touch_drainOne (me : Slot) (i : Fin MAX_OFFLINE_MSGS) : Does (Touch .offline) (drainOne me i) := by
  have hc : Does (Touch .offline) (modStores fun s => { s with
      offline_store := Function.update s.offline_store i { s.offline_store i with active := 0 } }) :=
    touch_change (fun _ => rfl) fun _ h => h
  refine .bind does_getStores fun s => .bind (does_ctxOf me) fun c => .ite ?_ (.pure _)
  refine .ite (.bind (touch_send me ?_) fun _ => hc) hc
  split
  all_goals exact .of (by simp [handlerFormats])

theorem touch_pendingDrainOne (me : Slot) (i : Fin MAX_PENDING_SUBS) :
    Does (Touch .pending_subs) (pendingDrainOne me i) := by
  refine .bind does_getStores fun s => .bind (does_ctxOf me) fun c => .ite ?_ (.pure _)
  refine .bind (touch_send me (.of (by simp [handlerFormats]))) fun _ => ?_
  exact touch_change (fun _ => rfl) fun _ h => h

theorem onlyIn_upsert (username item : Str) (t : Stores) :
    StoreId.OnlyIn t (roster_store_upsert_item username item t) .roster := by
  unfold roster_store_upsert_item StoreId.OnlyIn
  dsimp only
  repeat' first | rfl | split

theorem onlyIn_set_from_payload (username payload : Str) (t : Stores) :
    StoreId.OnlyIn t (roster_store_set_from_payload username payload t) .roster := by
  refine foldl_keeps (P := fun t' => StoreId.OnlyIn t t' .roster) (fun t' item h => ?_) _ rfl
  have hu := onlyIn_upsert username item t'
  simp only [StoreId.OnlyIn] at h hu ⊢
  rw [hu, h]

theorem onlyIn_private_upsert {username ns xml : Str} {t t' : Stores}
    (h : private_store_upsert username ns xml t = some t') : StoreId.OnlyIn t t' .private_ := by
  unfold private_store_upsert at h
  split at h
  · cases h
    rfl
  · cases h

/-- What a set of private data does, by the child it has and the slot it gets. -/
theorem privateSet_cases (me : Slot) (st : Stanza) (inner_ns : Str) (s : Server) :
    privateXml st.payload = none ∧ privateSet me st inner_ns s = replyResult 256 me st s ∨
      ∃ xml, privateXml st.payload = some xml ∧
        (private_store_upsert (s.client_registry me).username inner_ns xml s.stores = none ∧
            privateSet me st inner_ns s = send_raw me
              (snprintf 512 fmtResourceConstraint [.s st.id, .s (s.client_registry me).full_jid]) s ∨
          ∃ t, private_store_upsert (s.client_registry me).username inner_ns xml s.stores = some t ∧
            privateSet me st inner_ns s =
              replyResult 256 me st (persist xmpp_persist_save_private (s.setStores t)).2) := by
  cases hx : privateXml st.payload with
  | none =>
    have he : privateSet me st inner_ns = ctxOf me >>= fun _ => getStores >>= fun _ => replyResult 256 me st := by
      unfold privateSet
      rw [hx]
    have hs : (getStores (ctxOf me s).2).2 = s := rfl
    refine .inl ⟨rfl, ?_⟩
    rw [he, bind_run, bind_run, hs]
  | some xml =>
    refine .inr ⟨xml, rfl, ?_⟩
    cases ht : private_store_upsert (s.client_registry me).username inner_ns xml s.stores with
    | none =>
      have he : privateSet me st inner_ns s = send_raw me
          (snprintf 512 fmtResourceConstraint [.s st.id, .s (s.client_registry me).full_jid]) s := by
        simp only [privateSet, bind_run, ctxOf, getStores, hx, ht]
      exact .inl ⟨rfl, he⟩
    | some t =>
      have he : privateSet me st inner_ns s =
          replyResult 256 me st (persist xmpp_persist_save_private (s.setStores t)).2 := by
        simp only [privateSet, bind_run, ctxOf, getStores, modStores, hx, ht]
      exact .inr ⟨t, rfl, he⟩

theorem formatted_kickText {fmtR fmt room nick jid reason : Str} {want_ban : Bool}
    (hr : (fmtR, 6) ∈ handlerFormats ∧ 16 ≤ size) (hf : (fmt, 5) ∈ handlerFormats ∧ 16 ≤ size) :
    Formatted (kickText size fmtR fmt room nick jid reason want_ban) := by
  unfold kickText
  dsimp only
  split
  · exact .of hr
  · exact .of hf

theorem formatted_destroyText (alt reason room : Str) (p : Participant) :
    Formatted (destroyText alt reason room p) := by
  unfold destroyText
  repeat' split
  all_goals exact .of (by simp [handlerFormats])

theorem formatted_joinedText (r : Room) (t : MucTarget) (full_jid : Str) (p : Participant) :
    Formatted (joinedText r t full_jid p) := by
  unfold joinedText
  split
  all_goals exact .of (by simp [handlerFormats])

theorem localPart_holds {jid : Str} (h : 0 ∉ jid) : Holds 32 (localPart jid) := by
  refine ⟨?_, fun hm => h ((List.takeWhile_prefix _).subset (List.mem_of_mem_take hm))⟩
  simp only [localPart, List.length_take]
  omega

theorem formatted_if {c : Prop} [Decidable c] {f g : Str} {args : List Arg}
    (hf : (f, args.length) ∈ handlerFormats ∧ 16 ≤ size) (hg : (g, args.length) ∈ handlerFormats ∧ 16 ≤ size) :
    Formatted (snprintf size (if c then f else g) args) := by
  split
  · exact .of hf
  · exact .of hg

theorem formatted_chatText (st : Stanza) (full_jid : Str) : Formatted (chatText st full_jid) :=
  formatted_if (by simp [handlerFormats]) (by simp [handlerFormats])

theorem upto_subset (p e : Str) : upto p e ⊆ p := List.take_subset _ _

theorem newSubject_holds {payload subj : Str} (h : 0 ∉ payload) (hs : newSubject payload = some subj) :
    Holds 256 subj := by
  unfold newSubject at hs
  split at hs
  · cases hs
  · rename_i p hp
    split at hs
    · cases hs
      refine ⟨by simp only [List.length_take]; omega, fun hm => h ?_⟩
      exact (strstr_suffix hp).subset (List.mem_of_mem_drop (upto_subset _ _ (List.mem_of_mem_take hm)))
    · cases hs

/-- The strings of a stanza that a handler puts into a store. -/
structure StanzaOk (st : Stanza) : Prop where
  to_ : 0 ∉ st.to_
  payload : 0 ∉ st.payload

/-- A relation that holds of each step of a handler which works on no other stores than those of `P`. -/
structure Allows (P : StoreId → Prop) (me : Slot) (R : Server → Server → Prop) : Prop where
  sent : ∀ s i {text}, Formatted text → R s (send_raw i text s).2
  noted : ∀ s {f : Ctx → Ctx}, (∀ c, Ctx.core (f c) = Ctx.core c) →
    (∀ c, (f c).sm_outbound_count = c.sm_outbound_count) → R s (modCtx me f s).2
  readied : ∀ s, (s.client_registry me).state = .SESSION → R s (modCtx me (fun c => { c with state := .READY }) s).2
  counted : ∀ s, R s { s with roster_version := s.roster_version + 1 }
  saves : ∀ {s s'} k, P k → ReflTransGen (Touch k) s s' → R s (persist k.save s').2

theorem allows_plain (me : Slot) : Allows (· ≠ .rooms) me (Plain me) where
  sent s i _ h := ⟨.send s i h, rfl⟩
  noted s _ h hn := ⟨.note s h hn, rfl⟩
  readied s h := ⟨.ready s h, rfl⟩
  counted s := ⟨.version s, rfl⟩
  saves {s s'} k hk h := ⟨.saved s _ k h, (view_persist hk s').trans (touches_view hk h)⟩

/-! A store that is left alone. -/

theorem StoreId.OnlyIn.same {j : StoreId} {t u : Stores} (h : j.OnlyIn t u) (hk : k ≠ j) : k.Same t u := by
  have he := h.eq_copy
  rw [he]
  revert hk
  cases j <;> cases k <;> first | (intro hk; exact absurd rfl hk) | (intro _; rfl)

/-- One store is as before, in memory and on the disk. -/
structure Untouched (k : StoreId) (s s' : Server) : Prop where
  store : k.Same s.stores s'.stores
  image : k.Same (diskStores s.mem.disk) (diskStores s'.mem.disk)

section Untouched
variable {k j : StoreId} {s s' s'' : Server}

theorem Untouched.refl (k : StoreId) (s : Server) : Untouched k s s := ⟨.refl k _, .refl k _⟩

theorem Untouched.trans (h : Untouched k s s') (h' : Untouched k s' s'') : Untouched k s s'' :=
  ⟨h.store.trans h'.store, h.image.trans h'.image⟩

theorem Untouched.of_mem (h : s'.mem = s.mem) : Untouched k s s' := by
  refine ⟨?_, ?_⟩
  · rw [Server.stores, Server.stores, h]
    exact .refl k _
  · rw [h]
    exact .refl k _

theorem spares_of_does (h : Does (Untouched k) m) (s : Server) : Untouched k s (m s).2 :=
  h.rel (.refl k) (fun _ _ _ => .trans) (fun _ _ h => h) s

theorem spares_send (i : Slot) (text : Str) : Does (Untouched k) (send_raw i text) := .step fun _ => .of_mem rfl

theorem spares_modCtx (i : Slot) (f : Ctx → Ctx) : Does (Untouched k) (modCtx i f) := .step fun _ => .of_mem rfl

theorem spares_change {f : Stores → Stores} (hk : k ≠ j) (ho : ∀ t, j.OnlyIn t (f t)) : Does (Untouched k) (modStores f) :=
  .step fun s => ⟨(ho s.stores).same hk, .refl k _⟩

theorem spares_save (hk : k ≠ j) : Does (Untouched k) (persist j.save) := .step fun s => by
  have hst : (persist j.save s).2.stores = s.stores := (save_cases j s.mem).1
  exact ⟨by rw [hst]; exact .refl k _, (save_image k j s.mem).resolve_right fun h => hk h.1⟩

theorem spares_touches (hk : k ≠ j) (h : ReflTransGen (Touch j) s s') : Untouched k s s' := by
  induction h with
  | refl => exact .refl k _
  | tail _ ht ih =>
    cases ht with
    | send => exact ih.trans (.of_mem rfl)
    | change t ho _ => exact ih.trans ⟨ho.same hk, .refl k _⟩

/-- A handler leaves alone the stores it does not work on. -/
theorem allows_untouched (k : StoreId) (me : Slot) : Allows (· ≠ k) me (Untouched k) where
  sent _ _ _ _ := .of_mem rfl
  noted _ _ _ _ := .of_mem rfl
  readied _ _ := .of_mem rfl
  counted _ := .of_mem rfl
  saves _ hj h := (spares_touches hj.symm h).trans (spares_of_does (spares_save hj.symm) _)

end Untouched

namespace Allows
variable {P : StoreId → Prop} {me : Slot} {R : Server → Server → Prop} (A : Allows P me R)
include A
variable (st : Stanza)

theorem text (i : Slot) {text : Str} (h : Formatted text) : Does R (send_raw i text) := .step fun s => A.sent s i h

theorem printed (i : Slot) {fmt : Str} {args : List Arg} (h : (fmt, args.length) ∈ handlerFormats ∧ 16 ≤ size) :
    Does R (send_raw i (snprintf size fmt args)) := A.text i (.of h)

theorem note {f : Ctx → Ctx} (h : ∀ c, Ctx.core (f c) = Ctx.core c)
    (hn : ∀ c, (f c).sm_outbound_count = c.sm_outbound_count) : Does R (modCtx me f) := .step fun s => A.noted s h hn

/-- A change of one store, with what is sent meanwhile, and the save that ends it. -/
theorem saved {rest : Unit → M β} (hk : P k) (h : Does (Touch k) m) (hr : ∀ a, Does R (rest a)) :
    Does R (m >>= fun _ => persist k.save >>= rest) := fun s => .trans (.single (A.saves k hk (h s))) (hr _ _)

theorem saved_last (hk : P k) (h : Does (Touch k) m) : Does R (m >>= fun _ => persist k.save) :=
  fun s => .single (A.saves k hk (h s))

theorem replyResult (size : Nat) (st : Stanza) (hs : 16 ≤ size) : Does R (replyResult size me st) :=
  .bind (does_ctxOf me) fun _ => A.printed me ⟨by simp [handlerFormats], hs⟩

/-! `xmpp_store.c` and the answers to the sender. -/

theorem offline_msg_enqueue (hp : P .offline) (to_bare from_jid msg_id payload : Str) :
    Does R (offline_msg_enqueue to_bare from_jid msg_id payload) := by
  refine .bind does_getStores fun s => ?_
  split
  · exact .pure _
  · exact A.saved (k := .offline) hp (touch_change (fun _ => rfl) fun _ h => h) fun _ => .pure _

theorem offline_msg_drain (hp : P .offline) : Does R (offline_msg_drain me) :=
  A.saved_last (k := .offline) hp (does_forAll (touch_drainOne me))

theorem pending_sub_enqueue (hp : P .pending_subs) (type from_ to_user : Str) :
    Does R (pending_sub_enqueue type from_ to_user) := by
  refine .bind does_getStores fun s => ?_
  dsimp only
  split
  · exact .pure _
  · exact A.saved_last (k := .pending_subs) hp (touch_change (fun _ => rfl) fun _ h => h)

theorem pending_sub_drain (hp : P .pending_subs) : Does R (pending_sub_drain me) :=
  A.saved_last (k := .pending_subs) hp (does_forAll (touch_pendingDrainOne me))

theorem handle_roster_request (hp : P .roster) (st : Stanza) : Does R (handle_roster_request me st) := by
  have push : ∀ i, Does R (rosterPushOne me st i) := fun i =>
    .bind (does_ctxOf _) fun _ => .bind (does_ctxOf _) fun _ => .ite (A.printed _ (by simp [handlerFormats])) (.pure _)
  refine .bind (does_ctxOf me) fun c => .ite ?_ ?_
  · refine A.saved (k := .roster) hp (touch_change (onlyIn_set_from_payload _ _) ?_) fun _ => ?_
    · intro t ht i
      have := onlyIn_set_from_payload c.username st.payload t
      simp only [StoreId.OnlyIn] at this
      rw [this]
      exact ht i
    · exact .bind (.step A.counted) fun _ => .bind (A.replyResult _ _ (by decide)) fun _ => does_forAll push
  · refine .bind .get fun s => .ite ?_ ?_
    · exact A.printed me (by simp [handlerFormats])
    · exact A.printed me (by simp [handlerFormats])

theorem announceOne (i : Slot) : Does R (announceOne me i) := by
  refine .bind (does_ctxOf _) fun _ => .bind (does_ctxOf _) fun _ => .ite (.ite ?_ ?_) (.pure _)
  all_goals exact A.printed _ (by simp [handlerFormats])

theorem probeOne (i : Slot) : Does R (probeOne me i) := by
  refine .bind (does_ctxOf _) fun _ => .bind (does_ctxOf _) fun _ => .ite (.ite ?_ ?_) (.pure _)
  all_goals exact A.printed _ (by simp [handlerFormats])

theorem handle_initial_presence (hq : P .pending_subs) (ho : P .offline) (st : Stanza) :
    Does R (handle_initial_presence me st) :=
  .bind (A.note (fun _ => rfl) fun _ => rfl) fun _ => .bind (does_forAll A.announceOne) fun _ =>
    .bind (does_forAll A.probeOne) fun _ => .bind (A.pending_sub_drain hq) fun _ => A.offline_msg_drain ho

theorem privateSet (hp : P .private_) (st : Stanza) (inner_ns : Str) : Does R (privateSet me st inner_ns) := by
  intro s
  rcases privateSet_cases me st inner_ns s with ⟨-, he⟩ | ⟨xml, -, ⟨-, he⟩ | ⟨t, ht, he⟩⟩
  · rw [he]
    exact A.replyResult _ _ (by decide) s
  · rw [he]
    exact A.printed _ (by simp [handlerFormats]) s
  · rw [he]
    have ho := onlyIn_private_upsert ht
    have hc : Touch .private_ s (s.setStores t) := .change s t ho fun h i => by
      simp only [StoreId.OnlyIn] at ho
      rw [ho]
      exact h i
    exact .trans (.single (A.saves _ hp (.single hc))) (A.replyResult _ _ (by decide) _)

theorem handle_private_storage (hp : P .private_) (st : Stanza) : Does R (handle_private_storage me st) := by
  refine .bind (does_ctxOf me) fun c => .bind does_getStores fun s => .ite ?_ (.ite ?_ (.ite ?_ ?_))
  · exact A.printed _ (by simp [handlerFormats])
  · exact A.privateSet hp _ _
  all_goals exact A.printed _ (by simp [handlerFormats])

theorem handle_blocklist : Does R (handle_blocklist me st) :=
  .bind (does_ctxOf me) fun _ => .ite (A.printed _ (by simp [handlerFormats])) (A.replyResult _ _ (by decide))

theorem handle_version : Does R (handle_version me st) :=
  .bind (does_ctxOf me) fun _ => A.printed _ (by simp [handlerFormats])

theorem handle_last : Does R (handle_last me st) :=
  .bind (does_ctxOf me) fun _ => A.printed _ (by simp [handlerFormats])

/-! Rooms. -/

theorem sendTo (jid : Str) {text : Str} (h : Formatted text) : Does R (sendTo jid text) := by
  refine .bind .get fun s => ?_
  split
  · exact A.text _ h
  · exact .pure _

theorem tellOccupants (r : Room) (skip : Fin MAX_USERS_PER_ROOM → Bool) {text : Participant → Str}
    (h : ∀ p, Formatted (text p)) : Does R (tellOccupants r skip text) :=
  does_forAll fun _ => .ite (A.sendTo _ (h _)) (.pure _)

theorem capsForward : Does R (capsForward me st) := by
  refine .bind (does_ctxOf me) fun c => .bind .get fun s => ?_
  split
  all_goals exact A.printed _ (by simp [handlerFormats])

theorem handle_disco_info : Does R (handle_disco_info me st) := by
  refine .bind (does_ctxOf me) fun c => .bind does_getStores fun s => .ite ?_ (.ite ?_ (.ite (.ite ?_ ?_) ?_))
  · dsimp only
    split
    all_goals exact A.printed _ (by simp [handlerFormats])
  · exact A.printed _ (by simp [handlerFormats])
  · exact A.capsForward _
  all_goals exact A.printed _ (by simp [handlerFormats])

theorem handle_disco_items : Does R (handle_disco_items me st) := by
  refine .bind (does_ctxOf me) fun c => .bind does_getStores fun s => .ite (.ite ?_ ?_) ?_
  · split
    all_goals exact A.printed _ (by simp [handlerFormats])
  all_goals exact A.printed _ (by simp [handlerFormats])

theorem showOne (r : Room) (t : MucTarget) (j : Fin MAX_USERS_PER_ROOM) : Does R (showOne me r t j) := by
  refine .bind (does_ctxOf me) fun c => .ite (.ite ?_ ?_) (.pure _)
  all_goals exact A.printed _ (by simp [handlerFormats])

/-! Messages and presence. -/

theorem privateMessage (r : Room) (to_slash : Str) : Does R (privateMessage me st r to_slash) := by
  refine .bind (does_ctxOf me) fun c => .ite ?_ (.bind .get fun s => ?_)
  · exact A.printed _ (by simp [handlerFormats])
  · dsimp only
    split
    · exact A.printed _ (by simp [handlerFormats])
    · refine .ite (A.text _ (formatted_if ?_ ?_)) (.pure _)
      all_goals simp [handlerFormats]

theorem groupSendOne (r : Room) (st : Stanza) (sender_nick : Str) (j : Fin MAX_USERS_PER_ROOM) :
    Does R (groupSendOne r st sender_nick j) := by
  refine .ite (.bind .get fun s => ?_) (.pure _)
  split
  · refine .ite (A.text _ (formatted_if ?_ ?_)) (.pure _)
    all_goals simp [handlerFormats]
  · exact .pure _

theorem deliverOne (target : Str) {response : Str} (h : Formatted response) (d : Bool) (i : Slot) :
    Does R (deliverOne target response d i) :=
  .bind (does_ctxOf i) fun _ => .ite (.bind (A.text _ h) fun _ => .pure _) (.pure _)

theorem directMessage (hp : P .offline) (st : Stanza) : Does R (directMessage me st) := by
  refine .bind (does_ctxOf me) fun c => .bind (.foldlM (A.deliverOne _ (formatted_chatText st _)) _) fun d =>
    .ite (.bind does_getStores fun s => ?_) (.pure _)
  have hn : ∀ stored : Bool, Does R (if ¬ stored then
      send_raw me (snprintf 512 fmtNotDelivered [.s st.to_, .s c.full_jid]) else pure ()) := fun _ =>
    .ite (A.printed _ (by simp [handlerFormats])) (.pure _)
  exact .ite (.bind (.pure _) hn) (.bind (A.offline_msg_enqueue hp _ _ _ _) hn)

theorem subscription_update_roster (hp : P .roster) (owner_user contact_jid : Str) (inbound subscribed : Bool) :
    Does R (subscription_update_roster owner_user contact_jid inbound subscribed) := by
  have push : ∀ new_xml i, Does R (pushItemOne owner_user new_xml i) := fun _ i =>
    .bind (does_ctxOf i) fun _ => .ite (A.printed _ (by simp [handlerFormats])) (.pure _)
  refine .bind does_getStores fun s => ?_
  split
  · exact .pure _
  · exact A.saved (k := .roster) hp (touch_change (fun _ => rfl) fun _ h => h) fun _ => does_forAll (push _)

theorem probeAnswerOne (target : Str) (i : Slot) : Does R (probeAnswerOne me target i) := by
  refine .bind (does_ctxOf _) fun _ => .bind (does_ctxOf _) fun _ => .ite (.ite ?_ ?_) (.pure _)
  all_goals exact A.printed _ (by simp [handlerFormats])

theorem subDeliverOne (ptype bare_from target : Str) (d : Bool) (i : Slot) :
    Does R (subDeliverOne ptype bare_from target d i) :=
  .bind (does_ctxOf i) fun _ => .ite (.bind (A.printed _ (by simp [handlerFormats])) fun _ => .pure _) (.pure _)

/-- The two rosters that a presence about a subscription changes. -/
theorem updates (hp : P .roster) (st : Stanza) (bf bt : Str) : Does R (do
    if st.type = .PRESENCE_SUBSCRIBED ∨ st.type = .PRESENCE_UNSUBSCRIBED then
      let subscribed : Bool := st.type = .PRESENCE_SUBSCRIBED
      Model.subscription_update_roster (localPart bf) bt false subscribed
      Model.subscription_update_roster (localPart bt) bf true subscribed) :=
  .ite (.bind (A.subscription_update_roster hp _ _ _ _) fun _ => A.subscription_update_roster hp _ _ _ _) (.pure _)

theorem subscriptionPresence (hr : P .roster) (hq : P .pending_subs) (st : Stanza) (word : String) :
    Does R (subscriptionPresence me st word) :=
  .bind (does_ctxOf me) fun _ => .bind (.foldlM (A.subDeliverOne _ _ _) _) fun _ =>
    .ite (.bind (A.pending_sub_enqueue hq _ _ _) fun _ => A.updates hr st _ _) (A.updates hr st _ _)

theorem directPresenceOne (target : Str) (i : Slot) : Does R (directPresenceOne me target i) := by
  refine .bind (does_ctxOf _) fun _ => .bind (does_ctxOf _) fun _ => .ite (.ite ?_ ?_) (.pure _)
  all_goals exact A.printed _ (by simp [handlerFormats])

theorem broadcastOne (i : Slot) : Does R (broadcastOne me st i) := by
  refine .bind (does_ctxOf i) fun c => .ite (.ite (.bind (does_ctxOf me) fun own => ?_) ?_) (.pure _)
  · exact A.printed _ (by simp [handlerFormats])
  · have hs : Does R (do
        let own ← ctxOf me
        if own.presence_payload ≠ [] then
          send_raw i (snprintf 1024 fmtPresenceIdBody
            [.s own.full_jid, .s c.full_jid, .s st.id, .s own.presence_payload])
        else send_raw i (snprintf 1024 fmtPresenceId [.s own.full_jid, .s c.full_jid, .s st.id])) := by
      refine .bind (does_ctxOf me) fun own => .ite ?_ ?_
      all_goals exact A.printed _ (by simp [handlerFormats])
    exact .ite (.bind (A.note (fun _ => rfl) fun _ => rfl) fun _ => hs) hs

theorem ready : Does R (modCtx me fun c => if c.state = .SESSION then { c with state := .READY } else c) := by
  intro s
  by_cases h : (s.client_registry me).state = .SESSION
  · have := A.readied s h
    simp only [modCtx, h, if_true] at this ⊢
    exact .single this
  · simp only [modCtx, h, if_false, Server.setCtx, Function.update_eq_self]
    exact .refl

theorem handle_broadcast_presence (hr : P .roster) (hq : P .pending_subs) (st : Stanza) :
    Does R (handle_broadcast_presence me st) := by
  refine .bind A.ready fun _ => .ite (does_forAll (A.probeAnswerOne _)) ?_
  split
  · exact A.subscriptionPresence hr hq _ _
  · exact .ite (does_forAll (A.directPresenceOne _)) (does_forAll (A.broadcastOne st))

theorem tooEarly : Does R (tooEarly me st) := by
  refine .bind (does_ctxOf me) fun c => .ite (.ite ?_ ?_) (.pure _)
  all_goals exact A.printed _ (by simp [handlerFormats])

end Allows

end Angelic.Proofs
