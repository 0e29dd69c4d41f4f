import Angelic.Proofs.Sends

namespace Angelic.Proofs
open CString Model StateRel

/-! What each handler sends, and what is left of the server it found. -/

section Handlers
variable {G : RosterArray → Prop} {v : Server} (me : Slot) (st : Stanza)

theorem sends_text {i : Slot} {size : Nat} {fmt : Str} {args : List Arg} :
    Sends (Now G v) (send_raw i (snprintf size fmt args)) [(i, ⟨size, fmt, args⟩)] fun _ => Now G v :=
  sends_send i ⟨size, fmt, args⟩

theorem sends_result (size : Nat) :
    Sends (Now G v) (replyResult size me st) (Texts.result v me st size) fun _ => Now G v :=
  sends_ctx me (fun _ => rfl) sends_text

/-! Rosters. -/

theorem sends_rosterPushOne (i : Slot) :
    Sends (Now G v) (rosterPushOne me st i) (Texts.rosterPush v me st i) fun _ => Now G v :=
  sends_ctx i (fun _ => rfl) <| sends_ctx me (fun _ => rfl) <| .when_ (fun _ => sends_text) fun _ h => h

/-- The server after a request about the roster. -/
def rosterServed (v : Server) (me : Slot) (st : Stanza) : Server :=
  if st.type = .IQ_SET then
    { v.setStores (roster_store_set_from_payload (v.client_registry me).username st.payload v.stores) with
      roster_version := v.roster_version + 1 }
  else v

theorem sends_version :
    Sends (Now G v) (modify fun s => { s with roster_version := s.roster_version + 1 }) [] fun _ =>
      Now G { v with roster_version := v.roster_version + 1 } := by
  refine .silent (fun _ => rfl) fun s hs => ⟨hs.face, hs.stores, ?_, hs.random, hs.draws, hs.image⟩
  change s.roster_version + 1 = v.roster_version + 1
  rw [hs.version]

theorem sends_handle_roster_request (hG : st.type = .IQ_SET →
      G (roster_store_set_from_payload (v.client_registry me).username st.payload v.stores).roster_store) :
    Sends (Now G v) (handle_roster_request me st) (Texts.roster v me st) fun _ => Now G (rosterServed v me st) := by
  refine sends_ctx me (fun _ => rfl) ?_
  unfold Texts.roster rosterServed
  by_cases hset : st.type = .IQ_SET
  · simp only [if_pos hset]
    refine (sends_modStores _).after fun _ => (sends_save_roster (v := v.setStores _) (hG hset)).after fun _ => ?_
    refine sends_version.after fun _ => .bind (sends_result me st 1024) fun _ => ?_
    exact .each fun i => sends_rosterPushOne me st i
  · simp only [if_neg hset]
    refine sends_get (fun s hs => ?_) ?_
    · rw [hs.stores, hs.version]
    · exact .ite (fun _ => sends_text) fun _ => sends_text

/-! Private data. -/

theorem Now.private_ {v s : Server} (h : Now G v s) : ∃ p, Now G (v.setStores { v.stores with private_store := p }) s :=
  ⟨v.stores.private_store, h⟩

theorem sends_privateSet (ns : Str) :
    Sends (Now G v) (privateSet me st ns) (Texts.privateSet v me st ns) fun _ s => ∃ p,
      Now G (v.setStores { v.stores with private_store := p }) s := by
  refine sends_ctx me (fun _ => rfl) <| sends_stores ?_
  unfold Texts.privateSet
  cases hx : privateXml st.payload with
  | none => exact (sends_result me st 256).post fun _ _ => Now.private_
  | some xml =>
    dsimp only
    cases hs : private_store_upsert (v.client_registry me).username ns xml v.stores with
    | none => exact sends_text.post fun _ _ => Now.private_
    | some t =>
      have ht : t = { v.stores with private_store := t.private_store } := onlyIn_private_upsert hs
      refine sends_saved (k := .private_) (by decide) _ fun _ => (sends_result me st 256).post fun _ s h => ⟨t.private_store, ?_⟩
      rwa [← ht]

theorem sends_handle_private_storage :
    Sends (Now G v) (handle_private_storage me st) (Texts.private_ v me st) fun _ s => ∃ p,
      Now G (v.setStores { v.stores with private_store := p }) s := by
  refine sends_ctx me (fun _ => rfl) <| sends_stores ?_
  refine .ite (fun _ => sends_text.post fun _ _ => Now.private_) fun _ => .ite (fun _ => sends_privateSet me st _) fun _ => ?_
  refine Sends.post ?_ fun _ _ => Now.private_
  rw [if_neg (Nat.not_le.mpr (snprintf_length (by decide) _ _))]
  exact sends_text

/-! Small queries. -/

theorem sends_handle_blocklist :
    Sends (Now G v) (handle_blocklist me st) (Texts.blocklist v me st) fun _ => Now G v :=
  sends_ctx me (fun _ => rfl) <| .ite (fun _ => sends_text) fun _ => sends_result me st 256

theorem sends_handle_version : Sends (Now G v) (handle_version me st) (Texts.version v me st) fun _ => Now G v :=
  sends_ctx me (fun _ => rfl) sends_text

theorem sends_handle_last : Sends (Now G v) (handle_last me st) (Texts.last v me st) fun _ => Now G v :=
  sends_ctx me (fun _ => rfl) sends_text

/-! Initial presence. -/

/-- A loop that puts `f` on the entries of an array, with those it has yet to look at. -/
def Ahead (f : α → α) (old new : Fin n → α) (l : List (Fin n)) : Prop :=
  l.Nodup ∧ ∀ j, new j = if j ∈ l then old j else f (old j)

section Ahead
variable {f : α → α} {old new : Fin n → α} {i : Fin n} {l : List (Fin n)}

theorem Ahead.start (f : α → α) (old : Fin n → α) : Ahead f old old (List.finRange n) :=
  ⟨List.nodup_finRange n, fun j => (if_pos (List.mem_finRange j)).symm⟩

theorem Ahead.head (h : Ahead f old new (i :: l)) : new i = old i :=
  (h.2 i).trans (if_pos List.mem_cons_self)

theorem Ahead.update (h : Ahead f old new (i :: l)) : Ahead f old (Function.update new i (f (old i))) l := by
  obtain ⟨hi, hl⟩ := List.nodup_cons.mp h.1
  refine ⟨hl, fun j => ?_⟩
  by_cases hj : j = i
  · subst hj
    rw [Function.update_self, if_neg hi]
  · rw [Function.update_of_ne hj, h.2 j]
    simp only [List.mem_cons, hj, false_or]

/-- An entry that `f` leaves alone. -/
theorem Ahead.next (h : Ahead f old new (i :: l)) (hf : f (old i) = old i) : Ahead f old new l := by
  have hu := h.update
  rwa [hf, ← h.head, Function.update_eq_self] at hu

theorem Ahead.done (h : Ahead f old new []) : new = fun j => f (old j) := by
  funext j
  rw [h.2 j, if_neg List.not_mem_nil]

end Ahead

/-- A loop that empties entries of the array `T` puts in its place, and the save behind it. -/
theorem sends_drain {α : Type} {k : StoreId} {f : α → α} {old : Fin n → α} {T : (Fin n → α) → Stores} {body : Fin n → M Unit}
    {texts : Fin n → List (Slot × Text)} (hk : k ≠ .roster)
    (hb : ∀ i l, Sends (fun s => ∃ p, Ahead f old p (i :: l) ∧ Now G (v.setStores (T p)) s) (body i) (texts i)
      fun _ s => ∃ p, Ahead f old p l ∧ Now G (v.setStores (T p)) s) (hv : v.setStores (T old) = v) :
    Sends (Now G v) (forAll n body >>= fun _ => persist k.save) (each n texts) fun _ =>
      Now G (v.setStores (T fun j => f (old j))) := by
  have loop := Sends.each_rest (P := fun l s => ∃ p, Ahead f old p l ∧ Now G (v.setStores (T p)) s) hb
  rw [← List.append_nil (each _ _)]
  refine (loop.pre fun s hs => ⟨old, .start _ _, hv.symm ▸ hs⟩).bind fun _ => .some_value fun p hp => ?_
  refine (sends_save hk).post fun _ s hs => ?_
  rwa [hp.done] at hs

/-- The queue of subscriptions while it is being drained. -/
def PendingAhead (G : RosterArray → Prop) (v : Server) (l : List (Fin MAX_PENDING_SUBS)) (s : Server) : Prop :=
  ∃ p, Ahead (answeredOne (v.client_registry me).username) v.stores.pending_subs p l ∧
    Now G (v.setStores { v.stores with pending_subs := p }) s

theorem sends_pendingDrainOne (i : Fin MAX_PENDING_SUBS) (l : List (Fin MAX_PENDING_SUBS)) :
    Sends (PendingAhead me G v (i :: l)) (pendingDrainOne me i) (Texts.pending v me (v.stores.pending_subs i))
      fun _ => PendingAhead me G v l := by
  refine .some_value fun p hp => sends_stores <| sends_ctx me (fun _ => rfl) ?_
  have he : (v.setStores { v.stores with pending_subs := p }).stores.pending_subs i = v.stores.pending_subs i :=
    hp.head
  dsimp only
  rw [he]
  refine .ite (fun ha => ?_) fun ha => .pure fun s hs => ⟨p, hp.next (if_neg ha), hs⟩
  have hone : answeredOne (v.client_registry me).username (v.stores.pending_subs i) =
      { v.stores.pending_subs i with active := 0 } := if_pos ha
  refine .before sends_text fun _ => (sends_modStores _).post fun _ s hs => ⟨_, hp.update, ?_⟩
  rw [hone, ← he]
  exact hs

theorem sends_pending_sub_drain :
    Sends (Now G v) (pending_sub_drain me) (each MAX_PENDING_SUBS fun i => Texts.pending v me (v.stores.pending_subs i))
      fun _ => Now G (v.setStores { v.stores with
        pending_subs := answered (v.client_registry me).username v.stores.pending_subs }) :=
  sends_drain (k := .pending_subs) (T := fun p => { v.stores with pending_subs := p }) (by decide)
    (sends_pendingDrainOne me) rfl

/-- The store of messages while it is being drained. -/
def OfflineAhead (G : RosterArray → Prop) (v : Server) (l : List (Fin MAX_OFFLINE_MSGS)) (s : Server) : Prop :=
  ∃ p, Ahead (drainedOne (v.client_registry me).username) v.stores.offline_store p l ∧
    Now G (v.setStores { v.stores with offline_store := p }) s

theorem sends_drainOne (i : Fin MAX_OFFLINE_MSGS) (l : List (Fin MAX_OFFLINE_MSGS)) :
    Sends (OfflineAhead me G v (i :: l)) (drainOne me i) (Texts.offline v me (v.stores.offline_store i))
      fun _ => OfflineAhead me G v l := by
  refine .some_value fun p hp => sends_stores <| sends_ctx me (fun _ => rfl) ?_
  have he : (v.setStores { v.stores with offline_store := p }).stores.offline_store i = v.stores.offline_store i :=
    hp.head
  dsimp only
  rw [he]
  refine .ite (fun hw => ?_) fun hw => .pure fun s hs => ⟨p, hp.next (if_neg hw), hs⟩
  have hone : drainedOne (v.client_registry me).username (v.stores.offline_store i) =
      { v.stores.offline_store i with active := 0 } := if_pos hw
  have free : Sends (Now G (v.setStores { v.stores with offline_store := p })) (modStores fun s => { s with
      offline_store := Function.update s.offline_store i { s.offline_store i with active := 0 } }) []
      fun _ => OfflineAhead me G v l := (sends_modStores _).post fun _ s hs => ⟨_, hp.update, by
        rw [hone, ← he]
        exact hs⟩
  by_cases hid : (v.stores.offline_store i).id.str ≠ []
  · simp only [if_pos hid]
    rw [if_pos ⟨snprintf_pos (by decide) (by decide) _, snprintf_length (by decide) _ _⟩]
    exact .before sends_text fun _ => free
  · simp only [if_neg hid]
    rw [if_pos ⟨snprintf_pos (by decide) (by decide) _, snprintf_length (by decide) _ _⟩]
    exact .before sends_text fun _ => free

theorem sends_offline_msg_drain :
    Sends (Now G v) (offline_msg_drain me) (each MAX_OFFLINE_MSGS fun i => Texts.offline v me (v.stores.offline_store i))
      fun _ => Now G (v.setStores { v.stores with
        offline_store := drained (v.client_registry me).username v.stores.offline_store }) :=
  sends_drain (k := .offline) (T := fun p => { v.stores with offline_store := p }) (by decide) (sends_drainOne me) rfl

theorem sends_presence {i : Slot} {size : Nat} {fmtBody fmt : Str} {head : List Arg} {payload : Str} :
    Sends (Now G v) (if payload ≠ [] then send_raw i (snprintf size fmtBody (head ++ [.s payload]))
        else send_raw i (snprintf size fmt head))
      [(i, Texts.presence size fmtBody fmt head payload)] fun _ => Now G v := by
  unfold Texts.presence
  split
  · exact sends_text
  · exact sends_text

theorem sends_announceOne (i : Slot) :
    Sends (Now G v) (announceOne me i) (Texts.announce v me (v.client_registry me).presence_payload i)
      fun _ => Now G v :=
  sends_ctx i (fun _ => rfl) <| sends_ctx me (fun _ => rfl) <| .when_ (fun _ => sends_presence) fun _ h => h

theorem sends_probeOne (i : Slot) : Sends (Now G v) (probeOne me i) (Texts.probe v me i) fun _ => Now G v :=
  sends_ctx i (fun _ => rfl) <| sends_ctx me (fun _ => rfl) <| .when_ (fun _ => sends_presence) fun _ h => h

/-- What a note in a context does not change. -/
theorem reg_setCtx {g : Ctx → β} {c : Ctx} (h : g c = g (v.client_registry me)) (i : Slot) :
    g ((v.setCtx me c).client_registry i) = g (v.client_registry i) := by
  by_cases hi : i = me
  · subst hi
    rw [setCtx_reg_self, h]
  · rw [setCtx_reg_of_ne v me hi]

/-- The server once the payload of an initial presence has been noted. -/
def announced (v : Server) (me : Slot) (st : Stanza) : Server :=
  v.setCtx me { v.client_registry me with presence_payload := strncpy 1023 st.payload }

theorem announced_read {g : Ctx → β} (hg : ∀ c p, g { c with presence_payload := p } = g c) (i : Slot) :
    g ((announced v me st).client_registry i) = g (v.client_registry i) := reg_setCtx me (hg _ _) i

theorem announced_texts :
    Texts.announce (announced v me st) me ((announced v me st).client_registry me).presence_payload =
      Texts.announce v me (strncpy 1023 st.payload) := by
  have hp : ((announced v me st).client_registry me).presence_payload = strncpy 1023 st.payload :=
    congrArg Ctx.presence_payload (setCtx_reg_self v me _)
  have hl := announced_read me st (v := v) (g := Ctx.live) fun _ _ => rfl
  have hj := announced_read me st (v := v) (g := Ctx.full_jid) fun _ _ => rfl
  funext i
  simp only [Texts.announce, Texts.reg, hp, hl, hj]

theorem announced_probe : Texts.probe (announced v me st) me = Texts.probe v me := by
  funext i
  unfold Texts.probe
  by_cases hi : i = me
  · rw [if_neg (fun h => h.2 hi), if_neg (fun h => h.2 hi)]
  · have hr : Texts.reg (announced v me st) i = Texts.reg v i := setCtx_reg_of_ne v me hi _
    have hj := announced_read me st (v := v) (g := Ctx.full_jid) (fun _ _ => rfl) me
    rw [hr, hj]

theorem announced_pending : Texts.pending (announced v me st) me = Texts.pending v me := by
  have hj := announced_read me st (v := v) (g := Ctx.full_jid) (fun _ _ => rfl) me
  have hu := announced_read me st (v := v) (g := Ctx.username) (fun _ _ => rfl) me
  funext e
  simp only [Texts.pending, hj, hu]

theorem announced_offline (t : Stores) : Texts.offline ((announced v me st).setStores t) me = Texts.offline v me := by
  have hj := announced_read me st (v := v) (g := Ctx.full_jid) (fun _ _ => rfl) me
  have hu := announced_read me st (v := v) (g := Ctx.username) (fun _ _ => rfl) me
  funext e
  change Texts.offline (announced v me st) me e = _
  simp only [Texts.offline, hj, hu]

/-- The lists of the users are left alone, and the counter of roster versions. -/
structure SameLists (G : RosterArray → Prop) (v s : Server) : Prop where
  lists : lists s.stores = lists v.stores
  version : s.roster_version = v.roster_version
  image : G (rosterImage s.mem.disk)

theorem Now.sameLists {v s : Server} (h : Now G v s) : SameLists G v s :=
  ⟨congrArg Proofs.lists h.stores, h.version, h.image⟩

/-- The stores after the queues of a user have been emptied. -/
def emptied (u : Str) (t : Stores) : Stores :=
  { t with offline_store := drained u t.offline_store, pending_subs := answered u t.pending_subs }

theorem sends_handle_initial_presence :
    Sends (Now G v) (handle_initial_presence me st) (Texts.initialPresence v me st) fun _ =>
      SameLists G (v.setStores (emptied (v.client_registry me).username v.stores)) := by
  have announce := Sends.each (sends_announceOne (G := G) (v := announced v me st) me)
  have probe := Sends.each (sends_probeOne (G := G) (v := announced v me st) me)
  have pending := sends_pending_sub_drain (G := G) (v := announced v me st) me
  rw [announced_texts] at announce
  rw [announced_probe] at probe
  rw [announced_pending] at pending
  have note : Sends (Now G v) (modCtx me fun c => { c with presence_payload := strncpy 1023 st.payload }) []
      fun _ => Now G (announced v me st) := sends_modCtx me fun _ => rfl
  have hu : ((announced v me st).client_registry me).username = (v.client_registry me).username :=
    announced_read me st (g := Ctx.username) (fun _ _ => rfl) me
  refine note.after fun _ => ?_
  unfold Texts.initialPresence
  rw [List.append_assoc, List.append_assoc]
  refine announce.bind fun _ => probe.bind fun _ => pending.bind fun _ s hs => ?_
  obtain ⟨hw, hq⟩ := sends_offline_msg_drain me s hs
  rw [announced_offline] at hw
  refine ⟨hw, ?_, hq.version, hq.image⟩
  rw [hq.sameLists.lists, ← hu]
  rfl

end Handlers

end Angelic.Proofs
