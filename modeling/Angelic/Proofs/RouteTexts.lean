import Angelic.Proofs.RoomTexts

namespace Angelic.Proofs
open CString Model StateRel

/-! What messages and presences make the server send, and with them all stanzas. -/

section Messages
variable {G : RosterArray → Prop} {v : Server} (me : Slot) (st : Stanza)

theorem sends_privateMessage (r : Room) (to_slash : Str) :
    Sends (Now G v) (privateMessage me st r to_slash) (Texts.privateMessage v me st r to_slash) fun _ => Now G v := by
  refine sends_ctx me (fun _ => rfl) <| .ite (fun _ => sends_text) fun _ => ?_
  unfold Texts.recipient
  dsimp only
  cases r.firstUser (·.nick == to_slash.tail) with
  | none => exact sends_get (fun _ _ => rfl) sends_text
  | some j =>
    refine sends_get (fun s hs => ?_) ?_
    · have hj : ∀ i, (s.client_registry i).full_jid = (v.client_registry i).full_jid :=
        hs.read Ctx.full_jid fun _ => rfl
      dsimp only
      rw [hs.find_client]
      simp only [hj]
    · dsimp only
      cases find_client_by_jid v (r.users j).jid with
      | none => exact sends_text
      | some k =>
        have hh : (if alreadyWrapped st then fmtPmWrapped else fmtPm).head? = some (ch '<') := by
          split <;> decide
        dsimp only
        rw [if_pos ⟨snprintf_pos (by decide) hh _, snprintf_length (by decide) _ _⟩]
        exact sends_text

theorem sends_groupSendOne (r : Room) (nick : Str) (j : Fin MAX_USERS_PER_ROOM) :
    Sends (Now G v) (groupSendOne r st nick j)
      (if (r.users j).active ∧ ¬ nobody j then Texts.toJid v (r.users j).jid (Texts.group st nick (r.users j)) else [])
      fun _ => Now G v := by
  unfold groupSendOne
  have hn : ((r.users j).active ∧ ¬ nobody j) ↔ (r.users j).active := by simp [nobody]
  simp only [hn]
  refine .when_ (fun _ => sends_get (fun s hs => ?_) ?_) fun _ h => h
  · rw [hs.find_client]
  · unfold Texts.toJid
    cases find_client_by_jid v (r.users j).jid with
    | none => exact .pure fun _ h => h
    | some k =>
      have hl : (groupCopy st nick (r.users j)).length < 2400 := snprintf_length (by decide) _ _
      dsimp only
      rw [if_pos hl]
      exact sends_text

theorem sends_groupMessage (i : Fin MAX_ROOMS) :
    Sends (Now G v) (groupMessage me st i) (Texts.groupMessage v me st (v.stores.rooms i)) fun _ => RoomsOnly G v := by
  have send : ∀ T, (T i).users = (v.stores.rooms i).users → Sends (Now G (inRooms v T)) (do
      let c ← ctxOf me
      let s ← getStores
      forAll MAX_USERS_PER_ROOM (groupSendOne (s.rooms i) st (nickOf (s.rooms i) (bare c.full_jid))))
      (Texts.groupMessage v me st (v.stores.rooms i)) fun _ => RoomsOnly G v := by
    intro T hT
    refine sends_ctx me (fun _ => rfl) <| sends_stores ?_
    rw [inRooms_rooms]
    have hn : nickOf (T i) = nickOf (v.stores.rooms i) := by
      unfold nickOf Room.firstUser
      rw [hT]
    have loop := Sends.each (sends_groupSendOne (G := G) (v := inRooms v T) st (T i)
      (nickOf (T i) (bare (v.client_registry me).full_jid)))
    rw [hn, hT] at loop
    rw [hn]
    exact loop.post fun _ _ h => ⟨T, h⟩
  unfold groupMessage
  cases newSubject st.payload with
  | none => exact send v.stores.rooms rfl
  | some subj =>
    refine (sends_modRoom i _).after fun _ => (sends_save (k := .rooms) (by decide)).after fun _ => send _ ?_
    rw [Function.update_self]

theorem at_iff (target : Str) (i : Slot) : Texts.at_ v target i = true ↔
    (v.client_registry i).live = true ∧ bare (v.client_registry i).full_jid = target := by
  simp [Texts.at_]

/-- A text for those who are at an address, and whether there was anyone. -/
theorem sends_found {m : M Unit} {l : List Sent} (target : Str) (b : Bool) (i : Slot)
    (h : Sends (Now G v) m l fun _ => Now G v) :
    Sends (Now G v)
      (if (v.client_registry i).live = true ∧ bare (v.client_registry i).full_jid = target then do m; return true
        else return b) (if Texts.at_ v target i then l else [])
      fun r s => Now G v s ∧ r = (b || Texts.at_ v target i) := by
  simp only [← at_iff]
  by_cases ha : Texts.at_ v target i = true
  · simp only [if_pos ha]
    refine .before h fun _ => .pure fun _ hs => ⟨hs, ?_⟩
    rw [ha, Bool.or_true]
  · simp only [if_neg ha]
    refine .pure fun _ hs => ⟨hs, ?_⟩
    rw [Bool.eq_false_iff.mpr ha, Bool.or_false]

theorem sends_deliverOne (target : Str) (t : Text) (b : Bool) (i : Slot) :
    Sends (Now G v) (deliverOne target t.str b i) (if Texts.at_ v target i then [(i, t)] else []) fun r s =>
      Now G v s ∧ r = (b || Texts.at_ v target i) :=
  sends_ctx i (fun _ => rfl) (sends_found target b i (sends_send i t))

/-- Whether the message was stored is known before. -/
theorem sends_offline_msg_enqueue :
    Sends (Now G v) (offline_msg_enqueue (bare st.to_) (v.client_registry me).full_jid st.id st.payload) [] fun b s =>
      b = (freeMail v.stores.offline_store).isSome ∧
        Now G (v.setStores { v.stores with offline_store := posted v me st (freeMail v.stores.offline_store) }) s := by
  refine sends_stores ?_
  unfold freeMail
  cases firstIdx fun i => (v.stores.offline_store i).active == 0 with
  | none => exact .pure fun _ h => ⟨rfl, h⟩
  | some i => exact sends_saved (k := .offline) (by decide) _ fun _ => .pure fun _ h => ⟨rfl, h⟩

theorem sends_directMessage :
    Sends (Now G v) (directMessage me st) (Texts.directMessage v me st) fun _ =>
      Now G (v.setStores { v.stores with offline_store := posted v me st (directSlot v st) }) := by
  have refuse : Sends (Now G v)
      (send_raw me (snprintf 512 fmtNotDelivered [.s st.to_, .s (v.client_registry me).full_jid]))
      [(me, ⟨512, fmtNotDelivered, [.s st.to_, .s (v.client_registry me).full_jid]⟩)] fun _ => Now G v := sends_text
  refine sends_ctx me (fun _ => rfl) ?_
  refine .bind (Sends.any (sends_deliverOne (bare st.to_) (Texts.chat st (v.client_registry me).full_jid)))
    fun delivered => .given fun hd => ?_
  subst hd
  unfold Texts.undelivered directSlot present
  cases (List.finRange MAX_USERS).any (Texts.at_ v (bare st.to_)) with
  | true => exact .pure fun _ h => h
  | false =>
    refine sends_stores ?_
    cases offline_msg_is_full v.stores (localPart (bare st.to_)) with
    | true => exact refuse
    | false =>
      have enqueue := sends_offline_msg_enqueue (G := G) (v := v) me st
      refine enqueue.value ?_
      simp only [Bool.false_eq_true, or_self, if_false]
      unfold freeMail
      cases firstIdx fun i => (v.stores.offline_store i).active == 0 with
      | none => exact refuse
      | some i => exact .pure fun _ h => h

/-- The messages after one that is not for a room. -/
theorem sends_handle_chat_message :
    Sends (Now G v) (handle_chat_message me st) (Texts.message v me st) fun _ s =>
      if (strstr st.to_ CONFERENCE).isSome then SameLists G v s
      else SameLists G (v.setStores { v.stores with offline_store := posted v me st (directSlot v st) }) s := by
  refine .ite (fun hc => ?_) fun hc => ?_
  · simp only [if_pos hc]
    refine sends_stores ?_
    unfold Texts.messageRoom
    generalize (if st.to_.contains (ch '@') then findRoom v.stores (localPart st.to_) else none) = room
    cases room with
    | none => exact .pure fun _ h => Now.sameLists h
    | some i =>
      cases roomSlash st.to_ with
      | some to_slash => exact (sends_privateMessage me st _ to_slash).post fun _ _ h => h.sameLists
      | none => exact (sends_groupMessage me st i).post fun _ _ h => h.sameLists
  · simp only [if_neg hc]
    exact (sends_directMessage me st).post fun _ s h => h.sameLists

end Messages

section Presence
variable {G : RosterArray → Prop} {v : Server} (me : Slot) (st : Stanza)
variable (i : Slot)

theorem sends_probeAnswerOne :
    Sends (Now G v) (probeAnswerOne me (bare st.to_) i) (Texts.probeAnswer v me st i) fun _ => Now G v := by
  refine sends_ctx i (fun _ => rfl) <| sends_ctx me (fun _ => rfl) ?_
  simp only [← at_iff, Texts.probeAnswer]
  exact .when_ (fun _ => sends_presence) fun _ h => h

theorem sends_directPresenceOne :
    Sends (Now G v) (directPresenceOne me (bare st.to_) i) (Texts.directPresence v me st i) fun _ => Now G v := by
  refine sends_ctx i (fun _ => rfl) <| sends_ctx me (fun _ => rfl) ?_
  simp only [← at_iff, Texts.directPresence]
  exact .when_ (fun _ => sends_presence) fun _ h => h

theorem sends_pushItemOne (owner_user new_xml : Str) (i : Slot) :
    Sends (Now G v) (pushItemOne owner_user new_xml i) (Texts.pushItem v owner_user new_xml i) fun _ => Now G v :=
  sends_ctx i (fun _ => rfl) <| .when_ (fun _ => sends_text) fun _ h => h

theorem sends_subscription_update_roster (owner_user contact_jid : Str) (inbound subscribed : Bool)
    (hG : G (Texts.rosterUpdate v v.stores owner_user contact_jid inbound subscribed).1.roster_store) :
    Sends (Now G v) (subscription_update_roster owner_user contact_jid inbound subscribed)
      (Texts.rosterUpdate v v.stores owner_user contact_jid inbound subscribed).2
      fun _ => Now G (v.setStores (Texts.rosterUpdate v v.stores owner_user contact_jid inbound subscribed).1) := by
  refine sends_stores ?_
  revert hG
  unfold Texts.rosterUpdate
  rcases subscriptionChange v.stores owner_user contact_jid inbound subscribed with - | ⟨i, e, new_xml⟩ <;> intro hG
  · exact .pure fun _ h => h
  · refine (sends_modStores _).after fun _ => (sends_save_roster (v := v.setStores _) hG).after fun _ => ?_
    exact .each fun j => sends_pushItemOne owner_user new_xml j

theorem sends_subDeliverOne (word : String) (b : Bool) (i : Slot) :
    Sends (Now G v) (subDeliverOne (lit word) (bare (v.client_registry me).full_jid) (bare st.to_) b i)
      (Texts.subscriptionNotice v me st word i) fun r s => Now G v s ∧ r = (b || Texts.at_ v (bare st.to_) i) :=
  sends_ctx i (fun _ => rfl) (sends_found _ b i sends_text)

theorem sends_pending_sub_enqueue (type : Str) :
    Sends (Now G v) (pending_sub_enqueue type (bare (v.client_registry me).full_jid) (localPart (bare st.to_))) []
      fun _ => Now G (v.setStores { v.stores with
        pending_subs := requested v me st type
          (if known v type (bare (v.client_registry me).full_jid) (localPart (bare st.to_)) then none
            else some (pendingSlot v.stores (localPart (bare st.to_)))) }) := by
  refine sends_stores ?_
  unfold known
  dsimp only
  split
  · rename_i i hi
    rw [hi]
    exact .pure fun _ h => h
  · rename_i hi
    rw [hi]
    exact (sends_modStores _).after fun _ => sends_save (k := .pending_subs) (by decide)

/-- The rosters after a presence about a subscription. -/
def subscribedRosters (v : Server) (me : Slot) (st : Stanza) : Fin MAX_ROSTER_ENTRIES → RosterEntry :=
  if st.type = .PRESENCE_SUBSCRIBED ∨ st.type = .PRESENCE_UNSUBSCRIBED then
    (Texts.rosterUpdates v me st).1.roster_store
  else v.stores.roster_store

/-- The lists are those after a presence that is sent to users, with these subscriptions waiting. -/
structure ListsAre (G : RosterArray → Prop) (v : Server) (me : Slot) (st : Stanza) (p : Subscriptions) (s : Server) :
    Prop where
  lists : lists s.stores = ⟨subscribedRosters v me st, v.stores.offline_store, p⟩
  version : s.roster_version = v.roster_version
  image : G (rosterImage s.mem.disk)

/-- The stores with another queue of subscriptions. -/
def queued (t : Stores) (p : Fin MAX_PENDING_SUBS → PendingSub) : Stores := { t with pending_subs := p }

theorem SameLists.listsAre {s : Server} {p : Subscriptions} (h : SameLists G (v.setStores (queued v.stores p)) s)
    (ht : ¬ (st.type = .PRESENCE_SUBSCRIBED ∨ st.type = .PRESENCE_UNSUBSCRIBED)) : ListsAre G v me st p s := by
  refine ⟨?_, h.version, h.image⟩
  rw [subscribedRosters, if_neg ht]
  exact h.lists

/-- The rosters do not depend on the queue of subscriptions. -/
theorem rosterUpdate_queued (v : Server) (t t' : Stores) (p : Fin MAX_PENDING_SUBS → PendingSub)
    (owner_user contact_jid : Str) (inbound subscribed : Bool) :
    Texts.rosterUpdate (v.setStores t') (queued t p) owner_user contact_jid inbound subscribed =
      (queued (Texts.rosterUpdate v t owner_user contact_jid inbound subscribed).1 p,
        (Texts.rosterUpdate v t owner_user contact_jid inbound subscribed).2) := by
  have hc : subscriptionChange (queued t p) owner_user contact_jid inbound subscribed =
      subscriptionChange t owner_user contact_jid inbound subscribed := rfl
  unfold Texts.rosterUpdate
  rw [hc]
  rcases subscriptionChange t owner_user contact_jid inbound subscribed with - | ⟨i, e, new_xml⟩
  · rfl
  · rfl

theorem rosterUpdate_messages (v : Server) (t : Stores) (owner_user contact_jid : Str) (inbound subscribed : Bool) :
    (Texts.rosterUpdate v t owner_user contact_jid inbound subscribed).1.offline_store = t.offline_store := by
  unfold Texts.rosterUpdate
  rcases subscriptionChange t owner_user contact_jid inbound subscribed with - | ⟨i, e, new_xml⟩
  · rfl
  · rfl

theorem sends_update_queued (t : Stores) (p : Fin MAX_PENDING_SUBS → PendingSub) (owner_user contact_jid : Str)
    (inbound subscribed : Bool)
    (hG : G (Texts.rosterUpdate v t owner_user contact_jid inbound subscribed).1.roster_store) :
    Sends (Now G (v.setStores (queued t p))) (subscription_update_roster owner_user contact_jid inbound subscribed)
      (Texts.rosterUpdate v t owner_user contact_jid inbound subscribed).2
      fun _ => Now G (v.setStores (queued (Texts.rosterUpdate v t owner_user contact_jid inbound subscribed).1 p)) := by
  have hs : (v.setStores (queued t p)).stores = queued t p := rfl
  have h := sends_subscription_update_roster (G := G) (v := v.setStores (queued t p)) owner_user contact_jid inbound
    subscribed
  rw [hs, rosterUpdate_queued] at h
  exact h hG

/-- The rosters are good after the first change and after the second. -/
def GoodUpdates (G : RosterArray → Prop) (v : Server) (me : Slot) (st : Stanza) : Prop :=
  G (Texts.rosterUpdate v v.stores (localPart (bare (v.client_registry me).full_jid)) (bare st.to_) false
    (decide (st.type = .PRESENCE_SUBSCRIBED))).1.roster_store ∧ G (Texts.rosterUpdates v me st).1.roster_store

theorem sends_updates
    (hG : st.type = .PRESENCE_SUBSCRIBED ∨ st.type = .PRESENCE_UNSUBSCRIBED → GoodUpdates G v me st)
    (p : Fin MAX_PENDING_SUBS → PendingSub) :
    Sends (Now G (v.setStores (queued v.stores p))) (do
      if st.type = .PRESENCE_SUBSCRIBED ∨ st.type = .PRESENCE_UNSUBSCRIBED then
        subscription_update_roster (localPart (bare (v.client_registry me).full_jid)) (bare st.to_) false
          (decide (st.type = .PRESENCE_SUBSCRIBED))
        subscription_update_roster (localPart (bare st.to_)) (bare (v.client_registry me).full_jid) true
          (decide (st.type = .PRESENCE_SUBSCRIBED)))
      (if st.type = .PRESENCE_SUBSCRIBED ∨ st.type = .PRESENCE_UNSUBSCRIBED then (Texts.rosterUpdates v me st).2
        else []) fun _ => ListsAre G v me st p := by
  by_cases h : st.type = .PRESENCE_SUBSCRIBED ∨ st.type = .PRESENCE_UNSUBSCRIBED
  · simp only [if_pos h]
    refine (sends_update_queued v.stores p _ _ _ _ (hG h).1).bind fun _ => ?_
    refine (sends_update_queued _ p _ _ _ _ (hG h).2).post fun _ s hs => ⟨?_, hs.version, hs.image⟩
    have hm : (Texts.rosterUpdates v me st).1.offline_store = v.stores.offline_store :=
      (rosterUpdate_messages ..).trans (rosterUpdate_messages ..)
    rw [subscribedRosters, if_pos h, ← hm]
    exact hs.sameLists.lists
  · simp only [if_neg h]
    exact .pure fun s hs => SameLists.listsAre me st hs.sameLists h

theorem sends_subscriptionPresence (word : String)
    (hG : st.type = .PRESENCE_SUBSCRIBED ∨ st.type = .PRESENCE_UNSUBSCRIBED → GoodUpdates G v me st) :
    Sends (Now G v) (subscriptionPresence me st word) (Texts.subscription v me st word) fun _ =>
      ListsAre G v me st (requested v me st (lit word) (requestSlot v me st (lit word))) := by
  refine sends_ctx me (fun _ => rfl) ?_
  refine .bind (Sends.any (sends_subDeliverOne me st word)) fun delivered => .given fun hd => ?_
  subst hd
  unfold requestSlot present
  dsimp only
  cases (List.finRange MAX_USERS).any (Texts.at_ v (bare st.to_)) with
  | true => exact sends_updates me st hG v.stores.pending_subs
  | false =>
    refine (sends_pending_sub_enqueue me st (lit word)).after fun _ => ?_
    simp only [Bool.false_eq_true, false_or]
    exact sends_updates me st hG _

/-! Presence to everyone. -/

/-- The server once the payload of a broadcast has been noted. -/
def noted (v : Server) (me : Slot) (st : Stanza) : Server :=
  v.setCtx me { v.client_registry me with presence_payload := Texts.noted v me st }

theorem noted_read {g : Ctx → β} (hg : ∀ c p, g { c with presence_payload := p } = g c) (i : Slot) :
    g ((noted v me st).client_registry i) = g (v.client_registry i) := reg_setCtx me (hg _ _) i

theorem noted_texts : Texts.noted (noted v me st) me st = Texts.noted v me st := by
  have hp : ((noted v me st).client_registry me).presence_payload = Texts.noted v me st :=
    congrArg Ctx.presence_payload (setCtx_reg_self v me _)
  rw [Texts.noted, Texts.reg, hp, Texts.noted]
  split <;> rfl

theorem noted_broadcast : Texts.broadcast (noted v me st) me st i = Texts.broadcast v me st i := by
  have hl := noted_read me st (v := v) (g := Ctx.live) (fun _ _ => rfl) i
  have hj := noted_read me st (v := v) (g := Ctx.full_jid) fun _ _ => rfl
  simp only [Texts.broadcast, Texts.reg, hl, hj, noted_texts]

theorem noted_noted : noted (noted v me st) me st = noted v me st := by
  have hr : (noted v me st).client_registry me =
      { v.client_registry me with presence_payload := Texts.noted v me st } := setCtx_reg_self v me _
  rw [noted, noted_texts, hr]
  simp only [noted, Server.setCtx, Function.update_idem]

/-- Noting the payload leaves a server that has noted it. -/
theorem sends_note :
    Sends (Now G v) (if st.payload ≠ [] then modCtx me fun c => { c with presence_payload := strncpy 1023 st.payload }
      else pure ()) [] fun _ => Now G (noted v me st) := by
  by_cases h : st.payload ≠ []
  · have hn : noted v me st =
        v.setCtx me { v.client_registry me with presence_payload := strncpy 1023 st.payload } := by
      rw [noted, Texts.noted, if_pos h]
    rw [if_pos h, hn]
    exact sends_modCtx me fun _ => rfl
  · have hn : noted v me st = v := by
      rw [noted, Texts.noted, if_neg h]
      exact congrArg (fun f => { v with client_registry := f }) (Function.update_eq_self me v.client_registry)
    rw [if_neg h, hn]
    exact .pure fun _ hs => hs

theorem sends_broadcastOne :
    Sends (Now G v) (broadcastOne me st i) (Texts.broadcast v me st i) fun _ s => Now G v s ∨ Now G (noted v me st) s := by
  refine sends_ctx i (fun _ => rfl) <| .when_ (fun _ => .ite (fun _ => ?_) fun _ => ?_) fun _ h => .inl h
  · exact (sends_ctx me (fun _ => rfl) sends_text).post fun _ _ h => .inl h
  · have hj := noted_read me st (v := v) (g := Ctx.full_jid) (fun _ _ => rfl) me
    have hp : ((noted v me st).client_registry me).presence_payload = Texts.noted v me st :=
      congrArg Ctx.presence_payload (setCtx_reg_self v me _)
    have send : Sends (Now G (noted v me st)) (do
        let own ← ctxOf me
        if own.presence_payload ≠ [] then
          send_raw i (snprintf 1024 fmtPresenceIdBody
            [.s own.full_jid, .s (v.client_registry i).full_jid, .s st.id, .s own.presence_payload])
        else
          send_raw i (snprintf 1024 fmtPresenceId [.s own.full_jid, .s (v.client_registry i).full_jid, .s st.id]))
        [(i, Texts.presence 1024 fmtPresenceIdBody fmtPresenceId
          ([.s (v.client_registry me).full_jid, .s (v.client_registry i).full_jid] ++ [.s st.id])
          (Texts.noted v me st))] fun _ s => Now G v s ∨ Now G (noted v me st) s := by
      refine sends_ctx me (fun _ => rfl) ?_
      rw [hj, hp]
      exact sends_presence.post fun _ _ h => .inr h
    have note := sends_note me st (G := G) (v := v)
    dsimp only
    by_cases h : st.payload ≠ []
    · rw [if_pos h] at note ⊢
      exact note.after fun _ => send
    · rw [if_neg h] at note ⊢
      exact note.after fun _ => send

theorem sends_broadcast :
    Sends (Now G v) (forAll MAX_USERS (broadcastOne me st)) (each MAX_USERS (Texts.broadcast v me st))
      fun _ => SameLists G v := by
  have one : ∀ i, Sends (fun s => Now G v s ∨ Now G (noted v me st) s) (broadcastOne me st i)
      (Texts.broadcast v me st i) fun _ s => Now G v s ∨ Now G (noted v me st) s := by
    intro i s hs
    rcases hs with hs | hs
    · exact sends_broadcastOne me st i s hs
    · have h := sends_broadcastOne (v := noted v me st) me st i s hs
      rw [noted_broadcast, noted_noted] at h
      exact ⟨h.1, .inr (h.2.elim id id)⟩
  refine ((Sends.each one).pre fun _ h => .inl h).post fun _ s hs => ?_
  rcases hs with hs | hs
  · exact hs.sameLists
  · exact ⟨hs.sameLists.lists, hs.version, hs.image⟩

/-- A session that sends a presence is ready. -/
def readied (v : Server) (me : Slot) : Server :=
  let c := v.client_registry me
  v.setCtx me (if c.state = .SESSION then { c with state := .READY } else c)

theorem readied_read {g : Ctx → β} (hg : ∀ c : Ctx, c.state = .SESSION → g { c with state := .READY } = g c)
    (i : Slot) : g ((readied v me).client_registry i) = g (v.client_registry i) := by
  refine reg_setCtx me ?_ i
  split
  · exact hg _ ‹_›
  · rfl

theorem readied_live : ((readied v me).client_registry i).live = (v.client_registry i).live :=
  readied_read me (g := Ctx.live) (fun c hc => by simp only [Ctx.live, hc]; rfl) i

/-- What is read to announce a presence is the same before and after. -/
theorem readied_full_jid : ((readied v me).client_registry i).full_jid = (v.client_registry i).full_jid :=
  readied_read me (g := Ctx.full_jid) (fun _ _ => rfl) i

theorem readied_payload :
    ((readied v me).client_registry i).presence_payload = (v.client_registry i).presence_payload :=
  readied_read me (g := Ctx.presence_payload) (fun _ _ => rfl) i

theorem readied_username : ((readied v me).client_registry i).username = (v.client_registry i).username :=
  readied_read me (g := Ctx.username) (fun _ _ => rfl) i

theorem readied_at (target : Str) (i : Slot) : Texts.at_ (readied v me) target i = Texts.at_ v target i := by
  simp only [Texts.at_, Texts.reg, readied_live, readied_full_jid]

theorem readied_rosterUpdate (t : Stores) (owner_user contact_jid : Str) (inbound subscribed : Bool) :
    Texts.rosterUpdate (readied v me) t owner_user contact_jid inbound subscribed =
      Texts.rosterUpdate v t owner_user contact_jid inbound subscribed := by
  have hp : Texts.pushItem (readied v me) = Texts.pushItem v := by
    funext owner_user new_xml i
    simp only [Texts.pushItem, Texts.reg, readied_live, readied_full_jid, readied_username]
  simp only [Texts.rosterUpdate, hp]

theorem readied_rosterUpdates : Texts.rosterUpdates (readied v me) me st = Texts.rosterUpdates v me st := by
  have hs : (readied v me).stores = v.stores := rfl
  simp only [Texts.rosterUpdates, Texts.reg, readied_full_jid, readied_rosterUpdate, hs]

theorem readied_goodUpdates : GoodUpdates G (readied v me) me st ↔ GoodUpdates G v me st := by
  have hs : (readied v me).stores = v.stores := rfl
  simp only [GoodUpdates, readied_full_jid, readied_rosterUpdate, readied_rosterUpdates, hs]

theorem readied_subscription (word : String) :
    Texts.subscription (readied v me) me st word = Texts.subscription v me st word := by
  have hn : Texts.subscriptionNotice (readied v me) me st word = Texts.subscriptionNotice v me st word := by
    funext i
    simp only [Texts.subscriptionNotice, Texts.reg, readied_at, readied_full_jid]
  rw [Texts.subscription, hn, readied_rosterUpdates, Texts.subscription]

theorem readied_probeAnswer : Texts.probeAnswer (readied v me) me st = Texts.probeAnswer v me st := by
  funext i
  simp only [Texts.probeAnswer, Texts.reg, readied_at, readied_full_jid, readied_payload]

theorem readied_directPresence : Texts.directPresence (readied v me) me st = Texts.directPresence v me st := by
  funext i
  simp only [Texts.directPresence, Texts.reg, readied_at, readied_full_jid, readied_payload]

theorem readied_broadcast : Texts.broadcast (readied v me) me st = Texts.broadcast v me st := by
  funext i
  simp only [Texts.broadcast, Texts.noted, Texts.reg, readied_live, readied_full_jid, readied_payload]

theorem readied_requestSlot (type : Str) : requestSlot (readied v me) me st type = requestSlot v me st type := by
  have hp : present (readied v me) st = present v st :=
    congrArg (List.any (List.finRange MAX_USERS)) (funext (readied_at me (bare st.to_)))
  have hk : ∀ from_ to_user, known (readied v me) type from_ to_user = known v type from_ to_user := fun _ _ => rfl
  have hs : (readied v me).stores = v.stores := rfl
  rw [requestSlot, hp, hk, readied_full_jid, hs, requestSlot]

theorem readied_requested (type : Str) (i : Option (Fin MAX_PENDING_SUBS)) :
    requested (readied v me) me st type i = requested v me st type i := by
  cases i with
  | none => rfl
  | some i =>
    simp only [requested, request, readied_full_jid]
    rfl

/-- The subscriptions after a presence that is sent to users. -/
def subscribedQueue (v : Server) (me : Slot) (st : Stanza) : Subscriptions :=
  if (subscriptionWord st.type).isSome then requested v me st (wordOf st) (requestSlot v me st (wordOf st))
  else v.stores.pending_subs

theorem sends_handle_broadcast_presence
    (hG : st.type = .PRESENCE_SUBSCRIBED ∨ st.type = .PRESENCE_UNSUBSCRIBED → GoodUpdates G v me st) :
    Sends (Now G v) (handle_broadcast_presence me st) (Texts.broadcastPresence v me st) fun _ =>
      ListsAre G v me st (subscribedQueue v me st) := by
  have ready : Sends (Now G v) (modCtx me fun c => if c.state = .SESSION then { c with state := .READY } else c) []
      fun _ => Now G (readied v me) := sends_modCtx me fun c => by
    by_cases hc : c.state = .SESSION
    · simp [Ctx.face, hc]
    · simp [Ctx.face, hc]
  have kept : ∀ {s : Server}, SameLists G (readied v me) s → subscriptionWord st.type = none →
      ListsAre G v me st (subscribedQueue v me st) s := by
    intro s h hw
    have hq : subscribedQueue v me st = v.stores.pending_subs := by rw [subscribedQueue, hw]; rfl
    have ht : ¬ (st.type = .PRESENCE_SUBSCRIBED ∨ st.type = .PRESENCE_UNSUBSCRIBED) := by
      rintro (h | h) <;> simp [h, subscriptionWord] at hw
    rw [hq]
    exact SameLists.listsAre me st ⟨h.lists, h.version, h.image⟩ ht
  refine ready.after fun _ => ?_
  unfold Texts.broadcastPresence
  refine .ite (fun ht => ?_) fun _ => ?_
  · rw [← readied_probeAnswer]
    exact (Sends.each (sends_probeAnswerOne me st)).post fun _ s hs => kept hs.sameLists (by rw [ht]; rfl)
  · cases hw : subscriptionWord st.type with
    | some word =>
      dsimp only
      rw [← readied_subscription]
      have good := fun h => (readied_goodUpdates me st).2 (hG h)
      have hq : subscribedQueue v me st = requested v me st (lit word) (requestSlot v me st (lit word)) := by
        rw [subscribedQueue, wordOf, hw]
        rfl
      rw [hq]
      refine (sends_subscriptionPresence me st word good).post fun _ s hs => ⟨?_, hs.version, hs.image⟩
      rw [hs.lists, readied_requestSlot, readied_requested, subscribedRosters, readied_rosterUpdates]
      rfl
    | none =>
      refine .ite (fun _ => ?_) fun _ => ?_
      · rw [← readied_directPresence]
        exact (Sends.each (sends_directPresenceOne me st)).post fun _ s hs => kept hs.sameLists hw
      · rw [← readied_broadcast]
        exact (sends_broadcast me st).post fun _ s hs => kept hs hw

end Presence

/-! The negotiation. -/

section Negotiation
variable {G : RosterArray → Prop} {v : Server} (me : Slot) (st : Stanza)

theorem sends_emit {o : Out} (ho : Out.posted o = none) :
    Sends (SameLists G v) (emit o) [] fun _ => SameLists G v := by
  refine Writes.silent (fun s => ?_) fun s hs => ⟨hs.lists, hs.version, hs.image⟩
  change List.filterMap Out.posted (s.out ++ [o]) = _
  rw [List.filterMap_append, List.filterMap_cons_none ho, List.filterMap_nil, List.append_nil]
  rfl

theorem sends_anyCtx (i : Slot) (f : Ctx → Ctx) : Sends (SameLists G v) (modCtx i f) [] fun _ => SameLists G v :=
  .silent (fun _ => rfl) fun _ hs => ⟨hs.lists, hs.version, hs.image⟩

theorem sends_look (i : Slot) {k : Ctx → M α} {l : List Sent} {Q : α → Server → Prop}
    (h : ∀ c, Sends (SameLists G v) (k c) l Q) : Sends (SameLists G v) (ctxOf i >>= k) l Q :=
  Writes.read (fun _ => rfl) fun _ _ => h _

theorem sends_conflictOne (i : Slot) : Sends (SameLists G v) (conflictOne me i) [] fun _ => SameLists G v := by
  refine sends_look i fun c => sends_look me fun own => ?_
  split
  · have rest : Sends (SameLists G v) (do
        emit (.tcp_close c.pcb)
        modCtx i fun _ => .zero) [] fun _ => SameLists G v :=
      (sends_emit rfl).after fun _ => sends_anyCtx i _
    dsimp only
    split
    · exact (sends_emit rfl).after fun _ => rest
    · exact (sends_emit rfl).after fun _ => rest
  · exact .pure fun _ h => h

theorem sends_any_text {i : Slot} {size : Nat} {fmt : Str} {args : List Arg} :
    Sends (SameLists G v) (send_raw i (snprintf size fmt args)) [(i, ⟨size, fmt, args⟩)] fun _ => SameLists G v := by
  intro s hs
  obtain ⟨hw, hn⟩ := sends_text s (Now.refl hs.image)
  exact ⟨hw, hn.sameLists.lists.trans hs.lists, hn.version.trans hs.version, hn.image⟩

theorem sends_handle_core_bind :
    Sends (Now G v) (handle_core_bind me st) (Texts.bind v me st) fun _ => SameLists G v := by
  refine sends_ctx me (fun _ => rfl) <| .ite (fun _ => .ite (fun _ => ?_) fun _ => ?_) fun _ => ?_
  · exact sends_text.post fun _ _ h => h.sameLists
  · exact sends_text.post fun _ _ h => h.sameLists
  · have draw : Sends (Now G v) secure_random_u32 [] fun r s => r = v.random v.draws ∧ SameLists G v s :=
      .silent (fun _ => rfl) fun s hs => ⟨by simp only [secure_random_u32, hs.random, hs.draws],
        hs.sameLists.lists, hs.version, hs.image⟩
    refine draw.value ?_
    have none : each MAX_USERS (fun _ => []) = [] := by
      rw [each, List.flatMap_eq_nil_iff]
      exact fun _ _ => rfl
    have clash := Sends.each (sends_conflictOne (G := G) (v := v) me)
    rw [none] at clash
    refine (sends_anyCtx me _).after fun _ => clash.after fun _ => ?_
    exact .before sends_any_text fun _ => sends_anyCtx me _

theorem sends_handle_core_session :
    Sends (Now G v) (handle_core_session me st) (Texts.session me st) fun _ => SameLists G v :=
  .before sends_text fun _ => (sends_anyCtx me _).pre fun _ h => h.sameLists

theorem sends_handle_handshake_logic :
    Sends (Now G v) (handle_handshake_logic me) (Texts.features v me) fun _ => SameLists G v := by
  have draw : Sends (Now G v) secure_random_u32 [] fun r s =>
      r = v.random v.draws ∧ Now G { v with draws := v.draws + 1 } s :=
    .silent (fun _ => rfl) fun s hs => ⟨by simp only [secure_random_u32, hs.random, hs.draws],
      hs.face, hs.stores, hs.version, hs.random, congrArg (· + 1) hs.draws, hs.image⟩
  have same : ∀ {s : Server}, Now G { v with draws := v.draws + 1 } s → SameLists G v s := fun h =>
    ⟨h.sameLists.lists, h.version, h.image⟩
  refine draw.value <| sends_ctx me (fun _ => rfl) <| .ite (fun _ => ?_) fun _ => .ite (fun _ => ?_) fun _ => ?_
  · exact ((sends_anyCtx me _).pre fun _ h => same h).after fun _ => sends_any_text
  · exact .before (sends_any_text.pre fun _ h => same h) fun _ => sends_anyCtx me _
  · exact sends_any_text.pre fun _ h => same h

end Negotiation

end Angelic.Proofs
