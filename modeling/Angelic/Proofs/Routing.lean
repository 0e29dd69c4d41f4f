import Angelic.Proofs.RouteTexts

namespace Angelic.Proofs
open CString Model StateRel

/-! Routing a stanza: all that is sent for it, and what becomes of the rosters and the queues. -/

/-- A request that changes the roster of its sender. -/
def setsRoster (c : Ctx) (st : Stanza) : Prop :=
  ¬ restarts st ∧ Service.of st.xmlns = some .roster ∧ .SESSION ≤ c.state ∧ st.type = .IQ_SET

/-- A presence that may change two rosters. -/
def tellsRosters (c : Ctx) (st : Stanza) : Prop :=
  ¬ restarts st ∧ Service.of st.xmlns = none ∧ .SESSION ≤ c.state ∧
    ¬ (strstr st.to_ CONFERENCE).isSome ∧ (st.type = .PRESENCE_SUBSCRIBED ∨ st.type = .PRESENCE_UNSUBSCRIBED)

instance (c : Ctx) (st : Stanza) : Decidable (setsRoster c st) := inferInstanceAs (Decidable (_ ∧ _))
instance (c : Ctx) (st : Stanza) : Decidable (tellsRosters c st) := inferInstanceAs (Decidable (_ ∧ _))

/-- The rosters once a stanza has been handled. -/
def rostersAfter (v : Server) (me : Slot) (st : Stanza) : Fin MAX_ROSTER_ENTRIES → RosterEntry :=
  if setsRoster (v.client_registry me) st then
    (roster_store_set_from_payload (v.client_registry me).username st.payload v.stores).roster_store
  else if tellsRosters (v.client_registry me) st then (Texts.rosterUpdates v me st).1.roster_store
  else v.stores.roster_store

/-- The counter of their versions. -/
def versionAfter (v : Server) (me : Slot) (st : Stanza) : Int :=
  if setsRoster (v.client_registry me) st then v.roster_version + 1 else v.roster_version

/-- The lists of the users once a stanza has been handled. -/
def listsAfter (v : Server) (me : Slot) (st : Stanza) : Lists :=
  ⟨rostersAfter v me st, messagesAfter v me st, subscriptionsAfter v me st⟩

/-- The lists are those after a stanza. -/
structure Served (G : RosterArray → Prop) (v : Server) (me : Slot) (st : Stanza) (s : Server) : Prop where
  lists : lists s.stores = listsAfter v me st
  version : s.roster_version = versionAfter v me st
  image : G (rosterImage s.mem.disk)

section Served
variable {G : RosterArray → Prop} {v s : Server} {me : Slot} {st : Stanza}

theorem Served.rosters (h : Served G v me st s) : s.stores.roster_store = rostersAfter v me st :=
  congrArg Lists.rosters h.lists

theorem Served.messages (h : Served G v me st s) : s.stores.offline_store = messagesAfter v me st :=
  congrArg Lists.messages h.lists

theorem Served.subscriptions (h : Served G v me st s) : s.stores.pending_subs = subscriptionsAfter v me st :=
  congrArg Lists.subscriptions h.lists

/-- Every array that handling a stanza writes to the disk is good. -/
structure GoodChanges (G : RosterArray → Prop) (v : Server) (me : Slot) (st : Stanza) : Prop where
  sets : setsRoster (v.client_registry me) st →
    G (roster_store_set_from_payload (v.client_registry me).username st.payload v.stores).roster_store
  tells : tellsRosters (v.client_registry me) st → GoodUpdates G v me st

/-- A stanza for a user, which the router passes on by its kind. -/
def personal (c : Ctx) (st : Stanza) : Prop :=
  ¬ restarts st ∧ Service.of st.xmlns = none ∧ .SESSION ≤ c.state ∧ ¬ (strstr st.to_ CONFERENCE).isSome

theorem messagesAfter_same (hl : ¬ logsIn (v.client_registry me) st) (hm : ¬ mails (v.client_registry me) st) :
    messagesAfter v me st = v.stores.offline_store := by
  rw [messagesAfter, if_neg hl, mailSlot, if_neg hm, posted]

theorem subscriptionsAfter_same (hl : ¬ logsIn (v.client_registry me) st)
    (hs : ¬ subscribes (v.client_registry me) st) : subscriptionsAfter v me st = v.stores.pending_subs := by
  rw [subscriptionsAfter, if_neg hl, subSlot, if_neg hs, requested]

/-- Only messages and presences for users change a list other than by a roster set. -/
theorem not_personal {c : Ctx} (hp : personal c st → ¬ st.type = .MESSAGE ∧ ¬ st.type.isPresence) :
    ¬ tellsRosters c st ∧ ¬ logsIn c st ∧ ¬ mails c st ∧ ¬ subscribes c st := by
  have kind : ∀ {k : StanzaType}, k.isPresence → personal c st → st.type ≠ k := fun hk h he => (hp h).2 (he ▸ hk)
  have pers : ∀ {q : Prop}, ¬ restarts st ∧ Service.of st.xmlns = none ∧ .SESSION ≤ c.state ∧
      ¬ (strstr st.to_ CONFERENCE).isSome ∧ q → personal c st := fun h => ⟨h.1, h.2.1, h.2.2.1, h.2.2.2.1⟩
  refine ⟨fun h => ?_, fun h => kind (by decide) (pers h) h.2.2.2.2.1, fun h => (hp (pers h)).1 h.2.2.2.2, fun h => ?_⟩
  · exact h.2.2.2.2.elim (kind (by decide) (pers h)) (kind (by decide) (pers h))
  · have hw := h.2.2.2.2
    have ht := (hp (pers h)).2
    revert hw ht
    cases st.type <;> simp [subscriptionWord, StanzaType.isPresence]

theorem SameLists.served (h : SameLists G v s) (hs : ¬ setsRoster (v.client_registry me) st)
    (hp : personal (v.client_registry me) st → ¬ st.type = .MESSAGE ∧ ¬ st.type.isPresence) : Served G v me st s := by
  obtain ⟨ht, hl, hm, hb⟩ := not_personal hp
  refine ⟨?_, ?_, h.image⟩
  · rw [listsAfter, rostersAfter, if_neg hs, if_neg ht, messagesAfter_same hl hm, subscriptionsAfter_same hl hb]
    exact h.lists
  · rw [versionAfter, if_neg hs, h.version]

end Served

section Router
variable {G : RosterArray → Prop} {v : Server} (me : Slot) (st : Stanza)

theorem sends_tooEarly : Sends (Now G v) (tooEarly me st) (Texts.tooEarly v me st) fun _ => SameLists G v := by
  refine sends_ctx me (fun _ => rfl) <| .when_ (fun _ => .ite (fun _ => ?_) fun _ => ?_) fun _ h => h.sameLists
  · exact sends_text.post fun _ _ h => h.sameLists
  · exact sends_text.post fun _ _ h => h.sameLists

/-- The mark of the first presence is not among what the texts are made from. -/
theorem marked_texts :
    Texts.initialPresence (v.setCtx me { v.client_registry me with initial_presence_sent := true }) me st =
      Texts.initialPresence v me st := by
  generalize hw : v.setCtx me { v.client_registry me with initial_presence_sent := true } = w
  have read : ∀ {β : Type} (g : Ctx → β) (_ : g { v.client_registry me with initial_presence_sent := true } =
      g (v.client_registry me)) (i : Slot), g (w.client_registry i) = g (v.client_registry i) := by
    rintro β g hg i
    rw [← hw]
    exact reg_setCtx me hg i
  have hl := read Ctx.live rfl
  have hj := read Ctx.full_jid rfl
  have hu := read Ctx.username rfl
  have hp := read Ctx.presence_payload rfl
  have hs : w.stores = v.stores := by rw [← hw]; rfl
  have ha : Texts.announce w me = Texts.announce v me := by
    funext p i
    simp only [Texts.announce, Texts.reg, hl, hj]
  have hb : Texts.probe w me = Texts.probe v me := by
    funext i
    simp only [Texts.probe, Texts.reg, hl, hj, hp]
  have hc : Texts.pending w me = Texts.pending v me := by
    funext e
    simp only [Texts.pending, Texts.reg, hj, hu]
  have hd : Texts.offline w me = Texts.offline v me := by
    funext e
    simp only [Texts.offline, Texts.reg, hj, hu]
  rw [Texts.initialPresence, ha, hb, hc, hd, hs, Texts.initialPresence]

/-- What a presence makes of the lists: in a room nothing, the first one empties the queues. -/
def Presented (G : RosterArray → Prop) (v : Server) (s : Server) : Prop :=
  if (strstr st.to_ CONFERENCE).isSome then SameLists G v s
  else if st.type = .PRESENCE ∧ ¬ (v.client_registry me).initial_presence_sent then
    SameLists G (v.setStores (emptied (v.client_registry me).username v.stores)) s
  else ListsAre G v me st (subscribedQueue v me st) s

theorem sends_routePresence (hG : ¬ (strstr st.to_ CONFERENCE).isSome →
      st.type = .PRESENCE_SUBSCRIBED ∨ st.type = .PRESENCE_UNSUBSCRIBED → GoodUpdates G v me st) :
    Sends (Now G v) (routePresence me st) (Texts.routePresence v me st) fun _ => Presented me st G v := by
  unfold Presented
  refine sends_ctx me (fun _ => rfl) <| .ite (fun hc => ?_) fun hc => ?_
  · simp only [if_pos hc]
    exact (sends_handle_muc_presence me st).post fun _ _ h => h.sameLists
  · simp only [if_neg hc]
    refine .ite (fun ht => ?_) fun ht => ?_
    · simp only [if_pos ht]
      have note : Sends (Now G v) (modCtx me fun c => { c with initial_presence_sent := true }) [] fun _ =>
          Now G (v.setCtx me { v.client_registry me with initial_presence_sent := true }) :=
        sends_modCtx me fun _ => rfl
      rw [← marked_texts]
      refine note.after fun _ => (sends_handle_initial_presence me st).post fun _ s hs => ⟨?_, hs.version, hs.image⟩
      rw [hs.lists, setCtx_reg_self]
      rfl
    · simp only [if_neg ht]
      exact sends_handle_broadcast_presence me st (hG hc)

theorem sends_unknownRequest :
    Sends (Now G v) (unknownRequest me st) (Texts.unknownRequest v me st) fun _ => SameLists G v := by
  refine sends_ctx me (fun _ => rfl) <| .ite (fun _ => ?_) fun _ => .ite (fun _ => ?_) fun _ => ?_
  · exact (sends_handle_muc_owner me st).post fun _ _ h => h.sameLists
  · exact sends_text.post fun _ _ h => h.sameLists
  · exact sends_text.post fun _ _ h => h.sameLists

theorem served_of_presented {s : Server} (hr : ¬ restarts st) (hn : Service.of st.xmlns = none)
    (hs : .SESSION ≤ (v.client_registry me).state) (ht : st.type.isPresence) (h : Presented me st G v s) :
    Served G v me st s := by
  have hset : ¬ setsRoster (v.client_registry me) st := fun h => by
    rw [setsRoster, hn] at h
    cases h.2.1
  have hm : ¬ mails (v.client_registry me) st := fun h => by
    rw [h.2.2.2.2] at ht
    cases ht
  unfold Presented at h
  split at h
  · exact h.served hset fun hp => absurd ‹_› hp.2.2.2
  rename_i hc
  split at h
  · rename_i hfirst
    have hl : logsIn (v.client_registry me) st := ⟨hr, hn, hs, hc, hfirst⟩
    have htell : ¬ tellsRosters (v.client_registry me) st := fun h => by
      rcases h.2.2.2.2 with h | h <;> rw [hfirst.1] at h <;> cases h
    refine ⟨?_, ?_, h.image⟩
    · rw [h.lists, listsAfter, rostersAfter, if_neg hset, if_neg htell, messagesAfter, if_pos hl, subscriptionsAfter,
        if_pos hl]
      rfl
    · rw [h.version, versionAfter, if_neg hset]
      rfl
  · rename_i hfirst
    have hl : ¬ logsIn (v.client_registry me) st := fun h => hfirst h.2.2.2.2
    refine ⟨?_, ?_, h.image⟩
    · have hros : subscribedRosters v me st = rostersAfter v me st := by
        rw [rostersAfter, if_neg hset, subscribedRosters]
        by_cases hk : st.type = .PRESENCE_SUBSCRIBED ∨ st.type = .PRESENCE_UNSUBSCRIBED
        · rw [if_pos hk, if_pos ⟨hr, hn, hs, hc, hk⟩]
        · rw [if_neg hk, if_neg fun h => hk h.2.2.2.2]
      have hsub : subscribedQueue v me st = subscriptionsAfter v me st := by
        rw [subscriptionsAfter, if_neg hl, subscribedQueue, subSlot]
        by_cases hk : (subscriptionWord st.type).isSome
        · rw [if_pos hk, if_pos ⟨hr, hn, hs, hc, hk⟩]
        · rw [if_neg hk, if_neg fun h => hk h.2.2.2.2]
          rfl
      rw [h.lists, hros, hsub, listsAfter, messagesAfter_same hl hm]
    · rw [h.version, versionAfter, if_neg hset]

theorem sends_routeByKind (hr : ¬ restarts st) (hn : Service.of st.xmlns = none) (hG : GoodChanges G v me st) :
    Sends (Now G v) (routeByKind me st) (Texts.byKind v me st) fun _ => Served G v me st := by
  have hset : ¬ setsRoster (v.client_registry me) st := fun h => by
    rw [setsRoster, hn] at h
    cases h.2.1
  refine sends_ctx me (fun _ => rfl) <| .ite (fun h => ?_) fun hm => .ite (fun h => ?_) fun hp =>
    .ite (fun h => ?_) fun _ => .when_ (fun h => ?_) fun s hs => ?_
  · refine (sends_handle_chat_message me st).post fun _ s hs => ?_
    by_cases hc : (strstr st.to_ CONFERENCE).isSome
    · rw [if_pos hc] at hs
      exact hs.served hset fun hp => absurd hc hp.2.2.2
    · rw [if_neg hc] at hs
      have hmail : mails (v.client_registry me) st := ⟨hr, hn, h.1, hc, h.2⟩
      have kind : ∀ {k : StanzaType}, k ≠ .MESSAGE → st.type ≠ k := fun hk he => hk (he.symm.trans h.2)
      have hl : ¬ logsIn (v.client_registry me) st := fun hl => kind (by decide) hl.2.2.2.2.1
      have htell : ¬ tellsRosters (v.client_registry me) st := fun ht =>
        ht.2.2.2.2.elim (kind (by decide)) (kind (by decide))
      have hb : ¬ subscribes (v.client_registry me) st := fun hb => by
        have hw := hb.2.2.2.2
        rw [h.2] at hw
        cases hw
      refine ⟨?_, ?_, hs.image⟩
      · rw [listsAfter, rostersAfter, if_neg hset, if_neg htell, messagesAfter, if_neg hl, mailSlot, if_pos hmail,
          subscriptionsAfter_same hl hb]
        exact hs.lists
      · rw [versionAfter, if_neg hset]
        exact hs.version
  · have good := fun hc ht => hG.tells ⟨hr, hn, h.1, hc, ht⟩
    exact (sends_routePresence me st good).post fun _ s hs => served_of_presented me st hr hn h.1 h.2 hs
  · refine (sends_unknownRequest me st).post fun _ _ hs => hs.served hset fun _ => ?_
    revert h
    cases st.type <;> simp [StanzaType.isRequest, StanzaType.isPresence]
  · refine sends_text.post fun _ _ hs => hs.sameLists.served hset fun _ => ?_
    rw [h.1]
    exact ⟨nofun, Bool.false_ne_true⟩
  · exact hs.sameLists.served hset fun h => ⟨fun ht => hm ⟨h.2.2.1, ht⟩, fun ht => hp ⟨h.2.2.1, ht⟩⟩

theorem sends_service {k : Service} (hr : ¬ restarts st) (hk : Service.of st.xmlns = some k)
    (hmin : ¬ (v.client_registry me).state < k.min_state) (hG : GoodChanges G v me st) :
    Sends (Now G v) (k.handler me st) (k.texts v me st) fun _ => Served G v me st := by
  have hpers : ¬ personal (v.client_registry me) st := fun h => by
    rw [personal, hk] at h
    cases h.2.1
  have other : k ≠ .roster → ∀ {s : Server}, SameLists G v s → Served G v me st s := by
    intro hne s hs
    refine hs.served (fun h => hne ?_) fun h => absurd h hpers
    rw [setsRoster, hk] at h
    exact Option.some.inj h.2.1
  cases k with
  | bind => exact (sends_handle_core_bind me st).post fun _ _ h => other (by decide) h
  | session => exact (sends_handle_core_session me st).post fun _ _ h => other (by decide) h
  | roster =>
    have hs : ClientState.SESSION ≤ (v.client_registry me).state := Nat.not_lt.mp hmin
    have good := fun ht => hG.sets ⟨hr, hk, hs, ht⟩
    obtain ⟨htell, hl, hm, hb⟩ := not_personal fun h => absurd h hpers
    refine (sends_handle_roster_request me st good).post fun _ s h => ⟨?_, ?_, h.image⟩
    · rw [h.sameLists.lists, rosterServed, listsAfter, rostersAfter, messagesAfter_same hl hm,
        subscriptionsAfter_same hl hb]
      by_cases ht : st.type = .IQ_SET
      · rw [if_pos ht, if_pos ⟨hr, hk, hs, ht⟩]
        exact congrArg lists (onlyIn_set_from_payload ..)
      · rw [if_neg ht, if_neg fun h => ht h.2.2.2, if_neg htell]
        rfl
    · rw [h.version, rosterServed, versionAfter]
      by_cases ht : st.type = .IQ_SET
      · rw [if_pos ht, if_pos ⟨hr, hk, hs, ht⟩]
      · rw [if_neg ht, if_neg fun h => ht h.2.2.2]
  | discoInfo => exact (sends_handle_disco_info me st).post fun _ _ h => other (by decide) h.sameLists
  | discoItems => exact (sends_handle_disco_items me st).post fun _ _ h => other (by decide) h.sameLists
  | muc => exact (sends_handle_muc_presence me st).post fun _ _ h => other (by decide) h.sameLists
  | mucOwner => exact (sends_handle_muc_owner me st).post fun _ _ h => other (by decide) h.sameLists
  | private_ =>
    refine (sends_handle_private_storage me st).post fun _ s h => ?_
    obtain ⟨p, hp⟩ := h
    exact other (by decide) ⟨hp.sameLists.lists, hp.version, hp.image⟩
  | mucAdmin => exact (sends_handle_muc_admin me st).post fun _ _ h => other (by decide) h.sameLists
  | blocking => exact (sends_handle_blocklist me st).post fun _ _ h => other (by decide) h.sameLists
  | vcard => exact (sends_result me st 1024).post fun _ _ h => other (by decide) h.sameLists
  | version => exact (sends_handle_version me st).post fun _ _ h => other (by decide) h.sameLists
  | last => exact (sends_handle_last me st).post fun _ _ h => other (by decide) h.sameLists
  | ping => exact (sends_result me st 256).post fun _ _ h => other (by decide) h.sameLists

theorem dispatch_service (c : Ctx) : dispatch me c st =
    if restarts st then handle_handshake_logic me
    else
      match Service.of st.xmlns with
      | some k => if c.state < k.min_state then tooEarly me st else k.handler me st
      | none => routeByKind me st := by
  unfold dispatch
  rw [Service.find_router]
  cases Service.of st.xmlns with
  | none => rfl
  | some k => rfl

theorem sends_dispatch (hG : GoodChanges G v me st) :
    Sends (Now G v) (dispatch me (v.client_registry me) st) (sent v me st) fun _ => Served G v me st := by
  rw [dispatch_service]
  unfold sent
  refine .ite (fun hr => ?_) fun hr => ?_
  · exact (sends_handle_handshake_logic me).post fun _ _ h => h.served (fun h => h.1 hr) fun h => absurd hr h.1
  · cases hk : Service.of st.xmlns with
    | none => exact sends_routeByKind me st hr hk hG
    | some k =>
      refine .ite (fun hmin => (sends_tooEarly me st).post fun _ _ h => h.served (fun h => ?_) fun h => ?_) fun hmin =>
        sends_service me st hr hk hmin hG
      · have hkr : k = .roster := by
          have := h.2.1
          rw [hk] at this
          exact Option.some.inj this
        subst hkr
        exact absurd h.2.2.1 (Nat.not_le.mpr hmin)
      · have := h.2.1
        rw [hk] at this
        cases this

end Router

/-- No text has the sender that a stanza names. -/
theorem texts_from (v : Server) (me : Slot) (st : Stanza) (w : Str) (k : Service) :
    k.texts v me { st with from_ := w } = k.texts v me st := by
  cases k <;> rfl

theorem sent_from (v : Server) (me : Slot) (st : Stanza) (w : Str) : sent v me { st with from_ := w } = sent v me st := by
  have hb : Texts.byKind v me { st with from_ := w } = Texts.byKind v me st := rfl
  have ht : Texts.tooEarly v me { st with from_ := w } = Texts.tooEarly v me st := rfl
  have hr : restarts { st with from_ := w } ↔ restarts st := Iff.rfl
  simp only [sent, hb, ht, hr, texts_from]

theorem stamped_texts (v : Server) (me : Slot) (c : Ctx) (st : Stanza) :
    sent v me (stamped c st) = sent v me st ∧ listsAfter v me (stamped c st) = listsAfter v me st ∧
      versionAfter v me (stamped c st) = versionAfter v me st := by
  unfold stamped
  split
  · exact ⟨sent_from v me st _, rfl, rfl⟩
  · exact ⟨rfl, rfl, rfl⟩

theorem GoodChanges.stamped {G : RosterArray → Prop} {v : Server} {me : Slot} {st : Stanza}
    (h : GoodChanges G v me st) (c : Ctx) : GoodChanges G v me (stamped c st) := by
  unfold Model.stamped
  split
  · exact ⟨h.sets, h.tells⟩
  · exact h

/-- Routing a stanza sends the texts of `sent`, one after the other, leaves the lists of
`listsAfter`, and writes none but good rosters. -/
theorem route_served {G : RosterArray → Prop} {s : Server} {me : Slot} {st : Stanza} (hG : GoodChanges G s me st)
    (hd : G (rosterImage s.mem.disk)) : sends (xmpp_route_stanza me st s).2 = sends s ++ (sent s me st).map rendered ∧
      Served G s me st (xmpp_route_stanza me st s).2 := by
  obtain ⟨hs, hr, hv⟩ := stamped_texts s me (s.client_registry me) st
  obtain ⟨hw, hq⟩ := sends_dispatch (v := s) me (stamped (s.client_registry me) st) (hG.stamped _)
    { s with routed := s.routed ++ [(s.client_registry me, st)] } ⟨fun _ => rfl, rfl, rfl, rfl, rfl, hd⟩
  rw [hs] at hw
  exact ⟨hw, hq.lists.trans hr, hq.version.trans hv, hq.image⟩

/-- The same for any disk. -/
theorem route_sends (s : Server) (me : Slot) (st : Stanza) :
    sends (xmpp_route_stanza me st s).2 = sends s ++ (sent s me st).map rendered ∧
      Served (fun _ => True) s me st (xmpp_route_stanza me st s).2 :=
  route_served ⟨fun _ => trivial, fun _ => ⟨trivial, trivial⟩⟩ trivial

end Angelic.Proofs
