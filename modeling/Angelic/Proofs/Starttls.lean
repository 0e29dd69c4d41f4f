import Angelic.Proofs.Negotiation

namespace Angelic.Proofs
open CString Model StateRel Relation Spec

variable {c : Ctx} {s : Server}
variable {c' : Ctx} {me : Slot}

/-! What a connection can do before it is encrypted, and what the handshake finds. -/

/-- Nothing of a client has been believed or counted yet. -/
structure Pristine (c : Ctx) : Prop where
  authenticated : c.authenticated = false
  username : c.username = []
  full_jid : c.full_jid = []
  sasl_failures : c.sasl_failures = 0
  sm_enabled : c.sm_enabled = false

theorem Pristine.of_kept (h : Pristine c) (hk : Ctx.kept c' = Ctx.kept c) : Pristine c' := by
  simp only [Ctx.kept, Ctx.session, Prod.mk.injEq, Session.mk.injEq] at hk
  obtain ⟨⟨-, -, hu, hj, ha, -⟩, hf, hs⟩ := hk
  exact ⟨ha.trans h.authenticated, hu.trans h.username, hj.trans h.full_jid, hf.trans h.sasl_failures,
    hs.trans h.sm_enabled⟩

def Fresh (c : Ctx) : Prop := c.pcb.isSome → ¬ c.tls_established → Pristine c

theorem Fresh.of_kept (h : Fresh c) (hk : Ctx.kept c' = Ctx.kept c) : Fresh c' := by
  intro hp ht
  have hs := congrArg Prod.fst hk
  refine (h ?_ ?_).of_kept hk
  · have he : c'.pcb = c.pcb := congrArg Session.pcb hs
    exact he ▸ hp
  · have he : c'.tls_established = c.tls_established := congrArg Session.tls_established hs
    exact he ▸ ht

theorem Fresh.closed (h : c.pcb = none) : Fresh c := fun hp => by simp [h] at hp

theorem Fresh.encrypted (h : c.pcb.isSome → c.tls_established) : Fresh c := fun hp ht =>
  absurd (h hp) ht

/-- Past authentication a connection is encrypted. -/
theorem encrypted_of_ok (hc : (Ctx.session c).Ok) (hs : .AUTHENTICATED ≤ c.state) :
    c.pcb.isSome → c.tls_established := fun hp => hc.encrypted hp (hc.authenticated hs)

/-- What is marked needs TLS, so a fresh context stays one unless its session moves. -/
theorem Fresh.marks (h : Fresh c) (hc : (Ctx.session c).Ok) (hm : Marks c c')
    (hp : c'.pcb.isSome → c.pcb.isSome) (ht : c.tls_established → c'.tls_established)
    (ha : c'.authenticated = c.authenticated) (hj : c'.full_jid = c.full_jid) : Fresh c' := by
  intro hp' ht'
  have htls : ¬ c.tls_established := fun h => ht' (ht h)
  have hpr := h (hp hp') htls
  refine ⟨ha.trans hpr.authenticated, ?_, hj.trans hpr.full_jid, ?_, ?_⟩
  · rcases hm.username with hu | hu | hu
    · exact hu.trans hpr.username
    · exact hu
    · exact absurd hu htls
  · rcases hm.sasl_failures with hf | hf | hf
    · exact hf.trans hpr.sasl_failures
    · exact hf
    · exact absurd hf htls
  · by_contra hsm
    rcases hm.sm_enabled (by simpa using hsm) with hs | hs
    · exact absurd hs (by simp [hpr.sm_enabled])
    · exact htls (encrypted_of_ok hc (Nat.le_trans (by decide) hs) (hp hp'))

theorem Fresh.move (h : Fresh c) (hc : (Ctx.session c).Ok) (hm : Marks c c')
    (hv : (Ctx.session c).Move (Ctx.session c')) : Fresh c' := by
  generalize hd : Ctx.session c' = d at hv
  have hpcb : c'.pcb = d.pcb := congrArg Session.pcb hd
  have htls : c'.tls_established = d.tls_established := congrArg Session.tls_established hd
  have hauth : c'.authenticated = d.authenticated := congrArg Session.authenticated hd
  have hjid : c'.full_jid = d.full_jid := congrArg Session.full_jid hd
  cases hv with
  | close => exact .closed hpcb
  | lost => exact .closed hpcb
  | reset => exact .closed hpcb
  | clear => exact .closed hpcb
  | starttls => exact h.marks hc hm (hpcb ▸ id) (htls ▸ id) hauth hjid
  | secured => exact .encrypted fun _ => htls
  | offer => exact h.marks hc hm (hpcb ▸ id) (htls ▸ id) hauth hjid
  | restart ha => exact .encrypted fun hp => htls ▸ hc.encrypted (hpcb ▸ hp) ha
  | named => exact h.marks hc hm (hpcb ▸ id) (htls ▸ id) hauth hjid
  | login ht => exact .encrypted fun _ => htls ▸ ht
  | ready => exact h.marks hc hm (hpcb ▸ id) (htls ▸ id) hauth hjid

/-- All contexts are fresh, and the sessions guarded. -/
structure AllFresh (s : Server) : Prop where
  guarded : (abs s).Guarded
  fresh : ∀ i, Fresh (s.client_registry i)

theorem AllFresh.setCtx (h : ∀ i, Fresh (s.client_registry i))
    (hc : Fresh c) (i : Slot) : Fresh ((s.setCtx me c).client_registry i) := by
  by_cases hi : i = me
  · subst hi
    rwa [setCtx_reg_self]
  · rw [setCtx_reg_of_ne s me hi]
    exact h i

theorem fresh_act {s' : Server} (ha : Act me s s') (h : AllFresh s) : ∀ i, Fresh (s'.client_registry i) := by
  have hok := h.guarded.session me
  cases ha with
  | effect he =>
    intro i
    have hq := quiet_effect he
    by_cases hi : i = me
    · subst hi
      rcases hq.own with hc | ⟨hs, hc⟩
      · exact (h.fresh i).of_kept (kept_of_core hc)
      · refine (Fresh.of_kept (c := { s.client_registry i with state := .READY }) ?_ (kept_of_core hc))
        exact fun hp ht => absurd (encrypted_of_ok hok (by rw [hs]; decide) hp) ht
    · exact (h.fresh i).of_kept (kept_of_core (hq.others i hi).core)
  | own hl =>
    cases hl with
    | emit | draw | pool => exact h.fresh
    | keep hs hm =>
      rename_i c
      simp only [Ctx.session, Session.mk.injEq] at hs
      obtain ⟨hp, -, -, hj, ha, ht⟩ := hs
      exact AllFresh.setCtx h.fresh ((h.fresh me).marks hok hm (hp ▸ id) (ht ▸ id) ha hj)
    | move hv hm => exact AllFresh.setCtx h.fresh ((h.fresh me).move hok hm hv)
  | route => exact h.fresh
  | session hs _ =>
    have he := encrypted_of_ok hok hs
    exact AllFresh.setCtx h.fresh (.encrypted he)
  | bind st n o _ _ hs =>
    intro i
    simp only [bound]
    split
    · have he := encrypted_of_ok hok (by rw [hs]; decide)
      generalize hd : ({ s.client_registry me with full_jid := _ } : Ctx) = d
      have hsent := session_sent d
      simp only [Ctx.session, Session.mk.injEq] at hsent
      subst hd
      refine .encrypted fun hp => ?_
      rw [hsent.1] at hp
      exact hsent.2.2.2.2.2.trans (he hp)
    · split
      · exact .closed rfl
      · exact h.fresh i

theorem AllFresh.act {s' : Server} (h : AllFresh s) (ha : Act me s s') : AllFresh s' :=
  ⟨Registry.reach_keeps (fun _ _ h => h.guarded) (act_refines ha) h.guarded, fresh_act ha h⟩

theorem AllFresh.accept (h : AllFresh s) (pcb : Pcb) : AllFresh (step s (.accept pcb)) := by
  refine ⟨Registry.reach_keeps (fun _ _ h => h.guarded) (accept_refines s pcb) h.guarded, fun i => ?_⟩
  obtain ⟨o, he⟩ := accept_run pcb s
  rw [he]
  exact AllFresh.setCtx (c := { Ctx.zero with pcb := some pcb }) h.fresh
    (fun _ _ => ⟨rfl, rfl, rfl, rfl, rfl⟩) i

theorem run_allFresh (m : Machine) (es : List Event) : AllFresh (m.run es) :=
  actions_keep (fun ha h => h.act ha) (fun _ pcb h => h.accept pcb) (run_actions m es)
    ⟨.empty, fun _ => .closed rfl⟩

/-! The receive loop before TLS: nothing is routed. -/

/-- Unencrypted, and at a point where only SASL elements are looked at. -/
structure Before (c : Session) : Prop where
  state : c.state = .CONNECTED ∨ c.state = .SASL
  tls_established : c.tls_established = false
  authenticated : c.authenticated = false

/-- Unencrypted still. -/
def Clear (c : Session) : Prop := c.tls_established = false

section Loop
variable (me : Slot)

theorem before_handle_sasl (st : Stanza) : Tr me Before (handle_sasl me st) fun _ => Before := by
  refine .bind tr_ctxOf fun c => .ite (fun _ => tr_weaken (tr_send _) fun _ h => h.1) fun ht => ?_
  intro s hs
  have htls := hs.1.tls_established
  rw [hs.2] at htls
  exact absurd htls (by simpa [Ctx.session] using ht)

theorem before_handle_handshake_logic : Tr me Before (handle_handshake_logic me) fun _ => Before := by
  have never : ∀ {c : Ctx} {b : Bool} {m : M Unit}, b = true →
      (∀ d, Before d ∧ d = Ctx.session c → b = false) →
      Tr me (fun d => Before d ∧ d = Ctx.session c) m fun _ => Before := fun hb hf s hs =>
    absurd (hf _ hs) (by simp [hb])
  refine .bind tr_random fun id => .bind tr_ctxOf fun c => .ite (fun ha => never ha ?_) fun _ =>
    .ite (fun ht => never ht ?_) fun _ => tr_weaken (tr_send _) fun _ h => h.1
  · rintro d ⟨hd, rfl⟩
    exact hd.authenticated
  · rintro d ⟨hd, rfl⟩
    exact hd.tls_established

/-- Nothing is routed before TLS, and all that is done is local. -/
theorem keeps_before : Keeps me (Local me) Before Clear where
  own := id
  tcp_arg h := by cases h <;> rfl
  inLoop d hd := by
    rcases hd.state with h | h <;> simp [InLoop, h]
  ended _ h := h.tls_established
  refused _ h := h.tls_established
  header := tr_streamHeader me (fun _ h => ⟨h.state, h.tls_established, h.authenticated⟩) (before_handle_handshake_logic me)
  starttls setup :=
    (tr_weaken (tr_starttls me setup) fun _ h => h.2).conseq (fun _ h => h) fun _ _ h => Bool.eq_false_of_not_eq_true h
  closeStream := tr_closeStream me fun _ _ h htls => Bool.eq_false_iff.mpr fun he => absurd (htls he) (by simp [h.tls_established])
  auth st := tr_weaken (before_handle_sasl me st) fun _ h => h.1
  stanza _ s hs := by
    obtain ⟨hb, ha⟩ := hs
    rcases hb.state with h | h <;> exact absurd (h ▸ ha) (by decide)

theorem before_recv_callback (pcb : Pcb) (chain : List Pbuf) (setup : Bool) :
    Deeds (Local me) me pcb Before (xmpp_recv_callback me pcb (some chain) setup) fun _ => Clear := by
  have K := keeps_before me
  refine .bind deeds_ctxOf fun c => .ite (fun hs => ?_) fun hs => .ite (fun ht => ?_) fun _ =>
    .bind (deeds_weaken (K.plaintextCopy chain) fun _ h => h.1) fun _ => .ite (fun _ => K.runLoop setup) fun _ =>
    K.refuse POLICY_VIOLATION
  · rintro s ⟨⟨hb, he⟩, -⟩
    rw [he] at hb
    rcases hb.state with h | h <;> exact absurd (hs.symm.trans h) (by decide)
  · rintro s ⟨⟨hb, he⟩, -⟩
    rw [he] at hb
    exact absurd ht (by simp [show c.tls_established = false from hb.tls_established])

end Loop

/-! The handshake itself. -/

/-- What holds of one context. -/
def On (me : Slot) (P : Ctx → Prop) (s : Server) : Prop := P (s.client_registry me)

theorem on_modCtx {P Q : Ctx → Prop} {f : Ctx → Ctx} (h : ∀ c, P c → Q (f c)) :
    Triple (On me P) (modCtx me f) fun _ => On me Q := by
  intro s hs
  unfold On modCtx
  rw [setCtx_reg_self]
  exact h _ hs

theorem on_closePcb {P : Ctx → Prop} (h : ∀ c, P c → P { c with pcb := none }) :
    Triple (On me P) (closePcb me) fun _ => On me P := by
  refine .bind (Q := fun _ => On me P) (fun _ hs => hs) fun c => .ite (fun _ => ?_) fun _ => .pure fun _ hs => hs
  exact .bind (Q := fun _ => On me P) (fun _ hs => hs) fun _ => on_modCtx h

/-- Under TLS the buffer has been emptied and nothing else has happened. -/
def Finished (c : Ctx) : Prop := Pristine c ∧ (c.tls_established → c.rx = [])

theorem rx_compact (c : Ctx) : c.tls_staging_compact.rx = c.rx := by
  unfold Ctx.tls_staging_compact
  repeat' first | rfl | split

theorem rx_bioReads (c : Ctx) (reads : List Nat) : (c.bioReads reads).rx = c.rx := by
  refine foldl_keeps (P := fun c' : Ctx => c'.rx = c.rx) (fun c' n h => ?_) reads rfl
  unfold Ctx.tls_net_recv
  dsimp only
  split <;> exact h

theorem Finished.of_kept (h : Finished c) (hk : Ctx.kept c' = Ctx.kept c) (hr : c'.rx = c.rx) : Finished c' := by
  have ht : c'.tls_established = c.tls_established := congrArg (fun k => k.1.tls_established) hk
  exact ⟨h.1.of_kept hk, fun hc => hr.trans (h.2 (ht ▸ hc))⟩

theorem finished_handshake_step (me : Slot) (data : List Byte) (hs : SslHandshake) :
    Triple (On me Finished) (xmpp_tls_handshake_step me data hs) fun _ => On me Finished := by
  have pristine : ∀ {c : Ctx} (tls : Bool) (state : ClientState), Pristine c →
      Pristine { c with state := state, tls_established := tls } := fun _ _ h => ⟨h.1, h.2, h.3, h.4, h.5⟩
  have reset : Triple (On me Finished) (do
      closePcb me
      modCtx me fun c => { c with state := .CONNECTED, tls_established := false }) fun _ => On me Finished :=
    .bind (on_closePcb fun _ h => ⟨⟨h.1.1, h.1.2, h.1.3, h.1.4, h.1.5⟩, h.2⟩) fun _ =>
      on_modCtx fun _ h => ⟨pristine _ _ h.1, nofun⟩
  refine .bind (on_modCtx fun c h => h.of_kept (kept_compact c) (rx_compact c)) fun _ =>
    .bind (Q := fun _ => On me Finished) (fun _ h => h) fun c => .ite (fun _ => reset) fun _ =>
    .bind (on_modCtx (Q := Finished) fun c h => ?_) fun _ => ?_
  · refine h.of_kept ?_ ?_
    · rw [kept_compact, kept_bioReads]
      rfl
    · rw [rx_compact, rx_bioReads]
  · split
    · exact on_modCtx fun c h => ⟨⟨h.1.1, h.1.2, h.1.3, h.1.4, h.1.5⟩, fun _ => rfl⟩
    · exact on_modCtx fun c h => h.of_kept rfl rfl
    · exact on_modCtx fun c h => h.of_kept rfl rfl
    · exact .bind (on_modCtx (Q := Finished) fun c h => h.of_kept rfl rfl) fun _ => reset

theorem finished_whilePcb (me : Slot) (chain : List Pbuf) :
    Triple (On me Finished) (whilePcb me (fun q => xmpp_tls_handshake_step me q.payload q.handshake) chain)
      fun _ => On me Finished := by
  induction chain with
  | nil => exact .pure fun _ h => h
  | cons q rest ih =>
    exact .bind (Q := fun _ => On me Finished) (fun _ h => h) fun c =>
      .ite (fun _ => .bind (finished_handshake_step me _ _) fun _ => ih) fun _ => .pure fun _ h => h

theorem clear_recvClose (me : Slot) (pcb : Pcb) : Triple (On me fun c => c.tls_established = false) (recvClose me pcb)
      fun _ => On me fun c => c.tls_established = false := by
  have look : ∀ {α : Type} {k : Ctx → M α} {Q : α → Server → Prop},
      (∀ c, Triple (On me fun c => c.tls_established = false) (k c) Q) →
      Triple (On me fun c => c.tls_established = false) (ctxOf me >>= k) Q :=
    fun h => .bind (Q := fun _ => On me fun c => c.tls_established = false) (fun _ h => h) h
  have emit : ∀ o, Triple (On me fun c => c.tls_established = false) (emit o)
      fun _ => On me fun c => c.tls_established = false := fun o _ h => h
  have free : Triple (On me fun c => c.tls_established = false) (do
      modCtx me Ctx.tls_client_free
      closePcb me
      modCtx me fun c => { c with state := .CONNECTED }) fun _ => On me fun c => c.tls_established = false := by
    refine .bind (on_modCtx (Q := fun c => c.tls_established = false) fun c h => ?_) fun _ =>
      .bind (on_closePcb fun _ h => h) fun _ => on_modCtx fun _ h => h
    unfold Ctx.tls_client_free
    split
    · rfl
    · exact h
  have close : Triple (On me fun c => c.tls_established = false) (send_stream_close_and_free me)
      fun _ => On me fun c => c.tls_established = false :=
    look fun c => .ite (fun _ => .bind (emit _) fun _ => free) fun _ =>
      .ite (fun _ => .bind (emit _) fun _ => free) fun _ => free
  exact look fun c => .ite (fun _ => .bind (on_modCtx fun _ h => h) fun _ => close) fun _ => close

/-- One event of a connection that is not encrypted yet. -/
theorem event_before (h : AllFresh s) {e : Event} (hslot : Event.slot s e = some me)
    (hp : (s.client_registry me).pcb.isSome) (ht : ¬ (s.client_registry me).tls_established) :
    ReflTransGen (Local me) s (step s e) ∧ On me (fun c => c.tls_established → c.rx = [] ∧ Pristine c) (step s e) := by
  have hpr : Pristine (s.client_registry me) := h.fresh me hp ht
  have htls : (s.client_registry me).tls_established = false := by simpa using ht
  have arg : ∀ {k : Slot → M Unit} {pcb : Pcb}, s.tcp_arg pcb = some me → (withArg pcb k s).2 = (k me s).2 :=
    fun hpcb => congrArg Prod.snd (withArg_some hpcb)
  have clear : ∀ {t : Server}, On me (fun c => c.tls_established = false) t →
      On me (fun c => c.tls_established → c.rx = [] ∧ Pristine c) t := fun hc h => by
    rw [show (_ : Bool) = false from hc] at h
    cases h
  have finish : ∀ {t : Server}, On me Finished t → On me (fun c => c.tls_established → c.rx = [] ∧ Pristine c) t :=
    fun hf h => ⟨hf.2 h, hf.1⟩
  have start : On me Finished s := ⟨hpr, fun h => absurd h ht⟩
  cases e with
  | accept newpcb => cases hslot
  | recv pcb chain setup =>
    have he : step s (.recv pcb chain setup) = (xmpp_recv_callback me pcb (some chain) setup s).2 := arg hslot
    rw [he]
    by_cases hst : (s.client_registry me).state = .STARTTLS
    · have hrun : xmpp_recv_callback me pcb (some chain) setup s =
          whilePcb me (fun q => xmpp_tls_handshake_step me q.payload q.handshake) chain s := by
        rw [xmpp_recv_callback, bind_run]
        exact congrFun (if_pos hst) s
      rw [hrun]
      refine ⟨(tr_whilePcb me (fun q => tr_handshake_step me q.payload q.handshake) chain s (.inl hst)).1, ?_⟩
      exact finish (finished_whilePcb me chain s start)
    · have hb : Before (Ctx.session (s.client_registry me)) := by
        refine ⟨?_, htls, hpr.authenticated⟩
        have hlt : ¬ .AUTHENTICATED ≤ (s.client_registry me).state := fun hle =>
          ht (encrypted_of_ok (h.guarded.session me) hle hp)
        change (s.client_registry me).state = _ ∨ (s.client_registry me).state = _
        cases hcs : (s.client_registry me).state <;> simp_all [ClientState.le_def, ClientState.rank]
      obtain ⟨hc, hclear⟩ := before_recv_callback me pcb chain setup s ⟨hb, hslot⟩
      exact ⟨hc.lift' id fun _ _ hw => hw.2, clear hclear.1⟩
  | close pcb =>
    have he : step s (.close pcb) = (recvClose me pcb s).2 := arg hslot
    rw [he]
    exact ⟨(tr_recvClose me pcb s trivial).1, clear (clear_recvClose me pcb s htls)⟩
  | err pcb =>
    have he : step s (.err pcb) = (xmpp_err_callback me s).2 := arg hslot
    rw [he]
    refine ⟨.single (.move s .clear (.cleared rfl rfl rfl)), clear ?_⟩
    exact on_modCtx (P := fun _ => True) (Q := fun c => c.tls_established = false) (fun _ _ => rfl) s trivial
  | handshake i hs =>
    obtain rfl := Option.some.inj hslot
    have hf : Triple (On i Finished) (Event.handshake i hs).run fun _ => On i Finished :=
      .bind (Q := fun _ => On i Finished) (fun _ h => h) fun c =>
        .ite (fun _ => finished_handshake_step i [] hs) fun _ => .pure fun _ h => h
    refine ⟨?_, finish (hf s start)⟩
    change ReflTransGen (Local i) s ((if _ then _ else _ : M Unit) s).2
    split
    · rename_i hc
      exact (tr_handshake_step i [] hs s (.inl hc.2.1)).1
    · exact .refl
  | ack i =>
    obtain rfl := Option.some.inj hslot
    have hm : Tr i Clear (Event.ack i).run fun _ => Clear :=
      .bind tr_look fun c => .ite (fun _ => tr_ack i) fun _ => .pure fun _ h => h
    obtain ⟨hc, hclear⟩ := hm s htls
    exact ⟨hc, clear hclear⟩

/-- Whatever a client has sent in the clear, as long as its connection is not encrypted its events leave all
stores and the disk as they are; and when the handshake is complete, the receive buffer is empty and the
context is as new. -/
theorem starttls_clean (m : Machine) (es : List Event) (e : Event) (me : Slot)
    (hslot : Event.slot (m.run es) e = some me) (hp : ((m.run es).client_registry me).pcb.isSome)
    (ht : ¬ ((m.run es).client_registry me).tls_established) :
    (step (m.run es) e).mem = (m.run es).mem ∧
      (((step (m.run es) e).client_registry me).tls_established →
        ((step (m.run es) e).client_registry me).rx = [] ∧
          Pristine ((step (m.run es) e).client_registry me)) := by
  obtain ⟨hc, hf⟩ := event_before (run_allFresh m es) hslot hp ht
  exact ⟨(local_frame hc).1, hf⟩

/-- A client authenticates in the clear, and again behind its request for TLS. -/
def injected : List Event :=
  [.accept 7, .recv 7 [passed authAdmin] true,
    .recv 7 [passed (lit "<starttls xmlns='urn:ietf:params:xml:ns:xmpp-tls'/>" ++ authAdmin)] true]

theorem starttls_clean_injected :
    ((step (blank.run injected) (.recv 7 [passed []] true)).client_registry 0).tls_established ∧
      ((step (blank.run injected) (.recv 7 [passed []] true)).client_registry 0).rx = [] ∧
      Pristine ((step (blank.run injected) (.recv 7 [passed []] true)).client_registry 0) := by
  have hs : ((blank.run injected).client_registry 0).pcb.isSome ∧
      ¬ ((blank.run injected).client_registry 0).tls_established ∧
      ((step (blank.run injected) (.recv 7 [passed []] true)).client_registry 0).tls_established := by
    decide +kernel
  have hslot : Event.slot (blank.run injected) (.recv 7 [passed []] true) = some 0 := by decide +kernel
  obtain ⟨-, hf⟩ := starttls_clean blank injected (.recv 7 [passed []] true) 0 hslot hs.1 hs.2.1
  exact ⟨hs.2.2, hf hs.2.2⟩

end Angelic.Proofs
