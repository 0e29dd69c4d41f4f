import Angelic.Proofs.Actions
import Angelic.Model.Machine

namespace Angelic.Proofs
open CString Model StateRel Relation Spec

variable (c : Ctx)

/-! The callbacks as actions: TLS, the receive loop, the events. -/

theorem kept_compact : Ctx.kept c.tls_staging_compact = Ctx.kept c := by
  unfold Ctx.tls_staging_compact
  repeat' first | rfl | split

theorem kept_net_recv (n : Nat) : Ctx.kept (c.tls_net_recv n).2 = Ctx.kept c := by
  unfold Ctx.tls_net_recv
  dsimp only
  split <;> rfl

theorem kept_bioReads (reads : List Nat) : Ctx.kept (c.bioReads reads) = Ctx.kept c :=
  foldl_keeps (P := fun c' => Ctx.kept c' = Ctx.kept c)
    (fun c' n h => (kept_net_recv c' n).trans h) reads rfl

theorem kept_received : Ctx.kept c.on_stanza_received = Ctx.kept c := by
  unfold Ctx.on_stanza_received
  split <;> rfl

/-- Freeing the TLS of a context touches its session in one field. -/
theorem session_tls_client_free : ∃ tls, (tls = true → c.tls_established = true) ∧
      Ctx.session c.tls_client_free = { Ctx.session c with tls_established := tls } := by
  unfold Ctx.tls_client_free
  split
  · exact ⟨false, nofun, rfl⟩
  · exact ⟨c.tls_established, id, rfl⟩

theorem marks_tls_client_free :
    (c.tls_client_free.username, c.tls_client_free.sasl_failures, c.tls_client_free.sm_enabled) =
      (c.username, c.sasl_failures, c.sm_enabled) := by
  unfold Ctx.tls_client_free
  split <;> rfl

section Tls
variable (me : Slot)

/-- A closed context that is back at the start. -/
theorem tr_reset {P : Session → Prop} : Tr me P (do
    closePcb me
    modCtx me fun c => { c with state := .CONNECTED, tls_established := false })
    fun _ c => c.state = .CONNECTED := by
  refine .bind (tr_closePcb (Q := fun c => c.pcb = none) fun _ _ => rfl) fun _ =>
    tr_step (fun _ => rfl) fun c h => ⟨?_, rfl⟩
  have : Ctx.session { c with state := .CONNECTED, tls_established := false } =
      { Ctx.session c with pcb := none, state := .CONNECTED, tls_established := false } := by
    rw [← h]
    rfl
  exact this ▸ .reset false

/-- Where a handshake is gone on with: the pbufs behind the one that ends it are given to it too. -/
def Shaking (c : Session) : Prop := c.state = .STARTTLS ∨ c.state = .CONNECTED

theorem tr_handshake_step (data : List Byte) (hs : SslHandshake) :
    Tr me Shaking (xmpp_tls_handshake_step me data hs) fun _ => Shaking := by
  have fail : Tr me Shaking (do
      closePcb me
      modCtx me fun c => { c with state := .CONNECTED, tls_established := false }) fun _ => Shaking :=
    (tr_reset me).conseq (fun _ h => h) fun _ _ h => .inr h
  refine .bind (tr_keep kept_compact) fun _ => .bind tr_look fun c =>
    .ite (fun _ => fail) fun _ => .bind (tr_keep fun c => ?_) fun _ => ?_
  · rw [kept_compact, kept_bioReads]
    rfl
  · split
    · exact tr_step (fun _ => rfl) fun c h => ⟨.secured h, .inr rfl⟩
    · exact tr_keep fun _ => rfl
    · exact tr_keep fun _ => rfl
    · exact .bind (tr_keep fun _ => rfl) fun _ => fail

/-- Whatever is decrypted, the loop can go on with it. -/
theorem tr_decryptLoop (reads : List SslRead) : Tr me InLoop (decryptLoop me reads) fun _ => InLoop := by
  have close : Tr me InLoop (closePcb me) fun _ => InLoop := tr_closePcb fun _ h => h
  induction reads with
  | nil => exact tr_keep kept_compact
  | cons r rest ih =>
    refine .bind (tr_keep fun c => kept_bioReads c _) fun _ => .bind tr_look fun c => ?_
    split
    · exact close
    · exact .ite (fun _ => .bind (tr_keep fun _ => rfl) fun _ => ih) fun _ =>
        .ite (fun _ => .bind (tr_emit _) fun _ => close) fun _ => .pure fun _ h => h
    · exact tr_keep kept_compact
    · refine .bind (tr_closePcb (Q := fun c => InLoop c ∧ c.pcb = none) fun _ h => ⟨h, rfl⟩) fun _ =>
        tr_step (fun _ => rfl) fun c h => ⟨?_, h.1⟩
      have : Ctx.session { c with tls_established := false } =
          { Ctx.session c with pcb := none, tls_established := false } := by
        rw [← h.2]
        rfl
      exact this ▸ .lost

theorem tr_decrypt (data : List Byte) (reads : List SslRead) :
    Tr me InLoop (xmpp_tls_decrypt me data reads) fun _ => InLoop :=
  .bind (tr_keep kept_compact) fun _ => .bind tr_look fun _ =>
    .ite (fun _ => tr_closePcb fun _ h => h) fun _ =>
    .bind (tr_keep fun _ => rfl) fun _ => tr_decryptLoop me reads

end Tls

section Loop
variable (me : Slot)

theorem tr_smAnswer {P : Session → Prop} (e : SmElement) :
    Tr me (fun d => P d ∧ .SESSION ≤ d.state) (smAnswer me e) fun _ => P := by
  have leave : ∀ {α : Type} {m : M α}, Tr me P m (fun _ => P) →
      Tr me (fun d => P d ∧ .SESSION ≤ d.state) m fun _ => P := fun h => tr_weaken h fun _ hd => hd.1
  cases e with
  | enable =>
    exact .bind tr_random fun r => .bind (tr_mark (fun _ => rfl) fun c h => ⟨.inl rfl, .inl rfl, fun _ => .inr h.2⟩)
      fun _ => leave (tr_send _)
  | request => exact leave (.bind tr_look fun _ => tr_send _)
  | answer => exact leave (.pure fun _ h => h)

theorem tr_starttls (setup : Bool) : Tr me (fun c => c.state = .CONNECTED ∧ ¬ c.tls_established) (starttls me setup)
      fun _ c => ¬ c.tls_established := by
  refine .bind tr_look fun c => .bind (tr_emit _) fun _ => ?_
  -- the set-up turns TLS off, which it is
  have hinit : Tr me (fun c => c.state = .CONNECTED ∧ ¬ c.tls_established)
      (modCtx me fun c => c.tls_client_init setup) fun _ c => c.state = .CONNECTED ∧ ¬ c.tls_established := by
    refine .step fun s hs => ?_
    have he : Ctx.session ((s.client_registry me).tls_client_init setup) = Ctx.session (s.client_registry me) := by
      have htls : (s.client_registry me).tls_established = false := by simpa [Ctx.session] using hs.2
      unfold Ctx.tls_client_init
      split
      · simp [Ctx.session, htls]
      · rfl
    have hm : Marks (s.client_registry me) ((s.client_registry me).tls_client_init setup) := .same (by
      unfold Ctx.tls_client_init
      split <;> rfl)
    exact ⟨.keep s he hm, own_setCtx (he.symm ▸ hs)⟩
  refine .bind hinit fun _ => .ite (fun _ => tr_step (fun _ => rfl) fun c h => ⟨.starttls h.1 h.2, h.2⟩)
    fun _ => .bind (tr_emit _) fun _ => .bind (tr_emit _) fun _ =>
    tr_step (fun _ => rfl) fun c h => ⟨.reset c.tls_established, h.2⟩

theorem tr_closeStream {P Q : Session → Prop}
    (hq : ∀ c tls, P c → (tls = true → c.tls_established = true) →
      Q { c with pcb := none, state := .CONNECTED, tls_established := tls }) : Tr me P (closeStream me) fun _ => Q := by
  have finish : ∀ o : Out, Tr me P (do
      emit o
      modCtx me fun c => { c.tls_client_free with pcb := none, state := .CONNECTED, rx := [] })
      fun _ => Q := by
    refine fun o => .bind (tr_emit _) fun _ => tr_step marks_tls_client_free fun c hc => ?_
    obtain ⟨tls, htls, he⟩ := session_tls_client_free c
    have : Ctx.session { c.tls_client_free with pcb := none, state := .CONNECTED, rx := [] } =
        { Ctx.session c with pcb := none, state := .CONNECTED, tls_established := tls } :=
      congrArg (fun d : Session => { d with pcb := none, state := ClientState.CONNECTED }) he
    exact this ▸ ⟨.reset tls, hq _ tls hc htls⟩
  exact .bind tr_look fun c => .ite (fun _ => .bind (tr_emit _) fun _ => finish _)
    fun _ => .bind (tr_emit _) fun _ => finish _

theorem tr_streamHeader {P : Session → Prop} (hclose : ∀ c, P c → P { c with pcb := none })
    (hanswer : Tr me P (handle_handshake_logic me) fun _ => P) : Tr me P (streamHeader me) fun _ => P := by
  have finish : Tr me P (modCtx me fun c => { c with rx := [] }) fun _ => P := tr_keep fun _ => rfl
  refine .bind (tr_keep fun _ => rfl) fun _ => .bind tr_look fun c =>
    .ite (fun _ => .bind (tr_emit _) fun _ => .bind (tr_emit _) fun _ =>
      .bind (tr_step (Q := P) (fun _ => rfl) fun c' h => ⟨.close, hclose _ h⟩) fun _ => finish) fun _ =>
    .ite (fun _ => .bind (tr_emit _) fun _ => .bind (tr_emit _) fun _ => finish) fun _ =>
    .ite (fun _ => .bind (tr_emit _) fun _ => .bind (tr_emit _) fun _ => finish) fun _ =>
    .bind hanswer fun _ => finish

/-- What a callback is made of, with the handling of a stanza as one turn. -/
inductive Turn (me : Slot) : Server → Server → Prop where
  | own {s s'} (h : Local me s s') : Turn me s s'
  | stanza (s) {st} (ok : StanzaOk st) (h : .AUTHENTICATED ≤ (s.client_registry me).state) :
      Turn me s (xmpp_route_stanza me st s).2

theorem Turn.acts {me : Slot} {s s' : Server} (h : Turn me s s') : ReflTransGen (Act me) s s' := by
  cases h with
  | own h => exact .single (.own h)
  | stanza ok h => exact (acts_xmpp_route_stanza me _ ok s h).1

abbrev Turns (me : Slot) (P : Session → Prop) (m : M α) (Q : α → Session → Prop) : Prop :=
  Trace (Turn me) (Own me P) m fun a => Own me (Q a)

theorem Tr.turns {me : Slot} {P : Session → Prop} {m : M α} {Q : α → Session → Prop} (h : Tr me P m Q) :
    Turns me P m Q := h.mono fun _ _ hs => .single (.own hs)

theorem turns_weaken {me : Slot} {P P' : Session → Prop} {m : M α} {Q : α → Session → Prop}
    (h : Turns me P m Q) (hp : ∀ c, P' c → P c) : Turns me P' m Q :=
  h.conseq (fun _ hs => hp _ hs) fun _ _ hs => hs

theorem turns_xmpp_route_stanza {st : Stanza} (h : StanzaOk st) :
    Turns me (.AUTHENTICATED ≤ ·.state) (xmpp_route_stanza me st) fun _ => InLoop :=
  .step fun s hs => ⟨.stanza s h hs, (acts_xmpp_route_stanza me st h s hs).2⟩

theorem authenticated_of_inLoop {c : Session} (h : InLoop c) (hc : ¬ (c.state = .CONNECTED ∨ c.state = .SASL)) :
    .AUTHENTICATED ≤ c.state := by
  obtain ⟨hcon, hsasl⟩ := not_or.mp hc
  have hs : c.state ≠ .STARTTLS := h
  cases hcs : c.state <;> simp_all [ClientState.le_def, ClientState.rank]

end Loop

section Callbacks
variable (me : Slot)

theorem tr_whilePcb {P : Session → Prop} {body : Pbuf → M Unit}
    (h : ∀ q, Tr me P (body q) fun _ => P) (chain : List Pbuf) : Tr me P (whilePcb me body chain) fun _ => P := by
  induction chain with
  | nil => exact .pure fun _ h => h
  | cons q rest ih =>
    exact .bind tr_look fun c => .ite (fun _ => .bind (h q) fun _ => ih) fun _ => .pure fun _ h => h

/-! The close of a peer is one action: on the way TLS is down while the connection is not. -/

/-- From `s` with more output and another context that has `P`. -/
def Reached (s : Server) (P : Ctx → Prop) (t : Server) : Prop :=
  ∃ o c, t = ({ s with out := s.out ++ o } : Server).setCtx me c ∧ P c

section Reached
variable {me} {s : Server} {P Q : Ctx → Prop}

theorem reached_modCtx {f : Ctx → Ctx} (h : ∀ c, P c → Q (f c)) :
    Triple (Reached me s P) (modCtx me f) fun _ => Reached me s Q := by
  rintro _ ⟨o, c, rfl, hc⟩
  refine ⟨o, f c, ?_, h c hc⟩
  simp [modCtx, Server.setCtx]

theorem reached_emit (x : Out) : Triple (Reached me s P) (emit x) fun _ => Reached me s P := by
  rintro _ ⟨o, c, rfl, hc⟩
  refine ⟨o ++ [x], c, ?_, hc⟩
  simp [emit, Server.emit, Server.setCtx]

theorem reached_look : Triple (Reached me s P) (ctxOf me) fun c => Reached me s fun d => P d ∧ d = c := by
  rintro _ ⟨o, c, rfl, hc⟩
  exact ⟨o, c, rfl, hc, by simp [ctxOf]⟩

end Reached

/-- The same user, closed and back at the start. -/
def Dropped (c d : Ctx) : Prop :=
  ∃ pcb state tls,
    Ctx.kept d =
      ({ Ctx.session c with pcb := pcb, state := state, tls_established := tls }, c.sasl_failures, c.sm_enabled)

theorem dropped_free {c d : Ctx} (h : Dropped c d) : Dropped c d.tls_client_free := by
  obtain ⟨pcb, state, tls, he⟩ := h
  unfold Ctx.tls_client_free
  split
  · exact ⟨pcb, state, false, congrArg (fun k : Session × Nat × Bool =>
      ({ k.1 with tls_established := false }, k.2)) he⟩
  · exact ⟨pcb, state, tls, he⟩

/-- Closed, at the start, and otherwise the same user. -/
def Gone (c d : Ctx) : Prop :=
  ∃ tls, Ctx.kept d =
    ({ Ctx.session c with pcb := none, state := .CONNECTED, tls_established := tls },
      c.sasl_failures, c.sm_enabled)

theorem reached_close_and_free (s : Server) {c : Ctx} :
    Triple (Reached me s (Dropped c)) (send_stream_close_and_free me) fun _ => Reached me s (Gone c) := by
  have closed : Triple (Reached me s (Dropped c)) (closePcb me)
      fun _ => Reached me s fun d => Dropped c d ∧ d.pcb = none := by
    refine .bind reached_look fun d => .ite (fun _ => .bind (reached_emit _) fun _ =>
      reached_modCtx fun d' hd => ⟨?_, rfl⟩) fun hn => .pure fun t ht => ?_
    · obtain ⟨⟨pcb, state, tls, he⟩, -⟩ := hd
      exact ⟨none, state, tls, congrArg (fun k : Session × Nat × Bool => ({ k.1 with pcb := none }, k.2)) he⟩
    · obtain ⟨o, d', rfl, hd, rfl⟩ := ht
      exact ⟨o, d', rfl, hd, by simpa using hn⟩
  have finish : Triple (Reached me s (Dropped c)) (do
      modCtx me Ctx.tls_client_free
      closePcb me
      modCtx me fun c => { c with state := .CONNECTED }) fun _ => Reached me s (Gone c) := by
    refine .bind (reached_modCtx fun d hd => dropped_free hd) fun _ => .bind closed fun _ =>
      reached_modCtx fun d hd => ?_
    obtain ⟨⟨pcb, state, tls, he⟩, hp⟩ := hd
    refine ⟨tls, (congrArg (fun k : Session × Nat × Bool =>
      ({ k.1 with state := ClientState.CONNECTED }, k.2)) he).trans ?_⟩
    have : pcb = none := (congrArg (fun k : Session × Nat × Bool => k.1.pcb) he).symm.trans hp
    rw [this]
  have weak : ∀ t d, Reached me s (fun d' => Dropped c d' ∧ d' = d) t → Reached me s (Dropped c) t := by
    rintro _ _ ⟨o, d', rfl, hd, -⟩
    exact ⟨o, d', rfl, hd⟩
  exact .bind reached_look fun d =>
    .ite (fun _ => .bind (reached_emit _) fun _ => finish.conseq (fun t => weak t d) fun _ _ h => h) fun _ =>
    .ite (fun _ => .bind (reached_emit _) fun _ => finish.conseq (fun t => weak t d) fun _ _ h => h) fun _ =>
    finish.conseq (fun t => weak t d) fun _ _ h => h

theorem tr_recvClose (pcb : Pcb) : Tr me (fun _ => True) (recvClose me pcb) fun _ _ => True := by
  intro s _
  have start : Reached me s (Dropped (s.client_registry me)) s :=
    ⟨[], s.client_registry me, by simp [Server.setCtx], _, _, _, rfl⟩
  have run : Triple (Reached me s (Dropped (s.client_registry me))) (recvClose me pcb) fun _ =>
      Reached me s (Gone (s.client_registry me)) := by
    refine .bind (Q := fun _ => Reached me s (Dropped (s.client_registry me))) (fun _ h => h) fun c =>
      .ite (fun _ => .bind (reached_modCtx fun d hd => ?_) fun _ => reached_close_and_free me s) fun _ =>
      reached_close_and_free me s
    obtain ⟨_, state, tls, he⟩ := hd
    exact ⟨some pcb, state, tls, congrArg (fun k : Session × Nat × Bool => ({ k.1 with pcb := some pcb }, k.2)) he⟩
  obtain ⟨o, d, he, tls, hd⟩ := run s start
  have hses : Ctx.session d = { Ctx.session (s.client_registry me) with
      pcb := none, state := .CONNECTED, tls_established := tls } := congrArg Prod.fst hd
  have hmarks : Marks (s.client_registry me) d :=
    .same (congrArg (fun k : Session × Nat × Bool => (k.1.username, k.2)) hd)
  refine ⟨?_, trivial⟩
  rw [he]
  exact (ReflTransGen.single (.emit s o)).tail (.move _ (hses ▸ .reset tls) hmarks)

end Callbacks

/-- The context an event works on; none for a new connection. -/
def Event.slot (s : Server) : Event → Option Slot
  | .accept _ => none
  | .recv pcb _ _ | .close pcb | .err pcb => s.tcp_arg pcb
  | .handshake i _ | .ack i => some i

/-- The connection that has to go for a new one. -/
def evicted (s : Server) : List Out :=
  if (s.client_registry s.client_idx).pcb.isSome then [.tcp_close (s.client_registry s.client_idx).pcb] else []

/-- Accepting a connection gives it the context whose turn it is. -/
theorem accept_eq (newpcb : Pcb) (s : Server) :
    step s (.accept newpcb) =
      { s with
        client_registry :=
          Function.update s.client_registry s.client_idx { Ctx.zero with pcb := some newpcb }
        client_idx := s.client_idx + 1
        tcp_arg := Function.update s.tcp_arg newpcb (some s.client_idx)
        out := s.out ++ evicted s } := by
  let next : Server := { s with client_idx := s.client_idx + 1 }
  let take : M Unit := do
    modCtx s.client_idx fun _ => { Ctx.zero with pcb := some newpcb }
    modify fun t => { t with tcp_arg := Function.update t.tcp_arg newpcb (some s.client_idx) }
  have hrun : step s (.accept newpcb) =
      ((if (s.client_registry s.client_idx).pcb.isSome then do
          emit (.tcp_close (s.client_registry s.client_idx).pcb)
          take
        else take) next).2 := rfl
  rw [hrun, evicted]
  by_cases hp : (s.client_registry s.client_idx).pcb.isSome
  · rw [if_pos hp, if_pos hp]
    rfl
  · rw [if_neg hp, if_neg hp, List.append_nil]
    rfl

theorem accept_run (newpcb : Pcb) (s : Server) :
    ∃ o, step s (.accept newpcb) =
      { s with
        client_registry :=
          Function.update s.client_registry s.client_idx { Ctx.zero with pcb := some newpcb }
        client_idx := s.client_idx + 1
        tcp_arg := Function.update s.tcp_arg newpcb (some s.client_idx)
        out := s.out ++ o } :=
  ⟨_, accept_eq newpcb s⟩

/-- A callback of a pcb. -/
theorem withArg_some {k : Slot → M Unit} {pcb : Pcb} {s : Server} {i : Slot} (h : s.tcp_arg pcb = some i) :
    withArg pcb k s = k i s := by
  have hget : (get : M Server) s = (s, s) := rfl
  simp only [withArg, bind_run, hget, h]

theorem withArg_none {k : Slot → M Unit} {pcb : Pcb} {s : Server} (h : s.tcp_arg pcb = none) :
    withArg pcb k s = ((), s) := by
  have hget : (get : M Server) s = (s, s) := rfl
  simp only [withArg, bind_run, hget, h]
  rfl

/-- A callback of a pcb without an argument does nothing. -/
theorem step_no_slot {s : Server} {e : Event} (h : Event.slot s e = none)
    (ha : ∀ pcb, e ≠ .accept pcb) : step s e = s := by
  cases e with
  | accept newpcb => exact absurd rfl (ha newpcb)
  | recv pcb chain setup => exact congrArg Prod.snd (withArg_none h)
  | close pcb => exact congrArg Prod.snd (withArg_none h)
  | err pcb => exact congrArg Prod.snd (withArg_none h)
  | handshake i hs => cases h
  | ack i => cases h

/-- What the server does at a time: a turn of a context, or a new connection. -/
inductive Action : Server → Server → Prop where
  | turn {s s'} (me : Slot) (h : Turn me s s') : Action s s'
  | accept (s pcb) : Action s (step s (.accept pcb))

theorem actions_keep {P : Server → Prop} (act : ∀ {me s s'}, Act me s s' → P s → P s')
    (accept : ∀ s pcb, P s → P (step s (.accept pcb))) {s s' : Server} (h : ReflTransGen Action s s')
    (hp : P s) : P s' := by
  induction h with
  | refl => exact hp
  | tail _ ha ih =>
    cases ha with
    | turn me h =>
      have hc := h.acts
      clear h
      induction hc with
      | refl => exact ih
      | tail _ ha ih' => exact act ha ih'
    | accept pcb => exact accept _ pcb ih

end Angelic.Proofs
