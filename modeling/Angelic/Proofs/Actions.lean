import Angelic.Proofs.RoomHandlers
import Angelic.Proofs.ParsedStanza
import Angelic.Spec.Sessions

namespace Angelic.Proofs
open CString Model StateRel Relation Spec

variable {c : Ctx} {m : M α}
variable {c' : Ctx}

/-! The actions a callback is made of. Everything that is true of whole runs is read off the list
of them. -/

def Ctx.session (c : Ctx) : Session :=
  ⟨c.pcb, c.state, c.username, c.full_jid, c.authenticated, c.tls_established⟩

theorem session_of_core (h : Ctx.core c' = Ctx.core c) : Ctx.session c' = Ctx.session c :=
  show Ctx.session (Ctx.core c') = Ctx.session (Ctx.core c) from congrArg Ctx.session h

theorem session_sent (c : Ctx) : Ctx.session c.on_stanza_sent = Ctx.session c :=
  session_of_core (core_on_stanza_sent c)

/-- The session with the two marks that outlive a stanza. -/
def Ctx.kept (c : Ctx) : Session × Nat × Bool := (Ctx.session c, c.sasl_failures, c.sm_enabled)

theorem kept_of_core (h : Ctx.core c' = Ctx.core c) : Ctx.kept c' = Ctx.kept c :=
  show Ctx.kept (Ctx.core c') = Ctx.kept (Ctx.core c) from congrArg Ctx.kept h

theorem kept_sent (c : Ctx) : Ctx.kept c.on_stanza_sent = Ctx.kept c :=
  kept_of_core (core_on_stanza_sent c)

/-- A user is named and a failure counted under TLS alone, stanzas are counted in a session alone. -/
structure Marks (c c' : Ctx) : Prop where
  username : c'.username = c.username ∨ c'.username = [] ∨ c.tls_established
  sasl_failures : c'.sasl_failures = c.sasl_failures ∨ c'.sasl_failures = 0 ∨ c.tls_established
  sm_enabled : c'.sm_enabled → c.sm_enabled ∨ .SESSION ≤ c.state

theorem Marks.same (h : (c'.username, c'.sasl_failures, c'.sm_enabled) =
    (c.username, c.sasl_failures, c.sm_enabled)) : Marks c c' := by
  simp only [Prod.mk.injEq] at h
  obtain ⟨hu, hf, hs⟩ := h
  exact ⟨.inl hu, .inl hf, fun h => .inl (hs ▸ h)⟩

theorem Marks.cleared (hu : c'.username = []) (hf : c'.sasl_failures = 0) (hs : c'.sm_enabled = false) : Marks c c' :=
  ⟨.inr (.inl hu), .inr (.inl hf), fun h => absurd (hs.symm.trans h) Bool.false_ne_true⟩

theorem Marks.of_kept (h : Ctx.kept c' = Ctx.kept c) : Marks c c' :=
  .same (congrArg (fun k : Session × Nat × Bool => (k.1.username, k.2)) h)

/-- A context that the conflict loop clears. -/
def clashes (me : Slot) (s : Server) (i : Slot) : Prop :=
  i ≠ me ∧ (s.client_registry i).pcb.isSome ∧
    (s.client_registry i).username = (s.client_registry me).username

instance (me : Slot) (s : Server) (i : Slot) : Decidable (clashes me s i) :=
  inferInstanceAs (Decidable (_ ∧ _))

/-- The contexts once `me` is bound: it has its address and has been sent the answer, and the other
connections of its user are cleared. -/
def bound (s : Server) (me : Slot) (n : Nat) (i : Slot) : Ctx :=
  let c := s.client_registry me
  if i = me then
    { ({ c with full_jid := fullJid c.username n } : Ctx).on_stanza_sent with state := .SESSION }
  else if clashes me s i then .zero
  else s.client_registry i

/-- The stanza that asks for the session of `me` is in the log. -/
def Asked (me : Slot) (s : Server) : Prop :=
  ∃ p ∈ s.routed, Ctx.session p.1 = Ctx.session (s.client_registry me) ∧ p.2.xmlns = NS_SESSION

/-- The actions that leave the stores alone and the other contexts. -/
inductive Local (me : Slot) : Server → Server → Prop where
  | emit (s o) : Local me s { s with out := s.out ++ o }
  | draw (s) : Local me s { s with draws := s.draws + 1 }
  | pool (s p) : Local me s { s with stanza_pool := p }
  | keep (s) {c} (h : Ctx.session c = Ctx.session (s.client_registry me))
      (hm : Marks (s.client_registry me) c) : Local me s (s.setCtx me c)
  | move (s) {c} (h : (Ctx.session (s.client_registry me)).Move (Ctx.session c))
      (hm : Marks (s.client_registry me) c) : Local me s (s.setCtx me c)

inductive Act (me : Slot) : Server → Server → Prop where
  | effect {s s'} (h : Effect me s s') : Act me s s'
  | own {s s'} (h : Local me s s') : Act me s s'
  | route (s st) (h : .AUTHENTICATED ≤ (s.client_registry me).state) :
      Act me s { s with routed := s.routed ++ [(s.client_registry me, st)] }
  | session (s) (h : .AUTHENTICATED ≤ (s.client_registry me).state) (hr : Asked me s) :
      Act me s (s.setCtx me { s.client_registry me with state := .READY })
  | bind (s st n o) (hx : st.xmlns = NS_BIND) (hn : n < 9999)
      (h : (s.client_registry me).state = .BIND) :
      Act me s
        { s with
          client_registry := bound s me n, out := s.out ++ o, draws := s.draws + 1
          routed := s.routed ++ [(s.client_registry me, st)] }

/-- Local actions leave the stores, the disk and the log alone. -/
theorem local_frame {me : Slot} {s s' : Server} (h : ReflTransGen (Local me) s s') :
    s'.mem = s.mem ∧ s'.routed = s.routed := by
  induction h with
  | refl => exact ⟨rfl, rfl⟩
  | tail _ hl ih => cases hl <;> exact ih

/-- What holds of the session of one context. -/
def Own (me : Slot) (P : Session → Prop) (s : Server) : Prop := P (Ctx.session (s.client_registry me))

/-- From `P` of the own session a run is made of local actions and ends with `Q` of it. -/
abbrev Tr (me : Slot) (P : Session → Prop) (m : M α) (Q : α → Session → Prop) : Prop :=
  Trace (Local me) (Own me P) m fun a => Own me (Q a)

/-- The same with all actions. -/
abbrev Acts (me : Slot) (P : Session → Prop) (m : M α) (Q : α → Session → Prop) : Prop :=
  Trace (Act me) (Own me P) m fun a => Own me (Q a)

theorem Tr.acts {me : Slot} {P : Session → Prop} {Q : α → Session → Prop} (h : Tr me P m Q) : Acts me P m Q :=
  h.mono fun _ _ hs => .single (.own hs)

section Rules
variable {me : Slot} {P P' Q : Session → Prop}
variable {f : Ctx → Ctx}

theorem own_setCtx {s : Server} (h : P (Ctx.session c)) : Own me P (s.setCtx me c) := by
  unfold Own
  rwa [setCtx_reg_self]

theorem Own.mono {s : Server} (h : Own me P s) (hp : ∀ c, P c → Q c) : Own me Q s := hp _ h

theorem tr_weaken {Q : α → Session → Prop} (h : Tr me P m Q) (hp : ∀ c, P' c → P c) : Tr me P' m Q :=
  h.conseq (fun _ hs => hp _ hs) fun _ _ hs => hs

theorem tr_emit (o : Out) : Tr me P (emit o) fun _ => P := .step fun s hs => ⟨.emit s [o], hs⟩

theorem tr_random : Tr me P secure_random_u32 fun _ => P := .step fun s hs => ⟨.draw s, hs⟩

theorem tr_setPool (k : Fin MAX_POOL_STANZAS) (used : Bool) : Tr me P (setPool k used) fun _ => P :=
  .step fun s hs => ⟨.pool s _, hs⟩

theorem tr_ctxOf : Tr me P (ctxOf me) fun c d => P d ∧ d = Ctx.session c :=
  .read (fun _ => rfl) fun _ hs => ⟨hs, rfl⟩

/-- For a look at the context whose result does not matter. -/
theorem tr_look : Tr me P (ctxOf me) fun _ => P := .read (fun _ => rfl) fun _ hs => hs

theorem tr_mark (h : ∀ c, Ctx.session (f c) = Ctx.session c)
    (hm : ∀ c, P (Ctx.session c) → Marks c (f c)) : Tr me P (modCtx me f) fun _ => P :=
  .step fun s hs => ⟨.keep s (h _) (hm _ hs), own_setCtx ((h _).symm ▸ hs)⟩

theorem tr_keep (h : ∀ c, Ctx.kept (f c) = Ctx.kept c) : Tr me P (modCtx me f) fun _ => P :=
  tr_mark (fun c => congrArg Prod.fst (h c)) fun c _ => .of_kept (h c)

theorem tr_move (hm : ∀ c, P (Ctx.session c) → Marks c (f c))
    (h : ∀ c, P (Ctx.session c) → (Ctx.session c).Move (Ctx.session (f c)) ∧ Q (Ctx.session (f c))) :
    Tr me P (modCtx me f) fun _ => Q :=
  .step fun s hs => ⟨.move s (h _ hs).1 (hm _ hs), own_setCtx (h _ hs).2⟩

/-- A move that sets no mark. -/
theorem tr_step (hm : ∀ c : Ctx, ((f c).username, (f c).sasl_failures, (f c).sm_enabled) =
      (c.username, c.sasl_failures, c.sm_enabled))
    (h : ∀ c, P (Ctx.session c) → (Ctx.session c).Move (Ctx.session (f c)) ∧ Q (Ctx.session (f c))) :
    Tr me P (modCtx me f) fun _ => Q := tr_move (fun c _ => .same (hm c)) h

theorem tr_send (text : Str) : Tr me P (send_raw me text) fun _ => P :=
  .bind tr_look fun _ => .bind (tr_emit _) fun _ => tr_keep kept_sent

theorem tr_closePcb (h : ∀ c, P c → Q { c with pcb := none }) :
    Tr me P (closePcb me) fun _ => Q := by
  refine .bind tr_ctxOf fun c => .ite (fun _ => .bind (tr_emit _) fun _ => tr_step (fun _ => rfl) fun c' hc =>
    ⟨.close, h _ hc.1⟩) fun hn => .pure fun s hs => hs.mono fun d hd => ?_
  have hnone : d.pcb = none := by
    rw [hd.2]
    simpa [Ctx.session] using hn
  have := h d hd.1
  rwa [← hnone] at this

theorem session_of_calm (h : Calm c c') : Ctx.session c' = Ctx.session c ∨
      c.state = .SESSION ∧ Ctx.session c' = { Ctx.session c with state := .READY } := by
  rcases h with h | ⟨hs, h⟩
  · exact .inl (session_of_core h)
  · exact .inr ⟨hs, session_of_core h⟩

/-- Handlers are made of effects, which leave the session alone or make it ready. -/
theorem tr_effects (h : Does (Effect me) m)
    (hp : ∀ c, P c → c.state = .SESSION → P { c with state := .READY }) : Acts me P m fun _ => P := by
  intro s hs
  refine ⟨(h.mono fun _ _ he => .single (.effect he)) s, ?_⟩
  unfold Own
  rcases session_of_calm (does_quiet h s).own with he | ⟨hst, he⟩
  · rw [he]
    exact hs
  · rw [he]
    exact hp _ hs hst

end Rules

/-! The handlers of the negotiation. In the receive loop a context is never in the middle of a
TLS handshake. -/

def InLoop (c : Session) : Prop := c.state ≠ .STARTTLS

/-- Where SASL is spoken. -/
def InSasl (c : Session) : Prop := (c.state = .CONNECTED ∨ c.state = .SASL) ∧ c.tls_established

theorem InSasl.inLoop {c : Session} (h : InSasl c) : InLoop c := by
  rcases h.1 with hs | hs <;> simp [InLoop, hs]

theorem saslUsername_holds (m : List Byte) : Holds 32 (saslUsername m) := by
  unfold saslUsername
  split
  · refine ⟨?_, fun h => zero_not_mem_cstr _ (List.mem_of_mem_take h)⟩
    simp only [List.length_take]
    omega
  · exact ⟨Nat.zero_lt_succ _, List.not_mem_nil⟩

section Handlers
variable (me : Slot) (st : Stanza)

theorem tr_saslFailure : Tr me InSasl (saslFailure me) fun _ => InLoop := by
  refine .bind (tr_send _) fun _ => .bind (tr_mark (fun _ => rfl) fun c h => ?_) fun _ =>
    .bind tr_look fun c => .ite (fun _ => .bind (tr_send _) fun _ => .bind (tr_emit _) fun _ =>
      tr_step (fun _ => rfl) fun c _ => ?_)
    fun _ => .pure fun s hs => hs.mono fun _ h => h.inLoop
  · exact ⟨.inl rfl, .inr (.inr h.2), .inl⟩
  · exact ⟨.reset c.tls_established, nofun⟩

theorem tr_saslSucceed : Tr me (fun c => InSasl c ∧ c.username ≠ []) (saslSucceed me) fun _ => InLoop :=
  .bind (tr_send _) fun _ => tr_step (fun _ => rfl) fun _ h => ⟨.login h.1.2 h.2, nofun⟩

theorem tr_saslDecoded (decoded : List Byte) : Tr me InSasl (saslDecoded me st decoded) fun _ => InLoop := by
  have named : ∀ u, Holds 32 u → u ≠ [] → Tr me InSasl (modCtx me fun c => { c with username := u })
      fun _ c => InSasl c ∧ c.username ≠ [] := fun u hu hne =>
    tr_move (fun _ h => ⟨.inr (.inr h.2), .inl rfl, .inl⟩) fun _ h => ⟨.named u h.1 hu hne, h, hne⟩
  have fail : Tr me (fun c => InSasl c ∧ c.username ≠ []) (saslFailure me) fun _ => InLoop :=
    tr_weaken (tr_saslFailure me) fun _ h => h.1
  have hname : Holds 32 (if saslUsername decoded = [] then lit "user" else saslUsername decoded) ∧
      (if saslUsername decoded = [] then lit "user" else saslUsername decoded) ≠ [] := by
    split
    · exact ⟨⟨by decide, by decide⟩, by decide⟩
    · exact ⟨saslUsername_holds decoded, ‹_›⟩
  refine .ite (fun hbad => .bind (named _ (saslUsername_holds decoded) fun he => ?_) fun _ => fail)
    fun _ => .bind (named _ hname.1 hname.2) fun _ => .ite (fun _ => fail) fun _ => tr_saslSucceed me
  rw [he] at hbad
  cases hbad

theorem tr_handle_sasl :
    Tr me (fun c => c.state = .CONNECTED ∨ c.state = .SASL) (handle_sasl me st) fun _ => InLoop := by
  have answer : ∀ c : Ctx, ∀ text, Tr me (fun d => (d.state = .CONNECTED ∨ d.state = .SASL) ∧
      d = Ctx.session c) (send_raw me text) fun _ => InLoop := fun c text =>
    (tr_send text).conseq (fun _ h => h) fun _ s h => h.mono fun d hd => by
      rcases hd.1 with hs | hs <;> simp [InLoop, hs]
  refine .bind tr_ctxOf fun c => .ite (fun _ => answer c _) fun ht => .ite (fun _ => answer c _) fun _ => ?_
  split
  · exact answer c _
  · refine tr_weaken (tr_saslDecoded me st _) fun d hd => ⟨hd.1, ?_⟩
    rw [hd.2]
    simpa [Ctx.session] using ht

theorem tr_handle_handshake_logic : Tr me InLoop (handle_handshake_logic me) fun _ => InLoop := by
  refine .bind tr_random fun id => .bind tr_ctxOf fun c => .ite (fun ha => ?_) fun ha =>
    .ite (fun _ => ?_) fun _ => (tr_send _).conseq (fun _ h => h) fun _ _ h => h.mono fun _ h => h.1
  · refine .bind (tr_step (Q := InLoop) (fun _ => rfl) fun c' h => ⟨.restart ?_, nofun⟩) fun _ => tr_send _
    have : (Ctx.session c').authenticated = c.authenticated := by rw [h.2]; rfl
    exact this.trans ha
  · refine .bind (tr_send _) fun _ => tr_step (fun _ => rfl) fun c' h => ⟨.offer ?_, nofun⟩
    have : (Ctx.session c').authenticated = c.authenticated := by rw [h.2]; rfl
    rwa [this]

/-! Binding is one action: in between, a context is past binding in parts. -/

theorem conflictOne_run (i : Slot) (s : Server) :
    ∃ o, (conflictOne me i s).2 =
      { s with
        client_registry := fun j => if j = i ∧ clashes me s i then .zero else s.client_registry j
        out := s.out ++ o } := by
  by_cases hc : clashes me s i
  · have clear : ∀ o : List Out, (({ s with out := s.out ++ o } : Server).setCtx i .zero) =
        { s with
          client_registry := fun j => if j = i ∧ clashes me s i then .zero else s.client_registry j
          out := s.out ++ o } := by
      intro o
      simp only [Server.setCtx, Server.mk.injEq, and_true]
      funext j
      by_cases hj : j = i
      · simp [hj, hc]
      · simp [hj]
    refine ⟨[if (s.client_registry i).tls_established then
        .tls_write i (s.client_registry i).pcb CONFLICT
      else .tcp_write (s.client_registry i).pcb CONFLICT, .tcp_close (s.client_registry i).pcb], ?_⟩
    rw [← clear]
    change ((if clashes me s i then _ else _ : M Unit) s).2 = _
    rw [if_pos hc]
    split <;> simp [bind_run, emit, Server.emit, modCtx, Server.setCtx, *]
  · refine ⟨[], ?_⟩
    change ((if clashes me s i then _ else _ : M Unit) s).2 = _
    rw [if_neg hc]
    simp [pure_run, hc]

theorem conflicts_run (l : List Slot) (s : Server) :
    ∃ o, (l.forM (conflictOne me) s).2 =
      { s with
        client_registry := fun j => if j ∈ l ∧ clashes me s j then .zero else s.client_registry j
        out := s.out ++ o } := by
  induction l generalizing s with
  | nil => exact ⟨[], by simp [List.forM_nil, pure_run]⟩
  | cons i l ih =>
    obtain ⟨o, ho⟩ := conflictOne_run me i s
    obtain ⟨o', ho'⟩ := ih (conflictOne me i s).2
    refine ⟨o ++ o', ?_⟩
    change (l.forM (conflictOne me) (conflictOne me i s).2).2 = _
    rw [ho']
    generalize (conflictOne me i s).2 = t at ho
    subst ho
    simp only [List.append_assoc, Server.mk.injEq, and_true]
    funext j
    -- the own context stays, and one that was cleared does not clash again
    have own : ¬ (me = i ∧ clashes me s i) := fun h => h.2.1 h.1.symm
    by_cases hj : j = i ∧ clashes me s i
    · have hm : j ∈ i :: l ∧ clashes me s j := ⟨by simp [hj.1], hj.1 ▸ hj.2⟩
      rw [if_pos hm]
      simp [hj]
    · have he : ∀ t : Server, t.client_registry j = s.client_registry j →
          t.client_registry me = s.client_registry me → (clashes me t j ↔ clashes me s j) := by
        intro t hr hm
        simp only [clashes, hr, hm]
      rw [if_congr (and_congr_right fun _ => he _ (if_neg hj) (if_neg own)) rfl (if_neg hj)]
      refine if_congr ⟨fun h => ⟨List.mem_cons_of_mem _ h.1, h.2⟩, fun h => ⟨?_, h.2⟩⟩ rfl rfl
      exact (List.mem_cons.mp h.1).resolve_left fun hji => hj ⟨hji, hji ▸ h.2⟩

/-- The whole loop, for a context that was changed but not in its name. -/
theorem allConflicts_run (s : Server) (hu : c.username = (s.client_registry me).username) :
    ∃ o, (forAll MAX_USERS (conflictOne me) (s.setCtx me c)).2 =
      ({ s with
        client_registry := fun i => if clashes me s i then .zero else s.client_registry i
        out := s.out ++ o } : Server).setCtx me c := by
  obtain ⟨o, ho⟩ := conflicts_run me (List.finRange MAX_USERS) (s.setCtx me c)
  refine ⟨o, ?_⟩
  rw [forAll, ho]
  simp only [Server.setCtx, Server.mk.injEq, and_true, List.mem_finRange, true_and]
  funext j
  by_cases hj : j = me
  · subst hj
    simp [clashes]
  · simp [clashes, hj, hu]

theorem bindAs_run (s : Server) (n : Nat) :
    ∃ o, (bindAs me st (fullJid (s.client_registry me).username n) s).2 =
      { s with client_registry := bound s me n, out := s.out ++ o } := by
  generalize hc : ({ s.client_registry me with
    full_jid := fullJid (s.client_registry me).username n } : Ctx) = c
  have hu : c.username = (s.client_registry me).username := by rw [← hc]
  have hb : ∀ i, bound s me n i = if i = me then { c.on_stanza_sent with state := .SESSION }
      else if clashes me s i then .zero else s.client_registry i := fun i => by rw [← hc]; rfl
  obtain ⟨o, ho⟩ := allConflicts_run me s hu
  refine ⟨o ++ [.send me c.tls_established c.pcb (snprintf 1024 fmtBound
    [.s st.id, .s (fullJid (s.client_registry me).username n)])], ?_⟩
  rw [bindAs, bind_run, modCtx, hc, bind_run, ho]
  simp only [send_raw, bind_run, ctxOf, emit, Server.emit, xmpp_sm_on_stanza_sent, modCtx, Server.setCtx,
    List.append_assoc, Server.mk.injEq, and_true, Function.update_self, Function.update_idem]
  funext j
  rw [hb]
  by_cases hj : j = me
  · simp [hj]
  · simp [hj]

theorem handle_core_bind_run {s : Server} (h : (s.client_registry me).state = .BIND) :
    ∃ n < 9999, ∃ o, (handle_core_bind me st s).2 =
      { s with client_registry := bound s me n, out := s.out ++ o, draws := s.draws + 1 } := by
  have hrun : handle_core_bind me st s = (do
      let r ← secure_random_u32
      bindAs me st (fullJid (s.client_registry me).username (r.toNat % 9999)) : M Unit) s := by
    rw [handle_core_bind, bind_run]
    exact congrFun (if_neg (not_not.mpr h)) s
  obtain ⟨o, ho⟩ := bindAs_run me st { s with draws := s.draws + 1 } ((s.random s.draws).toNat % 9999)
  rw [hrun, bind_run]
  exact ⟨_, Nat.mod_lt _ (by decide), o, ho⟩

theorem handle_core_bind_refused {s : Server} (h : (s.client_registry me).state ≠ .BIND) :
    ∃ text, handle_core_bind me st s = send_raw me text s := by
  have hrun : handle_core_bind me st s = (if st.id ≠ [] then
      send_raw me (snprintf 512 fmtUnexpectedId
        [.s (fromJid st), .s (toJid (s.client_registry me)), .s st.id])
    else send_raw me (snprintf 512 fmtUnexpected
        [.s (fromJid st), .s (toJid (s.client_registry me))])) s := by
    rw [handle_core_bind, bind_run]
    exact congrFun (if_pos h) s
  rw [hrun]
  split
  · exact ⟨_, rfl⟩
  · exact ⟨_, rfl⟩

theorem tr_bind_refused : Tr me (fun c => InLoop c ∧ c.state ≠ .BIND) (handle_core_bind me st) fun _ => InLoop := by
  intro s hs
  obtain ⟨text, hrun⟩ := handle_core_bind_refused me st hs.2
  rw [hrun]
  exact tr_send _ s hs.1

/-- The session is ready at once, bound or not; the stanza that asked is in the log. -/
theorem trace_handle_core_session : Trace (Act me) (fun s => Own me (.AUTHENTICATED ≤ ·.state) s ∧ Asked me s)
      (handle_core_session me st) fun _ => Own me InLoop := by
  intro s ⟨hs, hr⟩
  have sent : Acts me (fun c => c = Ctx.session (s.client_registry me))
      (send_raw me (snprintf 256 fmtSession [.s st.id]))
      fun _ c => c = Ctx.session (s.client_registry me) := (tr_send _).acts
  obtain ⟨hsend, hstate⟩ := sent s rfl
  have hlog : (send_raw me (snprintf 256 fmtSession [.s st.id]) s).2.routed = s.routed := rfl
  rw [handle_core_session, bind_run]
  generalize (send_raw me (snprintf 256 fmtSession [.s st.id]) s).2 = t at hsend hstate hlog ⊢
  have hst : (t.client_registry me).state = (s.client_registry me).state := congrArg Session.state hstate
  have asked : Asked me t := by
    obtain ⟨p, hp, he, hn⟩ := hr
    exact ⟨p, hlog ▸ hp, he.trans hstate.symm, hn⟩
  exact ⟨hsend.tail (.session t (hst ▸ hs) asked), own_setCtx nofun⟩

theorem stamped_ok {st : Stanza} (h : StanzaOk st) : StanzaOk (stamped c st) := by
  unfold stamped
  split
  · exact ⟨h.to_, h.payload⟩
  · exact h

theorem stamped_xmlns (c : Ctx) (st : Stanza) : (stamped c st).xmlns = st.xmlns := by
  unfold stamped
  split <;> rfl

theorem dispatch_bind {st : Stanza} (hx : st.xmlns = NS_BIND) (hc : c.state = .BIND) :
    dispatch me c st = handle_core_bind me st := by
  have hstream : ¬ (NS_BIND ≠ [] ∧ (strstr NS_BIND (lit "stream")).isSome) := by decide +kernel
  have hfind : router.find? (·.xmlns == NS_BIND) = some ⟨NS_BIND, handle_core_bind, .BIND⟩ :=
    List.find?_cons_of_pos (beq_self_eq_true _)
  rw [dispatch, hx, if_neg hstream, hfind]
  exact if_neg (by rw [hc]; decide)

/-- What the log and the context say when a stanza is dispatched. -/
def Logged (me : Slot) (c : Ctx) (st : Stanza) (s : Server) : Prop :=
  .AUTHENTICATED ≤ c.state ∧ Ctx.session (s.client_registry me) = Ctx.session c ∧ (c, st) ∈ s.routed

theorem inLoop_of_le {c : Session} (h : .AUTHENTICATED ≤ c.state) : InLoop c := fun he => by
  rw [he] at h
  exact absurd h (by decide)

/-- All but a bind that is due. -/
theorem trace_dispatch {st : Stanza} (h : StanzaOk st) (hb : ¬ (st.xmlns = NS_BIND ∧ c.state = .BIND)) :
    Trace (Act me) (Logged me c st) (dispatch me c (stamped c st)) fun _ => Own me InLoop := by
  have hready : ∀ c, InLoop c → c.state = .SESSION → InLoop { c with state := .READY } := fun _ _ _ => nofun
  have plain : ∀ {m : M Unit}, Acts me InLoop m (fun _ => InLoop) →
      Trace (Act me) (Logged me c st) m fun _ => Own me InLoop := fun hm =>
    hm.conseq (fun _ hs => show InLoop _ from hs.2.1 ▸ inLoop_of_le hs.1) fun _ _ h => h
  have hst := stamped_ok (c := c) h
  have hns := stamped_xmlns c st
  generalize stamped c st = st' at hst hns ⊢
  refine dispatch_all (X := fun m => Trace (Act me) (Logged me c st) m fun _ => Own me InLoop) hst
    (fun _ => plain (tr_handle_handshake_logic me).acts) (fun hx => ?_) (fun hx => ?_) fun _ hm => plain (tr_effects hm hready)
  · refine (tr_bind_refused me st').acts.conseq (fun s hs => ?_) fun _ _ h => h
    exact show InLoop _ ∧ _ from hs.2.1 ▸ ⟨inLoop_of_le hs.1, fun hc => hb ⟨hns.symm.trans hx, hc⟩⟩
  · refine (trace_handle_core_session me st').conseq (fun s hs => ⟨?_, ?_⟩) fun _ _ h => h
    · exact show _ ≤ (Ctx.session _).state from hs.2.1 ▸ hs.1
    · exact ⟨_, hs.2.2, hs.2.1.symm, hns.symm.trans hx⟩

/-- A stanza is routed past authentication only. -/
theorem acts_xmpp_route_stanza (h : StanzaOk st) :
    Acts me (.AUTHENTICATED ≤ ·.state) (xmpp_route_stanza me st) fun _ => InLoop := by
  intro s hs
  let s₁ : Server := { s with routed := s.routed ++ [(s.client_registry me, st)] }
  have hrun : xmpp_route_stanza me st s =
      dispatch me (s.client_registry me) (stamped (s.client_registry me) st) s₁ := rfl
  rw [hrun]
  by_cases hb : st.xmlns = NS_BIND ∧ (s.client_registry me).state = .BIND
  · rw [dispatch_bind me ((stamped_xmlns _ st).trans hb.1) hb.2]
    obtain ⟨n, hn, o, he⟩ := handle_core_bind_run me (stamped (s.client_registry me) st) (s := s₁) hb.2
    rw [he]
    refine ⟨.single (.bind s st n o hb.1 hn hb.2), ?_⟩
    simp [Own, InLoop, bound, Ctx.session]
  · have hlog : Logged me (s.client_registry me) st s₁ :=
      ⟨hs, rfl, List.mem_append_right _ (List.mem_singleton_self _)⟩
    obtain ⟨hc, hl⟩ := trace_dispatch me h hb s₁ hlog
    exact ⟨(ReflTransGen.single (.route s st hs)).trans hc, hl⟩

end Handlers

end Angelic.Proofs
