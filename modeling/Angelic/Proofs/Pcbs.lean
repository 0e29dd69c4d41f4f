import Angelic.Lib.HandleLog
import Angelic.Proofs.Isolation

namespace Angelic.Proofs
open CString Model StateRel

/-! What becomes of a pcb after `tcp_close`. -/

/-- The pcb a call is given. -/
def Out.pcb : Out → Option Pcb
  | .send _ _ p _ | .tls_write _ p _ | .tcp_write p _ | .tcp_close p => p

def Out.closes : Out → Option Pcb
  | .tcp_close p => p
  | _ => none

/-- The server has called `tcp_close` on the pcb. -/
def Closed (s : Server) (p : Pcb) : Prop := HandleLog.Closed Out.closes s.out p

/-- No call was given a pcb after it was closed, and no context has one. -/
structure PcbSafe (s : Server) : Prop where
  orderly : HandleLog.Orderly Out.pcb Out.closes s.out
  unheld : ∀ p, Closed s p → ∀ i, (s.client_registry i).pcb ≠ some p

/-- With what else is true of pcbs: the one of a context has that context for its argument, and those that were
closed have one. The context `x` may still have a pcb that was just closed. -/
structure Pcbs (x : Option Slot) (s : Server) : Prop where
  orderly : HandleLog.Orderly Out.pcb Out.closes s.out
  unheld : ∀ p, Closed s p → ∀ i, x ≠ some i → (s.client_registry i).pcb ≠ some p
  arg : ∀ i p, (s.client_registry i).pcb = some p → s.tcp_arg p = some i
  known : ∀ p, Closed s p → s.tcp_arg p ≠ none

theorem Pcbs.safe {s : Server} (h : Pcbs none s) : PcbSafe s := ⟨h.orderly, fun p hp i => h.unheld p hp i (Option.some_ne_none i).symm⟩

section Rules
variable {x : Option Slot} {i : Slot} {s s' : Server}

/-- Contexts that lose their pcbs. -/
theorem Pcbs.frame (h : Pcbs x s) (ho : s'.out = s.out) (ha : s'.tcp_arg = s.tcp_arg)
    (hp : ∀ j, (s'.client_registry j).pcb = (s.client_registry j).pcb ∨ (s'.client_registry j).pcb = none) :
    Pcbs x s' := by
  have hc : ∀ p, Closed s' p ↔ Closed s p := fun p => by rw [Closed, Closed, ho]
  have held : ∀ j p, (s'.client_registry j).pcb = some p → (s.client_registry j).pcb = some p := by
    intro j p hj
    rcases hp j with he | he
    · rwa [he] at hj
    · rw [he] at hj
      cases hj
  exact ⟨ho ▸ h.orderly, fun p hq j hx hj => h.unheld p ((hc p).mp hq) j hx (held j p hj),
    fun j p hj => ha ▸ h.arg j p (held j p hj), fun p hq => ha ▸ h.known p ((hc p).mp hq)⟩

/-- A call that is given the pcb of a context. -/
theorem Pcbs.use (h : Pcbs x s) (hx : x ≠ some i) {o : Out} (ho : Out.pcb o = (s.client_registry i).pcb)
    (hc : Out.closes o = none) : Pcbs x (s.emit o) := by
  have hclosed : ∀ p, Closed (s.emit o) p ↔ Closed s p := fun p => HandleLog.closed_snoc_of_none hc
  refine ⟨HandleLog.orderly_snoc.mpr ⟨h.orderly, fun p hp => ?_⟩, fun p hp => h.unheld p ((hclosed p).mp hp), h.arg,
    fun p hp => h.known p ((hclosed p).mp hp)⟩
  rw [ho]
  exact h.unheld p hp i hx

/-- The pcb of a context is closed. -/
theorem Pcbs.close (h : Pcbs none s) (i : Slot) : Pcbs (some i) (s.emit (.tcp_close (s.client_registry i).pcb)) := by
  have hclosed : ∀ p, Closed (s.emit (.tcp_close (s.client_registry i).pcb)) p ↔
      Closed s p ∨ (s.client_registry i).pcb = some p := fun p => HandleLog.closed_snoc
  refine ⟨HandleLog.orderly_snoc.mpr ⟨h.orderly, fun p hp => h.unheld p hp i (Option.some_ne_none i).symm⟩,
    fun p hp j hj he => ?_, h.arg,
    fun p hp => ?_⟩
  · rcases (hclosed p).mp hp with hp | hp
    · exact h.unheld p hp j (Option.some_ne_none j).symm he
    · exact hj ((h.arg i p hp).symm.trans (h.arg j p he))
  · rcases (hclosed p).mp hp with hp | hp
    · exact h.known p hp
    · exact fun hn => Option.some_ne_none i ((h.arg i p hp).symm.trans hn)

/-- And the context loses it. -/
theorem Pcbs.drop (h : Pcbs (some i) s) {c : Ctx} (hc : c.pcb = none) : Pcbs none (s.setCtx i c) := by
  have hn : ∀ j, ((s.setCtx i c).client_registry j).pcb = if j = i then none else (s.client_registry j).pcb := by
    intro j
    by_cases hj : j = i
    · subst hj
      rw [setCtx_reg_self, hc, if_pos rfl]
    · rw [setCtx_reg_of_ne s i hj, if_neg hj]
  have hf : Pcbs (some i) (s.setCtx i c) := h.frame rfl rfl fun j => by
    rw [hn]
    split
    · exact .inr rfl
    · exact .inl rfl
  refine ⟨hf.orderly, fun p hp j _ => ?_, hf.arg, hf.known⟩
  by_cases hj : j = i
  · rw [hn, if_pos hj]
    exact (Option.some_ne_none p).symm
  · exact hf.unheld p hp j fun he => hj (Option.some.inj he).symm

end Rules

/-! The deeds. -/

/-- All is well, and this is the pcb of the context. -/
def Has (i : Slot) (p : Option Pcb) (s : Server) : Prop := Pcbs none s ∧ (s.client_registry i).pcb = p

section Steps
variable {i : Slot} {p : Option Pcb}
variable {f : Ctx → Ctx}

abbrev Careful (m : M α) : Prop := Triple (Pcbs none) m fun _ => Pcbs none

theorem has_careful {m : M α} (h : Careful m) : Triple (Has i p) m fun _ => Pcbs none := fun s hs => h s hs.1

theorem has_ctxOf : Triple (Pcbs none) (ctxOf i) fun c => Has i c.pcb := fun _ h => ⟨h, rfl⟩

theorem has_use {o : Out} (ho : Out.pcb o = p) (hc : Out.closes o = none) :
    Triple (Has i p) (emit o) fun _ => Has i p := fun _ h =>
  ⟨h.1.use (Option.some_ne_none i).symm (ho.trans h.2.symm) hc, h.2⟩

theorem pcb_sent (c : Ctx) : c.on_stanza_sent.pcb = c.pcb := congrArg Spec.Session.pcb (session_sent c)

theorem setCtx_pcb {s : Server} {c : Ctx} (h : c.pcb = (s.client_registry i).pcb) (j : Slot) :
    ((s.setCtx i c).client_registry j).pcb = (s.client_registry j).pcb := by
  by_cases hj : j = i
  · subst hj
    rw [setCtx_reg_self, h]
  · rw [setCtx_reg_of_ne s i hj]

theorem careful_modCtx {x : Option Slot} (hf : ∀ c, (f c).pcb = c.pcb) :
    Triple (Pcbs x) (modCtx i f) fun _ => Pcbs x := fun _ h =>
  h.frame rfl rfl fun j => .inl (setCtx_pcb (hf _) j)

theorem has_modCtx (hf : ∀ c, (f c).pcb = c.pcb) : Triple (Has i p) (modCtx i f) fun _ => Has i p := fun s h =>
  ⟨careful_modCtx hf s h.1, (setCtx_pcb (hf _) i).trans h.2⟩

/-- A context that loses its pcb, closed or not. -/
theorem careful_clear (hf : ∀ c, (f c).pcb = none) : Careful (modCtx i f) := fun s h =>
  h.frame rfl rfl fun j => by
    change (((s.setCtx i _).client_registry j).pcb = _ ∨ ((s.setCtx i _).client_registry j).pcb = _)
    by_cases hj : j = i
    · subst hj
      rw [setCtx_reg_self, hf]
      exact .inr rfl
    · rw [setCtx_reg_of_ne s i hj]
      exact .inl rfl

theorem has_close : Triple (Has i p) (emit (.tcp_close p)) fun _ => Pcbs (some i) := fun s h => by
  have := h.1.close i
  rwa [h.2] at this

theorem careful_drop (hf : ∀ c, (f c).pcb = none) : Triple (Pcbs (some i)) (modCtx i f) fun _ => Pcbs none :=
  fun _ h => h.drop (hf _)

/-- A pcb is closed and the context loses it. -/
theorem has_closed (hf : ∀ c, (f c).pcb = none) :
    Triple (Has i p) (emit (.tcp_close p) >>= fun _ => modCtx i f) fun _ => Pcbs none :=
  .bind has_close fun _ => careful_drop hf

theorem has_send (text : Str) : Triple (Has i p) (send_raw i text) fun _ => Has i p := fun s h =>
  have used := has_use (o := .send i (s.client_registry i).tls_established (s.client_registry i).pcb text) (i := i) h.2 rfl s h
  has_modCtx pcb_sent _ used

theorem careful_send (j : Slot) (text : Str) : Careful (send_raw j text) := fun s h => (has_send text s ⟨h, rfl⟩).1

theorem careful_closePcb : Careful (closePcb i) :=
  .bind has_ctxOf fun _ => .ite (fun _ => has_closed fun _ => rfl) fun _ => .pure fun _ h => h.1

end Steps

section Deeds
variable (me : Slot)

theorem pcb_compact (c : Ctx) : c.tls_staging_compact.pcb = c.pcb := congrArg (fun k => k.1.pcb) (kept_compact c)

theorem pcb_bioReads (c : Ctx) (reads : List Nat) : (c.bioReads reads).pcb = c.pcb :=
  congrArg (fun k => k.1.pcb) (kept_bioReads c reads)

theorem pcb_free (c : Ctx) : c.tls_client_free.pcb = c.pcb := by
  unfold Ctx.tls_client_free
  split <;> rfl

theorem pcb_init (setup : Bool) (c : Ctx) : (c.tls_client_init setup).pcb = c.pcb := by
  unfold Ctx.tls_client_init
  split <;> rfl

theorem careful_close_and_free : Careful (send_stream_close_and_free me) := by
  have rest : ∀ p, Triple (Has me p) (do
      modCtx me Ctx.tls_client_free
      closePcb me
      modCtx me fun c => { c with state := .CONNECTED } : M Unit) fun _ => Pcbs none := fun p =>
    .bind (has_modCtx pcb_free) fun _ => .bind (has_careful careful_closePcb) fun _ =>
      careful_modCtx fun _ => rfl
  exact .bind has_ctxOf fun c => .ite (fun _ => .bind (has_use rfl rfl) fun _ => rest _)
    fun _ => .ite (fun _ => .bind (has_use rfl rfl) fun _ => rest _) fun _ => rest _

theorem careful_handshake (data : List Byte) (hs : SslHandshake) : Careful (xmpp_tls_handshake_step me data hs) := by
  have failed : Careful (do
      closePcb me
      modCtx me fun c => { c with state := .CONNECTED, tls_established := false } : M Unit) :=
    .bind careful_closePcb fun _ => careful_modCtx fun _ => rfl
  refine .bind (careful_modCtx pcb_compact) fun _ => .bind (Q := fun _ => Pcbs none) (fun _ h => h) fun c =>
    .ite (fun _ => failed) fun _ => .bind (careful_modCtx fun c => (pcb_compact _).trans (pcb_bioReads _ _)) fun _ => ?_
  cases hs.ret with
  | ok => exact careful_modCtx fun _ => rfl
  | want_read => exact careful_modCtx fun _ => rfl
  | want_write => exact careful_modCtx fun _ => rfl
  | fail => exact .bind (careful_modCtx fun _ => rfl) fun _ => failed

theorem careful_decryptLoop (reads : List SslRead) : Careful (decryptLoop me reads) := by
  have gone : ∀ {p}, Triple (Has me p) (closePcb me) fun _ => Pcbs none := has_careful careful_closePcb
  induction reads with
  | nil => exact careful_modCtx pcb_compact
  | cons r rest ih =>
    refine .bind (careful_modCtx fun c => pcb_bioReads c _) fun _ => .bind has_ctxOf fun c => ?_
    split
    · exact gone
    · refine .ite (fun _ => ?_) fun _ => .ite (fun _ => .bind (has_use rfl rfl) fun _ => gone) fun _ => .pure fun _ h => h.1
      exact has_careful (.bind (careful_modCtx fun _ => rfl) fun _ => ih)
    · exact has_careful (careful_modCtx pcb_compact)
    · exact .bind gone fun _ => careful_modCtx fun _ => rfl

theorem careful_decrypt (data : List Byte) (reads : List SslRead) : Careful (xmpp_tls_decrypt me data reads) :=
  .bind (careful_modCtx pcb_compact) fun _ => .bind (Q := fun _ => Pcbs none) (fun _ h => h) fun _ =>
    .ite (fun _ => careful_closePcb) fun _ => .bind (careful_modCtx fun _ => rfl) fun _ => careful_decryptLoop me reads

theorem careful_starttls (setup : Bool) : Careful (starttls me setup) :=
  .bind has_ctxOf fun _ => .bind (has_use rfl rfl) fun _ => .bind (has_modCtx (pcb_init setup)) fun _ =>
    .ite (fun _ => has_careful (careful_modCtx fun _ => rfl))
      fun _ => .bind (has_use rfl rfl) fun _ => has_closed fun _ => rfl

theorem careful_closeStream : Careful (closeStream me) :=
  .bind has_ctxOf fun _ => .ite (fun _ => .bind (has_use rfl rfl) fun _ => has_closed fun _ => rfl)
    fun _ => .bind (has_use rfl rfl) fun _ => has_closed fun _ => rfl

theorem careful_saslFailure : Careful (saslFailure me) :=
  .bind (careful_send me _) fun _ => .bind (careful_modCtx fun _ => rfl) fun _ => .bind has_ctxOf fun _ =>
    .ite (fun _ => .bind (has_send _) fun _ => has_closed fun _ => rfl) fun _ => .pure fun _ h => h.1

theorem careful_handle_sasl (st : Stanza) : Careful (handle_sasl me st) := by
  have named : ∀ u : Str, Careful (modCtx me fun c => { c with username := u }) := fun _ => careful_modCtx fun _ => rfl
  have succeed : Careful (saslSucceed me) := .bind (careful_send me _) fun _ => careful_modCtx fun _ => rfl
  refine .bind (Q := fun _ => Pcbs none) (fun _ h => h) fun c => .ite (fun _ => careful_send me _) fun _ =>
    .ite (fun _ => careful_send me _) fun _ => ?_
  split
  · exact careful_send me _
  · exact .ite (fun _ => .bind (named _) fun _ => careful_saslFailure me) fun _ => .bind (named _) fun _ =>
      .ite (fun _ => careful_saslFailure me) fun _ => succeed

theorem careful_smAnswer (e : SmElement) : Careful (smAnswer me e) := by
  cases e with
  | enable =>
    exact .bind (Q := fun _ => Pcbs none) (fun _ h => h.frame rfl rfl fun _ => .inl rfl) fun _ =>
      .bind (careful_modCtx fun _ => rfl) fun _ => careful_send me _
  | request => exact .bind (Q := fun _ => Pcbs none) (fun _ h => h) fun _ => careful_send me _
  | answer => exact .pure fun _ h => h

theorem careful_features : Careful (handle_handshake_logic me) :=
  .bind (Q := fun _ => Pcbs none) (fun _ h => h.frame rfl rfl fun _ => .inl rfl) fun _ =>
    .bind (Q := fun _ => Pcbs none) (fun _ h => h) fun _ =>
    .ite (fun _ => .bind (careful_modCtx fun _ => rfl) fun _ => careful_send me _) fun _ =>
      .ite (fun _ => .bind (careful_send me _) fun _ => careful_modCtx fun _ => rfl) fun _ => careful_send me _

theorem careful_effects {m : M α} (h : Does (Effect me) m) : Careful m := by
  have touched : ∀ {k : StoreId} {s s' : Server}, Touch k s s' → Pcbs none s → Pcbs none s' := by
    intro k s s' ht hp
    cases ht with
    | send j hf => exact careful_send j _ s hp
    | change t ho hk => exact hp.frame rfl rfl fun _ => .inl rfl
  refine .of_does h fun s s' he hp => ?_
  cases he with
  | send j hf => exact careful_send j _ s hp
  | note hc hn =>
    refine careful_modCtx (fun c => ?_) s hp
    have hcore : (Ctx.core _).pcb = _ := congrArg Ctx.pcb (hc c)
    exact hcore
  | ready hst => exact careful_modCtx (f := fun c => { c with state := .READY }) (fun _ => rfl) s hp
  | version => exact hp.frame rfl rfl fun _ => .inl rfl
  | occupants t ht hk => exact hp.frame rfl rfl fun _ => .inl rfl
  | saved t k ht =>
    have hw : Pcbs none t := by
      induction ht with
      | refl => exact hp
      | tail _ h ih => exact touched h ih
    exact hw.frame rfl rfl fun _ => .inl rfl

/-- Those that clash are told, closed and cleared, one after the other. -/
theorem careful_bind (st : Stanza) : Careful (handle_core_bind me st) := by
  have conflict : ∀ j, Careful (conflictOne me j) := fun j =>
    .bind has_ctxOf fun c => .bind (Q := fun _ => Has j c.pcb) (fun _ h => h) fun own => .ite
      (fun _ => .ite (fun _ => .bind (has_use rfl rfl) fun _ => has_closed fun _ => rfl)
        fun _ => .bind (has_use rfl rfl) fun _ => has_closed fun _ => rfl)
      fun _ => .pure fun _ h => h.1
  exact .bind (Q := fun _ => Pcbs none) (fun _ h => h) fun c => .ite
    (fun _ => .ite (fun _ => careful_send me _) fun _ => careful_send me _)
    fun _ => .bind (Q := fun _ => Pcbs none) (fun _ h => h.frame rfl rfl fun _ => .inl rfl) fun r =>
      .bind (careful_modCtx fun _ => rfl) fun _ => .bind (.forM conflict) fun _ =>
        .bind (careful_send me _) fun _ => careful_modCtx fun _ => rfl

theorem careful_stanza {st : Stanza} (h : StanzaOk st) : Careful (Deed.stanza me st).perform := by
  have session : ∀ st, Careful (handle_core_session me st) := fun st =>
    .bind (careful_send me _) fun _ => careful_modCtx fun _ => rfl
  have dispatched : ∀ c, Careful (dispatch me c (stamped c st)) := fun c =>
    dispatch_all (X := Careful) (stamped_ok h) (fun _ => careful_features me) (fun _ => careful_bind me _) (fun _ => session _)
      fun _ he => careful_effects me he
  have received : Careful (xmpp_sm_on_stanza_received me) :=
    careful_modCtx fun c => congrArg (fun k => k.1.pcb) (kept_received c)
  refine .bind (.bind (Q := fun _ => Pcbs none) (fun _ h => h) fun c => .bind (Q := fun _ => Pcbs none) ?_ fun _ =>
    dispatched c) fun _ => received
  exact fun s hs => hs.frame rfl rfl fun _ => .inl rfl

end Deeds

end Angelic.Proofs
