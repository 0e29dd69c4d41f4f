import Angelic.Proofs.Isolation

namespace Angelic.Proofs
open CString Model StateRel

/-! Work on a connection that sends no stanza: TLS and the ways to close it. -/

/-- What a context counts for stream management. -/
def Ctx.counts (c : Ctx) : Bool × UInt32 × UInt32 := (c.sm_enabled, c.sm_inbound_h, c.sm_outbound_count)

theorem counts_bioReads (c : Ctx) (reads : List Nat) : Ctx.counts (c.bioReads reads) = Ctx.counts c := by
  refine foldl_keeps (P := fun c' => Ctx.counts c' = Ctx.counts c) (fun c' n h => Eq.trans ?_ h) reads rfl
  unfold Ctx.tls_net_recv
  dsimp only
  split <;> rfl

theorem counts_compact (c : Ctx) : Ctx.counts c.tls_staging_compact = Ctx.counts c := by
  unfold Ctx.tls_staging_compact
  repeat' first | rfl | split

theorem counts_free (c : Ctx) : Ctx.counts c.tls_client_free = Ctx.counts c := by
  unfold Ctx.tls_client_free
  split <;> rfl

theorem counts_init (setup : Bool) (c : Ctx) : Ctx.counts (c.tls_client_init setup) = Ctx.counts c := by
  unfold Ctx.tls_client_init
  split <;> rfl

/-- A relation that allows all of it. -/
structure Wire (me : Slot) (R : Server → Server → Prop) : Prop where
  keeps : ∀ {f : Ctx → Ctx}, (∀ c, Ctx.counts (f c) = Ctx.counts c) → ∀ s, R s (modCtx me f s).2
  emits : ∀ {o : Out}, Out.posted o = none → ∀ s, R s (emit o s).2

namespace Wire
variable {me : Slot} {R : Server → Server → Prop} (W : Wire me R)
include W

theorem keep {f : Ctx → Ctx} (h : ∀ c, Ctx.counts (f c) = Ctx.counts c) : Does R (modCtx me f) := .step (W.keeps h)

theorem emit {o : Out} (h : Out.posted o = none) : Does R (Model.emit o) := .step (W.emits h)

omit W in
theorem look : Does R (ctxOf me) := .read fun _ => rfl

theorem closePcb : Does R (Model.closePcb me) :=
  .bind look fun _ => .ite (.bind (W.emit rfl) fun _ => W.keep fun _ => rfl) (.pure _)

theorem close_and_free : Does R (send_stream_close_and_free me) := by
  have rest : Does R (do
      modCtx me Ctx.tls_client_free
      Model.closePcb me
      modCtx me fun c => { c with state := .CONNECTED } : M Unit) :=
    .bind (W.keep counts_free) fun _ => .bind W.closePcb fun _ => W.keep fun _ => rfl
  exact .bind look fun c => .ite (.bind (W.emit rfl) fun _ => rest) (.ite (.bind (W.emit rfl) fun _ => rest) rest)

theorem fin (pcb : Pcb) : Does R (recvClose me pcb) :=
  .bind look fun _ => .ite (.bind (W.keep fun _ => rfl) fun _ => W.close_and_free) W.close_and_free

theorem handshake (data : List Byte) (hs : SslHandshake) : Does R (xmpp_tls_handshake_step me data hs) := by
  have reset : Does R (do
      Model.closePcb me
      modCtx me fun c => { c with state := .CONNECTED, tls_established := false } : M Unit) :=
    .bind W.closePcb fun _ => W.keep fun _ => rfl
  refine .bind (W.keep counts_compact) fun _ => .bind look fun c => .ite reset
    (.bind (W.keep fun c => (counts_compact _).trans (counts_bioReads _ _)) fun _ => ?_)
  cases hs.ret with
  | ok | want_read | want_write => exact W.keep fun _ => rfl
  | fail => exact .bind (W.keep fun _ => rfl) fun _ => reset

theorem decryptLoop (reads : List SslRead) : Does R (Model.decryptLoop me reads) := by
  induction reads with
  | nil => exact W.keep counts_compact
  | cons r rest ih =>
    refine .bind (W.keep fun c => counts_bioReads c _) fun _ => .bind look fun c => ?_
    split
    · exact W.closePcb
    · exact .ite (.bind (W.keep fun _ => rfl) fun _ => ih) (.ite (.bind (W.emit rfl) fun _ => W.closePcb) (.pure _))
    · exact W.keep counts_compact
    · exact .bind W.closePcb fun _ => W.keep fun _ => rfl

theorem decrypt (data : List Byte) (reads : List SslRead) : Does R (xmpp_tls_decrypt me data reads) :=
  .bind (W.keep counts_compact) fun _ => .bind look fun _ => .ite W.closePcb
    (.bind (W.keep fun _ => rfl) fun _ => W.decryptLoop reads)

theorem starttls (setup : Bool) : Does R (Model.starttls me setup) :=
  .bind look fun _ => .bind (W.emit rfl) fun _ => .bind (W.keep (counts_init setup)) fun _ => .ite
    (W.keep fun _ => rfl) (.bind (W.emit rfl) fun _ => .bind (W.emit rfl) fun _ => W.keep fun _ => rfl)

theorem closeStream : Does R (Model.closeStream me) := by
  have rest : ∀ pcb, Does R (do
      Model.emit (.tcp_close pcb)
      modCtx me fun c => { c.tls_client_free with pcb := none, state := .CONNECTED, rx := [] } : M Unit) := fun _ =>
    .bind (W.emit rfl) fun _ => W.keep counts_free
  exact .bind look fun c => .ite (.bind (W.emit rfl) fun _ => rest _) (.bind (W.emit rfl) fun _ => rest _)

theorem refuse (pcb : Pcb) (text : Str) : Does R (Deed.refuse me pcb text).perform :=
  .bind (W.emit rfl) fun _ => .bind (W.emit rfl) fun _ => W.keep fun _ => rfl

end Wire

end Angelic.Proofs
