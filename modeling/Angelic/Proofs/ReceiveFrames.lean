import Angelic.Proofs.Wires

namespace Angelic.Proofs
open CString Model StateRel Relation

/-! What the receive loop leaves alone: no handler writes to the buffer of the context it works for, and a stanza taken
from the pool is given back. -/

/-- A step that leaves what `f` reads of the server as it is. -/
def Same {α : Type} (f : Server → α) (s s' : Server) : Prop := f s' = f s

theorem same_run {α β : Type} {f : Server → α} {m : M β} (h : Does (Same f) m) (s : Server) : f (m s).2 = f s :=
  h.rel (Q := Same f) (fun _ => rfl) (fun _ _ _ h h' => h'.trans h) (fun _ _ h => h) s

/-- The pool, and the buffer of a context. -/
def spared (me : Slot) (s : Server) : (Fin MAX_POOL_STANZAS → Bool) × List Byte :=
  (s.stanza_pool, (s.client_registry me).rx)

section Rules
variable {α : Type} {f : Server → α} (me : Slot)

theorem same_ctxOf (i : Slot) : Does (Same f) (ctxOf i) := .read fun _ => rfl

theorem spared_modCtx (i : Slot) {g : Ctx → Ctx} (h : ∀ c, (g c).rx = c.rx) : Does (Same (spared me)) (modCtx i g) := by
  refine .step fun s => Prod.ext rfl ?_
  change ((s.setCtx i (g (s.client_registry i))).client_registry me).rx = (s.client_registry me).rx
  by_cases hi : me = i
  · subst hi
    rw [setCtx_reg_self, h]
  · rw [setCtx_reg_of_ne s i hi]

theorem spared_emit (o : Out) : Does (Same (spared me)) (emit o) := .step fun _ => rfl

theorem spared_sent (c : Ctx) : c.on_stanza_sent.rx = c.rx := by
  unfold Ctx.on_stanza_sent
  split <;> rfl

theorem spared_send (i : Slot) (text : Str) : Does (Same (spared me)) (send_raw i text) :=
  .bind (same_ctxOf i) fun _ => .bind (spared_emit me _) fun _ => spared_modCtx me i spared_sent

theorem spared_random : Does (Same (spared me)) secure_random_u32 := .step fun _ => rfl

end Rules

section Handlers
variable (me : Slot) (st : Stanza)

theorem rx_of_calm {c c' : Ctx} (h : Calm c c') : c'.rx = c.rx := by
  rcases h with h | ⟨-, h⟩
  · exact show (Ctx.core c').rx = (Ctx.core c).rx from congrArg Ctx.rx h
  · exact show (Ctx.core c').rx = (Ctx.core { c with state := .READY }).rx from congrArg Ctx.rx h

theorem spared_effects {m : M Unit} (h : Does (Effect me) m) : Does (Same (spared me)) m :=
  .step fun s => Prod.ext (does_quiet h s).stanza_pool (rx_of_calm (does_quiet h s).own)

theorem spared_handle_handshake_logic : Does (Same (spared me)) (handle_handshake_logic me) := by
  refine .bind (spared_random me) fun _ => .bind (same_ctxOf me) fun c => .ite ?_ (.ite ?_ (spared_send me me _))
  · exact .bind (spared_modCtx me me fun _ => rfl) fun _ => spared_send me me _
  · exact .bind (spared_send me me _) fun _ => spared_modCtx me me fun _ => rfl

theorem spared_handle_core_bind : Does (Same (spared me)) (handle_core_bind me st) := by
  refine .step fun s => ?_
  by_cases h : (s.client_registry me).state = .BIND
  · obtain ⟨n, -, o, he⟩ := handle_core_bind_run me st h
    rw [he]
    refine Prod.ext rfl ?_
    change (bound s me n me).rx = _
    rw [bound, if_pos rfl]
    exact spared_sent _
  · obtain ⟨text, hrun⟩ := handle_core_bind_refused me st h
    rw [Same, hrun]
    exact same_run (spared_send me me _) s

theorem spared_handle_core_session : Does (Same (spared me)) (handle_core_session me st) :=
  .bind (spared_send me me _) fun _ => spared_modCtx me me fun _ => rfl

theorem spared_xmpp_route_stanza (h : StanzaOk st) : Does (Same (spared me)) (xmpp_route_stanza me st) := by
  refine .bind (same_ctxOf me) fun c => .bind (.step fun _ => rfl) fun _ => ?_
  exact dispatch_all (X := fun m => Does (Same (spared me)) m) (stamped_ok h) (fun _ => spared_handle_handshake_logic me)
    (fun _ => spared_handle_core_bind me _) (fun _ => spared_handle_core_session me _) fun m => spared_effects me

theorem spared_saslFailure : Does (Same (spared me)) (saslFailure me) :=
  .bind (spared_send me me _) fun _ => .bind (spared_modCtx me me fun _ => rfl) fun _ => .bind (same_ctxOf me) fun _ =>
    .ite (.bind (spared_send me me _) fun _ => .bind (spared_emit me _) fun _ => spared_modCtx me me fun _ => rfl) (.pure _)

theorem spared_handle_sasl : Does (Same (spared me)) (handle_sasl me st) := by
  have named : ∀ (u : Str) {m : M Unit}, Does (Same (spared me)) m →
      Does (Same (spared me)) (do modCtx me fun c => { c with username := u }; m) :=
    fun u _ hm => .bind (spared_modCtx me me fun _ => rfl) fun _ => hm
  refine .bind (same_ctxOf me) fun c => .ite (spared_send me me _) (.ite (spared_send me me _) ?_)
  split
  · exact spared_send me me _
  · refine .ite (named _ (spared_saslFailure me)) (named _ (.ite (spared_saslFailure me) ?_))
    exact .bind (spared_send me me _) fun _ => spared_modCtx me me fun _ => rfl

/-- A stanza is handled without a look back at the buffer or the pool. -/
theorem spared_stanzaHandler (h : StanzaOk st) : Does (Same (spared me)) (stanzaHandler me st) := by
  refine .bind (same_ctxOf me) fun c => .ite (.ite (spared_handle_sasl me st) (.pure _)) ?_
  refine .bind (spared_xmpp_route_stanza me st h) fun _ => spared_modCtx me me fun c => ?_
  unfold Ctx.on_stanza_received
  split <;> rfl

theorem spared_smAnswer (e : SmElement) : Does (Same (spared me)) (smAnswer me e) := by
  cases e with
  | enable =>
    exact .bind (spared_random me) fun _ => .bind (spared_modCtx me me fun _ => rfl) fun _ => spared_send me me _
  | request => exact .bind (same_ctxOf me) fun _ => spared_send me me _
  | answer => exact .pure _

end Handlers

/-! The pool, over whole runs. -/

section Pool

theorem Does.pooled {α : Type} {me : Slot} {m : M α} (h : Does (Same (spared me)) m) : Does (Same Server.stanza_pool) m :=
  h.mono fun _ _ h => .single (congrArg Prod.fst h)

theorem pooled_modCtx (i : Slot) (g : Ctx → Ctx) : Does (Same Server.stanza_pool) (modCtx i g) := .step fun _ => rfl

theorem pooled_emit (o : Out) : Does (Same Server.stanza_pool) (emit o) := .step fun _ => rfl

variable (me : Slot)

theorem wire_pooled : Wire me (Same Server.stanza_pool) where
  keeps _ _ := rfl
  emits _ _ := rfl

theorem pooled_streamHeader : Does (Same Server.stanza_pool) (streamHeader me) := by
  have clear : Does (Same Server.stanza_pool) (modCtx me fun c => { c with rx := [] }) := pooled_modCtx me _
  exact .bind (pooled_modCtx me _) fun _ => .bind (same_ctxOf me) fun _ => .ite
    (.bind (pooled_emit _) fun _ => .bind (pooled_emit _) fun _ => .bind (pooled_modCtx me _) fun _ => clear)
    (.ite (.bind (pooled_emit _) fun _ => .bind (pooled_emit _) fun _ => clear)
      (.ite (.bind (pooled_emit _) fun _ => .bind (pooled_emit _) fun _ => clear)
        (.bind (Does.pooled (spared_handle_handshake_logic me)) fun _ => clear)))

/-- A stanza of the pool is taken, its text handled, and it is given back. -/
theorem pool_lent {st : Stanza} (h : StanzaOk st) {k : Fin MAX_POOL_STANZAS} {s : Server} (hk : s.stanza_pool k = false) :
    ((do setPool k true; stanzaHandler me st; setPool k false : M Unit) s).2.stanza_pool = s.stanza_pool := by
  let s₁ : Server := { s with stanza_pool := Function.update s.stanza_pool k true }
  change Function.update (stanzaHandler me st s₁).2.stanza_pool k false = s.stanza_pool
  have hkeep : (stanzaHandler me st s₁).2.stanza_pool = s₁.stanza_pool :=
    congrArg Prod.fst (same_run (spared_stanzaHandler me st h) s₁)
  rw [hkeep, Function.update_idem, ← hk, Function.update_eq_self]

theorem free_of_firstIdx {s : Server} {k : Fin MAX_POOL_STANZAS} (h : (firstIdx fun k => !s.stanza_pool k) = some k) :
    s.stanza_pool k = false := by simpa using List.find?_some h

end Pool

end Angelic.Proofs
