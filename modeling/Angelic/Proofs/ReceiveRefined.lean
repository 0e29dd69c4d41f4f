import Angelic.Proofs.ReceiveLoop

/-! The receive loop over the bytes and the receive loop over the array they stand in do the same. -/

namespace Angelic.Model

/-- The part of a round's end that the loop over the bytes knows. -/
def Round.loop : Round → Loop
  | .again _ => .again
  | _ => .done

end Angelic.Model

namespace Angelic.Proofs
open CString Model StateRel

/-- The context of `me` has the bytes of the array. -/
def held (me : Slot) (b : RxBuffer) (s : Server) : Server := (modCtx me (fun c => { c with rx := b.text }) s).2

section Held
variable {me : Slot} {b : RxBuffer} {s : Server}

theorem held_self (h : (s.client_registry me).rx = b.text) : held me b s = s := by
  change s.setCtx me { s.client_registry me with rx := b.text } = s
  rw [← h]
  exact congrArg (fun r => { s with client_registry := r }) (Function.update_eq_self me s.client_registry)

theorem held_ctx : (held me b s).client_registry me = { s.client_registry me with rx := b.text } := setCtx_reg_self _ me _

theorem held_of_rx (f : Ctx → Ctx) (h : f (s.client_registry me) = { s.client_registry me with rx := b.text }) :
    (modCtx me f s).2 = held me b s := by
  change s.setCtx me (f (s.client_registry me)) = s.setCtx me { s.client_registry me with rx := b.text }
  rw [h]

end Held

/-- A step over the bytes has the end and the server of one over the array. -/
def Refines (me : Slot) (l : Loop × Server) (r : (RxBuffer × Round) × Server) : Prop :=
  l = (r.1.2.loop, held me r.1.1 r.2)

/-! Where an element ends the loop, its bytes are gone. -/

section Drained
variable (me : Slot)

/-- Nothing is left to read. -/
def Drained (s : Server) : Prop := (s.client_registry me).rx = []

theorem cleared_modCtx {P : Server → Prop} {f : Ctx → Ctx} (h : ∀ c, (f c).rx = []) : Triple P (modCtx me f) fun _ => Drained me := by
  intro s _
  change ((s.setCtx me _).client_registry me).rx = []
  rw [setCtx_reg_self, h]

theorem cleared_bind {α : Type} {m : M α} {k : α → M Unit} (h : ∀ a, Triple (fun _ => True) (k a) fun _ => Drained me) :
    Triple (fun _ => True) (m >>= k) fun _ => Drained me := .bind (fun _ _ => trivial) h

theorem cleared_starttls (setup : Bool) : Triple (fun _ => True) (starttls me setup) fun _ => Drained me := by
  refine cleared_bind me fun _ => cleared_bind me fun _ => cleared_bind me fun _ => .ite ?_ ?_
  · exact fun _ => cleared_modCtx me fun _ => rfl
  · exact fun _ => cleared_bind me fun _ => cleared_bind me fun _ => cleared_modCtx me fun _ => rfl

theorem cleared_closeStream : Triple (fun _ => True) (closeStream me) fun _ => Drained me := by
  refine cleared_bind me fun _ => .ite (fun _ => ?_) fun _ => ?_
  all_goals exact cleared_bind me fun _ => cleared_bind me fun _ => cleared_modCtx me fun _ => rfl

theorem cleared_streamHeader : Triple (fun _ => True) (streamHeader me) fun _ => Drained me := by
  have rest {P : Server → Prop} : Triple P (modCtx me fun c => { c with rx := [] }) fun _ => Drained me :=
    cleared_modCtx me fun _ => rfl
  refine cleared_bind me fun _ => cleared_bind me fun _ => .ite (fun _ => ?_) fun _ => .ite (fun _ => ?_) fun _ =>
    .ite (fun _ => ?_) fun _ => cleared_bind me fun _ => rest
  · exact cleared_bind me fun _ => cleared_bind me fun _ => cleared_bind me fun _ => rest
  all_goals exact cleared_bind me fun _ => cleared_bind me fun _ => rest

end Drained

section Step
variable {me : Slot} {b : RxBuffer} {s : Server}

/-- The array is left as it is, and so are the bytes. -/
theorem refines_left {r : Round} (h : (s.client_registry me).rx = b.text) : Refines me (r.loop, s) ((b, r), s) := by
  rw [Refines, held_self h]

/-- The bytes are dropped. -/
theorem refines_reset (h : (s.client_registry me).rx = []) : Refines me (.done, s) (({ b with rx_pos := 0 }, .done), s) :=
  refines_left (r := .done) h

/-- Bytes are consumed by a step that left them alone. -/
theorem refines_consumed (hb : ArrayOk b) {n : Nat} (hn : n ≤ b.rx_pos) (h : (s.client_registry me).rx = b.text) :
    Refines me (.again, (consume me n s).2) ((b.shift n, .again n), s) := by
  rw [Refines]
  refine congrArg _ (held_of_rx _ ?_)
  rw [text_shift hb (Int.natCast_nonneg n) hn, Int.toNat_natCast, h]

theorem refines_ite {p q : Prop} [Decidable p] [Decidable q] (hpq : p ↔ q) {l l' : M Loop} {r r' : M (RxBuffer × Round)}
    (h1 : Refines me (l s) (r s)) (h2 : Refines me (l' s) (r' s)) :
    Refines me ((if p then l else l') s) ((if q then r else r') s) := by
  by_cases hp : p
  · rw [if_pos hp, if_pos (hpq.mp hp)]
    exact h1
  · rw [if_neg hp, if_neg (mt hpq.mpr hp)]
    exact h2

variable (hb : ArrayOk b) (hr : (s.client_registry me).rx = b.text) (pcb : Pcb)
include hb hr

theorem stanza_refines : Refines me (stanzaStep me pcb s) (rxStanza me pcb b s) := by
  unfold stanzaStep rxStanza
  rw [bind_run, bind_run, show (get : M Server) s = (s, s) from rfl]
  dsimp only
  rw [hr]
  rcases hk : firstIdx fun k => !s.stanza_pool k with _ | k
  · rcases hp : parse_xml_stream s.sse42 (none : Option (Fin MAX_POOL_STANZAS)).isSome b.text with ⟨st, n⟩ | ⟨_ | _, n⟩
    · exact refines_left (r := .done) hr
    · exact refines_left (r := .done) hr
    · exact refines_left (r := .refused) (by rw [setCtx_reg_self]; exact hr)
  · rcases hp : parse_xml_stream s.sse42 (some k).isSome b.text with ⟨st, n⟩ | ⟨_ | _, n⟩
    · have hn := (parse_bounds s.sse42 b.text).1 st n hp
      rw [hb.text_length] at hn
      let s₁ : Server := (stanzaHandler me st { s with stanza_pool := Function.update s.stanza_pool k true }).2
      let s₂ : Server := { s₁ with stanza_pool := Function.update s₁.stanza_pool k false }
      have hrx : (s₂.client_registry me).rx = b.text :=
        (congrArg Prod.snd (same_run (spared_stanzaHandler me st (parse_xml_stream_ok hp)) _)).trans hr
      change Refines me (.again, (consume me n s₂).2) ((if 0 < n then b.shift n else b, .again n), s₂)
      rw [if_pos (Nat.lt_of_succ_le hn.1)]
      exact refines_consumed hb (by omega) hrx
    · exact refines_left (r := .done) hr
    · exact absurd hp ((parse_bounds s.sse42 b.text).2 n)

theorem element_refines {n : Nat} (hp : 0 < b.rx_pos) (hn : throughGt b.rx_buffer = some n) {α : Type} {m : M α}
    (h : Does (Same (spared me)) m) : Refines me (.again, (consume me n (m s).2).2) ((b.shift n, .again n), (m s).2) := by
  rw [view_throughGt hb hp] at hn
  have hle := (throughGt_bounds hn).2
  rw [hb.text_length] at hle
  exact refines_consumed hb (by omega) ((congrArg Prod.snd (same_run h s)).trans hr)

theorem step_refines (setup : Bool) : Refines me (recvStep me pcb setup s) (rxStep me pcb setup b s) := by
  have hempty : (s.client_registry me).rx = [] ↔ b.rx_pos = 0 := by
    have := hb.low
    rw [hr, ← List.length_eq_zero_iff, hb.text_length]
    omega
  have hleft : Refines me (.done, s) ((b, .done), s) := refines_left (r := .done) hr
  unfold recvStep rxStep
  rw [bind_run, bind_run, show ctxOf me s = (s.client_registry me, s) from rfl]
  dsimp only
  by_cases h0 : b.rx_pos = 0
  · rw [if_pos (hempty.mpr h0), if_pos h0]
    exact hleft
  rw [if_neg (mt hempty.mp h0), if_neg h0]
  have hp : 0 < b.rx_pos := by
    have := hb.low
    omega
  refine refines_ite (by rw [hr, view_startsWith hb hp (by decide)]) (refines_ite (by rw [hr, view_throughGt hb hp]) ?_ hleft) ?_
  · exact refines_reset (cleared_starttls me setup s trivial)
  refine refines_ite (by rw [hr, view_startsWith hb hp (by decide), view_startsWith hb hp (by decide)]) ?_ ?_
  · exact refines_reset (cleared_closeStream me s trivial)
  refine refines_ite (by rw [hr, view_startsWith hb hp (by decide), view_mentions hb hp])
    (refines_ite (by rw [hr, view_mentions hb hp]) ?_ hleft) ?_
  · exact refines_reset (cleared_streamHeader me s trivial)
  refine refines_ite (by rw [hr, view_startsWith hb hp (by decide)]) ?_ ?_
  · unfold abortStep
    rw [bind_run, show ctxOf me s = (s.client_registry me, s) from rfl, hr, ← view_throughGt hb hp]
    dsimp only
    cases hn : throughGt b.rx_buffer with
    | some n => exact element_refines hb hr hp hn (spared_send me me _)
    | none => exact hleft
  · have stanza := stanza_refines hb hr pcb
    rw [bind_run, xmpp_sm_handle_element, bind_run, show ctxOf me s = (s.client_registry me, s) from rfl]
    dsimp only
    by_cases hs : (s.client_registry me).state < .SESSION
    · rw [if_pos hs, if_pos hs]
      exact stanza
    · rw [if_neg hs, if_neg hs, hr, ← view_throughGt hb hp, ← view_smElement hb hp]
      cases smElement b.rx_buffer with
      | none => exact stanza
      | some e =>
        cases hn : throughGt b.rx_buffer with
        | none => exact stanza
        | some n => exact element_refines hb hr hp hn (spared_smAnswer me e)

end Step

/-- A round over the bytes is the round over the array, with the bytes it leaves put in the context. -/
theorem round_refines {me : Slot} {b : RxBuffer} {s : Server} (hb : ArrayOk b) (hr : (s.client_registry me).rx = b.text)
    (pcb : Pcb) (setup : Bool) :
    Refines me ((do modCtx me fun c => { c with rx := c.rx.dropWhile isWs }; recvStep me pcb setup : M Loop) s)
      (rxRound me pcb setup b s) := by
  have trimmed : (modCtx me (fun c => { c with rx := c.rx.dropWhile isWs }) s).2 = held me b.trim s :=
    held_of_rx _ (by rw [text_trim hb, hr])
  rw [bind_run, trimmed]
  exact step_refines (ok_trim hb) (congrArg Ctx.rx held_ctx) pcb setup

/-- A round begins by telling the context its bytes. -/
theorem rxRound_held (me : Slot) (pcb : Pcb) (setup : Bool) (b b' : RxBuffer) (s : Server) :
    rxRound me pcb setup b (held me b' s) = rxRound me pcb setup b s := by
  have told : (modCtx me (fun c => { c with rx := b.trim.text }) (held me b' s)).2 = (modCtx me (fun c => { c with rx := b.trim.text }) s).2 := by
    change (held me b' s).setCtx me { (held me b' s).client_registry me with rx := b.trim.text } = _
    rw [held_ctx]
    exact congrArg (fun r => { s with client_registry := r }) (Function.update_idem _ _ _)
  rw [rxRound, bind_run, bind_run, told]

/-- With nothing to read, the loop over the bytes does nothing. -/
theorem recvLoop_empty (me : Slot) (pcb : Pcb) (setup : Bool) (rounds : Nat) {s : Server} (h : Drained me s) :
    (recvLoop me pcb setup rounds s).2 = s := by
  have trimmed : (modCtx me (fun c => { c with rx := c.rx.dropWhile isWs }) s).2 = s :=
    (held_of_rx (b := .zero) _ (by rw [show _ = _ from h]; rfl)).trans (held_self h)
  have stop : recvStep me pcb setup s = (.done, s) := by
    rw [recvStep, bind_run]
    exact congrFun (if_pos h) s
  cases rounds with
  | zero => rfl
  | succ rounds =>
    rw [recvLoop, bind_run, trimmed, bind_run, stop]
    rfl

/-- The whole loop: from the bytes of an array, the loop over the bytes ends in the server of the loop over the array. -/
theorem loop_refines (me : Slot) (pcb : Pcb) (setup : Bool) (rounds : Nat) (b : RxBuffer) (hb : ArrayOk b) (s : Server)
    (hl : b.rx_pos < rounds) : ∃ b' ∈ (rxLoop me pcb setup rounds b s).1,
      (recvLoop me pcb setup rounds (held me b s)).2 = held me b' (rxLoop me pcb setup rounds b s).2 := by
  induction rounds generalizing b s with
  | zero =>
    have := hb.low
    omega
  | succ rounds ih =>
    have hrx : ((held me b s).client_registry me).rx = b.text := congrArg Ctx.rx held_ctx
    have hround := round_refines hb hrx pcb setup
    rw [rxRound_held] at hround
    unfold rxLoop
    split
    · rename_i h0
      refine ⟨b, rfl, recvLoop_empty me pcb setup _ ?_⟩
      rw [Drained, held_ctx]
      exact List.take_eq_nil_iff.mpr (.inl (by omega))
    · have hok : ArrayOk (rxRound me pcb setup b s).1.1 := (sound_rxRound hb me pcb setup s).ok
      rw [recvLoop, ← bind_assoc, bind_run, bind_run, hround]
      dsimp only
      cases hn : (rxRound me pcb setup b s).1.2 with
      | again n =>
        have := round_shrinks hb me pcb setup s hn
        exact ih _ hok (rxRound me pcb setup b s).2 (by omega)
      | _ => exact ⟨_, rfl, rfl⟩

theorem abort_loop_refines : let b := RxBuffer.zero.append (lit " <abort/><auth")
    ∃ b' ∈ (rxLoop 0 7 false 15 b blank.boot).1,
      (recvLoop 0 7 false 15 (held 0 b blank.boot)).2 = held 0 b' (rxLoop 0 7 false 15 b blank.boot).2 :=
  loop_refines 0 7 false 15 _ (ok_append ok_zero (by decide)) _ (by decide)

end Angelic.Proofs
