import Angelic.Proofs.HandlerEffects
import Angelic.Model.Machine

namespace Angelic.Proofs
open CString Model StateRel Relation

section Primitives
variable (s : Server) (i : Slot)

@[simp] theorem setCtx_reg_self (c : Ctx) : (s.setCtx i c).client_registry i = c := by
  simp [Server.setCtx]

theorem setCtx_reg_of_ne {j : Slot} (h : j ≠ i) (c : Ctx) :
    (s.setCtx i c).client_registry j = s.client_registry j := by
  simp [Server.setCtx, h]

@[simp] theorem send_raw_reg_self (text : Str) :
    (send_raw i text s).2.client_registry i = (s.client_registry i).on_stanza_sent :=
  setCtx_reg_self _ i _

theorem send_raw_reg_of_ne {j : Slot} (h : j ≠ i) (text : Str) :
    (send_raw i text s).2.client_registry j = s.client_registry j :=
  setCtx_reg_of_ne _ i h _

end Primitives

/-! What the effects of handlers do to the contexts. -/

/-- Same core, or a session that became ready. -/
def Calm (c c' : Ctx) : Prop :=
  Ctx.core c' = Ctx.core c ∨ c.state = .SESSION ∧ Ctx.core c' = Ctx.core { c with state := .READY }

theorem Calm.refl (c : Ctx) : Calm c c := .inl rfl

theorem state_of_core {c c' : Ctx} (h : Ctx.core c' = Ctx.core c) : c'.state = c.state := by
  simpa [Ctx.core] using congrArg Ctx.state h

theorem Calm.trans {a b c : Ctx} (h : Calm a b) (h' : Calm b c) : Calm a c := by
  rcases h with h | ⟨hs, h⟩
  · rcases h' with h' | ⟨hs', h'⟩
    · exact .inl (h'.trans h)
    · refine .inr ⟨(state_of_core h).symm.trans hs', h'.trans ?_⟩
      exact congrArg (fun c : Ctx => { c with state := ClientState.READY }) h
  · rcases h' with h' | ⟨hs', h'⟩
    · exact .inr ⟨hs, h'.trans h⟩
    · rw [state_of_core h] at hs'
      cases hs'

theorem core_on_stanza_sent (c : Ctx) : Ctx.core c.on_stanza_sent = Ctx.core c := by
  unfold Ctx.on_stanza_sent
  split <;> rfl

/-- The same, or with other counters of the stanzas sent if those are counted. -/
def Counted (c c' : Ctx) : Prop :=
  c' = c ∨ c.sm_enabled ∧ ∃ n w, c' = { c with sm_outbound_count := n, sm_want_ack := w }

theorem Counted.refl (c : Ctx) : Counted c c := .inl rfl

theorem Counted.trans {a b c : Ctx} (h : Counted a b) (h' : Counted b c) : Counted a c := by
  rcases h with rfl | ⟨he, n, w, rfl⟩
  · exact h'
  · rcases h' with rfl | ⟨-, n', w', rfl⟩
    · exact .inr ⟨he, n, w, rfl⟩
    · exact .inr ⟨he, n', w', rfl⟩

theorem counted_sent (c : Ctx) : Counted c c.on_stanza_sent := by
  unfold Ctx.on_stanza_sent
  split
  · exact .inr ⟨‹_›, _, _, rfl⟩
  · exact .refl c

theorem Counted.core {c c' : Ctx} (h : Counted c c') : Ctx.core c' = Ctx.core c := by
  rcases h with rfl | ⟨-, n, w, rfl⟩ <;> rfl

/-- Outside the stores, the disk and the output an effect touches little. -/
structure Quiet (me : Slot) (s s' : Server) : Prop where
  own : Calm (s.client_registry me) (s'.client_registry me)
  others : ∀ j, j ≠ me → Counted (s.client_registry j) (s'.client_registry j)
  client_idx : s'.client_idx = s.client_idx
  tcp_arg : s'.tcp_arg = s.tcp_arg
  stanza_pool : s'.stanza_pool = s.stanza_pool
  random : s'.random = s.random
  draws : s'.draws = s.draws
  sse42 : s'.sse42 = s.sse42
  routed : s'.routed = s.routed

section Quiet
variable {me : Slot}

theorem Quiet.refl (s : Server) : Quiet me s s :=
  ⟨.refl _, fun _ _ => .refl _, rfl, rfl, rfl, rfl, rfl, rfl, rfl⟩

theorem Quiet.trans {a b c : Server} (h : Quiet me a b) (h' : Quiet me b c) : Quiet me a c :=
  ⟨h.own.trans h'.own, fun j hj => (h.others j hj).trans (h'.others j hj),
    h'.client_idx.trans h.client_idx, h'.tcp_arg.trans h.tcp_arg,
    h'.stanza_pool.trans h.stanza_pool, h'.random.trans h.random, h'.draws.trans h.draws,
    h'.sse42.trans h.sse42, h'.routed.trans h.routed⟩

theorem Quiet.setOwn {s : Server} {c : Ctx} (h : Calm (s.client_registry me) c) : Quiet me s (s.setCtx me c) := by
  refine ⟨?_, fun j hj => ?_, rfl, rfl, rfl, rfl, rfl, rfl, rfl⟩
  · rwa [setCtx_reg_self]
  · rw [setCtx_reg_of_ne s me hj]
    exact .refl _

theorem Quiet.setOther {s : Server} {i : Slot} (hi : i ≠ me) {c : Ctx}
    (h : Counted (s.client_registry i) c) : Quiet me s (s.setCtx i c) := by
  refine ⟨?_, fun j _ => ?_, rfl, rfl, rfl, rfl, rfl, rfl, rfl⟩
  · rw [setCtx_reg_of_ne s i (Ne.symm hi)]
    exact .refl _
  · by_cases hj : j = i
    · subst hj
      rwa [setCtx_reg_self]
    · rw [setCtx_reg_of_ne s i hj]
      exact .refl _

theorem quiet_send (s : Server) (i : Slot) (text : Str) : Quiet me s (send_raw i text s).2 := by
  have hout : Quiet me s (s.emit (.send i (s.client_registry i).tls_established
      (s.client_registry i).pcb text)) :=
    ⟨.refl _, fun _ _ => .refl _, rfl, rfl, rfl, rfl, rfl, rfl, rfl⟩
  refine hout.trans ?_
  by_cases hi : i = me
  · subst hi
    exact .setOwn (.inl (core_on_stanza_sent _))
  · exact .setOther hi (counted_sent _)

theorem quiet_touch {k : StoreId} {s s' : Server} (h : Touch k s s') : Quiet me s s' := by
  cases h with
  | send i _ => exact quiet_send _ i _
  | change => exact ⟨.refl _, fun _ _ => .refl _, rfl, rfl, rfl, rfl, rfl, rfl, rfl⟩

theorem quiet_effect {s s' : Server} (h : Effect me s s') : Quiet me s s' := by
  cases h with
  | send i _ => exact quiet_send _ i _
  | note hf _ => exact .setOwn (.inl (hf _))
  | ready hs => exact .setOwn (.inr ⟨hs, rfl⟩)
  | version => exact ⟨.refl _, fun _ _ => .refl _, rfl, rfl, rfl, rfl, rfl, rfl, rfl⟩
  | occupants => exact ⟨.refl _, fun _ _ => .refl _, rfl, rfl, rfl, rfl, rfl, rfl, rfl⟩
  | saved s' k ht =>
    have hq : Quiet me s s' := by
      induction ht with
      | refl => exact .refl _
      | tail _ ht ih => exact ih.trans (quiet_touch ht)
    exact hq.trans ⟨.refl _, fun _ _ => .refl _, rfl, rfl, rfl, rfl, rfl, rfl, rfl⟩

theorem does_quiet {m : M α} (h : Does (Effect me) m) (s : Server) : Quiet me s (m s).2 :=
  h.rel Quiet.refl (fun _ _ _ => .trans) (fun _ _ => quiet_effect) s

end Quiet

end Angelic.Proofs
