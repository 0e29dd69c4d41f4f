import Angelic.Proofs.Negotiation
import Angelic.Proofs.Routing

namespace Angelic.Proofs
open CString Model StateRel Relation Spec

/-! What an event does to the contexts of other connections. -/

/-- The context `j` was connected and has been cleared, for a bind of the same user that was routed
in between. -/
def Displaced (s s' : Server) (j : Slot) : Prop :=
  s'.client_registry j = .zero ∧ (s.client_registry j).pcb.isSome ∧
    ∃ p ∈ s'.routed.drop s.routed.length, p.2.xmlns = NS_BIND ∧ p.1.state = .BIND ∧
      p.1.username = (s.client_registry j).username

/-- What the actions of one context leave of the rest. -/
structure Apart (me : Slot) (s s' : Server) : Prop where
  tcp_arg : s'.tcp_arg = s.tcp_arg
  client_idx : s'.client_idx = s.client_idx
  routed : s.routed <+: s'.routed
  ctx : ∀ j, j ≠ me → Counted (s.client_registry j) (s'.client_registry j) ∨ Displaced s s' j

section Apart
variable {me : Slot} {s s' : Server}

theorem Apart.refl (s : Server) : Apart me s s :=
  ⟨rfl, rfl, List.prefix_refl _, fun _ _ => .inl (.refl _)⟩

theorem mem_drop_of_prefix {a b c : List α} (hab : a <+: b) (hbc : b <+: c) {x : α} :
    (x ∈ b.drop a.length → x ∈ c.drop a.length) ∧ (x ∈ c.drop b.length → x ∈ c.drop a.length) := by
  obtain ⟨u, rfl⟩ := hab
  obtain ⟨v, rfl⟩ := hbc
  simp only [List.append_assoc, List.drop_left, List.length_append, List.mem_append]
  refine ⟨.inl, fun h => .inr ?_⟩
  simpa using h

theorem Apart.trans {a b c : Server} (h : Apart me a b) (h' : Apart me b c) : Apart me a c := by
  refine ⟨h'.tcp_arg.trans h.tcp_arg, h'.client_idx.trans h.client_idx, h.routed.trans h'.routed,
    fun j hj => ?_⟩
  have grows := fun p => mem_drop_of_prefix h.routed h'.routed (x := p)
  rcases h.ctx j hj with hab | ⟨hz, hp, p, hm, hx⟩
  · rcases h'.ctx j hj with hbc | ⟨hz, hp, p, hm, hx, hs, hu⟩
    · exact .inl (hab.trans hbc)
    · have hses := session_of_core hab.core
      have hpcb : (b.client_registry j).pcb = (a.client_registry j).pcb := congrArg Session.pcb hses
      have hname : (b.client_registry j).username = (a.client_registry j).username :=
        congrArg Session.username hses
      exact .inr ⟨hz, hpcb ▸ hp, p, (grows p).2 hm, hx, hs, hu.trans hname⟩
  · -- a cleared context counts nothing and is not connected
    rcases h'.ctx j hj with hbc | ⟨-, hp', -⟩
    · rw [hz] at hbc
      rcases hbc with hbc | ⟨he, -⟩
      · exact .inr ⟨hbc, hp, p, (grows p).1 hm, hx⟩
      · cases he
    · rw [hz] at hp'
      cases hp'

theorem Apart.of_quiet (h : Quiet me s s') : Apart me s s' :=
  ⟨h.tcp_arg, h.client_idx, h.routed ▸ List.prefix_refl _, fun j hj => .inl (h.others j hj)⟩

theorem Apart.setCtx (s : Server) (c : Ctx) : Apart me s (s.setCtx me c) :=
  ⟨rfl, rfl, List.prefix_refl _, fun _ hj => .inl (.inl (setCtx_reg_of_ne s me hj c))⟩

theorem act_apart (h : Act me s s') : Apart me s s' := by
  cases h with
  | effect h => exact .of_quiet (quiet_effect h)
  | own h =>
    cases h with
    | emit | draw | pool => exact ⟨rfl, rfl, List.prefix_refl _, fun _ _ => .inl (.refl _)⟩
    | keep | move => exact .setCtx _ _
  | route st _ => exact ⟨rfl, rfl, List.prefix_append _ _, fun _ _ => .inl (.refl _)⟩
  | session _ _ => exact .setCtx _ _
  | bind st n o hx _ hs =>
    refine ⟨rfl, rfl, List.prefix_append _ _, fun j hj => ?_⟩
    by_cases hc : clashes me s j
    · refine .inr ⟨?_, hc.2.1, (s.client_registry me, st), ?_, hx, hs, hc.2.2.symm⟩
      · simp [bound, hj, hc]
      · simp
    · refine .inl (.inl ?_)
      simp [bound, hj, hc]

end Apart

theorem event_apart {s : Server} {e : Event} {me : Slot} (h : Event.slot s e = some me) : Apart me s (step s e) := by
  have hc := event_acts h
  generalize step s e = t at hc
  induction hc with
  | refl => exact .refl _
  | tail _ ha ih => exact ih.trans (act_apart ha)

/-- The connection whose callback an event is. -/
def Event.pcb : Event → Option Pcb
  | .recv pcb _ _ | .close pcb | .err pcb => some pcb
  | .accept _ | .handshake _ _ | .ack _ => none

/-- A callback of a connection whose context has been given to another one since. -/
def Late (s : Server) (e : Event) : Prop :=
  ∃ pcb other i, Event.pcb e = some pcb ∧ Event.slot s e = some i ∧
    (s.client_registry i).pcb = some other ∧ other ≠ pcb

/-- A callback that does not come late works on the context of its connection, which is closed if
it is not the connection's own any more. Every other context is as before up to the counters of
stanzas sent to it, or was cleared for a bind of its user. A new connection is given the context
whose turn it is. -/
theorem step_isolated (s : Server) (e : Event) (hl : ¬ Late s e) (j : Slot) :
    ((∃ pcb, e = .accept pcb) ∧ j = s.client_idx) ∨
      (Event.slot s e = some j ∧ ∀ pcb, Event.pcb e = some pcb →
        (s.client_registry j).pcb = some pcb ∨ (s.client_registry j).pcb = none) ∨
      Counted (s.client_registry j) ((step s e).client_registry j) ∨ Displaced s (step s e) j := by
  cases hslot : Event.slot s e with
  | some me =>
    by_cases hj : j = me
    · subst hj
      refine .inr (.inl ⟨rfl, fun pcb hp => ?_⟩)
      cases hc : (s.client_registry j).pcb with
      | none => exact .inr rfl
      | some other =>
        by_cases ho : other = pcb
        · exact .inl (congrArg some ho)
        · exact absurd ⟨pcb, other, j, hp, hslot, hc, ho⟩ hl
    · exact .inr (.inr ((event_apart hslot).ctx j hj))
  | none =>
    by_cases ha : ∃ pcb, e = .accept pcb
    · by_cases hj : j = s.client_idx
      · exact .inl ⟨ha, hj⟩
      · obtain ⟨pcb, rfl⟩ := ha
        obtain ⟨o, he⟩ := accept_run pcb s
        refine .inr (.inr (.inl (.inl ?_)))
        rw [he]
        simp [hj]
    · rw [step_no_slot hslot fun pcb hp => ha ⟨pcb, hp⟩]
      exact .inr (.inr (.inl (.refl _)))

/-- The second bind of the administrator reaches into the first context. -/
theorem step_isolated_second_bind :
    let s := blank.run (talk 7 [streamOpen, bindIq] ++ talk 8 [streamOpen])
    let e := Event.recv 8 [passed bindIq] true
    (s.client_registry 0).pcb = some 7 ∧
      (((∃ pcb, e = .accept pcb) ∧ 0 = s.client_idx) ∨
        (Event.slot s e = some 0 ∧ ∀ pcb, Event.pcb e = some pcb →
          (s.client_registry 0).pcb = some pcb ∨ (s.client_registry 0).pcb = none) ∨
        Counted (s.client_registry 0) ((step s e).client_registry 0) ∨ Displaced s (step s e) 0) := by
  intro s e
  have hs : s.tcp_arg 8 = some 1 ∧ (s.client_registry 1).pcb = some 8 ∧
      (s.client_registry 0).pcb = some 7 := by decide +kernel
  refine ⟨hs.2.2, step_isolated s e ?_ 0⟩
  rintro ⟨pcb, other, i, hp, hi, ho, hne⟩
  obtain rfl : 8 = pcb := Option.some.inj hp
  obtain rfl : 1 = i := Option.some.inj (hs.1.symm.trans hi)
  exact hne (Option.some.inj (ho.symm.trans hs.2.1))

/-- Connections that come in one after the other, as many as there are contexts and one more. -/
def crowd : List Event := (List.range (MAX_USERS + 1)).map .accept

/-- The last connection has the context of the first, whose late close or error is taken for its
own. A second login of a user clears the context of the first. -/
theorem late_close_hits_other :
    (((blank.run crowd).client_registry 0).pcb = some MAX_USERS ∧
        ((blank.run (crowd ++ [.close 0])).client_registry 0).pcb = none ∧
        ((blank.run (crowd ++ [.err 0])).client_registry 0).pcb = none) ∧
      ((blank.run (talk 7 [streamOpen, bindIq] ++ talk 8 [streamOpen])).client_registry 0).pcb = some 7 ∧
      ((blank.run (talk 7 [streamOpen, bindIq] ++ talk 8 [streamOpen, bindIq])).client_registry 0).pcb =
        none := by
  decide +kernel

/-! The log of what is sent only grows. -/

theorem action_sends {s s' : Server} (h : Action s s') : sends s <+: sends s' := by
  cases h with
  | turn me h =>
    cases h with
    | own h =>
      cases h with
      | emit o => exact ⟨o.filterMap Out.posted, (List.filterMap_append ..).symm⟩
      | _ => exact List.prefix_rfl
    | stanza ok h => exact ⟨_, (route_sends _ _ _).1.symm⟩
  | accept pcb =>
    obtain ⟨o, he⟩ := accept_run pcb s
    rw [he]
    exact ⟨o.filterMap Out.posted, (List.filterMap_append ..).symm⟩

theorem actions_send {s s' : Server} (h : ReflTransGen Action s s') : sends s <+: sends s' := by
  induction h with
  | refl => exact List.prefix_rfl
  | tail _ ha ih => exact ih.trans (action_sends ha)

end Angelic.Proofs
