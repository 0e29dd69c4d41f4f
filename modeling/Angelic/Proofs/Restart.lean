import Angelic.Proofs.Negotiation

namespace Angelic.Proofs
open CString Model StateRel Relation Spec

/-! Which stanzas send a session back to the negotiation. -/

/-- What the router takes for a stream header. -/
def namesStream (xmlns : Str) : Prop := (strstr xmlns (lit "stream")).isSome

instance (xmlns : Str) : Decidable (namesStream xmlns) := inferInstanceAs (Decidable (_ = true))

theorem namesStream_iff (xmlns : Str) : namesStream xmlns ↔ xmlns ≠ [] ∧ (strstr xmlns (lit "stream")).isSome := by
  refine ⟨fun h => ⟨?_, h⟩, fun h => h.2⟩
  rintro rfl
  exact absurd h (by decide +kernel)

theorem Calm.inSession {c c' : Ctx} (h : Calm c c') (hs : .SESSION ≤ c.state) : .SESSION ≤ c'.state := by
  rcases h with h | ⟨_, h⟩
  · rwa [state_of_core h]
  · rw [state_of_core h]
    exact (by decide : ClientState.SESSION ≤ .READY)

section State
variable (me : Slot) (s : Server)

theorem send_raw_state (text : Str) :
    ((send_raw me text s).2.client_registry me).state = (s.client_registry me).state := by
  rw [send_raw_reg_self]
  exact state_of_core (core_on_stanza_sent _)

theorem handle_handshake_logic_state :
    ((handle_handshake_logic me s).2.client_registry me).state =
      if (s.client_registry me).authenticated then .BIND
      else if (s.client_registry me).tls_established then .SASL
      else (s.client_registry me).state := by
  generalize hr : ({ s with draws := s.draws + 1 } : Server) = t
  have hc : t.client_registry me = s.client_registry me := by rw [← hr]
  rw [handle_handshake_logic, bind_run, bind_run]
  simp only [secure_random_u32, hr, ctxOf, hc]
  split
  · change ((send_raw me _ (t.setCtx me _)).2.client_registry me).state = _
    rw [send_raw_state, setCtx_reg_self]
  · split
    · change (((send_raw me _ t).2.setCtx me _).client_registry me).state = _
      rw [setCtx_reg_self]
    · rw [send_raw_state, hc]

theorem handle_core_bind_state {st : Stanza} (h : (s.client_registry me).state ≠ .BIND) :
    ((handle_core_bind me st s).2.client_registry me).state = (s.client_registry me).state := by
  obtain ⟨text, hrun⟩ := handle_core_bind_refused me st h
  rw [hrun]
  exact send_raw_state me s _

theorem handle_core_session_state (st : Stanza) :
    ((handle_core_session me st s).2.client_registry me).state = .READY := by
  rw [handle_core_session, bind_run]
  unfold modCtx
  rw [setCtx_reg_self]

end State

/-- A routed stanza leaves a session a session, unless its namespace has the word stream in it. -/
theorem dispatch_inSession {me : Slot} {st : Stanza} (h : StanzaOk st) {s : Server}
    (hs : .SESSION ≤ (s.client_registry me).state) :
    .SESSION ≤ ((dispatch me (s.client_registry me) st s).2.client_registry me).state ↔ ¬ (namesStream st.xmlns ∧
        ((s.client_registry me).authenticated ∨ (s.client_registry me).tls_established)) := by
  by_cases hx : namesStream st.xmlns
  · rw [dispatch, if_pos ((namesStream_iff _).mp hx), handle_handshake_logic_state]
    split
    · simp_all [ClientState.le_def, ClientState.rank]
    · split <;> simp_all [ClientState.le_def, ClientState.rank]
  · refine iff_of_true ?_ fun h => hx h.1
    refine dispatch_all (X := fun m => .SESSION ≤ ((m s).2.client_registry me).state) h
      (fun h => absurd ((namesStream_iff _).mpr h) hx) (fun _ => ?_) (fun _ => ?_)
      fun _ hm => (does_quiet hm s).own.inSession hs
    · have hne : (s.client_registry me).state ≠ .BIND := fun hb => by
        rw [hb] at hs
        exact absurd hs (by decide)
      exact (handle_core_bind_state me s hne).symm ▸ hs
    · exact (handle_core_session_state me s st).symm ▸ by decide

/-- For every session and every stanza routed for it: it is still a session afterwards exactly when the
namespace of the stanza does not have the word stream in it. A context that was never authenticated nor
encrypted is not touched either. -/
theorem route_keeps_session_iff (s : Server) (me : Slot) {st : Stanza} (h : StanzaOk st)
    (hs : .SESSION ≤ (s.client_registry me).state) :
    .SESSION ≤ ((xmpp_route_stanza me st s).2.client_registry me).state ↔
      ¬ (namesStream st.xmlns ∧
        ((s.client_registry me).authenticated ∨ (s.client_registry me).tls_established)) := by
  rw [← stamped_xmlns (s.client_registry me) st]
  exact dispatch_inSession (s := { s with routed := s.routed ++ [(s.client_registry me, st)] })
    (stamped_ok h) hs

/-- The administrator, bound. -/
def boundAdmin : Server := blank.run (talk 7 [streamOpen, bindIq])

/-- A ping is answered in the session. -/
theorem route_keeps_session_ping :
    .SESSION ≤ ((xmpp_route_stanza 0
      { Stanza.zero with type := .IQ_GET, xmlns := lit "urn:ietf:params:xml:ns:xmpp-ping" }
      boundAdmin).2.client_registry 0).state := by
  have hs : .SESSION ≤ (boundAdmin.client_registry 0).state := by decide +kernel
  refine (route_keeps_session_iff boundAdmin 0 ⟨by decide, by decide⟩ hs).mpr fun h => ?_
  exact absurd h.1 (by decide +kernel)

/-- A query whose namespace has the word in it puts a bound session back to binding. -/
theorem query_restarts_session :
    (boundAdmin.client_registry 0).state = .SESSION ∧ (boundAdmin.client_registry 0).pcb.isSome ∧
      ((step boundAdmin (.recv 7 [passed (lit "<iq type='get' id='q'><query xmlns='urn:x:stream-info'/></iq>")]
        true)).client_registry 0).state = .BIND ∧
      ((step boundAdmin (.recv 7 [passed (lit "<iq type='get' id='q'><query xmlns='urn:x:stream-info'/></iq>")]
        true)).client_registry 0).pcb.isSome := by
  decide +kernel

end Angelic.Proofs
