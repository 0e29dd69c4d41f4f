import Angelic.Proofs.Occupancy
import Angelic.Proofs.Restart
import Angelic.Proofs.RoomChanges

namespace Angelic.Proofs
open CString Model StateRel Relation Spec

/-! Occupants and their sessions. The room table and the registry know nothing of each other: an
occupant outlives its session unless the session leaves first. -/

/-- Some context is in session under the address. -/
def Hosted (s : Server) (jid : Str) : Prop :=
  ∃ k, Ctx.inSession (s.client_registry k) ∧ bare (s.client_registry k).full_jid = jid

/-- Every occupant of every room has a session. -/
def Attended (s : Server) : Prop :=
  ∀ i j, ((s.stores.rooms i).users j).active → Hosted s ((s.stores.rooms i).users j).jid

instance (s : Server) (jid : Str) : Decidable (Hosted s jid) := inferInstanceAs (Decidable (∃ _, _))
instance (s : Server) : Decidable (Attended s) := inferInstanceAs (Decidable (∀ _, _))

/-- A presence that can make its sender an occupant. -/
def Enters (c : Ctx) (st : Stanza) : Prop :=
  .SESSION ≤ c.state ∧ roomRequest st = some .presence ∧ st.type ≠ .PRESENCE_UNAVAILABLE

instance (c : Ctx) (st : Stanza) : Decidable (Enters c st) := inferInstanceAs (Decidable (_ ∧ _))

/-! Who is in a room after a stanza was there before it, or sent it. -/

/-- Whoever is in the room was there before, under the same address. -/
def Stays (r r' : Room) : Prop :=
  ∀ j, (r'.users j).active → (r.users j).active = true ∧ (r'.users j).jid = (r.users j).jid

/-- A change that anybody could have made brings nobody. -/
theorem stays_of_anyone {r r' : Room} (h : ∀ c, RoomChange c r r') : Stays r r' := by
  intro j hj
  rcases (h .zero).occupant hj with hs | hz
  · exact hs
  · refine ((h { Ctx.zero with full_jid := lit "a" }).occupant hj).resolve_right fun ha => ?_
    exact absurd (hz.1.symm.trans ha.1) (by decide)

section Tables
variable {T : RoomTable} {c : Ctx} {st : Stanza} {i : Fin MAX_ROOMS}

theorem opened_users {r r₁ : Room} (h : Opened c r r₁) : r₁.users = r.users := by
  rcases h with rfl | ⟨-, name, rfl⟩
  · rfl
  · rfl

theorem stays_unavailable (c : Ctx) (h : st.type = .PRESENCE_UNAVAILABLE) (k : Fin MAX_ROOMS) :
    Stays (T k) (T.presence c st k) := by
  unfold RoomTable.presence
  cases mucTarget st.to_ with
  | none => exact stays_of_anyone fun _ => .same
  | some t =>
    dsimp only
    cases he : T.enter c t.room_name with
    | none => exact stays_of_anyone fun _ => .same
    | some p =>
      have hleft : Stays (p.2 k) (p.2.attend p.1 c st t.nick k) := by
        unfold RoomTable.attend
        rw [if_pos h]
        split
        · exact stays_of_anyone fun _ => .same
        · exact stays_of_anyone fun _ => leave_change t.nick k
      intro j hj
      rw [← (enter_same he k).1]
      exact hleft j hj

/-- Only a presence that enters brings someone. -/
theorem handle_users (i : Fin MAX_ROOMS) (j : Fin MAX_USERS_PER_ROOM) (hj : ((T.handle c st i).users j).active) :
    (((T i).users j).active = true ∧ ((T.handle c st i).users j).jid = ((T i).users j).jid) ∨
      Enters c st ∧ ((T.handle c st i).users j).jid = bare c.full_jid := by
  by_cases hlt : c.state < .SESSION
  · rw [T.handle_early hlt] at hj ⊢
    exact .inl ⟨hj, rfl⟩
  · rw [T.handle_eq_serve hlt] at hj ⊢
    cases hq : roomRequest st with
    | none =>
      rw [hq] at hj
      exact .inl ⟨hj, rfl⟩
    | some q =>
      rw [hq] at hj
      cases q with
      | presence =>
        by_cases hu : st.type = .PRESENCE_UNAVAILABLE
        · exact .inl (stays_unavailable c hu i j hj)
        · obtain ⟨r, hr, hc⟩ := presence_change i
          rw [← opened_users hr]
          exact (hc.occupant hj).imp_right fun h => ⟨⟨Nat.not_lt.mp hlt, hq, hu⟩, h.1⟩
      | owner => exact .inl (stays_of_anyone (fun _ => owner_change i) j hj)
      | admin => exact .inl (stays_of_anyone (fun _ => admin_change i) j hj)
      | message => exact .inl (stays_of_anyone (fun _ => message_change i) j hj)

end Tables

/-! A stanza that can change a room leaves every session as it is. -/

theorem dispatch_calm {me : Slot} {st : Stanza} (h : StanzaOk st) {s : Server}
    (hs : .AUTHENTICATED ≤ (s.client_registry me).state) :
    (∀ k, Calm (s.client_registry k) ((dispatch me (s.client_registry me) st s).2.client_registry k)) ∨
      (dispatch me (s.client_registry me) st s).2.stores.rooms = s.stores.rooms := by
  have effects : ∀ {m : M Unit}, Does (Effect me) m →
      ∀ k, Calm (s.client_registry k) ((m s).2.client_registry k) := by
    intro m hm k
    have hq := does_quiet hm s
    by_cases hk : k = me
    · subst hk
      exact hq.own
    · exact .inl (hq.others k hk).core
  refine dispatch_all (X := fun m => (∀ k, Calm (s.client_registry k) ((m s).2.client_registry k)) ∨
    (m s).2.stores.rooms = s.stores.rooms) h (fun _ => ?_) (fun _ => .inr (bind_dispatched me st hs).rooms)
    (fun _ => .inr rfl) fun _ hm => .inl (effects hm)
  right
  exact congrArg (·.stores.rooms) (local_frame (tr_handle_handshake_logic me s (inLoop_of_le hs)).1).1

/-- An action leaves the rooms as they are, or it handles a stanza and leaves the sessions as they are. -/
theorem action_shift {s s' : Server} (h : Action s s') : s'.stores.rooms = s.stores.rooms ∨
      (∀ k, Calm (s.client_registry k) (s'.client_registry k)) ∧
        ∃ me st, s'.routed = s.routed ++ [(s.client_registry me, st)] ∧
          s'.stores.rooms = RoomTable.handle s.stores.rooms (s.client_registry me) st := by
  cases h with
  | turn me h =>
    cases h with
    | own h =>
      left
      exact congrArg (·.stores.rooms) (local_frame (.single h)).1
    | stanza ok h =>
      rename_i st
      obtain ⟨-, hT, hr⟩ := route_rooms ok h
      have hcalm := dispatch_calm (stamped_ok (c := s.client_registry me) ok)
        (s := { s with routed := s.routed ++ [(s.client_registry me, st)] }) h
      rcases hcalm with hc | hc
      · exact .inr ⟨hc, me, st, hr, hT⟩
      · exact .inl hc
  | accept pcb =>
    obtain ⟨o, he⟩ := accept_run pcb s
    rw [he]
    exact .inl rfl

theorem Calm.inSession_keeps {c c' : Ctx} (h : Calm c c') (hc : Ctx.inSession c) :
    Ctx.inSession c' ∧ c'.full_jid = c.full_jid := by
  have same : c'.pcb = c.pcb ∧ c'.full_jid = c.full_jid := by
    rcases session_of_calm h with hs | ⟨-, hs⟩
    · exact ⟨congrArg Session.pcb hs, congrArg Session.full_jid hs⟩
    · exact ⟨congrArg Session.pcb hs, congrArg Session.full_jid hs⟩
  exact ⟨⟨same.1 ▸ hc.1, h.inSession hc.2⟩, same.2⟩

/-- The session in `k` is over, or under another address. -/
def Ended (s s' : Server) (k : Slot) : Prop :=
  Ctx.inSession (s.client_registry k) ∧
    ¬ (Ctx.inSession (s'.client_registry k) ∧
      bare (s'.client_registry k).full_jid = bare (s.client_registry k).full_jid)

/-- A session that ends is nobody's in a room, or another one has its address. -/
def EndsOutside (s s' : Server) : Prop :=
  ∀ k, Ended s s' k → ∀ i j, ((s.stores.rooms i).users j).active →
    ((s.stores.rooms i).users j).jid = bare (s.client_registry k).full_jid →
    Hosted s' (bare (s.client_registry k).full_jid)

/-- Who enters a room is connected. -/
def EntersConnected (s s' : Server) : Prop :=
  ∀ p, s'.routed = s.routed ++ [p] → Enters p.1 p.2 → p.1.pcb.isSome

/-- One action keeps every occupant in session exactly when the sessions it ends are outside. -/
theorem attended_iff {s s' : Server} (h : Action s s') (hen : EntersConnected s s') (ha : Attended s) :
    Attended s' ↔ EndsOutside s s' := by
  rcases action_shift h with hT | ⟨hcalm, me, st, hr, hT⟩
  · unfold Attended
    rw [hT]
    constructor
    · intro h' k _ i j hj hjid
      rw [← hjid]
      exact h' i j hj
    · intro h' i j hj
      obtain ⟨k, hk, hjid⟩ := ha i j hj
      by_cases he : Ended s s' k
      · rw [← hjid]
        exact h' k he i j hj hjid.symm
      · obtain ⟨hk', hb⟩ := not_not.mp (not_and.mp he hk)
        exact ⟨k, hk', hb.trans hjid⟩
  · have stay : ∀ k, Ctx.inSession (s.client_registry k) → Hosted s' (bare (s.client_registry k).full_jid) := by
      intro k hk
      obtain ⟨hk', hb⟩ := (hcalm k).inSession_keeps hk
      exact ⟨k, hk', congrArg bare hb⟩
    refine iff_of_true ?_ fun k he _ _ _ _ => stay k he.1
    intro i j hj
    rw [hT] at hj ⊢
    rcases handle_users i j hj with ⟨hold, hjid⟩ | ⟨hent, hjid⟩
    · obtain ⟨k, hk, hb⟩ := ha i j hold
      rw [hjid, ← hb]
      exact stay k hk
    · rw [hjid]
      exact stay me ⟨hen _ hr hent, hent.1⟩

instance (s s' : Server) (k : Slot) : Decidable (Ended s s' k) := inferInstanceAs (Decidable (_ ∧ _))
instance (s s' : Server) : Decidable (EndsOutside s s') := inferInstanceAs (Decidable (∀ _, _))

/-- The connection of a context is gone. -/
def hungUp (s : Server) (me : Slot) : Server := s.setCtx me { s.client_registry me with pcb := none }

section Single
variable (s : Server) (me : Slot)

theorem hungUp_action : Action s (hungUp s me) := .turn me (.own (.move s .close (.same rfl)))

theorem hungUp_entersConnected : EntersConnected s (hungUp s me) := by
  intro p hp
  have hr : s.routed = s.routed ++ [p] := hp
  simp at hr

theorem route_action {st : Stanza} (ok : StanzaOk st) (hs : .AUTHENTICATED ≤ (s.client_registry me).state) :
    Action s (xmpp_route_stanza me st s).2 := .turn me (.stanza s ok hs)

theorem route_entersConnected {st : Stanza} (ok : StanzaOk st)
    (hs : .AUTHENTICATED ≤ (s.client_registry me).state) (h : ¬ Enters (s.client_registry me) st) :
    EntersConnected s (xmpp_route_stanza me st s).2 := by
  intro p hp he
  rw [(route_rooms ok hs).2.2] at hp
  obtain rfl := List.singleton_inj.mp (List.append_cancel_left hp)
  exact absurd he h

end Single

end Angelic.Proofs
