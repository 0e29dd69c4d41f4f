import Angelic.Model.Session
import Mathlib.Logic.Relation

namespace Angelic.Spec
open CString Model Relation

/-! What the negotiation of streams is meant to be: sessions that move one step at a time, and a
registry of them that accepts, binds and routes. -/

structure Session where
  pcb : Option Pcb
  state : ClientState
  username : Str
  full_jid : Str
  authenticated : Bool
  tls_established : Bool

def Session.empty : Session := ⟨none, .CONNECTED, [], [], false, false⟩

/-- What can happen to a session on its own. -/
inductive Session.Move : Session → Session → Prop where
  | close {c} : Move c { c with pcb := none }
  | lost {c} : Move c { c with pcb := none, tls_established := false }
  | reset {c} (tls) : Move c { c with pcb := none, state := .CONNECTED, tls_established := tls }
  | starttls {c} (h : c.state = .CONNECTED) (ht : ¬ c.tls_established) :
      Move c { c with state := .STARTTLS }
  | secured {c} (h : c.state = .STARTTLS ∨ c.state = .CONNECTED) :
      Move c { c with state := .CONNECTED, tls_established := true }
  | offer {c} (h : ¬ c.authenticated) : Move c { c with state := .SASL }
  | restart {c} (ha : c.authenticated) : Move c { c with state := .BIND }
  | named {c} (u) (h : c.state = .CONNECTED ∨ c.state = .SASL) (hu : Holds 32 u) (hne : u ≠ []) :
      Move c { c with username := u }
  | login {c} (ht : c.tls_established) (hu : c.username ≠ []) :
      Move c { c with authenticated := true, state := .AUTHENTICATED }
  | ready {c} (h : c.state = .SESSION) : Move c { c with state := .READY }
  | clear {c} : Move c .empty

/-- The sessions, and for each stanza routed so far the session it was routed for and whether it
asked for the session itself. -/
structure Registry where
  session : Slot → Session
  routed : List (Session × Bool)

namespace Registry

def empty : Registry := ⟨fun _ => .empty, []⟩

def set (a : Registry) (i : Slot) (c : Session) : Registry :=
  { a with session := Function.update a.session i c }

/-- Another connection of the same user. -/
def conflicts (a : Registry) (i j : Slot) : Prop :=
  j ≠ i ∧ (a.session j).pcb.isSome ∧ (a.session j).username = (a.session i).username

instance (a : Registry) (i j : Slot) : Decidable (a.conflicts i j) := inferInstanceAs (Decidable (_ ∧ _))

/-- Binding gives a session its address and ends the other connections of its user. -/
def bind (a : Registry) (i : Slot) (n : Nat) : Registry :=
  { a with session := fun j =>
      if j = i then { a.session i with full_jid := fullJid (a.session i).username n, state := .SESSION }
      else if a.conflicts i j then .empty else a.session j }

inductive Step : Registry → Registry → Prop where
  | own {a} (i) {c} (h : (a.session i).Move c) : Step a (a.set i c)
  | bind {a} (i n) (hn : n < 9999) (h : (a.session i).state = .BIND) : Step a (a.bind i n)
  | route {a} (i b) (h : .AUTHENTICATED ≤ (a.session i).state) :
      Step a { a with routed := a.routed ++ [(a.session i, b)] }
  | session {a} (i) (h : .AUTHENTICATED ≤ (a.session i).state)
      (hr : (a.session i, true) ∈ a.routed) :
      Step a (a.set i { a.session i with state := .READY })
  | accept {a} (i pcb) : Step a (a.set i { Session.empty with pcb := some pcb })

/-- What every step keeps holds of all that can be reached. -/
theorem reach_keeps {P : Registry → Prop} (hp : ∀ a b, Step a b → P a → P b) {a b : Registry}
    (h : ReflTransGen Step a b) (ha : P a) : P b := by
  induction h with
  | refl => exact ha
  | tail _ hs ih => exact hp _ _ hs ih

theorem forall_set {a : Registry} {P : Session → Prop} (h : ∀ j, P (a.session j)) {i : Slot} {c : Session}
    (hc : P c) (j : Slot) : P ((a.set i c).session j) := by
  by_cases hj : j = i
  · subst hj
    simpa [set] using hc
  · simpa [set, hj] using h j

theorem forall_bind {a : Registry} {P : Session → Prop} (h : ∀ j, P (a.session j)) {i : Slot} {n : Nat} (he : P .empty)
    (hi : P { a.session i with full_jid := fullJid (a.session i).username n, state := .SESSION }) (j : Slot) :
    P ((a.bind i n).session j) := by
  simp only [bind]
  split
  · exact hi
  · split
    · exact he
    · exact h j

theorem forall_route {l : List (Session × Bool)} {P : Session → Prop} (h : ∀ p ∈ l, P p.1) {c : Session} {b : Bool}
    (hc : P c) : ∀ p ∈ l ++ [(c, b)], P p.1 := by
  intro p hp
  rcases List.mem_append.mp hp with hp | hp
  · exact h p hp
  · rwa [List.mem_singleton.mp hp]

end Registry

/-! First invariant: who is past authentication has authenticated, over TLS. -/

structure Session.Ok (c : Session) : Prop where
  authenticated : .AUTHENTICATED ≤ c.state → c.authenticated
  encrypted : c.pcb.isSome → c.authenticated → c.tls_established

theorem Session.Ok.of_closed {c : Session} (hp : c.pcb = none) (hs : c.state < .AUTHENTICATED) : c.Ok := by
  refine ⟨fun h => ?_, fun h => ?_⟩
  · rw [ClientState.le_def] at h
    rw [ClientState.lt_def] at hs
    omega
  · simp [hp] at h

theorem Session.Move.ok {c d : Session} (h : c.Move d) (hc : c.Ok) : d.Ok := by
  cases h with
  | close => exact ⟨hc.authenticated, nofun⟩
  | lost => exact ⟨hc.authenticated, nofun⟩
  | reset tls => exact .of_closed rfl (by decide : ClientState.CONNECTED < .AUTHENTICATED)
  | starttls =>
    exact ⟨fun h => absurd h (by decide : ¬ ClientState.AUTHENTICATED ≤ .STARTTLS), hc.encrypted⟩
  | secured =>
    exact ⟨fun h => absurd h (by decide : ¬ ClientState.AUTHENTICATED ≤ .CONNECTED), fun _ _ => rfl⟩
  | offer => exact ⟨fun h => absurd h (by decide : ¬ ClientState.AUTHENTICATED ≤ .SASL), hc.encrypted⟩
  | restart ha => exact ⟨fun _ => ha, hc.encrypted⟩
  | named => exact ⟨hc.authenticated, hc.encrypted⟩
  | login ht => exact ⟨fun _ => rfl, fun _ _ => ht⟩
  | ready hs => exact ⟨fun _ => hc.authenticated (by rw [hs]; decide), hc.encrypted⟩
  | clear => exact .of_closed rfl (by decide)

structure Registry.Guarded (a : Registry) : Prop where
  session : ∀ i, (a.session i).Ok
  routed : ∀ p ∈ a.routed, p.1.authenticated

theorem Registry.Guarded.empty : Registry.empty.Guarded :=
  ⟨fun _ => .of_closed rfl (by decide : ClientState.CONNECTED < .AUTHENTICATED),
    fun _ hp => absurd hp List.not_mem_nil⟩

theorem Registry.Step.guarded {a b : Registry} (h : a.Step b) (ha : a.Guarded) : b.Guarded := by
  cases h with
  | own i h => exact ⟨forall_set ha.session (h.ok (ha.session i)), ha.routed⟩
  | bind i n _ hb =>
    have hi := ha.session i
    refine ⟨forall_bind ha.session (.of_closed rfl (by decide)) ?_, ha.routed⟩
    exact ⟨fun _ => hi.authenticated (by rw [hb]; decide), hi.encrypted⟩
  | route i b hs =>
    exact ⟨ha.session, forall_route (P := (·.authenticated)) ha.routed ((ha.session i).authenticated hs)⟩
  | session i hs _ =>
    have hi := ha.session i
    exact ⟨forall_set ha.session ⟨fun _ => hi.authenticated hs, hi.encrypted⟩, ha.routed⟩
  | accept i pcb =>
    refine ⟨forall_set ha.session ⟨fun h => ?_, nofun⟩, ha.routed⟩
    exact absurd h (by decide : ¬ ClientState.AUTHENTICATED ≤ .CONNECTED)

/-! Second invariant: names and addresses fit the fields they are copied to. -/

structure Session.Named (c : Session) : Prop where
  username : Holds 32 c.username
  full_jid : Holds 64 c.full_jid

theorem Session.Named.empty : Session.empty.Named := ⟨⟨by decide, by decide⟩, ⟨by decide, by decide⟩⟩

theorem fullJid_holds (username : Str) (n : Nat) : Holds 64 (fullJid username n) :=
  snprintf_holds (by decide) (by decide) _

theorem Session.Move.names {c d : Session} (h : c.Move d) (hc : c.Named) : d.Named := by
  cases h with
  | named u _ hu => exact ⟨hu, hc.full_jid⟩
  | clear => exact .empty
  | _ => exact ⟨hc.username, hc.full_jid⟩

structure Registry.Named (a : Registry) : Prop where
  session : ∀ i, (a.session i).Named
  routed : ∀ p ∈ a.routed, p.1.Named

theorem Registry.Named.empty : Registry.empty.Named := ⟨fun _ => .empty, fun _ hp => absurd hp List.not_mem_nil⟩

theorem Registry.Step.names {a b : Registry} (h : a.Step b) (ha : a.Named) : b.Named := by
  cases h with
  | own i h => exact ⟨forall_set ha.session (h.names (ha.session i)), ha.routed⟩
  | bind i n _ _ => exact ⟨forall_bind ha.session .empty ⟨(ha.session i).username, fullJid_holds _ n⟩, ha.routed⟩
  | route i b _ => exact ⟨ha.session, forall_route ha.routed (ha.session i)⟩
  | session i _ _ => exact ⟨forall_set ha.session ⟨(ha.session i).username, (ha.session i).full_jid⟩, ha.routed⟩
  | accept i pcb => exact ⟨forall_set ha.session ⟨Session.Named.empty.username, Session.Named.empty.full_jid⟩, ha.routed⟩

/-! Third invariant: a connection has the address that binding gave its user, or none. -/

structure Session.Addressed (c : Session) : Prop where
  username : c.authenticated → c.username ≠ []
  past : c.pcb.isSome → c.full_jid ≠ [] → c.authenticated ∧ .AUTHENTICATED ≤ c.state
  full_jid : c.pcb.isSome → c.full_jid = [] ∨ ∃ n < 9999, c.full_jid = fullJid c.username n

/-- Before authentication there is no address. -/
theorem Session.Addressed.early {c : Session} (h : c.Addressed) (hp : c.pcb.isSome)
    (hs : ¬ (c.authenticated ∧ .AUTHENTICATED ≤ c.state)) : c.full_jid = [] := by
  by_contra hj
  exact hs (h.past hp hj)

theorem Session.Addressed.of_closed {c : Session} (hp : c.pcb = none) (hu : c.authenticated → c.username ≠ []) :
    c.Addressed := by
  have hn : ¬ c.pcb.isSome := by simp [hp]
  exact ⟨hu, fun h => absurd h hn, fun h => absurd h hn⟩

theorem Session.Addressed.of_bare {c : Session} (hj : c.pcb.isSome → c.full_jid = [])
    (hu : c.authenticated → c.username ≠ []) : c.Addressed :=
  ⟨hu, fun hp h => absurd (hj hp) h, fun hp => .inl (hj hp)⟩

theorem Session.Move.addressed {c d : Session} (h : c.Move d) (hc : c.Addressed) : d.Addressed := by
  have early : ∀ {k : ClientState}, c.state = k → ¬ .AUTHENTICATED ≤ k → c.pcb.isSome → c.full_jid = [] :=
    fun hk hle hp => hc.early hp fun h => hle (hk ▸ h.2)
  cases h with
  | close => exact .of_closed rfl hc.username
  | lost => exact .of_closed rfl hc.username
  | reset tls => exact .of_closed rfl hc.username
  | starttls hs => exact .of_bare (early hs (by decide)) hc.username
  | secured hs =>
    rcases hs with hs | hs
    · exact .of_bare (early hs (by decide)) hc.username
    · exact .of_bare (early hs (by decide)) hc.username
  | offer ha => exact .of_bare (fun hp => hc.early hp fun h => ha h.1) hc.username
  | restart ha => exact ⟨hc.username, fun _ _ => ⟨ha, (by decide : ClientState.AUTHENTICATED ≤ .BIND)⟩, hc.full_jid⟩
  | named u hs _ hne =>
    rcases hs with hs | hs
    · exact .of_bare (early hs (by decide)) fun _ => hne
    · exact .of_bare (early hs (by decide)) fun _ => hne
  | login _ hu => exact ⟨fun _ => hu, fun _ _ => ⟨rfl, (by decide : ClientState.AUTHENTICATED ≤ .AUTHENTICATED)⟩, hc.full_jid⟩
  | ready hs =>
    exact ⟨hc.username, fun hp hj => ⟨(hc.past hp hj).1, (by decide : ClientState.AUTHENTICATED ≤ .READY)⟩, hc.full_jid⟩
  | clear => exact .of_closed rfl fun h => by cases h

structure Registry.Addressed (a : Registry) : Prop where
  guarded : a.Guarded
  session : ∀ i, (a.session i).Addressed

theorem Registry.Addressed.empty : Registry.empty.Addressed :=
  ⟨.empty, fun _ => .of_closed rfl fun h => by cases h⟩

theorem Registry.Step.addressed {a b : Registry} (h : a.Step b) (ha : a.Addressed) : b.Addressed := by
  refine ⟨h.guarded ha.guarded, ?_⟩
  cases h with
  | own i h => exact forall_set ha.session (h.addressed (ha.session i))
  | bind i n hn hs =>
    have hauth : (a.session i).authenticated := (ha.guarded.session i).authenticated (by rw [hs]; decide)
    exact forall_bind ha.session (.of_closed rfl fun h => by cases h) ⟨(ha.session i).username,
      fun _ _ => ⟨hauth, (by decide : ClientState.AUTHENTICATED ≤ .SESSION)⟩, fun _ => .inr ⟨n, hn, rfl⟩⟩
  | route i b _ => exact ha.session
  | session i hs _ =>
    have hi := ha.session i
    exact forall_set ha.session ⟨hi.username, fun hp hj => ⟨(hi.past hp hj).1,
      (by decide : ClientState.AUTHENTICATED ≤ .READY)⟩, hi.full_jid⟩
  | accept i pcb => exact forall_set ha.session (.of_bare (fun _ => rfl) fun h => by cases h)

/-! Fourth invariant: a user has one session, under the address binding gave it. It needs that no
stanza asked for a session that was not bound yet. -/

structure Session.Bound (c : Session) : Prop where
  username : Holds 32 c.username
  full_jid : .SESSION ≤ c.state → ∃ n < 9999, c.full_jid = fullJid c.username n

/-- Connected and bound. -/
def Session.Live (c : Session) : Prop := c.pcb.isSome ∧ .SESSION ≤ c.state

theorem Session.not_live {c : Session} (h : c.state < .SESSION) : ¬ c.Live := fun hl => by
  have := hl.2
  rw [ClientState.le_def] at this
  rw [ClientState.lt_def] at h
  omega

theorem Session.Bound.of_lt {c : Session} (hu : Holds 32 c.username) (h : c.state < .SESSION) : c.Bound := by
  refine ⟨hu, fun hs => ?_⟩
  rw [ClientState.le_def] at hs
  rw [ClientState.lt_def] at h
  omega

theorem Session.Bound.empty : Session.empty.Bound :=
  .of_lt ⟨Nat.zero_lt_succ _, List.not_mem_nil⟩ (by decide)

/-- On its own a session does not become bound, and it keeps the user and the address it is bound for. -/
theorem Session.Move.late {c d : Session} (h : c.Move d) (hd : .SESSION ≤ d.state) :
    .SESSION ≤ c.state ∧ d.username = c.username ∧ d.full_jid = c.full_jid ∧ (d.pcb.isSome → c.pcb.isSome) := by
  cases h with
  | close => exact ⟨hd, rfl, rfl, nofun⟩
  | lost => exact ⟨hd, rfl, rfl, nofun⟩
  | named u hs =>
    rcases hs with hs | hs
    · exact absurd (hs ▸ hd) (by decide : ¬ ClientState.SESSION ≤ .CONNECTED)
    · exact absurd (hs ▸ hd) (by decide : ¬ ClientState.SESSION ≤ .SASL)
  | ready hs => exact ⟨by rw [hs]; decide, rfl, rfl, id⟩
  | _ => exact absurd hd (of_decide_eq_false rfl)

theorem Session.Move.live {c d : Session} (h : c.Move d) (hd : d.Live) : c.Live ∧ d.username = c.username :=
  have ⟨hs, hu, _, hp⟩ := h.late hd.2
  ⟨⟨hp hd.1, hs⟩, hu⟩

theorem Session.Move.bound {c d : Session} (h : c.Move d) (hc : c.Bound) : d.Bound := by
  refine ⟨?_, fun hd => ?_⟩
  · cases h with
    | named u _ hu => exact hu
    | clear => exact Session.Bound.empty.username
    | _ => exact hc.username
  · obtain ⟨hs, hu, hj, -⟩ := h.late hd
    rw [hu, hj]
    exact hc.full_jid hs

namespace Registry

/-- Every stanza that asked for the session found it bound. -/
def BoundFirst (a : Registry) : Prop := ∀ p ∈ a.routed, p.2 = true → .SESSION ≤ p.1.state

structure Unique (a : Registry) : Prop where
  bound : ∀ i, (a.session i).Bound
  distinct : ∀ i j, i ≠ j → (a.session i).Live → (a.session j).Live →
    (a.session i).username ≠ (a.session j).username

theorem Unique.empty : Registry.empty.Unique := ⟨fun _ => .empty, fun _ _ _ hi => by cases hi.1⟩

/-- A session is replaced by one that is live only if it was, for the same user. -/
theorem Unique.set {a : Registry} (h : a.Unique) {i : Slot} {c : Session} (hb : c.Bound)
    (hl : c.Live → (a.session i).Live ∧ c.username = (a.session i).username) : (a.set i c).Unique := by
  refine ⟨forall_set h.bound hb, fun j k hjk hj hk => ?_⟩
  have keep : ∀ j, ((a.set i c).session j).Live →
      (a.session j).Live ∧ ((a.set i c).session j).username = (a.session j).username := by
    intro j hj
    by_cases he : j = i
    · subst he
      simp only [Registry.set, Function.update_self] at hj ⊢
      exact hl hj
    · simpa [Registry.set, he] using hj
  rw [(keep j hj).2, (keep k hk).2]
  exact h.distinct j k hjk (keep j hj).1 (keep k hk).1

theorem Unique.bind {a : Registry} (h : a.Unique) (i : Slot) {n : Nat} (hn : n < 9999) : (a.bind i n).Unique := by
  have other : ∀ j, j ≠ i → ((a.bind i n).session j).Live →
      (a.session j).Live ∧ (a.bind i n).session j = a.session j ∧
        (a.session j).username ≠ (a.session i).username := by
    intro j hj hl
    simp only [Registry.bind, if_neg hj] at hl ⊢
    split at hl
    · cases hl.1
    · rename_i hc
      rw [if_neg hc]
      exact ⟨hl, rfl, fun he => hc ⟨hj, hl.1, he⟩⟩
  have self : ((a.bind i n).session i).username = (a.session i).username := by simp [Registry.bind]
  refine ⟨forall_bind h.bound .empty ⟨(h.bound i).username, fun _ => ⟨n, hn, rfl⟩⟩, fun j k hjk hj hk => ?_⟩
  by_cases hji : j = i
  · subst hji
    obtain ⟨_, he, hu⟩ := other k (Ne.symm hjk) hk
    rw [self, he]
    exact Ne.symm hu
  · obtain ⟨hlj, hej, huj⟩ := other j hji hj
    by_cases hki : k = i
    · subst hki
      rw [self, hej]
      exact huj
    · obtain ⟨hlk, hek, _⟩ := other k hki hk
      rw [hej, hek]
      exact h.distinct j k hjk hlj hlk

theorem Step.unique {a b : Registry} (h : a.Step b) (ha : a.BoundFirst → a.Unique) (hb : b.BoundFirst) :
    b.Unique := by
  cases h with
  | own i h => exact (ha hb).set (h.bound ((ha hb).bound i)) h.live
  | bind i n hn _ => exact (ha hb).bind i hn
  | route i q _ =>
    have hu := ha fun p hp => hb p (List.mem_append_left _ hp)
    exact ⟨hu.bound, hu.distinct⟩
  | session i _ hr =>
    -- the stanza that asked for it is in the log, so the session was bound
    have hs := hb _ hr rfl
    have hu := ha hb
    exact hu.set ⟨(hu.bound i).username, fun _ => (hu.bound i).full_jid hs⟩ fun hl => ⟨⟨hl.1, hs⟩, rfl⟩
  | accept i pcb =>
    refine (ha hb).set (.of_lt Session.Bound.empty.username (by decide : ClientState.CONNECTED < .SESSION)) ?_
    exact fun hl => absurd hl (Session.not_live (by decide : ClientState.CONNECTED < .SESSION))

end Registry

end Angelic.Spec
