import Angelic.Proofs.Deeds
import Mathlib.Data.Nat.Digits.Defs

namespace Angelic.Proofs
open CString Model StateRel Relation Spec

variable (s : Server)

/-! The server refines the registry of sessions, whose invariants then hold along every run. -/

def abs (s : Server) : Registry where
  session i := Ctx.session (s.client_registry i)
  routed := s.routed.map fun p => (Ctx.session p.1, p.2.xmlns == NS_SESSION)

theorem abs_setCtx (i : Slot) (c : Ctx) : abs (s.setCtx i c) = (abs s).set i (Ctx.session c) := by
  simp only [abs, Server.setCtx, Registry.set, Registry.mk.injEq, and_true]
  funext j
  by_cases hj : j = i
  · subst hj
    simp
  · simp [hj]

theorem abs_set_self (i : Slot) : (abs s).set i (Ctx.session (s.client_registry i)) = abs s := by
  rw [← abs_setCtx]
  simp [Server.setCtx]

theorem abs_route (me : Slot) (st : Stanza) : abs { s with routed := s.routed ++ [(s.client_registry me, st)] } =
      { abs s with routed := (abs s).routed ++ [((abs s).session me, st.xmlns == NS_SESSION)] } := by
  simp [abs]

theorem abs_bound (me : Slot) (n : Nat) : abs { s with client_registry := bound s me n } = (abs s).bind me n := by
  simp only [abs, Registry.bind, Registry.mk.injEq, and_true]
  funext j
  simp only [bound]
  split
  · exact congrArg (fun d : Session => { d with state := ClientState.SESSION }) (session_sent _)
  · split <;> rename_i hc
    · exact (if_pos hc).symm
    · exact (if_neg hc).symm

theorem effect_refines {me : Slot} {s s' : Server} (h : Effect me s s') :
    ReflTransGen Registry.Step (abs s) (abs s') := by
  have hq := quiet_effect h
  have he : abs s' = (abs s).set me (Ctx.session (s'.client_registry me)) := by
    simp only [abs, Registry.set, Registry.mk.injEq, hq.routed, and_true]
    funext j
    by_cases hj : j = me
    · subst hj
      simp
    · simpa [hj] using session_of_core (hq.others j hj).core
  rcases session_of_calm hq.own with hs | ⟨hst, hs⟩
  · rw [he, hs, abs_set_self]
  · rw [he, hs]
    exact .single (.own me (.ready hst))

theorem act_refines {me : Slot} {s s' : Server} (h : Act me s s') : ReflTransGen Registry.Step (abs s) (abs s') := by
  cases h with
  | effect h => exact effect_refines h
  | own h =>
    cases h with
    | emit => exact .refl
    | draw => exact .refl
    | pool => exact .refl
    | keep h => rw [abs_setCtx, h, abs_set_self]
    | move h =>
      rw [abs_setCtx]
      exact .single (.own me h)
  | route st h =>
    rw [abs_route]
    exact .single (.route me _ h)
  | session h hr =>
    rw [abs_setCtx]
    refine .single (.session me h ?_)
    obtain ⟨p, hp, hc, hn⟩ := hr
    exact List.mem_map.mpr ⟨p, hp, by rw [hc, hn]; simp [abs]⟩
  | bind st n o _ hn h =>
    have hle : .AUTHENTICATED ≤ (s.client_registry me).state := by
      rw [h]
      decide
    let s₁ : Server := { s with routed := s.routed ++ [(s.client_registry me, st)] }
    have hroute : Registry.Step (abs s) (abs s₁) := abs_route s me st ▸ .route me _ hle
    have hbind : Registry.Step (abs s₁) (abs { s₁ with client_registry := bound s₁ me n }) :=
      abs_bound s₁ me n ▸ .bind me n hn h
    exact (ReflTransGen.single hroute).tail hbind

theorem accept_refines (pcb : Pcb) : ReflTransGen Registry.Step (abs s) (abs (step s (.accept pcb))) := by
  obtain ⟨o, he⟩ := accept_run pcb s
  rw [he]
  exact .single (abs_setCtx s s.client_idx { Ctx.zero with pcb := some pcb } ▸ .accept s.client_idx pcb)

theorem actions_refines {s s' : Server} (h : ReflTransGen Action s s') :
    ReflTransGen Registry.Step (abs s) (abs s') :=
  actions_keep (P := fun t => ReflTransGen Registry.Step (abs s) (abs t))
    (fun ha h => h.trans (act_refines ha)) (fun t pcb h => h.trans (accept_refines t pcb)) h .refl

theorem run_refines (m : Machine) (es : List Event) : ReflTransGen Registry.Step (abs m.boot) (abs (m.run es)) :=
  actions_refines (run_actions m es)

/-- What holds of an empty registry and is kept by its steps holds all along a course. -/
theorem course_keeps {P : Registry → Prop} (h0 : P .empty) (hp : ∀ a b, Registry.Step a b → P a → P b) {m : Machine}
    {ds : List Deed} (h : Course m.boot ds) (n : Nat) : P (abs (stateAt m.boot ds n)) :=
  Registry.reach_keeps hp (actions_refines (course_actions h n)) h0

/-- What holds of an empty registry and is kept by its steps holds in every run. -/
theorem run_keeps {P : Registry → Prop} (h0 : P .empty)
    (hp : ∀ a b, Registry.Step a b → P a → P b) (m : Machine) (es : List Event) : P (abs (m.run es)) :=
  Registry.reach_keeps hp (run_refines m es) h0

/-- After any events a connected context past authentication is authenticated and encrypted, and
no other context was ever routed for. Any bytes may have been received and decrypted, and mbedTLS
may have answered in any way. -/
theorem run_authenticated (m : Machine) (es : List Event) :
    (∀ i, ((m.run es).client_registry i).pcb.isSome →
        .AUTHENTICATED ≤ ((m.run es).client_registry i).state →
        ((m.run es).client_registry i).authenticated ∧
          ((m.run es).client_registry i).tls_established) ∧
      ∀ p ∈ (m.run es).routed, p.1.authenticated := by
  have h : (abs (m.run es)).Guarded :=
    run_keeps .empty (fun _ _ hs => hs.guarded) m es
  refine ⟨fun i hp hs => ?_, fun p hp => h.routed _ (List.mem_map_of_mem hp)⟩
  have ha := (h.session i).authenticated hs
  exact ⟨ha, (h.session i).encrypted hp ha⟩

/-- A pbuf that mbedTLS hands through, in a handshake that it completes at once. -/
def passed (w : List Byte) : Pbuf := ⟨w, ⟨[], .ok⟩, [⟨[], .data w⟩]⟩

/-- Power on with an empty disk. -/
def blank : Machine := ⟨fun _ => [], fun _ => true, fun _ => 0, true⟩

/-- Connection, TLS and an auth stanza. -/
def login (pcb : Pcb) (auth : Str) : List Event :=
  [.accept pcb, .recv pcb [passed (lit "<starttls xmlns='urn:ietf:params:xml:ns:xmpp-tls'/>")] true,
    .recv pcb [passed []] true, .recv pcb [passed auth] true]

def authAdmin : Str := lit "<auth mechanism='PLAIN'>AGFkbWluAGFkbWlu</auth>"

def ping : Str :=
  cat ["<iq type='get' id='p1'>", "<ping xmlns='urn:ietf:params:xml:ns:xmpp-ping'/>", "</iq>"]

def pinged : List Event := login 7 authAdmin ++ [.recv 7 [passed ping] true]

/-- The administrator logs in and sends a ping, which is routed. -/
theorem pinged_authenticated :
    ((blank.run pinged).client_registry 0).pcb.isSome ∧
      ((blank.run pinged).client_registry 0).tls_established ∧ (blank.run pinged).routed.length = 1 ∧
      ∀ p ∈ (blank.run pinged).routed, p.1.authenticated := by
  obtain ⟨h, hr⟩ := run_authenticated blank pinged
  have hp : ((blank.run pinged).client_registry 0).pcb.isSome := by decide +kernel
  have hs : .AUTHENTICATED ≤ ((blank.run pinged).client_registry 0).state := by decide +kernel
  have hl : (blank.run pinged).routed.length = 1 := by decide +kernel
  exact ⟨hp, (h 0 hp hs).2, hl, hr⟩

/-! One session for each user. -/

/-- The address is not cut: a name has 31 bytes at most and a number 4. -/
theorem fullJid_eq {username : Str} (h : Holds 32 username) {n : Nat} (hn : n < 9999) :
    fullJid username n = username ++ lit "@angelic.local/unikernel-" ++ decimal n := by
  have hp : pieces fmtFullJid = [[], lit "@", lit "/unikernel-", []] := by decide +kernel
  have hd : lit "@angelic.local/unikernel-" = lit "@" ++ (cstr XMPP_DOMAIN ++ lit "/unikernel-") := by
    decide +kernel
  have hw : weave (pieces fmtFullJid) [.s username, .s XMPP_DOMAIN, .d n] =
      username ++ lit "@angelic.local/unikernel-" ++ decimal n := by
    rw [hp, hd]
    simp [weave, Arg.text, cstr_of_clean h.2]
  have hlen : (decimal n).length ≤ 4 := by
    rw [decimal, List.length_map]
    exact Nat.toDigits_length 10 n 4 (by decide) (by omega)
  have hmid : (lit "@angelic.local/unikernel-").length = 25 := by decide +kernel
  have hl := h.1
  rw [fullJid, snprintf, vsnprintf_eq, hw]
  refine List.take_of_length_le ?_
  simp only [List.length_append, hmid]
  omega

/-- The contexts the property is about: connected and past binding, so it seems. -/
def Ctx.inSession (c : Ctx) : Prop := c.pcb.isSome ∧ .SESSION ≤ c.state

instance (c : Ctx) : Decidable (Ctx.inSession c) := inferInstanceAs (Decidable (_ ∧ _))

/-- In a run in which no stanza asked for a session before it was bound, every context in session
has the address that binding gives its user, and a user has one such context. -/
theorem run_bound (m : Machine) (es : List Event)
    (h : ∀ p ∈ (m.run es).routed, p.2.xmlns = NS_SESSION → .SESSION ≤ p.1.state) :
    (∀ i, Ctx.inSession ((m.run es).client_registry i) →
        ∃ n, ((m.run es).client_registry i).full_jid =
          ((m.run es).client_registry i).username ++ lit "@angelic.local/unikernel-" ++ decimal n) ∧
      ∀ i j, i ≠ j → Ctx.inSession ((m.run es).client_registry i) →
        Ctx.inSession ((m.run es).client_registry j) →
        ((m.run es).client_registry i).username ≠ ((m.run es).client_registry j).username := by
  have hfirst : (abs (m.run es)).BoundFirst := by
    intro q hq hs
    obtain ⟨p, hp, rfl⟩ := List.mem_map.mp hq
    exact h p hp (by simpa using hs)
  have hu : (abs (m.run es)).Unique :=
    run_keeps (P := fun a => a.BoundFirst → a.Unique) (fun _ => .empty)
      (fun _ _ hs ha hb => hs.unique ha hb) m es hfirst
  refine ⟨fun i hi => ?_, fun i j hij hi hj => hu.distinct i j hij hi hj⟩
  obtain ⟨n, hn, he⟩ := (hu.bound i).full_jid hi.2
  exact ⟨n, he.trans (fullJid_eq (hu.bound i).username hn)⟩

def streamOpen : Str :=
  cat ["<stream:stream to='angelic.local' version='1.0' xmlns='jabber:client' ",
    "xmlns:stream='http://etherx.jabber.org/streams'>"]

def bindIq : Str :=
  cat ["<iq type='set' id='b1'>", "<bind xmlns='urn:ietf:params:xml:ns:xmpp-bind'/>", "</iq>"]

def sessionIq : Str :=
  cat ["<iq type='set' id='s1'>", "<session xmlns='urn:ietf:params:xml:ns:xmpp-session'/>", "</iq>"]

/-- Texts sent one after the other by a client that has logged in as the administrator. -/
def talk (pcb : Pcb) (texts : List Str) : List Event :=
  login pcb authAdmin ++ texts.map fun w => .recv pcb [passed w] true

def authUser1 : Str := lit "<auth mechanism='PLAIN'>AHVzZXIxAHBhc3Mx</auth>"

/-- A client logs in, binds and sends texts one after the other. -/
def visit (pcb : Pcb) (auth : Str) (texts : List Str) : List Event :=
  login pcb auth ++ (streamOpen :: bindIq :: texts).map fun w => .recv pcb [passed w] true

/-- The administrator binds and asks for the session, twice over. -/
def boundTwice : List Event :=
  talk 7 [streamOpen, bindIq, sessionIq] ++ talk 8 [streamOpen, bindIq, sessionIq]

theorem run_bound_boundTwice :
    ((blank.run boundTwice).client_registry 0).pcb = none ∧
      Ctx.inSession ((blank.run boundTwice).client_registry 1) ∧
      ∃ n, ((blank.run boundTwice).client_registry 1).full_jid =
        ((blank.run boundTwice).client_registry 1).username ++ lit "@angelic.local/unikernel-" ++
          decimal n := by
  have hs : Ctx.inSession ((blank.run boundTwice).client_registry 1) := by decide +kernel
  have hr : ∀ p ∈ (blank.run boundTwice).routed, p.2.xmlns = NS_SESSION → .SESSION ≤ p.1.state := by
    decide +kernel
  exact ⟨by decide +kernel, hs, (run_bound blank boundTwice hr).1 1 hs⟩

/-- Without binding the request for a session is enough to be in session, with no address, and
twice under one name. -/
theorem session_without_bind :
    let s := blank.run (talk 7 [sessionIq] ++ talk 8 [sessionIq])
    (Ctx.inSession (s.client_registry 0) ∧ Ctx.inSession (s.client_registry 1)) ∧
      (s.client_registry 0).full_jid = [] ∧
      (s.client_registry 0).username = lit "admin" ∧ (s.client_registry 1).username = lit "admin" := by
  decide +kernel

end Angelic.Proofs
