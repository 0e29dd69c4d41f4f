import Angelic.Proofs.StreamActions

namespace Angelic.Proofs
open CString Model StateRel Relation Spec

variable {s : Server} {me : Slot}

/-! A run as a list of deeds, the calls its callbacks make. What a property has to say about a run
it says about the states between them. -/

inductive Deed where
  | accept (newpcb : Pcb)
  | fin (me : Slot) (pcb : Pcb)
  | err (me : Slot)
  | handshake (me : Slot) (data : List Byte) (hs : SslHandshake)
  | decrypt (me : Slot) (data : List Byte) (reads : List SslRead)
  | copy (me : Slot) (data : List Byte)
  | refuse (me : Slot) (pcb : Pcb) (text : Str)
  | trim (me : Slot)
  | starttls (me : Slot) (setup : Bool)
  | closeStream (me : Slot)
  | header (me : Slot)
  | abort (me : Slot)
  | element (me : Slot) (e : SmElement)
  | auth (me : Slot) (st : Stanza)
  | stanza (me : Slot) (st : Stanza)
  | pool (k : Fin MAX_POOL_STANZAS) (used : Bool)
  | consume (me : Slot) (n : Nat)
  | ack (me : Slot)

def Deed.perform : Deed → M Unit
  | .accept newpcb => xmpp_accept_callback newpcb
  | .fin me pcb => recvClose me pcb
  | .err me => xmpp_err_callback me
  | .handshake me data hs => xmpp_tls_handshake_step me data hs
  | .decrypt me data reads => xmpp_tls_decrypt me data reads
  | .copy me data => modCtx me fun c => { c with rx := c.rx ++ data }
  | .refuse me pcb text => do
    emit (.tcp_write (some pcb) text)
    emit (.tcp_close (some pcb))
    modCtx me fun c => { c with pcb := none, state := .CONNECTED }
  | .trim me => modCtx me fun c => { c with rx := c.rx.dropWhile isWs }
  | .starttls me setup => Model.starttls me setup
  | .closeStream me => Model.closeStream me
  | .header me => streamHeader me
  | .abort me => send_raw me SASL_ABORTED
  | .element me e => smAnswer me e
  | .auth me st => handle_sasl me st
  | .stanza me st => do
    xmpp_route_stanza me st
    xmpp_sm_on_stanza_received me
  | .pool k used => setPool k used
  | .consume me n => Model.consume me n
  | .ack me => do
    modCtx me fun c => { c with sm_want_ack := false }
    xmpp_sm_request_ack me

/-- The buffer of a context begins with a stanza. -/
def Parses (me : Slot) (st : Stanza) (s : Server) : Prop :=
  ∃ n, parse_xml_stream s.sse42 true (s.client_registry me).rx = .stanza st n

/-- What is known of the server when a deed is done. -/
def Deed.Due (s : Server) : Deed → Prop
  | .accept _ | .copy .. | .trim _ | .closeStream _ | .pool .. | .consume .. | .err _ => True
  | .fin me pcb | .refuse me pcb _ => s.tcp_arg pcb = some me
  | .handshake me _ _ => Shaking (Ctx.session (s.client_registry me))
  | .starttls me _ => (s.client_registry me).state = .CONNECTED ∧ ¬ (s.client_registry me).tls_established
  | .header me | .decrypt me _ _ => (s.client_registry me).state ≠ .STARTTLS
  | .abort me => (s.client_registry me).state = .CONNECTED ∨ (s.client_registry me).state = .SASL
  | .auth me st =>
    ((s.client_registry me).state = .CONNECTED ∨ (s.client_registry me).state = .SASL) ∧ Parses me st s ∧
      st.xmlns = NS_SASL
  | .element me e => .SESSION ≤ (s.client_registry me).state ∧ smElement (s.client_registry me).rx = some e
  | .stanza me st => .AUTHENTICATED ≤ (s.client_registry me).state ∧ Parses me st s
  | .ack me => (s.client_registry me).pcb.isSome ∧ (s.client_registry me).sm_want_ack

def after (s : Server) (d : Deed) : Server := (d.perform s).2

def Done (s s' : Server) : Prop := ∃ d : Deed, d.Due s ∧ s' = after s d

/-- The server after the first `n` deeds. -/
def stateAt (s : Server) (ds : List Deed) (n : Nat) : Server := (ds.take n).foldl after s

/-- Each deed is due when it is done. -/
def Course (s : Server) (ds : List Deed) : Prop := ∀ (n : Nat) (d : Deed), ds[n]? = some d → d.Due (stateAt s ds n)

/-- A course of a run. -/
def Machine.Courses (m : Machine) (es : List Event) (ds : List Deed) : Prop :=
  Course m.boot ds ∧ ds.foldl after m.boot = m.run es

section Course
variable {s : Server} {ds : List Deed} {n : Nat} {d : Deed}

theorem stateAt_succ (h : ds[n]? = some d) : stateAt s ds (n + 1) = after (stateAt s ds n) d := by
  rw [stateAt, List.take_add_one, h, List.foldl_append]
  rfl

theorem stateAt_end (h : ds[n]? = none) : stateAt s ds (n + 1) = stateAt s ds n := by
  rw [stateAt, List.take_add_one, h]
  simp [stateAt]

theorem stateAt_append (h : n ≤ ds.length) (ds' : List Deed) : stateAt s (ds ++ ds') n = stateAt s ds n := by
  rw [stateAt, stateAt, List.take_append_of_le_length h]

theorem Course.snoc (h : Course s ds) (hd : d.Due (ds.foldl after s)) : Course s (ds ++ [d]) := by
  intro n d' hn
  rcases Nat.lt_or_ge n ds.length with hlt | hge
  · rw [List.getElem?_append_left hlt] at hn
    rw [stateAt_append (Nat.le_of_lt hlt)]
    exact h n d' hn
  · have hl : n = ds.length := by
      have := (List.getElem?_eq_some_iff.mp hn).1
      simp only [List.length_append, List.length_singleton] at this
      omega
    subst hl
    rw [stateAt_append (Nat.le_refl _), stateAt, List.take_length]
    rw [List.getElem?_concat_length] at hn
    exact Option.some.inj hn ▸ hd

/-- What holds at first and no deed breaks, exactly when each meets a condition, holds all along. -/
theorem all_states_iff {P Q : Nat → Prop} (h0 : P 0) (hstep : ∀ n, P n → (P (n + 1) ↔ Q n)) :
    (∀ n, P n) ↔ ∀ n, Q n := by
  refine ⟨fun h n => (hstep n (h n)).mp (h (n + 1)), fun h n => ?_⟩
  induction n with
  | zero => exact h0
  | succ n ih => exact (hstep n ih).mpr (h n)

/-- An invariant that each deed keeps or else breaks what it is for, by a condition on the deed. -/
theorem course_safe_iff {Inv Safe : Server → Prop} {Q : Server → Deed → Prop} (h0 : Inv s) (hi : ∀ s, Inv s → Safe s)
    (step : ∀ (n : Nat) (d : Deed), ds[n]? = some d → Inv (stateAt s ds n) →
      (Inv (stateAt s ds (n + 1)) ∧ Q (stateAt s ds n) d) ∨ ¬ Safe (stateAt s ds (n + 1)) ∧ ¬ Q (stateAt s ds n) d) :
    (∀ n, Safe (stateAt s ds n)) ↔ ∀ (n : Nat) (d : Deed), ds[n]? = some d → Q (stateAt s ds n) d := by
  constructor
  · intro hs
    have inv : ∀ n, Inv (stateAt s ds n) := by
      intro n
      induction n with
      | zero => exact h0
      | succ n ih =>
        cases hd : ds[n]? with
        | none => rwa [stateAt_end hd]
        | some d => exact ((step n d hd ih).resolve_right fun hbad => hbad.1 (hs (n + 1))).1
    exact fun n d hd => ((step n d hd (inv n)).resolve_right fun hbad => hbad.1 (hs (n + 1))).2
  · intro hq n
    refine hi _ ?_
    induction n with
    | zero => exact h0
    | succ n ih =>
      cases hd : ds[n]? with
      | none => rwa [stateAt_end hd]
      | some d => exact ((step n d hd ih).resolve_right fun hbad => hbad.2 (hq n d hd)).1

end Course

theorem course_of_done {s' : Server} (h : ReflTransGen Done s s') : ∃ ds, Course s ds ∧ ds.foldl after s = s' := by
  induction h with
  | refl => exact ⟨[], fun n d h => by simp at h, rfl⟩
  | tail _ hd ih =>
    obtain ⟨ds, hc, he⟩ := ih
    obtain ⟨d, hdue, rfl⟩ := hd
    subst he
    exact ⟨ds ++ [d], hc.snoc hdue, by simp⟩

/-! The callbacks are made of deeds. -/

/-- A deed that is made of steps of one kind. -/
def Works (T : Server → Server → Prop) (s s' : Server) : Prop := Done s s' ∧ ReflTransGen T s s'

/-- A callback of the pcb at work on the context it was given, of whose session `P` holds. -/
def Called (me : Slot) (pcb : Pcb) (P : Session → Prop) (s : Server) : Prop := Own me P s ∧ s.tcp_arg pcb = some me

abbrev Deeds (T : Server → Server → Prop) (me : Slot) (pcb : Pcb) (P : Session → Prop) (m : M α)
    (Q : α → Session → Prop) : Prop :=
  Trace (Works T) (Called me pcb P) m fun a => Called me pcb (Q a)

/-- Another round can start where one is due. -/
def After (P D : Session → Prop) : Loop → Session → Prop
  | .again => P
  | .done => D

section Looks
variable {T : Server → Server → Prop} {me : Slot} {pcb : Pcb} {P P' : Session → Prop}

theorem deeds_weaken {m : M α} {Q : α → Session → Prop} (h : Deeds T me pcb P m Q) (hp : ∀ c, P' c → P c) :
    Deeds T me pcb P' m Q := h.conseq (fun _ hs => ⟨hp _ hs.1, hs.2⟩) fun _ _ hs => hs

theorem deeds_ctxOf : Deeds T me pcb P (ctxOf me) fun c d => P d ∧ d = Ctx.session c :=
  .read (fun _ => rfl) fun _ hs => ⟨⟨hs.1, rfl⟩, hs.2⟩

/-- The context as it is, with all else that is known. -/
theorem deeds_at {R : Server → Prop} : Trace (Works T) R (ctxOf me) fun c s => R s ∧ s.client_registry me = c :=
  .read (fun _ => rfl) fun _ hs => ⟨hs, rfl⟩

theorem deeds_look : Deeds T me pcb P (ctxOf me) fun _ => P := .read (fun _ => rfl) fun _ hs => hs

theorem deeds_whilePcb {body : Pbuf → M Unit} (h : ∀ q, Deeds T me pcb P (body q) fun _ => P) (chain : List Pbuf) :
    Deeds T me pcb P (whilePcb me body chain) fun _ => P := by
  induction chain with
  | nil => exact .pure fun _ h => h
  | cons q rest ih =>
    exact .bind deeds_look fun c => .ite (fun _ => .bind (h q) fun _ => ih) fun _ => .pure fun _ h => h

end Looks

theorem tr_ack (i : Slot) : Tr i P (Deed.ack i).perform fun _ => P :=
  .bind (tr_keep fun _ => rfl) fun _ => .bind tr_look fun _ => .ite (fun _ => tr_send _) fun _ => .pure fun _ h => h

theorem tr_refuse {pcb : Pcb} {P D : Session → Prop} (text : Str)
    (h : ∀ d : Session, P d → D { d with pcb := none, state := .CONNECTED }) :
    Tr me P (Deed.refuse me pcb text).perform fun _ => D :=
  .bind (tr_emit _) fun _ => .bind (tr_emit _) fun _ =>
    tr_step (fun _ => rfl) fun c hc => ⟨.reset c.tls_established, h _ hc⟩

theorem Parses.ok {st : Stanza} (h : Parses me st s) : StanzaOk st :=
  have ⟨_, hp⟩ := h
  parse_xml_stream_ok hp

/-- What the receive loop keeps of a session, `P` while it goes on and `D` when it is over, and what its deeds are
made of. -/
structure Keeps (me : Slot) (T : Server → Server → Prop) (P D : Session → Prop) : Prop where
  own : ∀ {s s'}, Local me s s' → T s s'
  tcp_arg : ∀ {s s'}, T s s' → s'.tcp_arg = s.tcp_arg
  inLoop : ∀ d, P d → InLoop d
  ended : ∀ d, P d → D d
  refused : ∀ d : Session, P d → D { d with pcb := none, state := .CONNECTED }
  header : Tr me P (streamHeader me) fun _ => P
  starttls : ∀ setup, Tr me (fun d => P d ∧ d.state = .CONNECTED ∧ ¬ d.tls_established) (Model.starttls me setup)
    fun _ => D
  closeStream : Tr me P (Model.closeStream me) fun _ => D
  auth : ∀ st, Tr me (fun d => P d ∧ (d.state = .CONNECTED ∨ d.state = .SASL)) (handle_sasl me st) fun _ => P
  stanza : ∀ {st}, StanzaOk st → Trace T (Own me fun d => P d ∧ .AUTHENTICATED ≤ d.state)
    (Deed.stanza me st).perform fun _ => Own me P

namespace Keeps
variable {T : Server → Server → Prop} {me : Slot} {pcb : Pcb} {P P' D : Session → Prop} (K : Keeps me T P D)
include K

/-- One deed, where more is known than of the session. -/
theorem given (d : Deed) {R : Server → Prop} {Q : Unit → Session → Prop}
    (h : Trace T (Own me P') d.perform fun a => Own me (Q a)) (due : ∀ s, R s → Called me pcb P' s ∧ d.Due s) :
    Trace (Works T) R d.perform fun a => Called me pcb (Q a) := by
  intro s hr
  obtain ⟨⟨hp, harg⟩, hd⟩ := due s hr
  obtain ⟨hrun, hq⟩ := h s hp
  have hargs : ∀ {s'}, ReflTransGen T s s' → s'.tcp_arg = s.tcp_arg := fun h => by
    induction h with
    | refl => rfl
    | tail _ ht ih => exact (K.tcp_arg ht).trans ih
  exact ⟨.single ⟨⟨d, hd, rfl⟩, hrun⟩, hq, (congrFun (hargs hrun) pcb).trans harg⟩

theorem one (d : Deed) {Q : Unit → Session → Prop} (h : Tr me P' d.perform Q)
    (due : ∀ s, Called me pcb P' s → d.Due s) : Deeds T me pcb P' d.perform Q :=
  K.given d (h.mono fun _ _ hs => .single (K.own hs)) fun s hs => ⟨hs, due s hs⟩

theorem consume (n : Nat) : Deeds T me pcb P' (Model.consume me n) fun _ => P' :=
  K.one (.consume me n) (tr_keep fun _ => rfl) fun _ _ => trivial

theorem refuse (text : Str) : Deeds T me pcb P (Deed.refuse me pcb text).perform fun _ => D :=
  K.one (.refuse me pcb text) (tr_refuse text K.refused) fun _ hs => hs.2

theorem stanzaHandler (st : Stanza) :
    Trace (Works T) (fun s => Called me pcb P s ∧ Parses me st s) (Model.stanzaHandler me st)
      fun _ => Called me pcb P := by
  refine .bind deeds_at fun c => .ite (fun hc => .ite (fun hx => ?_) fun _ => ?_) fun hc => ?_
  · refine K.given (.auth me st) ((K.auth st).mono fun _ _ hs => .single (K.own hs)) ?_
    rintro s ⟨⟨hs, hp⟩, rfl⟩
    exact ⟨⟨⟨hs.1, hc⟩, hs.2⟩, hc, hp, hx⟩
  · exact .pure fun _ h => h.1.1
  · by_cases h : StanzaOk st
    · refine K.given (.stanza me st) (K.stanza h) ?_
      rintro s ⟨⟨hs, hp⟩, rfl⟩
      have past := authenticated_of_inLoop (K.inLoop _ hs.1) hc
      exact ⟨⟨⟨hs.1, past⟩, hs.2⟩, past, hp⟩
    · exact fun s hs => absurd hs.1.2.ok h

theorem stanzaStep : Deeds T me pcb P (Model.stanzaStep me pcb) (After P D) := by
  refine .bind (Q := fun a s => Called me pcb P s ∧ s = a) (.read (fun _ => rfl) fun _ hs => ⟨hs, rfl⟩) fun s => ?_
  dsimp only
  split
  · rename_i st n k hp hk
    have taken : Trace (Works T) (fun t => Called me pcb P t ∧ t = s) (setPool k true)
        fun _ t => Called me pcb P t ∧ Parses me st t := by
      rintro _ ⟨hs, rfl⟩
      rw [hk] at hp
      exact ⟨.single ⟨⟨.pool k true, trivial, rfl⟩, .single (K.own (.pool _ _))⟩, hs, n, hp⟩
    exact .bind taken fun _ => .bind (K.stanzaHandler st) fun _ =>
      .bind (K.one (.pool k false) (tr_setPool k false) fun _ _ => trivial) fun _ => .bind (K.consume n) fun _ =>
      .pure fun _ h => h
  · have refuse : Deeds T me pcb P (Deed.refuse me pcb RESOURCE_CONSTRAINT).perform fun _ => D := K.refuse _
    exact (refuse.bind (k := fun _ => pure Loop.done) fun _ => .pure fun _ h => h).conseq (fun _ h => h.1) fun _ _ h => h
  · exact .pure fun _ h => ⟨K.ended _ h.1.1, h.1.2⟩

/-- The elements of stream management, for a session. -/
theorem sm_handle_element : Deeds T me pcb P' (xmpp_sm_handle_element me) fun _ => P' := by
  refine .bind deeds_at fun c => .ite (fun _ => .pure fun _ h => h.1) fun hs => ?_
  split
  · rename_i e n he _
    have answer : Trace (Works T) (fun s => Called me pcb P' s ∧ s.client_registry me = c) (Deed.element me e).perform
        fun _ => Called me pcb P' := by
      refine K.given (.element me e) ((tr_smAnswer me e).mono fun _ _ hs => .single (K.own hs)) ?_
      rintro s ⟨h, rfl⟩
      exact ⟨⟨⟨h.1, Nat.le_of_not_lt hs⟩, h.2⟩, Nat.le_of_not_lt hs, he⟩
    exact .bind answer fun _ => .bind (K.consume n) fun _ => .pure fun _ h => h
  · exact .pure fun _ h => h.1

theorem abortStep (hc : ∀ d, P' d → d.state = .CONNECTED ∨ d.state = .SASL) (hP : ∀ d, P' d → P d) :
    Deeds T me pcb P' (Model.abortStep me) (After P D) := by
  refine .bind deeds_look fun c => ?_
  split
  · exact .bind (K.one (.abort me) (tr_send _) fun s hs => hc _ hs.1) fun _ =>
      .bind (K.consume _) fun _ => .pure fun _ h => ⟨hP _ h.1, h.2⟩
  · exact .pure fun _ h => ⟨K.ended _ (hP _ h.1), h.2⟩

theorem recvStep (setup : Bool) : Deeds T me pcb P (Model.recvStep me pcb setup) (After P D) := by
  have stop : ∀ {P' : Session → Prop}, (∀ d, P' d → D d) → Deeds T me pcb P' (pure Loop.done : M Loop) (After P D) :=
    fun hd => .pure fun _ h => ⟨hd _ h.1, h.2⟩
  have ended : ∀ {c : Ctx} (d : Session), P d ∧ d = Ctx.session c → D d := fun d hd => K.ended d hd.1
  have forget : ∀ {c : Ctx} {α : Type} {m : M α} {Q : α → Session → Prop}, Deeds T me pcb P m Q →
      Deeds T me pcb (fun d => P d ∧ d = Ctx.session c) m Q := fun h => deeds_weaken h fun _ hd => hd.1
  refine .bind deeds_ctxOf fun c => .ite (fun _ => stop ended) fun _ => .ite (fun hs => ?_) fun _ =>
    .ite (fun _ => .bind (forget (K.one (.closeStream me) K.closeStream fun _ _ => trivial)) fun _ => stop fun _ => id)
    fun _ => .ite (fun _ => ?_) fun _ => .ite (fun hs => ?_) fun _ =>
    .bind (forget K.sm_handle_element) fun _ => .ite (fun _ => .pure fun _ h => h) fun _ => K.stanzaStep
  · refine .ite (fun _ => .bind (deeds_weaken (K.one (.starttls me setup) (K.starttls setup) fun s h => h.1.2) ?_)
      fun _ => stop fun _ => id) fun _ => stop ended
    rintro d ⟨hd, rfl⟩
    exact ⟨hd, hs.1, hs.2.1⟩
  · exact .ite (fun _ => .bind (forget (K.one (.header me) K.header fun s h => K.inLoop _ h.1))
      fun _ => stop K.ended) fun _ => stop ended
  · refine K.abortStep (fun d hd => ?_) fun d hd => hd.1
    rw [hd.2]
    have hc : c.state = .CONNECTED ∨ c.state = .SASL := by simpa [connectedOr] using hs.1
    exact hc

theorem recvLoop (setup : Bool) (fuel : Nat) : Deeds T me pcb P (Model.recvLoop me pcb setup fuel) fun _ => D := by
  induction fuel with
  | zero => exact .pure fun _ h => ⟨K.ended _ h.1, h.2⟩
  | succ fuel ih =>
    have trim : Tr me P (modCtx me fun c => { c with rx := c.rx.dropWhile isWs }) fun _ => P := tr_keep fun _ => rfl
    refine .bind (K.one (.trim me) trim fun _ _ => trivial) fun _ => .bind (K.recvStep setup) fun l => ?_
    cases l with
    | again => exact ih
    | done => exact .pure fun _ h => h

theorem runLoop (setup : Bool) : Deeds T me pcb P (Model.runLoop me pcb setup) fun _ => D :=
  .bind deeds_look fun _ => K.recvLoop setup _

theorem plaintextCopy (chain : List Pbuf) : Deeds T me pcb P (Model.plaintextCopy me chain) fun _ => P := by
  induction chain with
  | nil => exact .pure fun _ h => h
  | cons q rest ih =>
    have copy : Tr me P (modCtx me fun c => { c with rx := c.rx ++ q.payload }) fun _ => P := tr_keep fun _ => rfl
    exact .bind deeds_look fun c => .ite (fun _ => .bind (K.one (.copy me q.payload) copy fun _ _ => trivial)
      fun _ => ih) fun _ => .pure fun _ h => h

end Keeps

theorem act_tcp_arg {s' : Server} (h : Act me s s') : s'.tcp_arg = s.tcp_arg := by
  cases h with
  | effect h => exact (quiet_effect h).tcp_arg
  | own h => cases h <;> rfl
  | route | session | bind => rfl

section Callbacks
variable {me : Slot} {pcb : Pcb}

theorem turns_stanza {st : Stanza} (h : StanzaOk st) :
    Turns me (.AUTHENTICATED ≤ ·.state) (Deed.stanza me st).perform fun _ => InLoop :=
  .bind (turns_xmpp_route_stanza me h) fun _ => (tr_keep kept_received).turns

/-- What holds of every session in the loop. -/
theorem keeps_inLoop (me : Slot) : Keeps me (Turn me) InLoop fun _ => True where
  own := .own
  tcp_arg {s s'} h := by
    have hc := h.acts
    clear h
    induction hc with
    | refl => rfl
    | tail _ ha ih => exact (act_tcp_arg ha).trans ih
  inLoop _ := id
  ended _ _ := trivial
  refused _ _ := trivial
  header := tr_streamHeader me (fun _ h => h) (tr_handle_handshake_logic me)
  starttls setup := (tr_weaken (tr_starttls me setup) fun _ h => h.2).conseq (fun _ h => h) fun _ _ _ => trivial
  closeStream := tr_closeStream me fun _ _ _ _ => trivial
  auth st := tr_weaken (tr_handle_sasl me st) fun _ h => h.2
  stanza h := turns_weaken (turns_stanza h) fun _ h => h.2

theorem deeds_recv_callback (chain : List Pbuf) (setup : Bool) :
    Deeds (Turn me) me pcb (fun _ => True) (xmpp_recv_callback me pcb (some chain) setup) fun _ _ => True := by
  have K := keeps_inLoop me
  refine .bind deeds_ctxOf fun c => .ite (fun hs => ?_) fun hs => ?_
  · have one : ∀ q : Pbuf, Deeds (Turn me) me pcb Shaking (xmpp_tls_handshake_step me q.payload q.handshake)
        fun _ => Shaking := fun q =>
      K.one (.handshake me q.payload q.handshake) (tr_handshake_step me _ _) fun s h => h.1
    refine (deeds_whilePcb one chain).conseq (fun s h => ⟨.inl ?_, h.2⟩) fun _ _ h => ⟨trivial, h.2⟩
    have hst : (s.client_registry me).state = c.state := congrArg Session.state h.1.2
    exact hst.trans hs
  · have enter : ∀ d, True ∧ d = Ctx.session c → InLoop d := fun d hd => by
      rw [hd.2]
      exact hs
    refine .ite (fun _ => ?_) fun _ => ?_
    · exact .bind (deeds_weaken (deeds_whilePcb (fun q => K.one (.decrypt me q.payload q.reads)
        (tr_decrypt me _ _) fun s h => h.1) chain) enter) fun _ => K.runLoop setup
    · exact .bind (deeds_weaken (K.plaintextCopy chain) enter) fun _ =>
        .ite (fun _ => K.runLoop setup) fun _ => K.refuse POLICY_VIOLATION

end Callbacks

/-- An event is made of deeds of the context it works on. -/
theorem event_works {e : Event} (h : Event.slot s e = some me) : ReflTransGen (Works (Turn me)) s (step s e) := by
  have arg : ∀ {k : Slot → M Unit} {pcb : Pcb}, s.tcp_arg pcb = some me →
      Deeds (Turn me) me pcb (fun _ => True) (k me) (fun _ _ => True) → ReflTransGen (Works (Turn me)) s (withArg pcb k s).2 := by
    intro k pcb hp hk
    rw [withArg_some hp]
    exact (hk s ⟨trivial, hp⟩).1
  have one : ∀ {i : Slot} (d : Deed) {P : Session → Prop} {Q : Unit → Session → Prop}, Tr i P d.perform Q → Own i P s →
      d.Due s → ReflTransGen (Works (Turn i)) s (d.perform s).2 := fun d _ _ h hp hd =>
    .single ⟨⟨d, hd, rfl⟩, (h.turns s hp).1⟩
  cases e with
  | accept newpcb => cases h
  | recv pcb chain setup => exact arg h (deeds_recv_callback chain setup)
  | close pcb => exact arg h ((keeps_inLoop me).one (.fin me pcb) (tr_recvClose me pcb) fun _ hs => hs.2)
  | err pcb =>
    exact arg h ((keeps_inLoop me).one (.err me) (tr_move (fun _ _ => .cleared rfl rfl rfl)
      fun _ _ => ⟨.clear, trivial⟩) fun _ _ => trivial)
  | handshake i hs =>
    obtain rfl := Option.some.inj h
    change ReflTransGen (Works (Turn i)) s ((if _ then _ else _ : M Unit) s).2
    split
    · rename_i hc
      exact one (.handshake i [] hs) (tr_handshake_step i [] hs) (.inl hc.2.1) (.inl hc.2.1)
    · exact .refl
  | ack i =>
    obtain rfl := Option.some.inj h
    change ReflTransGen (Works (Turn i)) s ((if _ then _ else _ : M Unit) s).2
    split
    · exact one (.ack i) (tr_ack (P := fun _ => True) i) trivial ‹_›
    · exact .refl

theorem event_acts {e : Event} (h : Event.slot s e = some me) : ReflTransGen (Act me) s (step s e) :=
  (event_works h).lift' id fun _ _ hw => hw.2.lift' id fun _ _ ht => ht.acts

/-- Every event is made of deeds. -/
theorem step_done (s : Server) (e : Event) : ReflTransGen Done s (step s e) := by
  cases hslot : Event.slot s e with
  | some me => exact (event_works hslot).lift id fun _ _ hw => hw.1
  | none =>
    by_cases ha : ∃ pcb, e = .accept pcb
    · obtain ⟨pcb, rfl⟩ := ha
      exact .single ⟨.accept pcb, trivial, rfl⟩
    · rw [step_no_slot hslot fun pcb hp => ha ⟨pcb, hp⟩]

/-- Every run has a course. -/
theorem run_course (m : Machine) (es : List Event) : ∃ ds, Machine.Courses m es ds :=
  course_of_done (foldl_keeps (P := ReflTransGen Done m.boot) (fun s e h => h.trans (step_done s e)) es .refl)

variable {d : Deed}

/-- A deed is made of local actions of its context, unless it is a new connection or a stanza. -/
theorem deed_local (h : d.Due s) (ha : ∀ pcb, d ≠ .accept pcb) (hst : ∀ me st, d ≠ .stanza me st) :
    ∃ me, ReflTransGen (Local me) s (after s d) := by
  have tr : ∀ {me : Slot} {P : Session → Prop} {m : M Unit} {Q : Unit → Session → Prop}, Tr me P m Q → Own me P s →
      ∃ me, ReflTransGen (Local me) s (m s).2 := fun hm hp => ⟨_, (hm s hp).1⟩
  have keep : ∀ (me : Slot) {f : Ctx → Ctx}, (∀ c, Ctx.kept (f c) = Ctx.kept c) →
      ∃ i, ReflTransGen (Local i) s (modCtx me f s).2 := fun me _ hf => tr (P := fun _ => True) (tr_keep hf) trivial
  cases d with
  | accept newpcb => exact absurd rfl (ha newpcb)
  | fin me pcb => exact tr (tr_recvClose me pcb) trivial
  | err me => exact ⟨me, .single (.move s .clear (.cleared rfl rfl rfl))⟩
  | handshake me data hs => exact tr (tr_handshake_step me data hs) h
  | decrypt me data reads => exact tr (tr_decrypt me data reads) h
  | copy me data => exact keep me fun _ => rfl
  | refuse me pcb text => exact tr (P := fun _ => True) (tr_refuse (D := fun _ => True) text fun _ _ => trivial) trivial
  | trim me => exact keep me fun _ => rfl
  | starttls me setup => exact tr (tr_starttls me setup) h
  | closeStream me => exact tr (tr_closeStream me (P := fun _ => True) (Q := fun _ => True) fun _ _ _ _ => trivial) trivial
  | header me => exact tr (tr_streamHeader me (fun _ h => h) (tr_handle_handshake_logic me)) h
  | abort me => exact tr (P := fun _ => True) (tr_send _) trivial
  | element me e => exact tr (tr_smAnswer me (P := fun _ => True) e) ⟨trivial, h.1⟩
  | auth me st => exact tr (tr_handle_sasl me st) h.1
  | stanza me st => exact absurd rfl (hst me st)
  | pool k used => exact ⟨0, .single (.pool s _)⟩
  | consume me n => exact keep me fun _ => rfl
  | ack me => exact tr (P := fun _ => True) (tr_ack me) trivial

/-- All deeds but the handling of a stanza leave the stores and the disk alone. -/
theorem after_mem (h : d.Due s) (hst : ∀ me st, d ≠ .stanza me st) : (after s d).mem = s.mem := by
  by_cases ha : ∃ pcb, d = .accept pcb
  · obtain ⟨pcb, rfl⟩ := ha
    have he : after s (.accept pcb) = _ := accept_eq pcb s
    rw [he]
  · obtain ⟨me, hl⟩ := deed_local h (fun pcb he => ha ⟨pcb, he⟩) hst
    exact (local_frame hl).1

/-- A stream header for another host, on a connection that was not secured yet. -/
def wrongHost (c : Ctx) : Prop :=
  let stream_to := extract_stream_attr (cstr c.rx) "to" 64
  ¬ c.tls_established ∧ ¬ c.authenticated ∧ stream_to ≠ [] ∧ stream_to ≠ XMPP_DOMAIN

/-- A stream header without one of the namespaces or the version. -/
def badHeader (c : Ctx) : Prop := (badNs c.rx ∨ badStreamNs c.rx) ∨ badVer c.rx

instance (c : Ctx) : Decidable (wrongHost c) := inferInstanceAs (Decidable (_ ∧ _))

instance (c : Ctx) : Decidable (badHeader c) := inferInstanceAs (Decidable (_ ∨ _))

/-- What is answered to a stream header: an error and the end of the connection, or the features. -/
def headerAnswer (me : Slot) (c : Ctx) : M Unit :=
  if wrongHost c then do
    emit (.tcp_write c.pcb HOST_UNKNOWN)
    emit (.tcp_close c.pcb)
    modCtx me fun c => { c with pcb := none }
  else if badHeader c then do
    emit (.tcp_write c.pcb (if badNs c.rx ∨ badStreamNs c.rx then INVALID_NAMESPACE else UNSUPPORTED_VERSION))
    emit (.tcp_close c.pcb)
  else handle_handshake_logic me

theorem streamHeader_run (me : Slot) (s : Server) :
    streamHeader me s = (do
      modCtx me fun c => { c with client_from := extract_stream_attr (cstr c.rx) "from" 64 }
      headerAnswer me (s.client_registry me)
      modCtx me fun c => { c with rx := [] } : M Unit) s := by
  let named : Ctx → Ctx := fun c => { c with client_from := extract_stream_attr (cstr c.rx) "from" 64 }
  have hself : (modCtx me named s).2.client_registry me = named (s.client_registry me) := setCtx_reg_self s me _
  rw [streamHeader, bind_run, bind_run, bind_run, ctxOf, headerAnswer]
  dsimp only
  rw [hself]
  generalize (modCtx me named s).2 = t
  generalize s.client_registry me = c
  by_cases hw : wrongHost c
  · have hw' : wrongHost (named c) := hw
    rw [if_pos hw]
    exact congrFun (if_pos hw') t
  have hw' : ¬ wrongHost (named c) := hw
  rw [if_neg hw]
  refine (congrFun (if_neg hw') t).trans ?_
  by_cases hn : badNs c.rx ∨ badStreamNs c.rx
  · have hb : badHeader c := .inl hn
    refine (congrFun (if_pos hn) t).trans ?_
    rw [if_pos hb, if_pos hn]
    rfl
  refine (congrFun (if_neg hn) t).trans ?_
  by_cases hv : badVer c.rx
  · have hb : badHeader c := .inr hv
    rw [if_pos hb, if_neg hn]
    exact congrFun (if_pos hv) t
  · have hb : ¬ badHeader c := not_or.mpr ⟨hn, hv⟩
    rw [if_neg hb]
    exact congrFun (if_neg hv) t

theorem deed_actions (h : d.Due s) : ReflTransGen Action s (after s d) := by
  by_cases ha : ∃ pcb, d = .accept pcb
  · obtain ⟨pcb, rfl⟩ := ha
    exact .single (.accept s pcb)
  by_cases hst : ∃ me st, d = .stanza me st
  · obtain ⟨me, st, rfl⟩ := hst
    exact ((turns_stanza h.2.ok s h.1).1).lift id fun _ _ => Action.turn me
  · obtain ⟨me, hl⟩ := deed_local h (fun pcb he => ha ⟨pcb, he⟩) fun me st he => hst ⟨me, st, he⟩
    exact hl.lift id fun _ _ h => Action.turn me (.own h)

theorem run_actions (m : Machine) (es : List Event) : ReflTransGen Action m.boot (m.run es) :=
  foldl_keeps (P := ReflTransGen Action m.boot)
    (fun s e h => h.trans ((step_done s e).lift' id fun _ _ ⟨_, hd, he⟩ => he ▸ deed_actions hd)) es .refl

theorem course_between {ds : List Deed} (h : Course s ds) {k n : Nat} (hk : k ≤ n) :
    ReflTransGen Action (stateAt s ds k) (stateAt s ds n) := by
  induction n, hk using Nat.le_induction with
  | base => exact .refl
  | succ n _ ih =>
    cases hd : ds[n]? with
    | none => rwa [stateAt_end hd]
    | some d =>
      rw [stateAt_succ hd]
      exact ih.trans (deed_actions (h n d hd))

theorem course_actions {ds : List Deed} (h : Course s ds) (n : Nat) : ReflTransGen Action s (stateAt s ds n) :=
  course_between h (Nat.zero_le n)

end Angelic.Proofs
