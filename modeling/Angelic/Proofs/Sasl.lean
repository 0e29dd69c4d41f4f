import Angelic.Proofs.Negotiation

namespace Angelic.Proofs
open CString Model StateRel Spec

/-- The password field of a PLAIN message, the text behind its second NUL, of the whole message
and not of the part that fits the buffer. -/
def plainPassword (payload : Str) : Option Str :=
  (b64decode payload payload.length).map fun m => cstr (afterNul (afterNul m))

def saslRefused (mechanism : Str) : Prop :=
  mechanism ≠ [] ∧ mechanism ≠ lit "PLAIN" ∧ mechanism ≠ lit "ANONYMOUS"

instance (mechanism : Str) : Decidable (saslRefused mechanism) := inferInstanceAs (Decidable (_ ∧ _))

/-- The name a decoded message gives the context. -/
def saslName (m : List Byte) : Str := if saslUsername m = [] then lit "user" else saslUsername m

/-- A decoded message is turned down for its name, or for its password when the mechanism is
PLAIN. -/
def saslDenied (mechanism : Str) (m : List Byte) : Prop :=
  (saslUsername m).any badUserChar ∨
    mechanism = lit "PLAIN" ∧ ¬ authorized (saslName m) (saslPassword m)

instance (mechanism : Str) (m : List Byte) : Decidable (saslDenied mechanism m) :=
  inferInstanceAs (Decidable (_ ∨ _))

/-- A decoded message gives the context its name and then lets it in or not. -/
theorem saslDecoded_eq (me : Slot) (st : Stanza) (m : List Byte) :
    saslDecoded me st m = (do
      modCtx me fun c => { c with username := saslName m }
      if saslDenied st.mechanism m then saslFailure me else saslSucceed me) := by
  by_cases hb : (saslUsername m).any badUserChar
  · have hne : saslUsername m ≠ [] := fun h0 => by
      rw [h0] at hb
      cases hb
    have hname : saslName m = saslUsername m := if_neg hne
    have hd : saslDenied st.mechanism m := .inl hb
    rw [if_pos hd, hname]
    exact if_pos hb
  · have hd : saslDenied st.mechanism m ↔
        st.mechanism = lit "PLAIN" ∧ ¬ authorized (saslName m) (saslPassword m) :=
      ⟨fun h => h.resolve_left hb, .inr⟩
    rw [if_congr hd rfl rfl]
    exact if_neg hb

section Own
variable {me : Slot} {P Q : Session → Prop}

theorem own_modCtx {f : Ctx → Ctx} (h : ∀ c, P (Ctx.session c) → Q (Ctx.session (f c))) :
    Triple (Own me P) (modCtx me f) fun _ => Own me Q := fun _ hs => own_setCtx (h _ hs)

theorem own_send (text : Str) : Triple (Own me P) (send_raw me text) fun _ => Own me P := fun s hs =>
  (tr_send text s hs).2

end Own

/-- The session before and after a call that did not authenticate. -/
structure Turned (c c' : Session) : Prop where
  authenticated : c'.authenticated = c.authenticated
  state : c'.state = c.state ∨ c'.state = .CONNECTED

section Handler
variable (me : Slot) (st : Stanza) (c : Session)

theorem turned_saslFailure : Triple (Own me (Turned c)) (saslFailure me) fun _ => Own me (Turned c) :=
  .bind (own_send _) fun _ => .bind (own_modCtx (Q := Turned c) fun _ h => h)
    fun _ => .bind (Q := fun _ => Own me (Turned c)) (fun _ h => h) fun _ =>
    .ite (fun _ => .bind (own_send _) fun _ => .bind (Q := fun _ => Own me (Turned c)) (fun _ h => h) fun _ =>
      own_modCtx fun _ h => ⟨h.authenticated, .inr rfl⟩) fun _ => .pure fun _ h => h

/-- The session of a user that was let in. -/
structure LetIn (username : Str) (c : Session) : Prop where
  authenticated : c.authenticated
  state : c.state = .AUTHENTICATED
  username : c.username = username

theorem letIn_saslSucceed (username : Str) :
    Triple (Own me fun c => c.username = username) (saslSucceed me) fun _ => Own me (LetIn username) :=
  .bind (own_send _) fun _ => own_modCtx fun _ h => ⟨rfl, rfl, h⟩

theorem saslDecoded_denied {m : List Byte} (h : saslDenied st.mechanism m) :
    Triple (Own me (Turned c)) (saslDecoded me st m) fun _ => Own me (Turned c) := by
  have hu : ∀ u : Str, Triple (Own me (Turned c)) (modCtx me fun c => { c with username := u })
      fun _ => Own me (Turned c) := fun u => own_modCtx fun _ h => ⟨h.authenticated, h.state⟩
  refine .ite (fun _ => .bind (hu _) fun _ => turned_saslFailure me c) fun hb => .bind (hu _) fun _ =>
    .ite (fun _ => turned_saslFailure me c) fun hp => ?_
  rcases h with h | h
  · exact absurd h hb
  · exact absurd h hp

theorem saslDecoded_letIn {m : List Byte} (h : ¬ saslDenied st.mechanism m) :
    Triple (Own me fun _ => True) (saslDecoded me st m) fun _ => Own me (LetIn (saslName m)) :=
  .ite (fun hb => absurd (.inl hb) h) fun _ =>
    .bind (own_modCtx (Q := fun c => c.username = saslName m) fun _ _ => rfl) fun _ =>
    .ite (fun hp => absurd (.inr hp) h) fun _ => letIn_saslSucceed me _

theorem handle_sasl_run {s : Server} (ht : (s.client_registry me).tls_established) :
    handle_sasl me st s =
      (if saslRefused st.mechanism then send_raw me SASL_INVALID_MECHANISM
      else
        match b64decode st.payload 127 with
        | none => send_raw me SASL_INCORRECT_ENCODING
        | some decoded => saslDecoded me st decoded) s := by
  rw [handle_sasl, bind_run]
  exact congrFun (if_neg (not_not.mpr ht)) s

/-- A call either lets the user of the message in or turns the context away. -/
theorem handle_sasl_cases (s : Server) (ht : (s.client_registry me).tls_established) :
    (∃ m, ¬ saslRefused st.mechanism ∧ b64decode st.payload 127 = some m ∧ ¬ saslDenied st.mechanism m ∧
        Own me (LetIn (saslName m)) (handle_sasl me st s).2) ∨
      (saslRefused st.mechanism ∨ (∀ m, b64decode st.payload 127 = some m → saslDenied st.mechanism m)) ∧
        Own me (Turned (Ctx.session (s.client_registry me))) (handle_sasl me st s).2 := by
  have hself : Own me (Turned (Ctx.session (s.client_registry me))) s := ⟨rfl, .inl rfl⟩
  rw [handle_sasl_run me st ht]
  by_cases hr : saslRefused st.mechanism
  · rw [if_pos hr]
    exact .inr ⟨.inl hr, own_send _ s hself⟩
  · rw [if_neg hr]
    cases hm : b64decode st.payload 127 with
    | none => exact .inr ⟨.inr nofun, own_send _ s hself⟩
    | some m =>
      by_cases hd : saslDenied st.mechanism m
      · refine .inr ⟨.inr fun m' hm' => ?_, saslDecoded_denied me st _ hd s hself⟩
        cases hm'
        exact hd
      · exact .inl ⟨m, hr, rfl, hd, saslDecoded_letIn me st hd s trivial⟩

end Handler

/-- A user of the table that the call authenticates gave the password of the table. -/
def SaslSound (me : Slot) (st : Stanza) (s : Server) : Prop :=
  let c := (handle_sasl me st s).2.client_registry me
  c.authenticated → c.state = .AUTHENTICATED →
    ∀ e ∈ xmpp_credentials, c.username = e.username → plainPassword st.payload = some e.password

/-- What an auth stanza must be like: if the decoded part names a user of the table, the mechanism
is refused, or it is PLAIN with a password that does not match, or the whole message has the
user's password. -/
def SaslChecked (st : Stanza) : Prop :=
  ∀ m, b64decode st.payload 127 = some m → ∀ e ∈ xmpp_credentials, saslUsername m = e.username →
    saslRefused st.mechanism ∨ (st.mechanism = lit "PLAIN" ∧ saslPassword m ≠ e.password) ∨
      plainPassword st.payload = some e.password

theorem credential_names : ∀ e ∈ xmpp_credentials,
    e.username ≠ [] ∧ e.username ≠ lit "user" ∧ ¬ e.username.any badUserChar ∧
      ∀ e' ∈ xmpp_credentials, e'.username = e.username → e' = e := by
  decide +kernel

theorem authorized_iff {e : Credential} (he : e ∈ xmpp_credentials) (password : Str) :
    authorized e.username password ↔ password = e.password := by
  simp only [authorized, List.any_eq_true, Bool.and_eq_true, beq_iff_eq]
  constructor
  · rintro ⟨e', he', hu, hp⟩
    rw [← hp, (credential_names e he).2.2.2 e' he' hu]
  · rintro rfl
    exact ⟨e, he, rfl, rfl⟩

/-- Exactly the stanzas of this kind are safe, in every state of a connection with TLS, so in
particular after any earlier stanzas. -/
theorem handle_sasl_sound_iff (me : Slot) (st : Stanza) (s : Server)
    (ht : (s.client_registry me).tls_established)
    (hs : (s.client_registry me).state ≠ .AUTHENTICATED) :
    SaslSound me st s ↔ SaslChecked st := by
  rcases handle_sasl_cases me st s ht with ⟨m, hr, hm, hd, hin⟩ | ⟨hno, hto⟩
  · constructor
    · intro h m' hm' e he hu
      obtain rfl : m = m' := Option.some.inj (hm.symm.trans hm')
      obtain ⟨hne, -⟩ := credential_names e he
      have hname : saslName m = e.username := by
        rw [saslName, if_neg (hu ▸ hne), hu]
      exact .inr (.inr (h (LetIn.authenticated hin) (LetIn.state hin) e he ((LetIn.username hin).trans hname)))
    · intro h _ _ e he hu
      obtain ⟨-, hne, -⟩ := credential_names e he
      have hname : saslName m = e.username := (LetIn.username hin).symm.trans hu
      have hun : saslUsername m = e.username := by
        by_cases h0 : saslUsername m = []
        · rw [saslName, if_pos h0] at hname
          exact absurd hname.symm hne
        · rwa [saslName, if_neg h0] at hname
      rcases h m hm e he hun with h | ⟨hp, hw⟩ | h
      · exact absurd h hr
      · refine absurd (Or.inr ⟨hp, fun ha => hw ?_⟩) hd
        exact (authorized_iff he _).mp (hname ▸ ha)
      · exact h
  · constructor
    · intro _ m hm e he hu
      rcases hno with hr | hd
      · exact .inl hr
      · obtain ⟨hne, -, hch, -⟩ := credential_names e he
        have hname : saslName m = e.username := by
          rw [saslName, if_neg (hu ▸ hne), hu]
        rcases hd m hm with hb | ⟨hp, ha⟩
        · exact absurd (hu ▸ hb) hch
        · refine .inr (.inl ⟨hp, fun he' => ha ?_⟩)
          rw [hname]
          exact (authorized_iff he _).mpr he'
    · intro _ _ hst
      rcases Turned.state hto with h | h
      · exact absurd (h.symm.trans hst) hs
      · cases h.symm.trans hst

/-- Sends an auth stanza after TLS is up. -/
def authenticate (auth : Str) : Server := blank.run (login 7 auth)

def tlsUp : Server := blank.run ((login 7 []).take 3)

def stanzaPlain : Stanza := ⟨.UNKNOWN, [], [], [], NS_SASL, lit "AGFkbWluAGFkbWlu", lit "PLAIN"⟩

theorem handle_sasl_plain_sound :
    ((handle_sasl 0 stanzaPlain tlsUp).2.client_registry 0).authenticated ∧
      SaslSound 0 stanzaPlain tlsUp := by
  have hm : b64decode stanzaPlain.payload 127 = some (0 :: lit "admin" ++ 0 :: lit "admin") := by
    decide +kernel
  have hp : ∀ e ∈ xmpp_credentials, saslUsername (0 :: lit "admin" ++ 0 :: lit "admin") = e.username →
      plainPassword stanzaPlain.payload = some e.password := by
    decide +kernel
  refine ⟨by decide +kernel, (handle_sasl_sound_iff 0 stanzaPlain tlsUp ?_ ?_).mpr ?_⟩
  · decide +kernel
  · decide +kernel
  · intro m hm' e he hu
    obtain rfl := Option.some.inj (hm.symm.trans hm')
    exact .inr (.inr (hp e he hu))

/-- The administrator's name without a password under ANONYMOUS, and with a wrong one under PLAIN
behind an authorization identity that fills the buffer. Both are let in. -/
theorem handle_sasl_lets_in :
    let anonymous := lit "AGFkbWluAA=="
    let long := cat ["eHh4eHh4eHh4eHh4eHh4eHh4eHh4eHh4eHh4eHh4eHh4eHh4eHh4eHh4eHh4eHh4eHh4",
      "eHh4eHh4eHh4eHh4eHh4eHh4eHh4eHh4eHh4eHh4eHh4eHh4eHh4eHh4eHh4eHh4eHh4eHh4eHh4eHh4",
      "eHh4eABhZG1pbgBhZG1pbldST05H"]
    let c := (authenticate (lit "<auth mechanism='ANONYMOUS'>" ++ anonymous ++ lit "</auth>")).client_registry 0
    let c' := (authenticate (lit "<auth mechanism='PLAIN'>" ++ long ++ lit "</auth>")).client_registry 0
    (c.authenticated ∧ c.username = lit "admin" ∧ plainPassword anonymous = some []) ∧
      c'.authenticated ∧ c'.username = lit "admin" ∧ plainPassword long = some (lit "adminWRONG") := by
  decide +kernel

end Angelic.Proofs
