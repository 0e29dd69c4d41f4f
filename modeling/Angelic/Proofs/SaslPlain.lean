import Angelic.Proofs.Base64Decode
import Angelic.Proofs.Sasl
import Angelic.Proofs.HandlerTexts

namespace Angelic.Proofs
open CString Model StateRel Spec
open Base64 (decode encode decode_encode)

/-! PLAIN messages. -/

theorem credentials_plain : ∀ e ∈ xmpp_credentials,
    (0 ∉ e.username ∧ e.username ≠ [] ∧ e.username.length < 31 ∧ e.username.any badUserChar = false) ∧
      e.username ≠ lit "user" ∧ 0 ∉ e.password ∧ e.password ≠ [] ∧ e.password.length < 63 := by decide +kernel

theorem credentials_apart : ∀ e ∈ xmpp_credentials, ∀ e' ∈ xmpp_credentials, e.username = e'.username →
    e.password = e'.password := by decide +kernel

theorem failures_other : SASL_INCORRECT_ENCODING ≠ SASL_SUCCESS ∧ SASL_NOT_AUTHORIZED ≠ SASL_SUCCESS ∧
    SASL_ENCRYPTION_REQUIRED ≠ SASL_SUCCESS := by decide +kernel

theorem tlsUp_established : (tlsUp.client_registry 0).tls_established = true := by decide +kernel

/-! The fields of a message. -/

/-- A message that names a user of the table and gives the password, with something behind. -/
def MessageOf (m : List Byte) (e : Credential) (tail : List Byte) : Prop :=
  ∃ authzid, 0 ∉ authzid ∧ m = authzid ++ 0 :: (e.username ++ 0 :: (e.password ++ tail))

section Fields
variable {m w x : List Byte}

theorem nonzero (h : 0 ∉ w) : ∀ c ∈ w, (c != 0) = true := by
  intro c hc
  rw [bne_iff_ne]
  rintro rfl
  exact h hc

theorem afterNul_upto (h : 0 ∉ w) : afterNul (w ++ 0 :: x) = x := by
  rw [afterNul, List.dropWhile_append_of_pos (nonzero h), List.dropWhile_cons_of_neg (by decide)]
  rfl

/-- What has something behind a NUL has it behind its first part. -/
theorem split_afterNul (h : afterNul m ≠ []) : m = cstr m ++ 0 :: afterNul m := by
  have hm : m = cstr m ++ m.dropWhile (· != 0) := (List.takeWhile_append_dropWhile ..).symm
  cases hd : m.dropWhile (· != 0) with
  | nil =>
    rw [afterNul, hd] at h
    exact absurd rfl h
  | cons c r =>
    have hc := List.head?_dropWhile_not (p := (· != 0)) m
    rw [hd] at hc
    have hc0 : c = 0 := by simpa using hc
    have ha : afterNul m = r := by
      rw [afterNul, hd]
      rfl
    rw [ha, ← hc0, ← hd]
    exact hm

theorem take_eq_of_short {l w : List Byte} {n : Nat} (hw : w.length < n) : l.take n = w ↔ l = w := by
  constructor
  · intro h
    have hl := congrArg List.length h
    rw [List.length_take] at hl
    rw [← h, List.take_of_length_le (by omega)]
  · rintro rfl
    exact List.take_of_length_le (Nat.le_of_lt hw)

/-- A decoded message is accepted exactly if it is one of the table, up to a NUL behind the password. -/
theorem not_denied_iff : ¬ saslDenied (lit "PLAIN") m ↔
    ∃ e ∈ xmpp_credentials, ∃ tail, tail.head?.all (· == 0) ∧ MessageOf m e tail := by
  constructor
  · intro h
    have hauth : authorized (saslName m) (saslPassword m) = true := by
      by_contra hn
      exact h (.inr ⟨rfl, hn⟩)
    obtain ⟨e, he, hcred⟩ := List.any_eq_true.mp hauth
    rw [Bool.and_eq_true, beq_iff_eq, beq_iff_eq] at hcred
    obtain ⟨⟨hu0, hune, hul, -⟩, hname, hp0, hpne, hpl⟩ := credentials_plain e he
    -- no user of the table is called as one without a name is
    have huser : saslUsername m = e.username := by
      have hn := hcred.1
      unfold saslName at hn
      split at hn
      · exact absurd hn hname
      · exact hn.symm
    have hcut : (cstr (afterNul m)).take 31 = e.username := by
      unfold saslUsername at huser
      split at huser
      · exact huser
      · exact absurd huser.symm hune
    have hu := (take_eq_of_short hul).mp hcut
    have hp := (take_eq_of_short hpl).mp hcred.2.symm
    have hne2 : afterNul (afterNul m) ≠ [] := fun hn => hpne (by rw [← hp, hn]; rfl)
    have hne1 : afterNul m ≠ [] := fun hn => hune (by rw [← hu, hn]; rfl)
    refine ⟨e, he, (afterNul (afterNul m)).dropWhile (· != 0), ?_, cstr m, zero_not_mem_cstr m, ?_⟩
    · have := List.head?_dropWhile_not (p := (· != 0)) (afterNul (afterNul m))
      cases hd : (afterNul (afterNul m)).dropWhile (· != 0) with
      | nil => rfl
      | cons c r =>
        rw [hd] at this
        simpa using this
    · have h1 := split_afterNul hne1
      have h2 := split_afterNul hne2
      have h3 : afterNul (afterNul m) = e.password ++ (afterNul (afterNul m)).dropWhile (· != 0) := by
        rw [← hp]
        exact (List.takeWhile_append_dropWhile ..).symm
      rw [hu] at h2
      rw [← h3, ← h2]
      exact h1
  · rintro ⟨e, he, tail, htail, authzid, h0, rfl⟩
    obtain ⟨⟨hu0, hune, hul, hub⟩, -, hp0, -, hpl⟩ := credentials_plain e he
    have hpass : cstr (e.password ++ tail) = e.password := by
      cases tail with
      | nil => rw [List.append_nil, cstr_of_clean hp0]
      | cons c r =>
        have hc : c = 0 := by simpa using htail
        rw [hc, cstr_append_zero hp0]
    have hlen : (authzid ++ 0 :: (e.username ++ 0 :: (e.password ++ tail))).length > 1 := by
      simp only [List.length_append, List.length_cons]
      omega
    have huser : saslUsername (authzid ++ 0 :: (e.username ++ 0 :: (e.password ++ tail))) = e.username := by
      rw [saslUsername, if_pos hlen, afterNul_upto h0, cstr_append_zero hu0, List.take_of_length_le (Nat.le_of_lt hul)]
    have hpw : saslPassword (authzid ++ 0 :: (e.username ++ 0 :: (e.password ++ tail))) = e.password := by
      rw [saslPassword, afterNul_upto h0, afterNul_upto hu0, hpass, List.take_of_length_le (Nat.le_of_lt hpl)]
    rintro (hb | ⟨-, hn⟩)
    · rw [huser, hub] at hb
      cases hb
    · apply hn
      rw [saslName, huser, if_neg hune, hpw]
      exact List.any_eq_true.mpr ⟨e, he, by simp⟩

/-- A message that ends with a password has no beginning that could be taken for another. -/
theorem MessageOf.whole {d tail : List Byte} {e e' : Credential} (he : e ∈ xmpp_credentials) (he' : e' ∈ xmpp_credentials)
    (h : MessageOf (w ++ d) e []) (h' : MessageOf w e' tail) (ht : tail.head?.all (· == 0)) : d = [] ∧ tail = [] := by
  obtain ⟨a, ha, hm⟩ := h
  obtain ⟨a', ha', rfl⟩ := h'
  obtain ⟨⟨hu, -⟩, -, hp, -⟩ := credentials_plain e he
  obtain ⟨⟨hu', -⟩, -⟩ := credentials_plain e' he'
  simp only [List.append_assoc, List.cons_append, List.append_nil] at hm
  -- both are read up to a NUL, then up to the next
  have h1 := congrArg afterNul hm
  rw [afterNul_upto ha, afterNul_upto ha'] at h1
  have hname := congrArg cstr h1
  rw [cstr_append_zero hu, cstr_append_zero hu'] at hname
  have h2 := congrArg afterNul h1
  rw [afterNul_upto hu, afterNul_upto hu', ← credentials_apart e he e' he' hname.symm] at h2
  have hnil : tail ++ d = [] := by
    have := List.append_cancel_left (h2.trans (List.append_nil _).symm)
    exact this
  obtain ⟨rfl, rfl⟩ := List.append_eq_nil_iff.mp hnil
  exact ⟨rfl, rfl⟩

end Fields

/-! What is sent. -/

section Sent
variable {me : Slot} {st : Stanza} {s : Server}

theorem sends_raw (i : Slot) (text : Str) (s : Server) : sends (send_raw i text s).2 = sends s ++ [(i, text)] := by
  change List.filterMap Out.posted (s.out ++ [_]) = _
  rw [List.filterMap_append]
  rfl

theorem begun_send (B : List (Slot × Str)) (i : Slot) (text : Str) :
    Triple (fun s => B <+: sends s) (send_raw i text) fun _ s => B <+: sends s := by
  intro s hs
  rw [sends_raw]
  exact hs.trans (List.prefix_append _ _)

/-- A failure is the first thing that is sent. -/
theorem sends_saslFailure (s : Server) : sends s ++ [(me, SASL_NOT_AUTHORIZED)] <+: sends (saslFailure me s).2 := by
  have main : Triple (· = s) (saslFailure me) fun _ s' => sends s ++ [(me, SASL_NOT_AUTHORIZED)] <+: sends s' := by
    refine .bind (Q := fun _ s' => sends s ++ [(me, SASL_NOT_AUTHORIZED)] <+: sends s') ?_ fun _ => ?_
    · rintro _ rfl
      exact sends_raw .. ▸ List.prefix_refl _
    · refine .bind (Q := fun _ s' => sends s ++ [(me, SASL_NOT_AUTHORIZED)] <+: sends s') (fun _ h => h) fun _ => ?_
      refine .bind (Q := fun _ s' => sends s ++ [(me, SASL_NOT_AUTHORIZED)] <+: sends s') (fun _ h => h) fun c => ?_
      refine .ite (fun _ => .bind (begun_send _ _ _) fun _ => ?_) fun _ => .pure fun _ h => h
      refine .bind (Q := fun _ s' => sends s ++ [(me, SASL_NOT_AUTHORIZED)] <+: sends s') (fun s' h => ?_) fun _ =>
        fun _ h => h
      have hsame : sends (s'.emit (.tcp_close c.pcb)) = sends s' := by
        change List.filterMap Out.posted (s'.out ++ [.tcp_close c.pcb]) = _
        rw [List.filterMap_append]
        exact List.append_nil _
      change _ <+: sends (s'.emit (.tcp_close c.pcb))
      rw [hsame]
      exact h
  exact main s rfl

theorem sends_saslSucceed (s : Server) : sends (saslSucceed me s).2 = sends s ++ [(me, SASL_SUCCESS)] :=
  sends_raw me SASL_SUCCESS s

/-- The one thing that is sent is that the user is let in. -/
def Succeeds (me : Slot) (st : Stanza) (s : Server) : Prop :=
  sends (handle_sasl me st s).2 = sends s ++ [(me, SASL_SUCCESS)]

theorem other_text {t : Str} (h : t ≠ SASL_SUCCESS) {s s' : Server} (hp : sends s ++ [(me, t)] <+: sends s') :
    sends s' ≠ sends s ++ [(me, SASL_SUCCESS)] := by
  rintro hs
  rw [hs, List.prefix_append_right_inj] at hp
  obtain ⟨r, hr⟩ := hp
  exact h (Prod.mk.inj (List.cons.inj hr).1).2

theorem succeeds_iff (hm : st.mechanism = lit "PLAIN") :
    Succeeds me st s ↔ (s.client_registry me).tls_established = true ∧
      ∃ m, decode (cstr st.payload) = some m ∧ ∃ e ∈ xmpp_credentials, ∃ tail, tail.head?.all (· == 0) ∧
        MessageOf (m.take 127) e tail := by
  unfold Succeeds
  by_cases ht : (s.client_registry me).tls_established = true
  · have hok : ¬ saslRefused st.mechanism := fun h => h.2.1 hm
    rw [handle_sasl_run me st ht, if_neg hok, b64decode_cstr, b64decode_eq (zero_not_mem_cstr _)]
    cases hd : decode (cstr st.payload) with
    | none =>
      refine iff_of_false (other_text failures_other.1 ?_) ?_
      · exact sends_raw .. ▸ List.prefix_refl _
      · rintro ⟨-, m, hm', -⟩
        cases hm'
    | some m =>
      have hrun : ((saslDecoded me st (m.take 127)) s) = (if saslDenied st.mechanism (m.take 127) then saslFailure me
          else saslSucceed me) (modCtx me (fun c => { c with username := saslName (m.take 127) }) s).2 := by
        rw [saslDecoded_eq, bind_run]
      have hsame : sends (modCtx me (fun c => { c with username := saslName (m.take 127) }) s).2 = sends s := rfl
      simp only [Option.map_some, hrun]
      rw [hm, ← hsame]
      by_cases hden : saslDenied (lit "PLAIN") (m.take 127)
      · rw [if_pos hden]
        refine iff_of_false (other_text failures_other.2.1 (sends_saslFailure _)) ?_
        rintro ⟨-, m', hm', h⟩
        cases hm'
        exact not_denied_iff.mpr h hden
      · rw [if_neg hden]
        exact iff_of_true (sends_saslSucceed _) ⟨ht, m, rfl, not_denied_iff.mp hden⟩
  · have hrun : handle_sasl me st s = send_raw me SASL_ENCRYPTION_REQUIRED s := by
      rw [handle_sasl, bind_run]
      exact congrFun (if_pos ht) s
    rw [hrun]
    refine iff_of_false (other_text failures_other.2.2 ?_) fun h => ht h.1
    exact sends_raw .. ▸ List.prefix_refl _

end Sent

/-- The base64 of an authorisation identity, a name of the table and the password it has there. -/
def IsPlain (payload : Str) : Prop :=
  ∃ e ∈ xmpp_credentials, ∃ m, MessageOf m e [] ∧ payload = encode m

/-- Nothing is cut at the end of the buffer for the message, and what is taken for a name and its password is all
of the message, with nothing behind the password and nothing else behind the base64. -/
structure ExactPlain (payload : Str) : Prop where
  short : ∀ e ∈ xmpp_credentials, ∀ m, MessageOf m e [] → payload = encode m → m.length ≤ 127
  whole : ∀ m, decode payload = some m → ∀ e ∈ xmpp_credentials, ∀ tail, tail.head?.all (· == 0) →
    MessageOf (m.take 127) e tail → m.length ≤ 127 ∧ tail = [] ∧ payload = encode m

theorem taken_whole {m tail : List Byte} {e e' : Credential} (he : e ∈ xmpp_credentials) (he' : e' ∈ xmpp_credentials)
    (h : MessageOf m e []) (h' : MessageOf (m.take 127) e' tail) (ht : tail.head?.all (· == 0)) :
    m.length ≤ 127 ∧ tail = [] := by
  rw [← List.take_append_drop 127 m] at h
  obtain ⟨hd, htail⟩ := h.whole he he' h' ht
  exact ⟨List.drop_eq_nil_iff.mp hd, htail⟩

theorem exactPlain_encode {m : List Byte} {e : Credential} (he : e ∈ xmpp_credentials) (h : MessageOf m e [])
    (hlen : m.length ≤ 127) : ExactPlain (encode m) := by
  refine ⟨fun e' _ m' _ hm => ?_, fun m' hd e' he' tail htail h' => ?_⟩
  · have hsame := congrArg decode hm
    rw [decode_encode, decode_encode, Option.some.injEq] at hsame
    exact hsame ▸ hlen
  · rw [decode_encode, Option.some.injEq] at hd
    subst hd
    exact ⟨hlen, (taken_whole he he' h h' htail).2, rfl⟩

/-- Over TLS exactly the base64 of a name and its password is a success when the message fits in the buffer and is
all that the payload has. Without TLS nothing is. -/
theorem plain_success_iff (me : Slot) (st : Stanza) (s : Server) (hm : st.mechanism = lit "PLAIN") :
    (Succeeds me st s ↔ IsPlain (cstr st.payload)) ↔
      if (s.client_registry me).tls_established then ExactPlain (cstr st.payload) else ¬ IsPlain (cstr st.payload) := by
  rw [succeeds_iff hm]
  generalize cstr st.payload = payload
  by_cases ht : (s.client_registry me).tls_established = true
  · rw [if_pos ht]
    simp only [ht, true_and]
    refine ⟨fun h => ⟨fun e he m hmsg hp => ?_, fun m hd e he tail htail hmsg => ?_⟩, fun h => ⟨?_, ?_⟩⟩
    · obtain ⟨m', hd, e', he', tail, htail, hmsg'⟩ := h.mpr ⟨e, he, m, hmsg, hp⟩
      rw [hp, decode_encode, Option.some.injEq] at hd
      subst hd
      exact (taken_whole he he' hmsg hmsg' htail).1
    · obtain ⟨e', he', m', hmsg', hp⟩ := h.mp ⟨m, hd, e, he, tail, htail, hmsg⟩
      rw [hp, decode_encode, Option.some.injEq] at hd
      subst hd
      obtain ⟨hlen, hnil⟩ := taken_whole he' he hmsg' hmsg htail
      exact ⟨hlen, hnil, hp⟩
    · rintro ⟨m, hd, e, he, tail, htail, hmsg⟩
      obtain ⟨hlen, rfl, hp⟩ := h.whole m hd e he tail htail hmsg
      rw [List.take_of_length_le hlen] at hmsg
      exact ⟨e, he, m, hmsg, hp⟩
    · rintro ⟨e, he, m, hmsg, hp⟩
      refine ⟨m, hp ▸ decode_encode m, e, he, [], rfl, ?_⟩
      rw [List.take_of_length_le (h.short e he m hmsg hp)]
      exact hmsg
  · rw [if_neg ht]
    exact ⟨fun h hp => ht (h.mpr hp).1, fun h => iff_of_false (fun hs => ht hs.1) h⟩

/-- The message of the first user of the table, with an authorisation identity and something behind it. -/
def plainMessage (authzid tail : Str) : List Byte := authzid ++ 0 :: (lit "admin" ++ 0 :: (lit "admin" ++ tail))

theorem plainMessage_of {authzid : Str} (h : 0 ∉ authzid) (tail : Str) :
    ∃ e ∈ xmpp_credentials, MessageOf (plainMessage authzid tail) e tail :=
  ⟨_, List.mem_cons_self, authzid, h, rfl⟩

theorem admin_success : stanzaPlain.mechanism = lit "PLAIN" ∧
    (Succeeds 0 stanzaPlain tlsUp ↔ IsPlain (cstr stanzaPlain.payload)) := by
  refine ⟨rfl, (plain_success_iff 0 stanzaPlain tlsUp rfl).mpr ?_⟩
  have hpay : cstr stanzaPlain.payload = encode (plainMessage [] []) := by decide +kernel
  obtain ⟨e, he, hm⟩ := plainMessage_of (List.not_mem_nil) []
  rw [if_pos tlsUp_established, hpay]
  exact exactPlain_encode he hm (by decide)

/-- A letter behind a NUL, and an authorisation identity that leaves no room for the password. -/
def nulTail : Str := [0, ch 'x']
def longAuthzid : Str := List.replicate 120 (ch 'a')

def plainStanza (authzid tail : Str) : Stanza := { stanzaPlain with payload := encode (plainMessage authzid tail) }

theorem plainStanza_texts : cstr (plainStanza [] nulTail).payload = encode (plainMessage [] nulTail) ∧
      cstr (plainStanza longAuthzid []).payload = encode (plainMessage longAuthzid []) ∧
      0 ∉ longAuthzid ∧ 127 < (plainMessage longAuthzid []).length := by decide +kernel

/-- With a NUL and a letter behind the password the user is let in; with a long authorisation identity they are
not. -/
theorem plain_inexact :
    (∃ st : Stanza, st.mechanism = lit "PLAIN" ∧ Succeeds 0 st tlsUp ∧ ¬ IsPlain (cstr st.payload)) ∧
      ∃ st : Stanza, st.mechanism = lit "PLAIN" ∧ ¬ Succeeds 0 st tlsUp ∧ IsPlain (cstr st.payload) := by
  obtain ⟨hshort, hlong, hplain, hlen⟩ := plainStanza_texts
  constructor
  · obtain ⟨e, he, hm⟩ := plainMessage_of (List.not_mem_nil) nulTail
    refine ⟨plainStanza [] nulTail, rfl, ?_, ?_⟩
    · rw [succeeds_iff rfl]
      exact ⟨tlsUp_established, plainMessage [] nulTail, hshort ▸ decode_encode _, e, he, _, rfl, hm⟩
    · rintro ⟨e', he', m, hm', hp⟩
      have hd := congrArg decode (hshort.symm.trans hp)
      rw [decode_encode, decode_encode, Option.some.injEq] at hd
      subst hd
      exact List.cons_ne_nil _ _ (taken_whole he' he hm' hm rfl).2
  · obtain ⟨e, he, hm⟩ := plainMessage_of hplain []
    refine ⟨plainStanza longAuthzid [], rfl, ?_, ?_⟩
    · rw [succeeds_iff rfl]
      rintro ⟨-, m, hd, e', he', tail, htail, hm'⟩
      have hsame := (decode_encode _).symm.trans (hlong ▸ hd)
      rw [Option.some.injEq] at hsame
      subst hsame
      exact absurd (taken_whole he he' hm hm' htail).1 (Nat.not_le_of_lt hlen)
    · exact ⟨e, he, _, hm, hlong⟩

end Angelic.Proofs
