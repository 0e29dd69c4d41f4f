import Mathlib.Algebra.BigOperators.Intervals
import Angelic.Proofs.Counting

namespace Angelic.Proofs
open CString Model StateRel Relation

variable {s : Server} {i : Slot}

/-! Deeds that answer with something else than a stanza. -/

/-- The auth stanza is looked at and turned down. -/
def checkFails (c : Ctx) (st : Stanza) : Bool :=
  c.tls_established && !decide (saslRefused st.mechanism) &&
    (b64decode st.payload 127).any fun m => decide (saslDenied st.mechanism m)

/-- The answers to an auth stanza: the last failure is followed by a stream error. -/
def authTexts (c : Ctx) (st : Stanza) : Nat :=
  if checkFails c st ∧ SASL_MAX_FAILURES ≤ c.sasl_failures + 1 then 2 else 1

/-- A stream header is answered with the features. -/
def greets (c : Ctx) : Prop := ¬ wrongHost c ∧ ¬ badHeader c

instance (c : Ctx) : Decidable (greets c) := inferInstanceAs (Decidable (_ ∧ _))

/-- One text, if it is for the context. -/
def toward (me i : Slot) : Nat := if me = i then 1 else 0

/-- The texts other than stanzas that a deed sends to a context. -/
def Deed.others (s : Server) (i : Slot) : Deed → Nat
  | .element me .enable | .element me .request | .abort me => toward me i
  | .ack me => if (s.client_registry me).sm_enabled then toward me i else 0
  | .header me => if greets (s.client_registry me) then toward me i else 0
  | .auth me st => authTexts (s.client_registry me) st * toward me i
  | .stanza me st => if restarts st then toward me i else 0
  | _ => 0

/-- `k` texts that are not stanzas, from every state. -/
def Utters (i : Slot) (k : Nat) (m : M α) : Prop := ∀ s, Speaks i k s (m s).2

section Answers
variable {i : Slot} {k : Nat}
variable {m : M α}

theorem Speaks.after {s' s'' : Server} (h : Speaks i 0 s s') (h' : Speaks i k s' s'') : Speaks i k s s'' := by
  have := h.trans h'
  rwa [Nat.zero_add] at this

theorem Utters.after {f : α → M β} (hm : Does (Speaks i 0) m) (hf : ∀ a, Utters i k (f a)) : Utters i k (m >>= f) :=
  fun s => (steady_run hm s).after (hf (m s).1 (m s).2)

theorem Utters.before {f : α → M β} (hm : Utters i k m) (hf : ∀ a, Does (Speaks i 0) (f a)) : Utters i k (m >>= f) :=
  fun s => (hm s).trans (steady_run (hf (m s).1) (m s).2)

theorem Utters.ite {c : Prop} [Decidable c] {n : M α} (hm : Utters i k m) (hn : Utters i k n) :
    Utters i k (if c then m else n) := by
  split
  · exact hm
  · exact hn

variable (me : Slot)

theorem utters_send {text : Str} (h : isStanza text = false) : Utters i (toward me i) (send_raw me text) := fun s => by
  have hs := Speaks.send (i := i) me text s
  simp only [h, and_true] at hs
  exact hs

theorem utters_format (name : Str) {fmt : Str} (hn : name.all nameByte && name.all fun c => c != 0 && c != ch '%')
    (h : (ch '<' :: (name ++ [ch ' '])).isPrefixOf fmt) {size : Nat} (hs : name.length + 2 < size)
    (hno : [lit "iq", lit "message", lit "presence"].contains name = false) (args : List Arg) :
    Utters i (toward me i) (send_raw me (snprintf size fmt args)) :=
  utters_send me (by rwa [isStanza, rootName_snprintf hn (List.isPrefixOf_iff_prefix.mp h) hs args])

theorem utters_features : Utters i (toward me i) (handle_handshake_logic me) :=
  have head : ∀ {fmt : Str} (args : List Arg), (ch '<' :: (lit "?xml" ++ [ch ' '])).isPrefixOf fmt →
      Utters i (toward me i) (send_raw me (snprintf 512 fmt args)) := fun args h =>
    utters_format me (lit "?xml") (by decide) h (by decide) (by decide) args
  .after (.step fun _ => .same rfl rfl) fun id => .after (steady_ctxOf me) fun c => .ite
    (.after (steady_keep me fun _ => rfl) fun _ => head _ (by decide +kernel))
    (.ite (.before (head _ (by decide +kernel)) fun _ => steady_keep me fun _ => rfl) (head _ (by decide +kernel)))

theorem speaks_header (s : Server) :
    Speaks i (if greets (s.client_registry me) then toward me i else 0) s (streamHeader me s).2 := by
  have named : Does (Speaks i 0) (modCtx me fun c =>
      { c with client_from := extract_stream_attr (cstr c.rx) "from" 64 }) := steady_keep me fun _ => rfl
  have clear : Does (Speaks i 0) (modCtx me fun c => { c with rx := [] }) := steady_keep me fun _ => rfl
  rw [streamHeader_run]
  by_cases hg : greets (s.client_registry me)
  · rw [headerAnswer, if_neg hg.1, if_neg hg.2, if_pos hg]
    exact Utters.after named (fun _ => Utters.before (utters_features me) fun _ => clear) s
  · rw [if_neg hg]
    refine steady_run (.bind named fun _ => .bind ?_ fun _ => clear) s
    unfold headerAnswer
    split
    · exact .bind (steady_emit rfl) fun _ => .bind (steady_emit rfl) fun _ => steady_keep me fun _ => rfl
    · split
      · exact .bind (steady_emit rfl) fun _ => steady_emit rfl
      · exact absurd ⟨‹_›, ‹_›⟩ hg

theorem failures_sent (c : Ctx) : c.on_stanza_sent.sasl_failures = c.sasl_failures := by
  unfold Ctx.on_stanza_sent
  split <;> rfl

theorem speaks_failure (s : Server) :
    Speaks i ((if SASL_MAX_FAILURES ≤ (s.client_registry me).sasl_failures + 1 then 2 else 1) * toward me i) s
      (saslFailure me s).2 := by
  let count : Ctx → Ctx := fun c => { c with sasl_failures := c.sasl_failures + 1 }
  have hcount : Does (Speaks i 0) (modCtx me count) := steady_keep me fun _ => rfl
  have told := Utters.before (utters_send (i := i) me (by decide : isStanza SASL_NOT_AUTHORIZED = false)) (fun _ => hcount) s
  have hf : ((send_raw me SASL_NOT_AUTHORIZED >>= fun _ => modCtx me count) s).2.client_registry me =
      count (s.client_registry me).on_stanza_sent := by
    rw [← send_raw_reg_self s me SASL_NOT_AUTHORIZED]
    exact setCtx_reg_self _ me _
  have hrun : saslFailure me s = (do
      let c ← ctxOf me
      if c.sasl_failures ≥ SASL_MAX_FAILURES then
        send_raw me POLICY_VIOLATION
        emit (.tcp_close c.pcb)
        modCtx me fun c => { c with pcb := none, state := .CONNECTED })
      ((send_raw me SASL_NOT_AUTHORIZED >>= fun _ => modCtx me count) s).2 := rfl
  rw [hrun, bind_run, ctxOf]
  dsimp only
  rw [hf]
  generalize ((send_raw me SASL_NOT_AUTHORIZED >>= fun _ => modCtx me count) s).2 = u at told ⊢
  have hn : (count (s.client_registry me).on_stanza_sent).sasl_failures = (s.client_registry me).sasl_failures + 1 :=
    congrArg (· + 1) (failures_sent _)
  rw [hn]
  split
  · have last : Utters i (toward me i) (do
        send_raw me POLICY_VIOLATION
        emit (.tcp_close (count (s.client_registry me).on_stanza_sent).pcb)
        modCtx me fun c => { c with pcb := none, state := .CONNECTED } : M Unit) :=
      .before (utters_send me (by decide)) fun _ => .bind (steady_emit rfl) fun _ => steady_keep me fun _ => rfl
    have both := told.trans (last u)
    rw [Nat.two_mul]
    exact both
  · rw [Nat.one_mul]
    exact told

theorem speaks_auth (st : Stanza) (s : Server) :
    Speaks i (authTexts (s.client_registry me) st * toward me i) s (handle_sasl me st s).2 := by
  have one : ∀ {text : Str}, ¬ checkFails (s.client_registry me) st → isStanza text = false →
      Speaks i (authTexts (s.client_registry me) st * toward me i) s (send_raw me text s).2 := by
    intro text hc ht
    have h1 : authTexts (s.client_registry me) st = 1 := if_neg fun h => hc h.1
    rw [h1, Nat.one_mul]
    exact utters_send me ht s
  by_cases ht : (s.client_registry me).tls_established
  swap
  · have hrun : handle_sasl me st s = send_raw me SASL_ENCRYPTION_REQUIRED s := by
      rw [handle_sasl, bind_run]
      exact congrFun (if_pos ht) s
    rw [hrun]
    exact one (by simp [checkFails, ht]) (by decide)
  rw [handle_sasl_run me st ht]
  by_cases hr : saslRefused st.mechanism
  · rw [if_pos hr]
    exact one (by simp [checkFails, hr]) (by decide)
  rw [if_neg hr]
  cases hm : b64decode st.payload 127 with
  | none => exact one (by simp [checkFails, hm]) (by decide)
  | some m =>
    let name : Ctx → Ctx := fun c => { c with username := saslName m }
    have named : Does (Speaks i 0) (modCtx me name) := steady_keep me fun _ => rfl
    have hself : ((modCtx me name s).2.client_registry me).sasl_failures = (s.client_registry me).sasl_failures := by
      have hreg : (modCtx me name s).2.client_registry me = name (s.client_registry me) := setCtx_reg_self s me _
      rw [hreg]
    have hcheck : checkFails (s.client_registry me) st = true ↔ saslDenied st.mechanism m := by
      simp [checkFails, ht, hr, hm]
    dsimp only
    rw [saslDecoded_eq, authTexts, bind_run, ← hself]
    refine (steady_run named s).after ?_
    by_cases hd : saslDenied st.mechanism m
    · simp only [hcheck.mpr hd, true_and, if_pos hd]
      exact speaks_failure me _
    · have hn : ¬ (checkFails (s.client_registry me) st ∧
          SASL_MAX_FAILURES ≤ ((modCtx me name s).2.client_registry me).sasl_failures + 1) := fun h => hd (hcheck.mp h.1)
      have succeed : Utters i (toward me i) (saslSucceed me) :=
        .before (utters_send me (by decide)) fun _ => steady_keep me fun _ => rfl
      rw [if_neg hd, if_neg hn, Nat.one_mul]
      exact succeed _

theorem utters_request : Utters i (toward me i) (smAnswer me .request) :=
  .after (steady_ctxOf me) fun _ => utters_format me (lit "a") (by decide) (by decide) (by decide) (by decide) _

theorem speaks_ack (s : Server) : Speaks i (if (s.client_registry me).sm_enabled then toward me i else 0) s
    ((Deed.ack me).perform s).2 := by
  let noted : Ctx → Ctx := fun c => { c with sm_want_ack := false }
  have hn : Does (Speaks i 0) (modCtx me noted) := steady_keep me fun _ => rfl
  have hself : ((modCtx me noted s).2.client_registry me) = noted (s.client_registry me) := setCtx_reg_self s me _
  refine (steady_run hn s).after ?_
  change Speaks i _ _ ((xmpp_sm_request_ack me) (modCtx me noted s).2).2
  rw [xmpp_sm_request_ack, bind_run, ctxOf]
  dsimp only
  rw [hself]
  split
  · exact utters_send me (by decide) _
  · exact .refl _

/-- What is done to the context of another client leaves the counters alone. -/
theorem speaks_elsewhere {me : Slot} (h : me ≠ i) (f : Ctx → Ctx) : Utters i 0 (modCtx me f) := fun s => by
  refine .quiet rfl fun he => ?_
  have hreg : (modCtx me f s).2.client_registry i = s.client_registry i := setCtx_reg_of_ne s me (Ne.symm h) _
  rw [hreg] at he ⊢
  exact ⟨he, rfl, rfl⟩

end Answers

/-! Every deed. -/

/-- The elements of a kind that a deed takes for stanzas of a context. -/
def Deed.receives (p : List Byte → Bool) (s : Server) (i : Slot) : Deed → Nat
  | .stanza me _ => if me = i ∧ p ((s.client_registry me).rx.dropWhile isWs) then 1 else 0
  | _ => 0

/-- What a deed adds to the counters of a context, which may be cleared, and to its texts. -/
structure Added (i : Slot) (d : Deed) (s s' : Server) : Prop where
  counts : (s'.client_registry i).sm_enabled → (s.client_registry i).sm_enabled ∧
    (s'.client_registry i).sm_inbound_h =
      (s.client_registry i).sm_inbound_h + UInt32.ofNat (d.receives (fun _ => true) s i) ∧
    (s'.client_registry i).sm_outbound_count + UInt32.ofNat (textsTo i s) =
      (s.client_registry i).sm_outbound_count + UInt32.ofNat (textsTo i s')
  others : othersTo i s' = othersTo i s + d.others s i

theorem Speaks.added {d : Deed} {s' : Server} (h : Speaks i (d.others s i) s s')
    (hr : d.receives (fun _ => true) s i = 0) : Added i d s s' := by
  refine ⟨fun he => ?_, h.others⟩
  obtain ⟨hon, hin, hout⟩ := h.counts he
  refine ⟨hon, ?_, hout⟩
  rw [hr, hin]
  exact (UInt32.add_zero _).symm

theorem speaks_route {me : Slot} {st : Stanza} (h : StanzaOk st) :
    Speaks i (if restarts st then toward me i else 0) s (xmpp_route_stanza me st s).2 := by
  have hlog : Speaks i 0 s { s with routed := s.routed ++ [(s.client_registry me, st)] } := .same rfl rfl
  refine hlog.after ?_
  have hx := stamped_xmlns (s.client_registry me) st
  have hst := stamped_ok (c := s.client_registry me) h
  change Speaks i _ _ (dispatch me (s.client_registry me) (stamped (s.client_registry me) st) _).2
  generalize stamped (s.client_registry me) st = st' at hx hst ⊢
  by_cases hr : restarts st
  · have hr' : st'.xmlns ≠ [] ∧ (strstr st'.xmlns (lit "stream")).isSome := hx ▸ hr
    rw [if_pos hr, dispatch, if_pos hr']
    exact utters_features me _
  · have hr' : ¬ restarts st' := by rwa [restarts, hx]
    rw [if_neg hr]
    exact steady_run (steady_dispatch hst hr') _

theorem added_stanza {me : Slot} {st : Stanza} (h : StanzaOk st) :
    Added i (.stanza me st) s (after s (.stanza me st)) := by
  have hroute : Speaks i ((Deed.stanza me st).others s i) s (xmpp_route_stanza me st s).2 := speaks_route h
  have hafter : after s (.stanza me st) = (modCtx me Ctx.on_stanza_received (xmpp_route_stanza me st s).2).2 := rfl
  rw [hafter]
  generalize (xmpp_route_stanza me st s).2 = t at hroute ⊢
  by_cases hi : me = i
  · subst hi
    have hreg : (modCtx me Ctx.on_stanza_received t).2.client_registry me = (t.client_registry me).on_stanza_received :=
      setCtx_reg_self t me _
    refine ⟨fun he => ?_, hroute.others⟩
    rw [hreg] at he ⊢
    unfold Ctx.on_stanza_received at he ⊢
    split at he
    · rename_i hon
      obtain ⟨hon', hin, hout⟩ := hroute.counts hon
      have hone : (Deed.stanza me st).receives (fun _ => true) s me = 1 := if_pos ⟨rfl, rfl⟩
      rw [if_pos hon, hone]
      exact ⟨hon', congrArg (· + 1) hin, hout⟩
    · rename_i hoff
      exact absurd he hoff
  · have hzero : (Deed.stanza me st).receives (fun _ => true) s i = 0 := if_neg fun h => hi h.1
    have hrest : Speaks i 0 t (modCtx me Ctx.on_stanza_received t).2 := speaks_elsewhere hi _ t
    exact (hroute.trans hrest).added hzero

theorem speaks_accept (pcb : Pcb) (s : Server) : Speaks i 0 s (after s (.accept pcb)) := by
  have he : after s (.accept pcb) = _ := accept_eq pcb s
  have hnone : (evicted s).filterMap Out.posted = [] := by
    unfold evicted
    split <;> rfl
  rw [he]
  refine .quiet ?_ fun hon => ?_
  · rw [sends, List.filterMap_append, hnone, List.append_nil, sends]
  · dsimp only at hon ⊢
    by_cases hi : i = s.client_idx
    · subst hi
      rw [Function.update_self] at hon
      cases hon
    · rw [Function.update_of_ne hi] at hon ⊢
      exact ⟨hon, rfl, rfl⟩

/-- The counters start over. -/
def Ctx.managed (c : Ctx) : Ctx := { c with sm_enabled := true, sm_inbound_h := 0, sm_outbound_count := 0 }

theorem after_enable_eq (s : Server) (me : Slot) :
    after s (.element me .enable) =
      (send_raw me (snprintf 256 fmtEnabled [.u ((s.random s.draws).toNat % 0xFFFFFF)])
        (modCtx me Ctx.managed { s with draws := s.draws + 1 }).2).2 := rfl

theorem enabled_text (args : List Arg) : isStanza (snprintf 256 fmtEnabled args) = false := by
  have hp : ch '<' :: (lit "enabled" ++ [ch ' ']) <+: fmtEnabled := by
    rw [← List.isPrefixOf_iff_prefix]
    decide
  rw [isStanza, rootName_snprintf (by decide) hp (by decide) args]
  decide

/-- Stream management of another client. -/
theorem speaks_enable {me : Slot} (h : me ≠ i) : Speaks i (toward me i) s (after s (.element me .enable)) := by
  have drawn : Speaks i 0 s { s with draws := s.draws + 1 } := .same rfl rfl
  rw [after_enable_eq]
  exact drawn.after ((speaks_elsewhere h _ _).after (utters_send me (enabled_text _) _))

/-- The answer to `<enable/>` is counted already. -/
theorem after_enable (s : Server) (i : Slot) :
    let c := (after s (.element i .enable)).client_registry i
    (c.sm_inbound_h = 0 ∧ c.sm_outbound_count = 1) ∧
      textsTo i (after s (.element i .enable)) = textsTo i s + 1 ∧
      othersTo i (after s (.element i .enable)) = othersTo i s + 1 := by
  have hreg : (modCtx i Ctx.managed { s with draws := s.draws + 1 }).2.client_registry i =
      Ctx.managed (s.client_registry i) := setCtx_reg_self _ i _
  have hlog : sends (modCtx i Ctx.managed { s with draws := s.draws + 1 }).2 = sends s := rfl
  rw [after_enable_eq]
  generalize (modCtx i Ctx.managed { s with draws := s.draws + 1 }).2 = t at hreg hlog ⊢
  refine ⟨?_, ?_, ?_⟩
  · rw [send_raw_reg_self, hreg]
    exact ⟨rfl, rfl⟩
  · rw [textsTo, sends_send_raw, List.countP_append, List.countP_singleton, hlog, textsTo]
    simp
  · rw [othersTo, sends_send_raw, List.countP_append, List.countP_singleton, hlog, othersTo, enabled_text]
    simp

theorem deed_added {d : Deed} (h : d.Due s) (i : Slot) (hd : d ≠ .element i .enable) : Added i d s (after s d) := by
  have steady : ∀ d' : Deed, Does (Speaks i 0) d'.perform → d'.others s i = 0 →
      d'.receives (fun _ => true) s i = 0 → Added i d' s (after s d') := fun d' hm ho hr =>
    Speaks.added (ho ▸ steady_run hm s) hr
  have clear : ∀ me : Slot, Does (Speaks i 0) (Deed.err me).perform := fun me => steady_clear me rfl
  cases d with
  | accept pcb => exact Speaks.added (d := .accept pcb) (speaks_accept pcb s) rfl
  | fin me pcb => exact steady (.fin me pcb) ((wire_speaks i me).fin pcb) rfl rfl
  | err me => exact steady (.err me) (clear me) rfl rfl
  | handshake me data hs => exact steady (.handshake me data hs) ((wire_speaks i me).handshake data hs) rfl rfl
  | decrypt me data reads => exact steady (.decrypt me data reads) ((wire_speaks i me).decrypt data reads) rfl rfl
  | copy me data => exact steady (.copy me data) (steady_keep me fun _ => rfl) rfl rfl
  | refuse me pcb text =>
    exact steady (.refuse me pcb text) ((wire_speaks i me).refuse pcb text) rfl rfl
  | trim me => exact steady (.trim me) (steady_keep me fun _ => rfl) rfl rfl
  | starttls me setup => exact steady (.starttls me setup) ((wire_speaks i me).starttls setup) rfl rfl
  | closeStream me => exact steady (.closeStream me) (wire_speaks i me).closeStream rfl rfl
  | header me => exact Speaks.added (d := .header me) (speaks_header me s) rfl
  | abort me =>
    have told : Utters i (toward me i) (send_raw me SASL_ABORTED) := utters_send me (by decide)
    exact Speaks.added (d := .abort me) (told s) rfl
  | element me e =>
    cases e with
    | enable => exact Speaks.added (d := .element me .enable) (speaks_enable fun hi => hd (hi ▸ rfl)) rfl
    | request => exact Speaks.added (d := .element me .request) (utters_request me s) rfl
    | answer => exact steady (.element me .answer) (.pure ()) rfl rfl
  | auth me st => exact Speaks.added (d := .auth me st) (speaks_auth me st s) rfl
  | stanza me st => exact added_stanza h.2.ok
  | pool k used => exact Speaks.added (d := .pool k used) (.same rfl rfl) rfl
  | consume me n => exact steady (.consume me n) (steady_keep me fun _ => rfl) rfl rfl
  | ack me => exact Speaks.added (d := .ack me) (speaks_ack me s) rfl

/-! Along a course. -/

section Course
variable (s : Server) (ds : List Deed) (i : Slot)

/-- The sum of what the deeds from `k` on and before `n` contribute. -/
def tallied (f : Server → Deed → Nat) (k n : Nat) : Nat :=
  ∑ j ∈ Finset.Ico k n, (ds[j]?).elim 0 (f (stateAt s ds j))

/-- The last time that stream management was enabled. -/
structure LastEnable (k n : Nat) : Prop where
  lt : k < n
  here : ds[k]? = some (.element i .enable)
  last : ∀ j : Nat, k < j → j < n → ds[j]? ≠ some (.element i .enable)

variable {s ds i} {f g : Server → Deed → Nat} {k n : Nat}

theorem tallied_succ (h : k ≤ n) :
    tallied s ds f k (n + 1) = tallied s ds f k n + (ds[n]?).elim 0 (f (stateAt s ds n)) :=
  Finset.sum_Ico_succ_top h _

theorem tallied_self : tallied s ds f n n = 0 := by
  rw [tallied, Finset.Ico_self, Finset.sum_empty]

theorem tallied_add : tallied s ds (fun s d => f s d + g s d) k n = tallied s ds f k n + tallied s ds g k n := by
  rw [tallied, tallied, tallied, ← Finset.sum_add_distrib]
  refine Finset.sum_congr rfl fun j _ => ?_
  cases ds[j]? <;> rfl

theorem course_others (h : Course s ds) (hk : k ≤ n) :
    othersTo i (stateAt s ds n) = othersTo i (stateAt s ds k) + tallied s ds (fun s d => d.others s i) k n := by
  induction n, hk using Nat.le_induction with
  | base => rw [tallied_self, Nat.add_zero]
  | succ n hn ih =>
    rw [tallied_succ hn]
    cases hd : ds[n]? with
    | none => rw [stateAt_end hd, ih, Option.elim_none, Nat.add_zero]
    | some d =>
      rw [stateAt_succ hd, Option.elim_some, ← Nat.add_assoc, ← ih]
      by_cases he : d = .element i .enable
      · subst he
        have hone : (Deed.element i .enable).others (stateAt s ds n) i = 1 := if_pos rfl
        rw [hone]
        exact (after_enable _ i).2.2
      · exact (deed_added (h n d hd) i he).others

/-- The counters since stream management was last enabled. -/
structure Reckoned (s : Server) (ds : List Deed) (i : Slot) (k n : Nat) : Prop extends LastEnable ds i k n where
  inbound : ((stateAt s ds n).client_registry i).sm_inbound_h =
    UInt32.ofNat (tallied s ds (fun s d => d.receives (fun _ => true) s i) k n)
  outbound : ((stateAt s ds n).client_registry i).sm_outbound_count + UInt32.ofNat (textsTo i (stateAt s ds k)) =
    UInt32.ofNat (textsTo i (stateAt s ds n))

theorem LastEnable.succ (h : LastEnable ds i k n) (hn : ds[n]? ≠ some (.element i .enable)) :
    LastEnable ds i k (n + 1) := by
  refine ⟨Nat.lt_succ_of_lt h.lt, h.here, fun j hkj hjn => ?_⟩
  rcases Nat.lt_succ_iff_lt_or_eq.mp hjn with hlt | rfl
  · exact h.last j hkj hlt
  · exact hn

theorem course_reckoned (h : Course s ds) (h0 : ¬ (s.client_registry i).sm_enabled) (n : Nat)
    (hon : ((stateAt s ds n).client_registry i).sm_enabled) : ∃ k, Reckoned s ds i k n := by
  induction n with
  | zero => exact absurd hon h0
  | succ n ih =>
    cases hd : ds[n]? with
    | none =>
      rw [stateAt_end hd] at hon
      obtain ⟨k, hk⟩ := ih hon
      refine ⟨k, hk.toLastEnable.succ (by simp [hd]), ?_, ?_⟩
      · rw [stateAt_end hd, hk.inbound, tallied_succ (Nat.le_of_lt hk.lt), hd, Option.elim_none, Nat.add_zero]
      · rw [stateAt_end hd, hk.outbound]
    | some d =>
      by_cases he : d = .element i .enable
      · subst he
        obtain ⟨⟨hin, hout⟩, htexts, -⟩ := after_enable (stateAt s ds n) i
        refine ⟨n, ⟨Nat.lt_succ_self n, hd, fun j hj hj' => by omega⟩, ?_, ?_⟩
        · rw [stateAt_succ hd, hin, tallied_succ (Nat.le_refl n), tallied_self, hd]
          rfl
        · rw [stateAt_succ hd, hout, htexts, UInt32.ofNat_add, UInt32.add_comm]
          rfl
      · have added := deed_added (h n d hd) i he
        rw [stateAt_succ hd] at hon
        obtain ⟨hon', hin, hout⟩ := added.counts hon
        obtain ⟨k, hk⟩ := ih hon'
        refine ⟨k, hk.toLastEnable.succ (by simpa [hd] using he), ?_, ?_⟩
        · rw [stateAt_succ hd, hin, hk.inbound, tallied_succ (Nat.le_of_lt hk.lt), hd, Option.elim_some, UInt32.ofNat_add]
        · have hk' := hk.outbound
          rw [stateAt_succ hd]
          grind

/-- A counter that counts too much is right when the surplus is a multiple of its size. -/
theorem counter_iff {c : UInt32} {a b : Nat} (h : c = UInt32.ofNat (a + b)) : c.toNat = a % 2 ^ 32 ↔ 2 ^ 32 ∣ b := by
  rw [h, UInt32.toNat_ofNat']
  omega

theorem receives_split (s : Server) (i : Slot) (d : Deed) :
    d.receives (fun _ => true) s i = d.receives isStanza s i + d.receives (fun w => !isStanza w) s i := by
  cases d with
  | stanza me st =>
    unfold Deed.receives
    by_cases hi : me = i
    · subst hi
      cases hw : isStanza ((s.client_registry me).rx.dropWhile isWs) <;> simp [hw]
    · simp [hi]
  | _ => rfl

end Course

/-- In every run and for every client with stream management, since it was last enabled: the count of what was
received is that of its stanzas exactly when the number of other elements is a multiple of 2^32, and the count of what
was sent is that of the stanzas sent exactly when the number of other texts is, the answer to `<enable/>` among them. -/
theorem counters_exact_iff (m : Machine) (es : List Event) :
    (∃ ds, Machine.Courses m es ds) ∧ ∀ ds, Machine.Courses m es ds → ∀ n i,
      ((stateAt m.boot ds n).client_registry i).sm_enabled → ∃ k, LastEnable ds i k n ∧
        let c := (stateAt m.boot ds n).client_registry i
        (c.sm_inbound_h.toNat = tallied m.boot ds (fun s d => d.receives isStanza s i) k n % 2 ^ 32 ↔
          2 ^ 32 ∣ tallied m.boot ds (fun s d => d.receives (fun w => !isStanza w) s i) k n) ∧
        (c.sm_outbound_count.toNat =
            (stanzasTo i (stateAt m.boot ds n) - stanzasTo i (stateAt m.boot ds k)) % 2 ^ 32 ↔
          2 ^ 32 ∣ tallied m.boot ds (fun s d => d.others s i) k n) := by
  refine ⟨run_course m es, fun ds hc n i hon => ?_⟩
  have h0 : ¬ (m.boot.client_registry i).sm_enabled := by
    have hz : m.boot.client_registry i = .zero := rfl
    rw [hz]
    decide
  obtain ⟨k, hk⟩ := course_reckoned hc.1 h0 n hon
  refine ⟨k, hk.toLastEnable, counter_iff ?_, counter_iff ?_⟩
  · rw [hk.inbound, ← tallied_add]
    simp only [← receives_split]
  · have hle : stanzasTo i (stateAt m.boot ds k) ≤ stanzasTo i (stateAt m.boot ds n) :=
      ((actions_send (course_between hc.1 (Nat.le_of_lt hk.lt))).sublist).countP_le
    have hothers := course_others (i := i) hc.1 (Nat.le_of_lt hk.lt)
    have hout := hk.outbound
    rw [textsTo_eq, textsTo_eq, hothers] at hout
    generalize hS : stanzasTo i (stateAt m.boot ds n) - stanzasTo i (stateAt m.boot ds k) = S
    have hn : stanzasTo i (stateAt m.boot ds n) = stanzasTo i (stateAt m.boot ds k) + S := by omega
    rw [hn] at hout
    simp only [UInt32.ofNat_add] at hout ⊢
    grind

/-- The administrator binds and enables stream management. -/
def managed : List Event := visit 7 authAdmin [lit "<enable xmlns='urn:xmpp:sm:3'/>"]

/-- The answer to `<enable/>` is counted as sent, and an unknown element as received. -/
theorem strangers_counted :
    let s := blank.run managed
    let t := blank.run (managed ++ [.recv 7 [passed (lit "<gossip/>")] true])
    ((s.client_registry 0).sm_enabled ∧ (s.client_registry 0).sm_outbound_count = 1 ∧
        (sends s).getLast? = some (0, lit "<enabled xmlns='urn:xmpp:sm:3' id='angelic%06x' resume='false'/>")) ∧
      (t.client_registry 0).sm_enabled ∧ (t.client_registry 0).sm_inbound_h = 1 ∧ sends t = sends s := by
  decide +kernel

end Angelic.Proofs
