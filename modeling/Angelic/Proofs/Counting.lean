import Angelic.Proofs.Wires
import Angelic.Proofs.Sasl
import Angelic.Proofs.Routing

namespace Angelic.Proofs
open CString Model StateRel Relation

/-! What each deed does to the counters of stream management, and what it sends meanwhile. -/

/-! Texts that are stanzas. -/

def nameByte (b : Byte) : Bool := !(isWs b || b == ch '/' || b == ch '>')

/-- The name of the tag a text begins with. -/
def rootName (w : List Byte) : Str := if w.head? = some (ch '<') then w.tail.takeWhile nameByte else []

def isStanza (w : List Byte) : Bool := [lit "iq", lit "message", lit "presence"].contains (rootName w)

theorem rootName_of_starts {name w : Str} (hn : name.all nameByte) (h : ch '<' :: (name ++ [ch ' ']) <+: w) :
    rootName w = name := by
  obtain ⟨t, rfl⟩ := h
  have hstop : nameByte (ch ' ') = false := by decide
  rw [rootName, List.cons_append, List.head?_cons, if_pos rfl, List.tail_cons, List.append_assoc,
    List.takeWhile_append_of_pos (fun b hb => List.all_eq_true.mp hn b hb), List.singleton_append,
    List.takeWhile_cons_of_neg (by simp [hstop]), List.append_nil]

/-- A format says which tag its texts begin with. -/
theorem rootName_snprintf {name fmt : Str} (hn : name.all nameByte && name.all fun c => c != 0 && c != ch '%')
    (h : ch '<' :: (name ++ [ch ' ']) <+: fmt) {size : Nat} (hs : name.length + 2 < size) (args : List Arg) :
    rootName (snprintf size fmt args) = name := by
  obtain ⟨hname, hplain⟩ := Bool.and_eq_true_iff.mp hn
  refine rootName_of_starts hname (snprintf_starts h ?_ ?_ args)
  · rw [List.all_cons, List.all_append, hplain]
    decide
  · rw [List.length_cons, List.length_append, List.length_singleton]
    exact hs

/-- The tags the formats of the handlers begin with. -/
theorem handlerFormats_start : (handlerFormats.map Prod.fst ++ [fmtBound]).all fun fmt =>
    ["iq", "message", "presence"].any fun name => (ch '<' :: (lit name ++ [ch ' '])).isPrefixOf fmt := by
  decide +kernel

theorem isStanza_snprintf {fmt : Str} (h : fmt ∈ handlerFormats.map Prod.fst ++ [fmtBound]) {size : Nat}
    (hs : 16 ≤ size) (args : List Arg) : isStanza (snprintf size fmt args) := by
  have hf := List.all_eq_true.mp handlerFormats_start fmt h
  simp only [List.any_cons, List.any_nil, Bool.or_false, Bool.or_eq_true, List.isPrefixOf_iff_prefix] at hf
  have ok : ∀ {name : Str}, ch '<' :: (name ++ [ch ' ']) <+: fmt →
      (name.all nameByte && name.all fun c => c != 0 && c != ch '%') = true → name.length ≤ 13 →
      [lit "iq", lit "message", lit "presence"].contains name → isStanza (snprintf size fmt args) := by
    intro name hp hn hl hc
    rw [isStanza, rootName_snprintf hn hp (by omega) args]
    exact hc
  rcases hf with hf | hf | hf
  · exact ok hf (by decide) (by decide) (by decide)
  · exact ok hf (by decide) (by decide) (by decide)
  · exact ok hf (by decide) (by decide) (by decide)

theorem Formatted.isStanza {text : Str} (h : Formatted text) : isStanza text := by
  obtain ⟨size, fmt, args, hf, hs, rfl⟩ := h
  exact isStanza_snprintf (List.mem_append_left _ (List.mem_map_of_mem (f := Prod.fst) hf)) hs args

/-! Texts to a context. -/

section Log
variable (i : Slot) (s : Server)

def textsTo : Nat := (sends s).countP fun p => p.1 == i
def stanzasTo : Nat := (sends s).countP fun p => p.1 == i && isStanza p.2
def othersTo : Nat := (sends s).countP fun p => p.1 == i && !isStanza p.2

theorem textsTo_eq : textsTo i s = stanzasTo i s + othersTo i s := by
  unfold textsTo stanzasTo othersTo
  induction sends s with
  | nil => rfl
  | cons p l ih =>
    rw [List.countP_cons, List.countP_cons, List.countP_cons, ih]
    cases hi : p.1 == i
    · simp
    · cases hp : isStanza p.2 <;> simp <;> omega

end Log

/-- The counters of a context that still counts have counted its texts; nothing was received. And `k`
texts that are not stanzas were sent to it. -/
structure Speaks (i : Slot) (k : Nat) (s s' : Server) : Prop where
  counts : (s'.client_registry i).sm_enabled → (s.client_registry i).sm_enabled ∧
    (s'.client_registry i).sm_inbound_h = (s.client_registry i).sm_inbound_h ∧
    (s'.client_registry i).sm_outbound_count + UInt32.ofNat (textsTo i s) =
      (s.client_registry i).sm_outbound_count + UInt32.ofNat (textsTo i s')
  others : othersTo i s' = othersTo i s + k

section Rules
variable {i j : Slot} {k k' : Nat} {s s' s'' : Server}

theorem Speaks.refl (s : Server) : Speaks i 0 s s := ⟨fun h => ⟨h, rfl, rfl⟩, rfl⟩

theorem Speaks.trans (h : Speaks i k s s') (h' : Speaks i k' s' s'') : Speaks i (k + k') s s'' := by
  refine ⟨fun he => ?_, by rw [h'.others, h.others, Nat.add_assoc]⟩
  obtain ⟨he', hin', hout'⟩ := h'.counts he
  obtain ⟨he, hin, hout⟩ := h.counts he'
  exact ⟨he, hin'.trans hin, by grind⟩

/-- Nothing is sent and the counters are left alone or cleared. -/
theorem Speaks.quiet (hs : sends s' = sends s)
    (hc : (s'.client_registry i).sm_enabled → (s.client_registry i).sm_enabled ∧
      (s'.client_registry i).sm_inbound_h = (s.client_registry i).sm_inbound_h ∧
      (s'.client_registry i).sm_outbound_count = (s.client_registry i).sm_outbound_count) : Speaks i 0 s s' := by
  have ht : textsTo i s' = textsTo i s := by rw [textsTo, hs, textsTo]
  refine ⟨fun he => ?_, by rw [othersTo, hs, othersTo, Nat.add_zero]⟩
  obtain ⟨he, hin, hout⟩ := hc he
  exact ⟨he, hin, by rw [hout, ht]⟩

theorem Speaks.same (hs : sends s' = sends s) (hr : s'.client_registry = s.client_registry) : Speaks i 0 s s' :=
  .quiet hs fun he => by
    rw [hr] at he ⊢
    exact ⟨he, rfl, rfl⟩

theorem sends_send_raw (j : Slot) (text : Str) (s : Server) :
    sends (send_raw j text s).2 = sends s ++ [(j, text)] := by
  rw [sends, sends]
  exact List.filterMap_append

theorem Speaks.send (j : Slot) (text : Str) (s : Server) :
    Speaks i (if j = i ∧ isStanza text = false then 1 else 0) s (send_raw j text s).2 := by
  have hlog := sends_send_raw j text s
  have hreg : (send_raw j text s).2.client_registry =
      Function.update s.client_registry j (s.client_registry j).on_stanza_sent := rfl
  constructor
  · intro he
    rw [textsTo, textsTo, hlog, List.countP_append, List.countP_singleton]
    rw [hreg] at he ⊢
    by_cases hj : j = i
    · subst hj
      rw [Function.update_self] at he ⊢
      unfold Ctx.on_stanza_sent at he ⊢
      split at he
      · rename_i hon
        rw [if_pos hon]
        refine ⟨hon, rfl, ?_⟩
        rw [if_pos (beq_self_eq_true j), UInt32.ofNat_add]
        grind
      · rename_i hoff
        exact absurd he hoff
    · rw [Function.update_of_ne (Ne.symm hj)] at he ⊢
      rw [if_neg (by simpa using hj), Nat.add_zero]
      exact ⟨he, rfl, rfl⟩
  · rw [othersTo, othersTo, hlog, List.countP_append, List.countP_singleton]
    simp

theorem Speaks.modCtx (j : Slot) {f : Ctx → Ctx} (h : ∀ c, (f c).sm_enabled → c.sm_enabled ∧
      (f c).sm_inbound_h = c.sm_inbound_h ∧ (f c).sm_outbound_count = c.sm_outbound_count) (s : Server) :
    Speaks i 0 s (modCtx j f s).2 := by
  refine .quiet rfl fun he => ?_
  have hreg : (Model.modCtx j f s).2.client_registry = Function.update s.client_registry j (f (s.client_registry j)) := rfl
  rw [hreg] at he ⊢
  by_cases hj : j = i
  · subst hj
    rw [Function.update_self] at he ⊢
    exact h _ he
  · rw [Function.update_of_ne (Ne.symm hj)] at he ⊢
    exact ⟨he, rfl, rfl⟩

theorem Speaks.emit {o : Out} (h : Out.posted o = none) (s : Server) : Speaks i 0 s (emit o s).2 := by
  refine .same ?_ rfl
  rw [sends, sends]
  change List.filterMap _ (s.out ++ [o]) = _
  rw [List.filterMap_append, List.filterMap_cons_none h, List.filterMap_nil, List.append_nil]

end Rules

/-! Work that sends stanzas only. -/

section Steady
variable {i : Slot}

theorem steady_run {m : M α} (h : Does (Speaks i 0) m) (s : Server) : Speaks i 0 s (m s).2 :=
  h.rel Speaks.refl (fun _ _ _ h h' => h.trans h') (fun _ _ h => h) s

theorem steady_stanza (j : Slot) {text : Str} (h : isStanza text) : Does (Speaks i 0) (send_raw j text) :=
  .step fun s => by
    have hsent := Speaks.send (i := i) j text s
    rwa [if_neg (by simp [h])] at hsent

theorem steady_keep (j : Slot) {f : Ctx → Ctx} (h : ∀ c : Ctx, Ctx.counts (f c) = Ctx.counts c) :
    Does (Speaks i 0) (modCtx j f) :=
  .step fun s => .modCtx j (fun c he => by
    have hc := h c
    rw [Ctx.counts, Ctx.counts, Prod.mk.injEq, Prod.mk.injEq] at hc
    exact ⟨hc.1 ▸ he, hc.2⟩) s

theorem steady_clear (j : Slot) {c : Ctx} (h : c.sm_enabled = false) : Does (Speaks i 0) (modCtx j fun _ => c) :=
  .step fun s => .modCtx j (fun _ he => absurd he (by simp [h])) s

theorem steady_emit {o : Out} (h : Out.posted o = none) : Does (Speaks i 0) (emit o) := .step (Speaks.emit h)

theorem steady_ctxOf (j : Slot) : Does (Speaks i 0) (ctxOf j) := .read fun _ => rfl

theorem touch_steady {k : StoreId} {s s' : Server} (h : Touch k s s') : Speaks i 0 s s' := by
  cases h with
  | send j hf => exact steady_run (steady_stanza j hf.isStanza) s
  | change t ho hk => exact .same rfl rfl

theorem effect_steady {me : Slot} {s s' : Server} (h : Effect me s s') : Speaks i 0 s s' := by
  cases h with
  | send j hf => exact steady_run (steady_stanza j hf.isStanza) s
  | note hc hn =>
    refine .modCtx me (fun c he => ?_) s
    have hon : (Ctx.core _).sm_enabled = _ := congrArg Ctx.sm_enabled (hc c)
    have hin : (Ctx.core _).sm_inbound_h = _ := congrArg Ctx.sm_inbound_h (hc c)
    exact ⟨hon.symm.trans he, hin, hn c⟩
  | ready hst =>
    refine .modCtx me (fun c he => ?_) s
    exact ⟨he, rfl, rfl⟩
  | version => exact .same rfl rfl
  | occupants t ht hk => exact .same rfl rfl
  | saved t k ht =>
    have hw : Speaks i 0 s t := by
      induction ht with
      | refl => exact .refl s
      | tail _ h ih => exact ih.trans (touch_steady h)
    have hsaved : Speaks i 0 t (persist k.save t).2 := .same rfl rfl
    exact hw.trans hsaved

theorem steady_effects {me : Slot} {m : M α} (h : Does (Effect me) m) : Does (Speaks i 0) m :=
  h.mono fun _ _ he => .single (effect_steady he)

theorem steady_bind (me : Slot) (st : Stanza) : Does (Speaks i 0) (handle_core_bind me st) := by
  have conflict : ∀ j, Does (Speaks i 0) (conflictOne me j) := fun j =>
    .bind (steady_ctxOf j) fun c => .bind (steady_ctxOf me) fun own => .ite
      (.ite (.bind (steady_emit rfl) fun _ => .bind (steady_emit rfl) fun _ => steady_clear j rfl)
        (.bind (steady_emit rfl) fun _ => .bind (steady_emit rfl) fun _ => steady_clear j rfl))
      (.pure _)
  refine .bind (steady_ctxOf me) fun c => .ite (.ite ?_ ?_) (.bind (.step fun _ => .same rfl rfl) fun r =>
    .bind (steady_keep me fun _ => rfl) fun _ => .bind (does_forAll conflict) fun _ =>
      .bind (steady_stanza me ?_) fun _ => steady_keep me fun _ => rfl)
  · exact steady_stanza me (Formatted.of (by simp [handlerFormats])).isStanza
  · exact steady_stanza me (Formatted.of (by simp [handlerFormats])).isStanza
  · exact isStanza_snprintf (List.mem_append_right _ (List.mem_singleton_self _)) (by decide) _

theorem steady_session (me : Slot) (st : Stanza) : Does (Speaks i 0) (handle_core_session me st) :=
  .bind (steady_stanza me (Formatted.of (by simp [handlerFormats])).isStanza) fun _ => steady_keep me fun _ => rfl

/-- A stanza is answered with stanzas, unless it is taken for a stream header. -/
theorem steady_dispatch {me : Slot} {c : Ctx} {st : Stanza} (h : StanzaOk st) (hr : ¬ restarts st) :
    Does (Speaks i 0) (dispatch me c st) :=
  dispatch_all (X := Does (Speaks i 0)) h (fun hs => absurd hs hr) (fun _ => steady_bind me st) (fun _ => steady_session me st)
    fun _ he => steady_effects he

end Steady

theorem wire_speaks (i me : Slot) : Wire me (Speaks i 0) where
  keeps h s := steady_run (steady_keep me h) s
  emits := Speaks.emit

end Angelic.Proofs
