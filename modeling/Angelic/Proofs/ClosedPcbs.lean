import Angelic.Proofs.Pcbs

namespace Angelic.Proofs
open CString Model StateRel

/-! Deeds that can go wrong. -/

section Adopt
variable {i : Slot} {p : Pcb} {s : Server}

/-- A pcb that is not closed and has no argument yet, or this one, is given to a context. -/
theorem Pcbs.adopt (h : Pcbs none s) (hp : ¬ Closed s p) (ha : s.tcp_arg p = none ∨ s.tcp_arg p = some i) {c : Ctx}
    (hc : c.pcb = some p) : Pcbs none { s.setCtx i c with tcp_arg := Function.update s.tcp_arg p (some i) } := by
  have held : ∀ j q, ((s.setCtx i c).client_registry j).pcb = some q → j = i ∧ q = p ∨ (s.client_registry j).pcb = some q := by
    intro j q hj
    by_cases hji : j = i
    · subst hji
      rw [setCtx_reg_self, hc] at hj
      exact .inl ⟨rfl, (Option.some.inj hj).symm⟩
    · rw [setCtx_reg_of_ne s i hji] at hj
      exact .inr hj
  have other : ∀ {q : Pcb} {j : Slot}, s.tcp_arg q = some j → q = p → j = i := by
    rintro q j hq rfl
    rcases ha with ha | ha
    · exact absurd (ha.symm.trans hq) (Option.some_ne_none j).symm
    · exact Option.some.inj (hq.symm.trans ha)
  refine ⟨h.orderly, fun q hq j hx hj => ?_, fun j q hj => ?_, fun q hq => ?_⟩
  · rcases held j q hj with ⟨-, rfl⟩ | hj
    · exact hp hq
    · exact h.unheld q hq j hx hj
  · change Function.update s.tcp_arg p (some i) q = some j
    by_cases hqp : q = p
    · rcases held j q hj with ⟨rfl, -⟩ | hj
      · rw [hqp, Function.update_self]
      · rw [hqp, Function.update_self, other (h.arg j q hj) hqp]
    · rw [Function.update_of_ne hqp]
      exact h.arg j q ((held j q hj).resolve_left fun hn => hqp hn.2)
  · change Function.update s.tcp_arg p (some i) q ≠ none
    by_cases hqp : q = p
    · rw [hqp, Function.update_self]
      exact Option.some_ne_none i
    · rw [Function.update_of_ne hqp]
      exact h.known q hq

/-- A pcb of a context's callback is closed, whether the context has it or not. -/
theorem Pcbs.closeArg (h : Pcbs none s) (ha : s.tcp_arg p = some i) (hp : ¬ Closed s p) :
    Pcbs (some i) (s.emit (.tcp_close (some p))) := by
  have hclosed : ∀ q, Closed (s.emit (.tcp_close (some p))) q ↔ Closed s q ∨ some p = some q := fun q =>
    HandleLog.closed_snoc
  refine ⟨HandleLog.orderly_snoc.mpr ⟨h.orderly, fun q hq he => hp ?_⟩, fun q hq j hj he => ?_, h.arg, fun q hq => ?_⟩
  · rwa [Option.some.inj he]
  · rcases (hclosed q).mp hq with hq | hq
    · exact h.unheld q hq j (Option.some_ne_none j).symm he
    · exact hj (ha.symm.trans ((Option.some.inj hq) ▸ h.arg j q he))
  · rcases (hclosed q).mp hq with hq | hq
    · exact h.known q hq
    · rw [← Option.some.inj hq]
      exact fun hn => Option.some_ne_none i (ha.symm.trans hn)

theorem careful_accept (h : Pcbs none s) (hp : s.tcp_arg p = none) : Pcbs none (after s (.accept p)) := by
  have he : after s (.accept p) = _ := accept_eq p s
  -- the context whose turn it is loses its pcb, which is closed, and then has the new one
  have freed : Pcbs none ({ s with out := s.out ++ evicted s, client_idx := s.client_idx + 1 }.setCtx s.client_idx .zero) := by
    unfold evicted
    split
    · exact ((h.close s.client_idx).drop rfl).frame rfl rfl fun _ => .inl rfl
    · rw [List.append_nil]
      exact (careful_clear (f := fun _ => Ctx.zero) (fun _ => rfl) s h).frame rfl rfl fun _ => .inl rfl
  have hn : ¬ Closed ({ s with out := s.out ++ evicted s, client_idx := s.client_idx + 1 }.setCtx s.client_idx .zero) p :=
    fun hc => freed.known p hc hp
  rw [he]
  have new := freed.adopt hn (i := s.client_idx) (.inl hp) (c := { Ctx.zero with pcb := some p }) rfl
  refine new.frame rfl rfl fun j => .inl ?_
  by_cases hj : j = s.client_idx
  · subst hj
    simp [Server.setCtx]
  · simp [Server.setCtx, hj]

end Adopt

/-- A call with a closed pcb spoils the log for good. -/
theorem not_orderly {log : List Out} {o : Out} {p : Pcb} (h : HandleLog.Closed Out.closes log p) (ho : Out.pcb o = some p)
    (w : List Out) : ¬ HandleLog.Orderly Out.pcb Out.closes (log ++ w ++ [o]) := fun hl =>
  have ⟨a, ha, hc⟩ := h
  (HandleLog.orderly_snoc.mp hl).2 p ⟨a, List.mem_append_left w ha, hc⟩ ho

/-- What a deed must be like: a connection is reported closed to a context that has none only if the server has not
closed it, and so is one that is refused; a stream header with wrong namespaces or version comes without a
connection. -/
def Deed.Spares (s : Server) : Deed → Prop
  | .fin me pcb => (s.client_registry me).pcb = none → ¬ Closed s pcb
  | .refuse _ pcb _ => ¬ Closed s pcb
  | .header me =>
    let c := s.client_registry me
    c.pcb.isSome → ¬ wrongHost c → ¬ badHeader c
  | _ => True

section Iff
variable {me : Slot} {pcb : Pcb} {s : Server}

theorem closePcb_out {p : Pcb} (hp : (s.client_registry me).pcb = some p) :
    (closePcb me s).2.out = s.out ++ [.tcp_close (some p)] := by
  have hsome : (s.client_registry me).pcb.isSome := by rw [hp]; rfl
  have hrun : closePcb me s = (do
      emit (.tcp_close (s.client_registry me).pcb)
      modCtx me fun c => { c with pcb := none } : M Unit) s := by
    rw [closePcb, bind_run]
    exact congrFun (if_pos hsome) s
  rw [hrun, hp]
  rfl

theorem fin_out {p : Pcb} (hp : (s.client_registry me).pcb = some p) :
    ∃ w, (send_stream_close_and_free me s).2.out = s.out ++ w ++ [.tcp_close (some p)] := by
  have rest : ∀ t : Server, (t.client_registry me).pcb = some p → ((do
      modCtx me Ctx.tls_client_free
      closePcb me
      modCtx me fun c => { c with state := .CONNECTED } : M Unit) t).2.out = t.out ++ [.tcp_close (some p)] := by
    intro t ht
    have hfree : ((modCtx me Ctx.tls_client_free t).2.client_registry me).pcb = some p :=
      (setCtx_pcb (pcb_free _) me).trans ht
    exact closePcb_out hfree
  rw [send_stream_close_and_free, bind_run, ctxOf]
  dsimp only
  split
  · exact ⟨_, rest (s.emit _) hp⟩
  · split
    · exact ⟨_, rest (s.emit _) hp⟩
    · exact ⟨[], (rest s hp).trans (by rw [List.append_nil])⟩

theorem fin_iff (h : Pcbs none s) (ha : s.tcp_arg pcb = some me) :
    (Pcbs none (after s (.fin me pcb)) ∧ (Deed.fin me pcb).Spares s) ∨
      ¬ PcbSafe (after s (.fin me pcb)) ∧ ¬ (Deed.fin me pcb).Spares s := by
  by_cases hn : (s.client_registry me).pcb = none
  · have hrun : after s (.fin me pcb) = (send_stream_close_and_free me
        (modCtx me (fun c => { c with pcb := some pcb }) s).2).2 := by
      change ((recvClose me pcb) s).2 = _
      rw [recvClose, bind_run]
      exact congrArg Prod.snd (congrFun (if_pos hn) s)
    rw [hrun]
    by_cases hc : Closed s pcb
    · refine .inr ⟨fun hsafe => ?_, fun hs => hs hn hc⟩
      have hself : ((modCtx me (fun c => { c with pcb := some pcb }) s).2.client_registry me).pcb = some pcb := by
        change ((s.setCtx me _).client_registry me).pcb = _
        rw [setCtx_reg_self]
      obtain ⟨w, hw⟩ := fin_out hself
      have hl := hsafe.orderly
      rw [hw] at hl
      exact not_orderly hc rfl w hl
    · have new := h.adopt hc (.inr ha) (c := { s.client_registry me with pcb := some pcb }) rfl
      have hu : Function.update s.tcp_arg pcb (some me) = s.tcp_arg := by
        rw [← ha, Function.update_eq_self]
      rw [hu] at new
      exact .inl ⟨careful_close_and_free me _ new, fun _ => hc⟩
  · have hrun : after s (.fin me pcb) = (send_stream_close_and_free me s).2 := by
      change ((recvClose me pcb) s).2 = _
      rw [recvClose, bind_run]
      exact congrArg Prod.snd (congrFun (if_neg hn) s)
    rw [hrun]
    exact .inl ⟨careful_close_and_free me s h, fun hn' => absurd hn' hn⟩

theorem refuse_iff (h : Pcbs none s) (ha : s.tcp_arg pcb = some me) (text : Str) :
    (Pcbs none (after s (.refuse me pcb text)) ∧ (Deed.refuse me pcb text).Spares s) ∨
      ¬ PcbSafe (after s (.refuse me pcb text)) ∧ ¬ (Deed.refuse me pcb text).Spares s := by
  have hrun : after s (.refuse me pcb text) =
      (modCtx me (fun c => { c with pcb := none, state := .CONNECTED })
        ((s.emit (.tcp_write (some pcb) text)).emit (.tcp_close (some pcb)))).2 := rfl
  by_cases hc : Closed s pcb
  · refine .inr ⟨fun hsafe => ?_, fun hs => hs hc⟩
    exact not_orderly hc rfl [.tcp_write (some pcb) text] hsafe.orderly
  · refine .inl ⟨?_, hc⟩
    rw [hrun]
    have hclosed : ∀ q, Closed (s.emit (.tcp_write (some pcb) text)) q ↔ Closed s q := fun q =>
      HandleLog.closed_snoc_of_none rfl
    have written : Pcbs none (s.emit (.tcp_write (some pcb) text)) :=
      ⟨HandleLog.orderly_snoc.mpr ⟨h.orderly, fun q hq he => hc ((Option.some.inj he) ▸ hq)⟩,
        fun q hq => h.unheld q ((hclosed q).mp hq), h.arg, fun q hq => h.known q ((hclosed q).mp hq)⟩
    exact (written.closeArg ha fun hq => hc ((hclosed pcb).mp hq)).drop rfl

theorem has_close_none : Triple (Has me none) (emit (.tcp_close none)) fun _ => Has me none := fun s hs =>
  have hclosed : ∀ q, Closed (s.emit (.tcp_close none)) q ↔ Closed s q := fun _ => HandleLog.closed_snoc_of_none rfl
  ⟨⟨HandleLog.orderly_snoc.mpr ⟨hs.1.orderly, fun q _ => (Option.some_ne_none q).symm⟩,
    fun q hq => hs.1.unheld q ((hclosed q).mp hq), hs.1.arg, fun q hq => hs.1.known q ((hclosed q).mp hq)⟩, hs.2⟩

theorem after_header {P Q : Server → Prop}
    (named : Triple P (modCtx me fun c => { c with client_from := extract_stream_attr (cstr c.rx) "from" 64 }) fun _ => P)
    (answer : Triple P (headerAnswer me (s.client_registry me)) fun _ => Q)
    (cleared : Triple Q (modCtx me fun c => { c with rx := [] }) fun _ => Q) (hs : P s) : Q (after s (.header me)) := by
  have hrun : after s (.header me) = _ := congrArg Prod.snd (streamHeader_run me s)
  rw [hrun]
  exact Triple.bind named (fun _ => .bind answer fun _ => cleared) s hs

/-- A refused header leaves the context the pcb it was closed with. -/
theorem refused_header_keeps {p : Pcb} (hp : (s.client_registry me).pcb = some p)
    (hw : ¬ wrongHost (s.client_registry me)) (hb : badHeader (s.client_registry me)) :
    ¬ PcbSafe (after s (.header me)) := by
  let Kept : Server → Prop := fun t => (t.client_registry me).pcb = some p
  have keep : ∀ {f : Ctx → Ctx}, (∀ c, (f c).pcb = c.pcb) → Triple Kept (modCtx me f) fun _ => Kept := fun hf t ht =>
    (setCtx_pcb (hf _) me).trans ht
  have answer : Triple Kept (headerAnswer me (s.client_registry me)) fun _ t => Closed t p ∧ Kept t := by
    rw [headerAnswer, if_neg hw, if_pos hb, hp]
    exact .bind (Q := fun _ => Kept) (fun _ h => h) fun _ t ht => ⟨HandleLog.closed_snoc.mpr (.inr rfl), ht⟩
  have hafter : Closed (after s (.header me)) p ∧ Kept (after s (.header me)) := by
    refine after_header (keep fun _ => rfl) answer (fun t ht => ⟨ht.1, ?_⟩) hp
    exact keep (f := fun c => { c with rx := [] }) (fun _ => rfl) t ht.2
  exact fun hsafe => hsafe.unheld p hafter.1 me hafter.2

theorem header_iff (h : Pcbs none s) : (Pcbs none (after s (.header me)) ∧ (Deed.header me).Spares s) ∨
      ¬ PcbSafe (after s (.header me)) ∧ ¬ (Deed.header me).Spares s := by
  by_cases hbad : (s.client_registry me).pcb.isSome ∧ ¬ wrongHost (s.client_registry me) ∧ badHeader (s.client_registry me)
  · obtain ⟨hs, hw, hb⟩ := hbad
    obtain ⟨p, hp⟩ := Option.isSome_iff_exists.mp hs
    exact .inr ⟨refused_header_keeps hp hw hb, fun hn => hn hs hw hb⟩
  · refine .inl ⟨?_, fun hs hw hb => hbad ⟨hs, hw, hb⟩⟩
    have answer : Triple (Has me (s.client_registry me).pcb) (headerAnswer me (s.client_registry me)) fun _ => Pcbs none := by
      unfold headerAnswer
      split
      · exact .bind (has_use rfl rfl) fun _ => has_closed fun _ => rfl
      · split
        · rename_i hw hb
          have hnone : (s.client_registry me).pcb = none := by
            by_contra hn
            exact hbad ⟨Option.isSome_iff_ne_none.mpr hn, hw, hb⟩
          rw [hnone]
          exact .bind (has_use rfl rfl) fun _ => has_close_none.conseq (fun _ h => h) fun _ _ h => h.1
        · exact has_careful (careful_features me)
    exact after_header (has_modCtx fun _ => rfl) answer (careful_modCtx fun _ => rfl) ⟨h, rfl⟩

end Iff

/-- A deed that spares closed pcbs leaves all well, and one that does not does not. A new connection has a pcb of its
own. -/
theorem deed_spares {s : Server} {d : Deed} (hd : d.Due s) (hf : ∀ p, d = .accept p → s.tcp_arg p = none)
    (h : Pcbs none s) : (Pcbs none (after s d) ∧ d.Spares s) ∨ ¬ PcbSafe (after s d) ∧ ¬ d.Spares s := by
  have kept : ∀ {me : Slot} {f : Ctx → Ctx}, (∀ c, (f c).pcb = c.pcb) → Pcbs none (modCtx me f s).2 := fun hc =>
    careful_modCtx hc s h
  cases d with
  | accept p => exact .inl ⟨careful_accept h (hf p rfl), trivial⟩
  | fin me pcb => exact fin_iff h hd
  | err me => exact .inl ⟨careful_clear (f := fun _ => Ctx.zero) (fun _ => rfl) s h, trivial⟩
  | handshake me data hs => exact .inl ⟨careful_handshake me data hs s h, trivial⟩
  | decrypt me data reads => exact .inl ⟨careful_decrypt me data reads s h, trivial⟩
  | copy me data => exact .inl ⟨kept (f := fun c => { c with rx := c.rx ++ data }) fun _ => rfl, trivial⟩
  | refuse me pcb text => exact refuse_iff h hd text
  | trim me => exact .inl ⟨kept (f := fun c => { c with rx := c.rx.dropWhile isWs }) fun _ => rfl, trivial⟩
  | starttls me setup => exact .inl ⟨careful_starttls me setup s h, trivial⟩
  | closeStream me => exact .inl ⟨careful_closeStream me s h, trivial⟩
  | header me => exact header_iff h
  | abort me => exact .inl ⟨careful_send me _ s h, trivial⟩
  | element me e => exact .inl ⟨careful_smAnswer me e s h, trivial⟩
  | auth me st => exact .inl ⟨careful_handle_sasl me st s h, trivial⟩
  | stanza me st => exact .inl ⟨careful_stanza me hd.2.ok s h, trivial⟩
  | pool k used => exact .inl ⟨h.frame rfl rfl fun _ => .inl rfl, trivial⟩
  | consume me n => exact .inl ⟨kept (f := fun c => { c with rx := c.rx.drop n }) fun _ => rfl, trivial⟩
  | ack me =>
    have ack : Careful (Deed.ack me).perform :=
      .bind (careful_modCtx fun _ => rfl) fun _ => .bind (Q := fun _ => Pcbs none) (fun _ h => h) fun _ =>
        .ite (fun _ => careful_send me _) fun _ => .pure fun _ h => h
    exact .inl ⟨ack s h, trivial⟩

theorem pcbs_boot (m : Machine) : Pcbs none m.boot := by
  have hout : m.boot.out = [] := rfl
  have hreg : ∀ i, (m.boot.client_registry i).pcb = none := fun _ => rfl
  have hclosed : ∀ p, ¬ Closed m.boot p := by
    rintro p ⟨o, ho, -⟩
    rw [hout] at ho
    exact List.not_mem_nil ho
  refine ⟨hout ▸ List.Pairwise.nil, fun p hp => absurd hp (hclosed p), fun i p hp => ?_, fun p hp => absurd hp (hclosed p)⟩
  rw [hreg] at hp
  cases hp

/-- In every run in which each connection has a pcb of its own, no closed pcb is kept or used exactly when each deed
spares them. -/
theorem closed_pcbs_spared_iff (m : Machine) (es : List Event) :
    (∃ ds, Machine.Courses m es ds) ∧ ∀ ds, Machine.Courses m es ds →
      (∀ (n : Nat) p, ds[n]? = some (.accept p) → (stateAt m.boot ds n).tcp_arg p = none) →
      ((∀ n, PcbSafe (stateAt m.boot ds n)) ↔
        ∀ (n : Nat) (d : Deed), ds[n]? = some d → d.Spares (stateAt m.boot ds n)) := by
  refine ⟨run_course m es, fun ds hc hfresh => ?_⟩
  refine course_safe_iff (Q := fun s d => d.Spares s) (pcbs_boot m) (fun _ h => h.safe) fun n d hd hn => ?_
  rw [stateAt_succ hd]
  exact deed_spares (hc.1 n d hd) (fun p hp => hfresh n p (hp ▸ hd)) hn

/-- A stream header without a version, and then the client closes the connection. -/
def versionless : List Event :=
  [.accept 7, .recv 7 [passed (cat ["<stream:stream to='angelic.local' xmlns='jabber:client' ",
    "xmlns:stream='http://etherx.jabber.org/streams'>"])] true, .close 7]

/-- The context keeps the pcb it closed, which is then closed again. -/
theorem closed_pcb_reused :
    let s := blank.run (versionless.take 2)
    let t := blank.run versionless
    (s.client_registry 0).pcb = some 7 ∧ s.out = [.tcp_write (some 7) UNSUPPORTED_VERSION, .tcp_close (some 7)] ∧
      t.out = [.tcp_write (some 7) UNSUPPORTED_VERSION, .tcp_close (some 7), .tcp_close (some 7)] := by
  decide +kernel

end Angelic.Proofs
