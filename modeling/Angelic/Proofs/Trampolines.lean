import Angelic.Lib.Stack
import Angelic.Model.Mpk
import Mathlib.Data.Fin.VecNotation
import Mathlib.Data.Fintype.Basic
import Mathlib.Tactic.FinCases
import Mathlib.Tactic.IntervalCases

namespace Angelic.Proofs
open Model Stack

/-! The calling convention. -/

def argRegs : List Reg := [.rdi, .rsi, .rdx, .rcx, .r8, .r9]
def calleeSaved : List Reg := [.rbx, .rbp, .r12, .r13, .r14, .r15]

/-- `rsp + 8` is a multiple of 16 where a function is entered. -/
def Aligned (s : Cpu) : Prop := (s.reg .rsp + 8).toNat % 16 = 0

/-- What a function entered in `s` has kept when it returns in `t`. The frame of its caller, which it was
given no pointer to, is the `words` words from its return address on. -/
structure Returns (words : Nat) (s t : Cpu) : Prop where
  rip : t.rip = s.mem (s.reg .rsp)
  rsp : t.reg .rsp = s.reg .rsp + 8
  saved : ∀ r ∈ calleeSaved, t.reg r = s.reg r
  frame : ∀ a, (a - s.reg .rsp).toNat < 8 * words → t.mem a = s.mem a

/-- The function keeps to the System V ABI: entered on an aligned stack, it returns. -/
def SysV (words : Nat) (f : Cpu → Option Cpu) : Prop := ∀ s, Aligned s → ∃ t, f s = some t ∧ Returns words s t

/-- The function does so on every stack. -/
def SysVAnywhere (words : Nat) (f : Cpu → Option Cpu) : Prop := ∀ s, ∃ t, f s = some t ∧ Returns words s t

/-! One call. -/

/-- The words of a trampoline's frame: the return address of the function, the registers pushed, `rbp` and
the return address of the trampoline. -/
def frameWords : Fin 5 → Nat := ![4, 5, 6, 7, 7]

section Call
variable (code : UInt64 → Cpu → Option Cpu) (next ra : UInt64)

/-- `call mpk_trampoline_n` with `ra` the address after it. -/
def callTrampoline (n : Fin 5) (s : Cpu) : Option Exec := exec code next (mpk_trampoline n) ⟨s.push ra, []⟩

/-- The function is entered once, with the driver unlocked and its arguments in place, and the caller gets
back its result and its registers with the driver locked. -/
def Meets (n : Fin 5) (s : Cpu) : Prop :=
  ∃ e entry t, callTrampoline code next ra n s = some e ∧ e.entered = [(s.reg .rdi, entry)] ∧
    entry.pkru = 0 ∧ (∀ i < n.val, (argRegs[i]?).map entry.reg = (argRegs[i + 1]?).map s.reg) ∧
    code (s.reg .rdi) entry = some t ∧
    e.cpu.rip = ra ∧ e.cpu.pkru = 0x0C ∧ e.cpu.reg .rax = t.reg .rax ∧ e.cpu.reg .rsp = s.reg .rsp ∧
    ∀ r ∈ calleeSaved, e.cpu.reg r = s.reg r

variable {code next ra}

theorem exec_append (a b : List Instr) (e : Exec) :
    exec code next (a ++ b) e = (exec code next a e).bind (exec code next b) := by
  induction a generalizing e with
  | nil => rfl
  | cons i a ih =>
    simp only [List.cons_append, exec, Option.bind_assoc]
    congr 1
    funext e'
    exact ih e'

@[simp] theorem set_same (s : Cpu) (r : Reg) (v : UInt64) : (s.set r v).reg r = v := Function.update_self ..

theorem set_other (s : Cpu) {r x : Reg} (v : UInt64) (h : x ≠ r) : (s.set r v).reg x = s.reg x := by
  rw [Cpu.set]
  exact Function.update_of_ne h v s.reg

theorem pop_reg (s : Cpu) {r x : Reg} (hr : x ≠ r) (hs : x ≠ .rsp) : (s.pop r).reg x = s.reg x := by
  rw [Cpu.pop, set_other _ _ hr, set_other _ _ hs]

theorem pop_rsp (s : Cpu) {r : Reg} (h : .rsp ≠ r) : (s.pop r).reg .rsp = s.reg .rsp + 8 := by
  rw [Cpu.pop, set_other _ _ h, set_same]

variable (code next) in
/-- The end of every trampoline: the registers are popped, `rbp` last, and it returns. -/
theorem restore (rs : List Reg) (v : Reg → UInt64) (b : UInt64) {s : Cpu} (log : List (UInt64 × Cpu))
    (hd : rs.Nodup) (hsp : .rsp ∉ rs) (hbp : .rbp ∉ rs) (h : Stacked s.mem (s.reg .rsp) (rs.map v ++ [b, ra])) :
    ∃ t, exec code next (rs.map .pop ++ [.pop .rbp, .ret]) ⟨s, log⟩ = some ⟨t, log⟩ ∧ t.rip = ra ∧
      t.pkru = s.pkru ∧ t.reg .rsp = s.reg .rsp + UInt64.ofNat (8 * (rs.length + 2)) ∧ t.reg .rbp = b ∧
      (∀ r ∈ rs, t.reg r = v r) ∧ ∀ r ∉ rs, r ≠ .rbp → r ≠ .rsp → t.reg r = s.reg r := by
  induction rs generalizing s with
  | nil =>
    obtain ⟨hb, hr, -⟩ := h
    refine ⟨(s.pop .rbp).ret, rfl, hr, rfl, ?_, ?_, fun _ hr => absurd hr List.not_mem_nil, ?_⟩
    · change (s.pop .rbp).reg .rsp + 8 = _
      rw [pop_rsp s (by decide), UInt64.add_assoc]
      rfl
    · exact hb
    · intro r _ hrb hrs
      exact (set_other _ _ hrs).trans (pop_reg s hrb hrs)
  | cons x rs ih =>
    obtain ⟨hx, hrest⟩ := h
    have hxs : .rsp ≠ x := fun he => hsp (he ▸ List.mem_cons_self)
    have hxb : .rbp ≠ x := fun he => hbp (he ▸ List.mem_cons_self)
    have hnx : x ∉ rs := (List.nodup_cons.mp hd).1
    have hst : Stacked (s.pop x).mem ((s.pop x).reg .rsp) (rs.map v ++ [b, ra]) := by
      rw [pop_rsp s hxs]
      exact hrest
    obtain ⟨t, he, hrip, hpk, hrsp, hrbp, hin, hout⟩ := ih (List.nodup_cons.mp hd).2
      (fun hm => hsp (List.mem_cons_of_mem x hm)) (fun hm => hbp (List.mem_cons_of_mem x hm)) hst
    refine ⟨t, he, hrip, hpk, ?_, hrbp, ?_, ?_⟩
    · rw [hrsp, pop_rsp s hxs, UInt64.add_assoc, List.length_cons, show 8 * (rs.length + 1 + 2) = 8 + 8 * (rs.length + 2) by omega,
        UInt64.ofNat_add]
      rfl
    · intro r hr
      rcases List.mem_cons.mp hr with rfl | hr
      · rw [hout r hnx hxb.symm hxs.symm]
        exact (set_same _ _ _).trans hx
      · exact hin r hr
    · intro r hr hrb hrs
      obtain ⟨hne, hnr⟩ := not_or.mp (mt List.mem_cons.mpr hr)
      rw [hout r hnr hrb hrs, pop_reg s hne hrs]

theorem step_wrpkru {e : Exec} (hc : (e.cpu.reg .rcx).toUInt32 = 0) (hd : (e.cpu.reg .rdx).toUInt32 = 0) :
    Instr.wrpkru.step code next e = some (e.onto { e.cpu with pkru := (e.cpu.reg .rax).toUInt32 }) := by
  unfold Instr.step
  exact if_pos ⟨hc, hd⟩

/-- `PKRU` is set to what is put into `eax`, by way of `ecx` and `edx`. -/
theorem gate {i : Instr} {v : UInt32}
    (hi : ∀ e, i.step code next e = some (e.onto (e.cpu.set .rax v.toUInt64))) (e : Exec) :
    exec code next [.zero .rcx, .zero .rdx, i, .wrpkru] e =
      some (e.onto { ((e.cpu.set .rcx 0).set .rdx 0).set .rax v.toUInt64 with pkru := v }) := by
  let d := ((e.cpu.set .rcx 0).set .rdx 0).set .rax v.toUInt64
  have hw : Instr.wrpkru.step code next (e.onto d) = some (e.onto { d with pkru := (v.toUInt64).toUInt32 }) :=
    step_wrpkru rfl rfl
  change ((i.step code next (e.onto ((e.cpu.set .rcx 0).set .rdx 0))).bind (exec code next [.wrpkru])) = _
  rw [hi]
  change (Instr.wrpkru.step code next (e.onto d)).bind some = _
  rw [hw, UInt32.toUInt32_toUInt64]
  rfl

/-- What a trampoline does between the return of the function and its own. -/
def leave (rs : List Reg) : List Instr :=
  .push .rax :: ([.zero .rcx, .zero .rdx, .load .rax 0x0C, .wrpkru] ++ .pop .rax :: (rs.map .pop ++ [.pop .rbp, .ret]))

variable (code next) in
theorem leave_ok (rs : List Reg) (v : Reg → UInt64) (b : UInt64) {s : Cpu} (log : List (UInt64 × Cpu))
    (hd : rs.Nodup) (hin : ∀ r ∈ rs, r ∈ calleeSaved) (hbp : .rbp ∉ rs) (hl : rs.length < 2 ^ 59)
    (h : Stacked s.mem (s.reg .rsp) (rs.map v ++ [b, ra])) :
    ∃ t, exec code next (leave rs) ⟨s, log⟩ = some ⟨t, log⟩ ∧ t.rip = ra ∧ t.pkru = 0x0C ∧
      t.reg .rax = s.reg .rax ∧ t.reg .rsp = s.reg .rsp + UInt64.ofNat (8 * (rs.length + 2)) ∧ t.reg .rbp = b ∧
      (∀ r ∈ rs, t.reg r = v r) ∧ ∀ r ∈ calleeSaved, r ∉ rs → r ≠ .rbp → t.reg r = s.reg r := by
  have hlen : (rs.map v ++ [b, ra]).length < 2 ^ 60 := by
    rw [List.length_append, List.length_map]
    change rs.length + 2 < 2 ^ 60
    omega
  -- the result waits on the stack while `eax` is used
  obtain ⟨hrax, hst⟩ := h.push hlen (s.reg .rax)
  let c := (s.push (s.reg .rax)).set .rcx 0
  let d := { (c.set .rdx 0).set .rax (0x0C : UInt32).toUInt64 with pkru := 0x0C }
  have hrsp : (d.pop .rax).reg .rsp = s.reg .rsp := by
    change s.reg .rsp - 8 + 8 = s.reg .rsp
    exact UInt64.sub_add_cancel ..
  have hst' : Stacked (d.pop .rax).mem ((d.pop .rax).reg .rsp) (rs.map v ++ [b, ra]) := by
    rw [hrsp]
    rw [UInt64.sub_add_cancel] at hst
    exact hst
  have hsp : .rsp ∉ rs := fun hm => absurd (hin _ hm) (by decide)
  have hax : .rax ∉ rs := fun hm => absurd (hin _ hm) (by decide)
  obtain ⟨t, he, hrip, hpk, hts, htb, hrs, hout⟩ := restore code next rs v b log hd hsp hbp hst'
  refine ⟨t, ?_, hrip, hpk, ?_, hts.trans (by rw [hrsp]), htb, hrs, ?_⟩
  · change exec code next ([.zero .rcx, .zero .rdx, .load .rax 0x0C, .wrpkru] ++
      .pop .rax :: (rs.map .pop ++ [.pop .rbp, .ret])) ⟨s.push (s.reg .rax), log⟩ = _
    rw [exec_append, gate (fun _ => rfl)]
    exact he
  · rw [hout .rax hax (by decide) (by decide)]
    exact hrax
  · intro r hr hn hb
    have hkept : (d.pop .rax).reg r = s.reg r := by fin_cases hr <;> rfl
    have hsp' : r ≠ .rsp := fun he => absurd (he ▸ hr) (by decide)
    rw [hout r hn hb hsp', hkept]

/-- The registers each trampoline pushes after `rbp`, the last first. -/
def pushed : Fin 5 → List Reg :=
  ![[.r12], [.r13, .r12], [.r14, .r13, .r12], [.r15, .r14, .r13, .r12], [.r15, .r14, .r13, .r12]]

/-- How every trampoline begins. -/
def setUp (rs : List Reg) : List Instr := .push .rbp :: .mov .rbp .rsp :: rs.reverse.map .push

/-- What a trampoline does between that and its call. -/
def shuffle (n : Fin 5) : List Instr :=
  ((mpk_trampoline n).drop (setUp (pushed n)).length).takeWhile fun i => i ≠ .call .r12

theorem trampoline_eq (n : Fin 5) :
    mpk_trampoline n = setUp (pushed n) ++ (shuffle n ++ .call .r12 :: leave (pushed n)) := by
  revert n
  decide

theorem pushed_ok (n : Fin 5) : (pushed n).Nodup ∧ (∀ r ∈ pushed n, r ∈ calleeSaved) ∧ .rbp ∉ pushed n ∧
    .r12 ∈ pushed n ∧ frameWords n = (pushed n).length + 3 := by
  revert n
  decide

variable (code next) in
/-- A frame is set up: the registers are on the stack and as they were, but for `rbp`. -/
theorem setUp_ok (rs : List Reg) (hsp : .rsp ∉ rs) (hbp : .rbp ∉ rs) (hl : rs.length < 2 ^ 59) (s : Cpu) (ra : UInt64) :
    ∃ p, exec code next (setUp rs) ⟨s.push ra, []⟩ = some ⟨p, []⟩ ∧
      p.reg .rsp = s.reg .rsp - UInt64.ofNat (8 * (rs.length + 2)) ∧ (∀ r, r ≠ .rsp → r ≠ .rbp → p.reg r = s.reg r) ∧
      Stacked p.mem (p.reg .rsp) (rs.map s.reg ++ [s.reg .rbp, ra]) := by
  induction rs with
  | nil =>
    have h : Stacked (s.push ra).mem ((s.push ra).reg .rsp) [ra] := ⟨Function.update_self .., trivial⟩
    refine ⟨_, rfl, ?_, ?_, h.push (by simp) (s.reg .rbp)⟩
    · change s.reg .rsp - 8 - 8 = _
      rw [sub_words]
      rfl
    · intro r hs hb
      exact (set_other _ _ hb).trans ((set_other _ _ hs).trans (set_other _ _ hs))
  | cons x rs ih =>
    have hxs : x ≠ .rsp := fun he => hsp (he ▸ List.mem_cons_self)
    have hxb : x ≠ .rbp := fun he => hbp (he ▸ List.mem_cons_self)
    rw [List.length_cons] at hl
    obtain ⟨p, he, hrsp, hreg, hst⟩ := ih (fun hm => hsp (List.mem_cons_of_mem x hm))
      (fun hm => hbp (List.mem_cons_of_mem x hm)) (by omega)
    have heq : setUp (x :: rs) = setUp rs ++ [.push x] := by simp [setUp]
    refine ⟨p.push (p.reg x), ?_, ?_, ?_, ?_⟩
    · rw [heq, exec_append, he]
      rfl
    · change p.reg .rsp - 8 = _
      rw [hrsp, sub_words, List.length_cons, show 8 * (rs.length + 1 + 2) = 8 * (rs.length + 2) + 8 by omega,
        UInt64.ofNat_add]
      rfl
    · intro r hs hb
      exact (set_other _ _ hs).trans (hreg r hs hb)
    · rw [List.map_cons, List.cons_append, ← hreg x hxs hxb]
      refine hst.push ?_ (p.reg x)
      rw [List.length_append, List.length_map]
      change rs.length + 2 < 2 ^ 60
      omega

/-- Where a trampoline stands before it calls, from where its frame is set up. -/
structure Shuffled (n : Fin 5) (s c : Cpu) : Prop where
  pkru : c.pkru = 0
  target : c.reg .r12 = s.reg .rdi
  args : ∀ i < n.val, (argRegs[i]?).map c.reg = (argRegs[i + 1]?).map s.reg
  rsp : c.reg .rsp = s.reg .rsp
  kept : ∀ r ∈ calleeSaved, r ∉ pushed n → c.reg r = s.reg r
  stack : ∀ vs, Stacked s.mem (s.reg .rsp) vs → vs.length < 2 ^ 60 → Stacked c.mem (c.reg .rsp) vs

variable (code next) in
theorem shuffle_ok (n : Fin 5) (s : Cpu) :
    ∃ c, exec code next (shuffle n) ⟨s, []⟩ = some ⟨c, []⟩ ∧ Shuffled n s c := by
  fin_cases n
  -- with four arguments the last goes through the stack
  on_goal 5 =>
    have hr8 : ((s.push (s.reg .r8)).mem ((s.push (s.reg .r8)).reg .rsp)) = s.reg .r8 := Function.update_self ..
    refine ⟨_, rfl, rfl, rfl, fun i hi => ?_, UInt64.sub_add_cancel .., fun r hr hn => ?_,
      fun _ h hl => (h.push hl (s.reg .r8)).2⟩
    · change i < 4 at hi
      interval_cases i <;> first | rfl | exact congrArg some hr8
    · fin_cases hr <;> first | rfl | exact absurd (by decide) hn
  all_goals
    refine ⟨_, rfl, rfl, rfl, fun i hi => ?_, rfl, fun r hr hn => ?_, fun _ h _ => h⟩
    · rcases i with _ | _ | _ | i <;> first | rfl | exact absurd hi (by simp)
    · fin_cases hr <;> first | rfl | exact absurd (by decide) hn

/-- Where a trampoline stands before it calls, from where it was called. -/
structure Ready (n : Fin 5) (ra : UInt64) (s c : Cpu) : Prop where
  pkru : c.pkru = 0
  target : c.reg .r12 = s.reg .rdi
  args : ∀ i < n.val, (argRegs[i]?).map c.reg = (argRegs[i + 1]?).map s.reg
  rsp : c.reg .rsp = s.reg .rsp - UInt64.ofNat (8 * ((pushed n).length + 2))
  kept : ∀ r ∈ calleeSaved, r ∉ pushed n → r ≠ .rbp → c.reg r = s.reg r
  frame : Stacked c.mem (c.reg .rsp) ((pushed n).map s.reg ++ [s.reg .rbp, ra])

theorem pushed_short (n : Fin 5) : (pushed n).length < 5 := by
  revert n
  decide

theorem args_plain : ∀ r ∈ argRegs, r ≠ .rsp ∧ r ≠ .rbp := by decide

variable (code next) in
theorem enter_ready (n : Fin 5) (s : Cpu) (ra : UInt64) :
    ∃ c, exec code next (setUp (pushed n) ++ shuffle n) ⟨s.push ra, []⟩ = some ⟨c, []⟩ ∧ Ready n ra s c := by
  obtain ⟨-, hin, hbp, -⟩ := pushed_ok n
  have hsp : .rsp ∉ pushed n := fun hm => absurd (hin _ hm) (by decide)
  have hlen := pushed_short n
  obtain ⟨p, hp, hrsp, hreg, hst⟩ := setUp_ok code next (pushed n) hsp hbp (by omega) s ra
  obtain ⟨c, hc, h⟩ := shuffle_ok code next n p
  refine ⟨c, ?_, h.pkru, h.target.trans (hreg _ (by decide) (by decide)), ?_, h.rsp.trans hrsp, ?_, h.stack _ hst ?_⟩
  · rw [exec_append, hp]
    exact hc
  · intro i hi
    rw [h.args i hi]
    cases hr : argRegs[i + 1]? with
    | none => rfl
    | some r =>
      obtain ⟨h1, h2⟩ := args_plain r (List.mem_of_getElem? hr)
      exact congrArg some (hreg r h1 h2)
  · intro r hr hn hb
    have hs : r ≠ .rsp := fun he => absurd (he ▸ hr) (by decide)
    exact (h.kept r hr hn).trans (hreg r hs hb)
  · rw [List.length_append, List.length_map]
    change (pushed n).length + 2 < 2 ^ 60
    omega

/-- A trampoline does its part when the function does its own. -/
theorem Ready.meets {n : Fin 5} {s c t : Cpu} (h : Ready n ra s c)
    (hc : exec code next (setUp (pushed n) ++ shuffle n) ⟨s.push ra, []⟩ = some ⟨c, []⟩)
    (hf : code (s.reg .rdi) (c.push next) = some t) (hr : Returns (frameWords n) (c.push next) t) :
    Meets code next ra n s := by
  obtain ⟨hd, hin, hbp, -, hw⟩ := pushed_ok n
  have hlen := pushed_short n
  have hlen' : ((pushed n).map s.reg ++ [s.reg .rbp, ra]).length = (pushed n).length + 2 := by
    rw [List.length_append, List.length_map]
    rfl
  obtain ⟨hret, hst⟩ := h.frame.push (by omega) next
  have hrip : t.rip = next := hr.rip.trans hret
  have htst : Stacked t.mem (t.reg .rsp) ((pushed n).map s.reg ++ [s.reg .rbp, ra]) := by
    rw [hr.rsp]
    refine Stacked.congr hst fun a ha => hr.frame a ?_
    rw [hlen'] at ha
    rw [hw]
    exact sub_next a _ _ ha
  obtain ⟨u, hu, hurip, hupk, hurax, hursp, hurbp, hurs, hukept⟩ := leave_ok code next (pushed n) s.reg
    (s.reg .rbp) [(s.reg .rdi, c.push next)] hd hin hbp (by omega) htst
  refine ⟨⟨u, [(s.reg .rdi, c.push next)]⟩, c.push next, t, ?_, rfl, h.pkru, ?_, hf, hurip, hupk, hurax, ?_, ?_⟩
  · have hcall : Instr.step code next (.call .r12) ⟨c, []⟩ = some ⟨t, [(s.reg .rdi, c.push next)]⟩ := by
      simp only [Instr.step, h.target, hf, hrip, if_true, List.nil_append]
    rw [callTrampoline, trampoline_eq, ← List.append_assoc, exec_append, hc]
    change (Instr.step code next (.call .r12) ⟨c, []⟩).bind (exec code next (leave (pushed n))) = _
    rw [hcall]
    exact hu
  · intro i hi
    rw [← h.args i hi]
    cases ha : argRegs[i]? with
    | none => rfl
    | some r => exact congrArg some (set_other _ _ (args_plain r (List.mem_of_getElem? ha)).1)
  · change u.reg .rsp = s.reg .rsp
    rw [hursp, hr.rsp]
    change c.reg .rsp - 8 + 8 + _ = _
    rw [UInt64.sub_add_cancel, h.rsp, UInt64.sub_add_cancel]
  · intro r hrs
    change u.reg r = s.reg r
    by_cases hp : r ∈ pushed n
    · exact hurs r hp
    · by_cases hb : r = .rbp
      · rw [hb, hurbp]
      · have hs : r ≠ .rsp := fun he => absurd (he ▸ hrs) (by decide)
        rw [hukept r hrs hp hb, hr.saved r hrs]
        exact (set_other _ _ hs).trans (h.kept r hrs hp hb)

theorem pushed_even (n : Fin 5) : (pushed n).length % 2 = 0 ↔ n ≠ 0 ∧ n ≠ 2 := by
  revert n
  decide

/-- The stack is aligned where the function is entered when the trampoline has pushed an even number of
registers after `rbp`. -/
theorem Ready.aligned_iff {n : Fin 5} {s c : Cpu} (h : Ready n ra s c) (hs : (s.reg .rsp).toNat % 16 = 0) :
    Aligned (c.push next) ↔ n ≠ 0 ∧ n ≠ 2 := by
  have hc : ((c.push next).reg .rsp + 8).toNat = (c.reg .rsp).toNat := congrArg UInt64.toNat (UInt64.sub_add_cancel ..)
  have hlen := pushed_short n
  rw [Aligned, hc, h.rsp, UInt64.toNat_sub, UInt64.toNat_ofNat_of_lt' (show 8 * ((pushed n).length + 2) < 2 ^ 64 by omega),
    ← pushed_even]
  omega

end Call

/-! A function that needs what the convention promises. -/

/-- It returns at once, and faults on a stack that is not aligned. -/
def alignedOnly (s : Cpu) : Option Cpu := if (s.reg .rsp + 8).toNat % 16 = 0 then some s.ret else none

theorem alignedOnly_sysV (words : Nat) : SysV words alignedOnly := by
  intro s hs
  refine ⟨s.ret, if_pos hs, rfl, rfl, ?_, fun _ _ => rfl⟩
  intro r hr
  have hne : r ≠ .rsp := fun he => absurd (he ▸ hr) (by decide)
  exact set_other _ _ hne

theorem alignedOnly_faults {n : Fin 5} {next ra : UInt64} {s : Cpu} (hs : (s.reg .rsp).toNat % 16 = 0)
    (hn : ¬ (n ≠ 0 ∧ n ≠ 2)) : callTrampoline (fun _ => alignedOnly) next ra n s = none := by
  obtain ⟨c, hc, h⟩ := enter_ready (fun _ => alignedOnly) next n s ra
  have hf : alignedOnly (c.push next) = none := if_neg (mt (h.aligned_iff hs).mp hn)
  rw [callTrampoline, trampoline_eq, ← List.append_assoc, exec_append, hc]
  change (Instr.step (fun _ => alignedOnly) next (.call .r12) ⟨c, []⟩).bind _ = none
  simp only [Instr.step, hf, Option.bind_none]

/-- `s` is the state of a caller that keeps its own stack aligned. -/
theorem trampolines_meet_iff (n : Fin 5) (next ra : UInt64) (s : Cpu) (hs : (s.reg .rsp).toNat % 16 = 0) :
    ((∀ code, SysV (frameWords n) (code (s.reg .rdi)) → Meets code next ra n s) ↔ n ≠ 0 ∧ n ≠ 2) ∧
      ∀ code, SysVAnywhere (frameWords n) (code (s.reg .rdi)) → Meets code next ra n s := by
  refine ⟨⟨fun h => ?_, fun hn code hf => ?_⟩, fun code hf => ?_⟩
  · by_contra hn
    obtain ⟨e, -, -, he, -⟩ := h (fun _ => alignedOnly) (alignedOnly_sysV _)
    rw [alignedOnly_faults hs hn] at he
    exact absurd he (Option.some_ne_none e).symm
  · obtain ⟨c, hc, h⟩ := enter_ready code next n s ra
    obtain ⟨t, ht, hr⟩ := hf _ ((h.aligned_iff hs).mpr hn)
    exact h.meets hc ht hr
  · obtain ⟨c, hc, h⟩ := enter_ready code next n s ra
    obtain ⟨t, ht, hr⟩ := hf (c.push next)
    exact h.meets hc ht hr

/-- A caller with everything at rest. -/
def restingCaller : Cpu := ⟨fun _ => 0, fun _ => 0, 0x0C, 0⟩

theorem trampoline_three_meets :
    (restingCaller.reg .rsp).toNat % 16 = 0 ∧ SysV (frameWords 3) alignedOnly ∧
      Meets (fun _ => alignedOnly) 1 2 3 restingCaller :=
  ⟨by decide, alignedOnly_sysV _,
    (trampolines_meet_iff 3 1 2 restingCaller (by decide)).1.mpr (by decide) _ (alignedOnly_sysV _)⟩

theorem trampoline_two_faults :
    (restingCaller.reg .rsp).toNat % 16 = 0 ∧ SysV (frameWords 2) alignedOnly ∧
      ¬ Meets (fun _ => alignedOnly) 1 2 2 restingCaller := by
  refine ⟨by decide, alignedOnly_sysV _, ?_⟩
  rintro ⟨e, -, -, he, -⟩
  rw [alignedOnly_faults (by decide) (by decide)] at he
  exact absurd he (Option.some_ne_none e).symm

end Angelic.Proofs
