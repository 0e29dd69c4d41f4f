import Mathlib.Logic.Function.Basic

namespace Angelic.Model

inductive Reg where
  | rax | rbx | rcx | rdx | rsi | rdi | rbp | rsp | r8 | r9 | r10 | r11 | r12 | r13 | r14 | r15
  deriving DecidableEq, Repr

/-- What `mpk.asm` touches of the processor. The stack is read and written in whole words. -/
structure Cpu where
  reg : Reg → UInt64
  mem : UInt64 → UInt64
  pkru : UInt32
  rip : UInt64

def Cpu.set (s : Cpu) (r : Reg) (v : UInt64) : Cpu := { s with reg := Function.update s.reg r v }

def Cpu.push (s : Cpu) (v : UInt64) : Cpu :=
  { s.set .rsp (s.reg .rsp - 8) with mem := Function.update s.mem (s.reg .rsp - 8) v }

def Cpu.pop (s : Cpu) (r : Reg) : Cpu := (s.set .rsp (s.reg .rsp + 8)).set r (s.mem (s.reg .rsp))

def Cpu.ret (s : Cpu) : Cpu := { s.set .rsp (s.reg .rsp + 8) with rip := s.mem (s.reg .rsp) }

/-- The instructions of the trampolines. `zero` is `xor r32, r32` and `load` is `mov r32, imm32`: both clear
the upper half of the register. -/
inductive Instr where
  | push (r : Reg)
  | pop (r : Reg)
  | mov (dst src : Reg)
  | zero (r : Reg)
  | load (r : Reg) (imm : UInt32)
  | wrpkru
  | call (r : Reg)
  | ret
  deriving DecidableEq, Repr

/-- What runs: the processor, and the calls made so far with the state each function was entered in. -/
structure Exec where
  cpu : Cpu
  entered : List (UInt64 × Cpu)

def Exec.onto (e : Exec) (s : Cpu) : Exec := { e with cpu := s }

section Run
variable (code : UInt64 → Cpu → Option Cpu) (next : UInt64)

/-- `code a` is what the function at `a` does from its entry to its return, and none where it faults or does
not return. `next` is the address after the call instruction. -/
def Instr.step (i : Instr) (e : Exec) : Option Exec :=
  let s := e.cpu
  match i with
  | .push r => some (e.onto (s.push (s.reg r)))
  | .pop r => some (e.onto (s.pop r))
  | .mov dst src => some (e.onto (s.set dst (s.reg src)))
  | .zero r => some (e.onto (s.set r 0))
  | .load r imm => some (e.onto (s.set r imm.toUInt64))
  -- a general protection fault unless both registers are clear
  | .wrpkru =>
    if (s.reg .rcx).toUInt32 = 0 ∧ (s.reg .rdx).toUInt32 = 0 then
      some (e.onto { s with pkru := (s.reg .rax).toUInt32 })
    else none
  | .call r =>
    let entry := s.push next
    match code (s.reg r) entry with
    | none => none
    | some t => if t.rip = next then some ⟨t, e.entered ++ [(s.reg r, entry)]⟩ else none
  | .ret => some (e.onto s.ret)

def exec : List Instr → Exec → Option Exec
  | [], e => some e
  | i :: is, e => (i.step code next e).bind (exec is)

end Run

def mpk_trampoline_0 : List Instr :=
  [.push .rbp, .mov .rbp .rsp, .push .r12,
   .mov .r12 .rdi,
   .zero .rcx, .zero .rdx, .zero .rax, .wrpkru,
   .call .r12,
   .push .rax,
   .zero .rcx, .zero .rdx, .load .rax 0x0C, .wrpkru,
   .pop .rax, .pop .r12, .pop .rbp, .ret]

def mpk_trampoline_1 : List Instr :=
  [.push .rbp, .mov .rbp .rsp, .push .r12, .push .r13,
   .mov .r12 .rdi, .mov .r13 .rsi,
   .zero .rcx, .zero .rdx, .zero .rax, .wrpkru,
   .mov .rdi .r13, .call .r12,
   .push .rax,
   .zero .rcx, .zero .rdx, .load .rax 0x0C, .wrpkru,
   .pop .rax, .pop .r13, .pop .r12, .pop .rbp, .ret]

def mpk_trampoline_2 : List Instr :=
  [.push .rbp, .mov .rbp .rsp, .push .r12, .push .r13, .push .r14,
   .mov .r12 .rdi, .mov .r13 .rsi, .mov .r14 .rdx,
   .zero .rcx, .zero .rdx, .zero .rax, .wrpkru,
   .mov .rdi .r13, .mov .rsi .r14, .call .r12,
   .push .rax,
   .zero .rcx, .zero .rdx, .load .rax 0x0C, .wrpkru,
   .pop .rax, .pop .r14, .pop .r13, .pop .r12, .pop .rbp, .ret]

def mpk_trampoline_3 : List Instr :=
  [.push .rbp, .mov .rbp .rsp, .push .r12, .push .r13, .push .r14, .push .r15,
   .mov .r12 .rdi, .mov .r13 .rsi, .mov .r14 .rdx, .mov .r15 .rcx,
   .zero .rcx, .zero .rdx, .zero .rax, .wrpkru,
   .mov .rdi .r13, .mov .rsi .r14, .mov .rdx .r15, .call .r12,
   .push .rax,
   .zero .rcx, .zero .rdx, .load .rax 0x0C, .wrpkru,
   .pop .rax, .pop .r15, .pop .r14, .pop .r13, .pop .r12, .pop .rbp, .ret]

def mpk_trampoline_4 : List Instr :=
  [.push .rbp, .mov .rbp .rsp, .push .r12, .push .r13, .push .r14, .push .r15,
   .mov .r12 .rdi, .mov .r13 .rsi, .mov .r14 .rdx, .mov .r15 .rcx,
   .push .r8,
   .zero .rcx, .zero .rdx, .zero .rax, .wrpkru,
   .mov .rdi .r13, .mov .rsi .r14, .mov .rdx .r15, .pop .rcx, .call .r12,
   .push .rax,
   .zero .rcx, .zero .rdx, .load .rax 0x0C, .wrpkru,
   .pop .rax, .pop .r15, .pop .r14, .pop .r13, .pop .r12, .pop .rbp, .ret]

/-- The trampoline for a function of `n` arguments. -/
def mpk_trampoline : Fin 5 → List Instr
  | 0 => mpk_trampoline_0
  | 1 => mpk_trampoline_1
  | 2 => mpk_trampoline_2
  | 3 => mpk_trampoline_3
  | 4 => mpk_trampoline_4

end Angelic.Model
