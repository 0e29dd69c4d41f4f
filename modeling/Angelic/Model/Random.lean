import Angelic.Lib.Layout

namespace Angelic.Model.Random

/-! `secure_random_u32` of `libc_glue.c`, and the entropy that mbedTLS is given from it. -/

/-- The `n`-th `rdrand` of the run gives a word, or clears the carry flag; `address` is where the linker
has put `state`. -/
structure Platform where
  rdrand : Nat → Option UInt32
  address : UInt64

/-- The static variables of `secure_random_u32`, and how many times `rdrand` has been executed. -/
structure Generator where
  state : UInt64
  seeded : Bool
  reads : Nat
  deriving DecidableEq, Repr

def initial : Generator := ⟨0, false, 0⟩

def rdrand (p : Platform) : StateM Generator (Option UInt32) := fun g =>
  (p.rdrand g.reads, { g with reads := g.reads + 1 })

/-- The loop of `hw_trng_read`, with the attempts that are left. -/
def attempts (p : Platform) : Nat → StateM Generator (Option UInt32)
  | 0 => return none
  | n + 1 => do
    match ← rdrand p with
    | some val => return some val
    | none => attempts p n

def hw_trng_read (p : Platform) : StateM Generator (Option UInt32) := attempts p 10

def seed (p : Platform) : StateM Generator Unit := do
  let seed_hi ← hw_trng_read p
  let seed_lo ← hw_trng_read p
  let state : UInt64 := match seed_hi, seed_lo with
    | some hi, some lo => (hi.toUInt64 <<< 32) ||| lo.toUInt64
    | _, _ => 0xDEADBEEFCAFEBABE ^^^ p.address
  modify fun g => { g with state := if state = 0 then 0x123456789ABCDEF0 else state, seeded := true }

/-- The three lines that move the state on. -/
def advance (state : UInt64) : UInt64 :=
  let state := state ^^^ (state >>> 12)
  let state := state ^^^ (state <<< 25)
  state ^^^ (state >>> 27)

def secure_random_u32 (p : Platform) : StateM Generator UInt32 := do
  match ← hw_trng_read p with
  | some hw => return hw
  | none =>
    if !(← get).seeded then seed p
    modify fun g => { g with state := advance g.state }
    return (((← get).state * 0x2545F4914F6CDD1D) >>> 32).toUInt32

/-- The output of `tls_entropy_func` by the length that is still to be filled. -/
def tls_entropy_func (p : Platform) : Nat → StateM Generator (List UInt8)
  | len + 4 => do
    let r ← secure_random_u32 p
    return CString.le32 r ++ (← tls_entropy_func p len)
  | 0 => return []
  | len => do return (CString.le32 (← secure_random_u32 p)).take len

/-- The calls that reach the generator: for a word, or for so many bytes of entropy. -/
inductive Call where
  | word
  | entropy (len : Nat)
  deriving DecidableEq, Repr

def Call.perform (p : Platform) : Call → Generator → Generator
  | .word, g => (secure_random_u32 p g).2
  | .entropy len, g => (tls_entropy_func p len g).2

def after (p : Platform) (calls : List Call) : Generator := calls.foldl (fun g c => c.perform p g) initial

end Angelic.Model.Random
