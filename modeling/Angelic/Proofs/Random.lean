import Mathlib.Data.Set.Function
import Mathlib.Data.Fintype.EquivFin
import Angelic.Lib.XorShift
import Angelic.Lib.StateRel
import Angelic.Model.Random

namespace Angelic.Proofs
open Angelic.Model.Random Angelic.StateRel Relation

/-! The generator behind `secure_random_u32` when the hardware gives no number. -/

def advanceBits (x : BitVec 64) : BitVec 64 :=
  let x := x ^^^ (x >>> 12)
  let x := x ^^^ (x <<< 25)
  x ^^^ (x >>> 27)

theorem advance_injective : Function.Injective advance := by
  intro x y h
  have hbits : advanceBits x.toBitVec = advanceBits y.toBitVec := congrArg UInt64.toBitVec h
  exact UInt64.toBitVec_inj.mp (XorShift.right_injective (by decide)
    (XorShift.left_injective (by decide) (XorShift.right_injective (by decide) hbits)))

theorem advance_surjective : Function.Surjective advance :=
  have : Finite UInt64 := Finite.of_injective UInt64.toFin fun _ _ h => UInt64.toFin_inj.mp h
  Finite.surjective_of_injective advance_injective

theorem advance_ne_zero {x : UInt64} (hx : x ≠ 0) : advance x ≠ 0 := fun h => hx (advance_injective h)

theorem advanceBits_linear : XorShift.Linear advanceBits :=
  (XorShift.right_linear 27).comp ((XorShift.left_linear 25).comp (XorShift.right_linear 12))

/-- The coefficients of the characteristic polynomial of the update, the highest first. -/
def coefficients : List Bool := (List.range 65).reverse.map (0x10018b73aa7cc9b71 : Nat).testBit

theorem advance_moves {x : UInt64} (hx : x ≠ 0) : advance x ≠ x := fun h => by
  have hzero := advanceBits_linear.eq_zero_of_fixed (c := coefficients) (by decide +kernel) (by decide +kernel)
    (congrArg UInt64.toBitVec h)
  exact hx (UInt64.toBitVec_inj.mp hzero)

/-! What the calls do to the generator's variables. -/

inductive Drawn : Generator → Generator → Prop
  | read (g : Generator) : Drawn g { g with reads := g.reads + 1 }
  | seed (g : Generator) {x : UInt64} (hx : x ≠ 0) : Drawn g { g with state := x, seeded := true }
  | advance (g : Generator) (h : g.seeded = true) : Drawn g { g with state := advance g.state }

variable (p : Platform)

theorem drawn_attempts (n : Nat) : Does Drawn (attempts p n) := by
  induction n with
  | zero => exact .pure _
  | succ n ih =>
    refine Does.bind (Does.step fun g => .read g) fun r => ?_
    cases r with
    | none => exact ih
    | some val => exact .pure _

theorem seed_ne_zero (x : UInt64) : (if x = 0 then 0x123456789ABCDEF0 else x) ≠ 0 := by
  split
  · decide
  · assumption

theorem drawn_seed : Does Drawn (seed p) :=
  Does.bind (drawn_attempts p 10) fun _ => Does.bind (drawn_attempts p 10) fun _ =>
    Does.step fun g => .seed g (seed_ne_zero _)

/-- The generator with its seed set. -/
def ready (g : Generator) : Generator := if g.seeded then g else (seed p g).2

theorem secure_random_u32_some {g : Generator} {hw : UInt32} (h : (hw_trng_read p g).1 = some hw) :
    (secure_random_u32 p g).2 = (hw_trng_read p g).2 := by
  unfold secure_random_u32
  rw [bind_run, h]
  rfl

theorem secure_random_u32_none {g : Generator} (h : (hw_trng_read p g).1 = none) :
    (secure_random_u32 p g).2 =
      { ready p (hw_trng_read p g).2 with state := advance (ready p (hw_trng_read p g).2).state } := by
  unfold secure_random_u32
  rw [bind_run, h]
  generalize (hw_trng_read p g).2 = g'
  obtain ⟨x, seeded, n⟩ := g'
  cases seeded
  · rfl
  · rfl

theorem drawn_secure_random_u32 : Does Drawn (secure_random_u32 p) := by
  intro g
  have hread : ReflTransGen Drawn g (hw_trng_read p g).2 := drawn_attempts p 10 g
  cases hr : (hw_trng_read p g).1 with
  | some hw => rwa [secure_random_u32_some p hr]
  | none =>
    rw [secure_random_u32_none p hr]
    generalize (hw_trng_read p g).2 = g' at hread ⊢
    unfold ready
    split
    · exact hread.tail (.advance g' ‹_›)
    · exact (hread.trans (drawn_seed p g')).tail (.advance _ rfl)

theorem drawn_tls_entropy_func (len : Nat) : Does Drawn (tls_entropy_func p len) := by
  fun_induction tls_entropy_func p len with
  | case1 len ih => exact (drawn_secure_random_u32 p).bind fun _ => ih.bind fun _ => .pure _
  | case2 => exact .pure _
  | case3 len => exact (drawn_secure_random_u32 p).bind fun _ => .pure _

theorem after_drawn (calls : List Call) : ReflTransGen Drawn initial (after p calls) := by
  have run : ∀ g, ReflTransGen Drawn g (calls.foldl (fun g c => c.perform p g) g) := by
    induction calls with
    | nil => exact fun _ => .refl
    | cons c calls ih =>
      intro g
      refine ReflTransGen.trans ?_ (ih _)
      cases c with
      | word => exact drawn_secure_random_u32 p g
      | entropy len => exact drawn_tls_entropy_func p len g
  exact run initial

def SeedSafe (g : Generator) : Prop := g.seeded = true → g.state ≠ 0

theorem Drawn.seedSafe {g g' : Generator} (h : Drawn g g') (hg : SeedSafe g) : SeedSafe g' := by
  cases h with
  | read => exact hg
  | seed hx => exact fun _ => hx
  | advance hs => exact fun _ => advance_ne_zero (hg hs)

theorem after_seedSafe (calls : List Call) : SeedSafe (after p calls) := by
  have h := after_drawn p calls
  generalize after p calls = g at h ⊢
  induction h with
  | refl => exact fun h => absurd h (by decide)
  | tail _ h ih => exact h.seedSafe ih

theorem attempts_keeps (n : Nat) (g : Generator) :
    (attempts p n g).2.state = g.state ∧ (attempts p n g).2.seeded = g.seeded := by
  induction n generalizing g with
  | zero => exact ⟨rfl, rfl⟩
  | succ n ih =>
    unfold attempts
    rw [bind_run]
    cases h : (rdrand p g).1 with
    | none => exact ih _
    | some val => exact ⟨rfl, rfl⟩

theorem fallback_advances {g : Generator} (hs : g.seeded = true) (hn : (hw_trng_read p g).1 = none) :
    (secure_random_u32 p g).2.state = advance g.state := by
  obtain ⟨hstate, hseeded⟩ := attempts_keeps p 10 g
  have hready : ready p (hw_trng_read p g).2 = (hw_trng_read p g).2 := if_pos (hseeded.trans hs)
  rw [secure_random_u32_none p hn, hready]
  exact congrArg advance hstate

/-- Whatever `rdrand` answers and wherever `state` lies: once seeded the state is never 0, moving it on is
one to one on the other values and leaves none of them where it is, and each call that the hardware does
not answer moves it on. -/
theorem fallback_never_stuck :
    (∀ calls : List Call, (after p calls).seeded = true → (after p calls).state ≠ 0) ∧
    Set.BijOn advance {x | x ≠ 0} {x | x ≠ 0} ∧
    (∀ x : UInt64, x ≠ 0 → advance x ≠ x) ∧
    ∀ g : Generator, g.seeded = true → (hw_trng_read p g).1 = none →
      (secure_random_u32 p g).2.state = advance g.state := by
  refine ⟨after_seedSafe p, ⟨fun x hx => advance_ne_zero hx, advance_injective.injOn, ?_⟩,
    fun x hx => advance_moves hx, fun g hs hn => fallback_advances p hs hn⟩
  intro y hy
  obtain ⟨x, rfl⟩ := advance_surjective y
  exact ⟨x, fun hx => hy (by rw [hx]; rfl), rfl⟩

/-- A processor without `rdrand`, and `state` where the seed from its address would be 0. -/
def noRdrand : Platform := ⟨fun _ => none, 0xDEADBEEFCAFEBABE⟩

theorem bare_never_stuck :
    (after noRdrand [.word, .entropy 6]).seeded = true ∧ (after noRdrand [.word, .entropy 6]).state ≠ 0 ∧
      (secure_random_u32 noRdrand (after noRdrand [.word])).2.state = advance (after noRdrand [.word]).state :=
  ⟨by decide +kernel, (fallback_never_stuck noRdrand).1 _ (by decide +kernel),
    (fallback_never_stuck noRdrand).2.2.2 _ (by decide +kernel) (by decide +kernel)⟩

end Angelic.Proofs
