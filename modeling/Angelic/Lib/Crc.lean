import Angelic.Lib.CString
import Mathlib.Logic.Function.Basic

namespace Angelic.Crc
open CString

/-- One turn of the inner loop: `crc = (crc >> 1) ^ (poly & -(crc & 1))`. -/
def bit (crc : UInt32) : UInt32 := (crc >>> 1) ^^^ (0xEDB88320 &&& (0 - (crc &&& 1)))

def bits : Nat → UInt32 → UInt32
  | 0, crc => crc
  | n + 1, crc => bits n (bit crc)

def byte (crc : UInt32) (b : Byte) : UInt32 := bits 8 (crc ^^^ b.toUInt32)

def run (crc : UInt32) (w : List Byte) : UInt32 := w.foldl byte crc

theorem run_append (crc : UInt32) (v w : List Byte) : run crc (v ++ w) = run (run crc v) w := by
  simp [run, List.foldl_append]

/-! A changed byte changes the checksum: every step can be undone. -/

theorem and_one (x : UInt32) : x &&& 1 = if x.toBitVec.getLsbD 0 then 1 else 0 := by
  apply UInt32.toBitVec_inj.mp
  apply BitVec.eq_of_getLsbD_eq
  intro i hi
  cases h : x.toBitVec.getLsbD 0 <;> cases i <;> simp_all

theorem bit_getLsbD (x : UInt32) {i : Nat} (hi : i < 32) : (bit x).toBitVec.getLsbD i =
      (x.toBitVec.getLsbD (i + 1) ^^ ((0xEDB88320#32).getLsbD i && x.toBitVec.getLsbD 0)) := by
  unfold bit
  rw [and_one, Nat.add_comm i 1]
  cases h : x.toBitVec.getLsbD 0 <;> simp [hi]

theorem bit_injective : Function.Injective bit := by
  intro x y h
  have hbits : ∀ i < 32, (x.toBitVec.getLsbD (i + 1) ^^ ((0xEDB88320#32).getLsbD i && x.toBitVec.getLsbD 0)) =
      (y.toBitVec.getLsbD (i + 1) ^^ ((0xEDB88320#32).getLsbD i && y.toBitVec.getLsbD 0)) := by
    intro i hi
    rw [← bit_getLsbD x hi, ← bit_getLsbD y hi, h]
  -- the top bit of the result is the bit that was shifted out
  have hlow : x.toBitVec.getLsbD 0 = y.toBitVec.getLsbD 0 := by
    have h31 := hbits 31 (by decide)
    have hout : ∀ v : UInt32, v.toBitVec.getLsbD (31 + 1) = false := fun v => BitVec.getLsbD_of_ge _ _ (by decide)
    have htop : (0xEDB88320#32).getLsbD 31 = true := by decide
    rwa [hout, hout, htop, Bool.true_and, Bool.true_and, Bool.false_xor, Bool.false_xor] at h31
  apply UInt32.toBitVec_inj.mp
  apply BitVec.eq_of_getLsbD_eq
  intro i hi
  cases i with
  | zero => exact hlow
  | succ i =>
    have hs := hbits i (by omega)
    rw [hlow] at hs
    exact Bool.xor_left_inj.mp hs

theorem bits_injective (n : Nat) : Function.Injective (bits n) := by
  induction n with
  | zero => exact fun _ _ h => h
  | succ n ih => exact fun _ _ h => bit_injective (ih h)

theorem byte_injective (b : Byte) : Function.Injective (byte · b) := by
  intro x y h
  have := bits_injective 8 h
  simpa using this

theorem run_injective (w : List Byte) : Function.Injective (run · w) := by
  induction w with
  | nil => exact fun _ _ h => h
  | cons b w ih => exact fun _ _ h => byte_injective b (ih h)

theorem bits_add (n m : Nat) (x : UInt32) : bits (n + m) x = bits n (bits m x) := by
  induction m generalizing x with
  | zero => rfl
  | succ m ih => exact ih (bit x)

/-! Four bytes pass through the register one to one: what is still above the low bit is only moved down. -/

theorem bit_shift (x : UInt32) {y : BitVec 32} (hy : y.getLsbD 31 = false) :
    bit (x ^^^ .ofBitVec (y <<< 1)) = bit x ^^^ .ofBitVec y := by
  apply UInt32.toBitVec_inj.mp
  apply BitVec.eq_of_getLsbD_eq
  intro i hi
  have hxor : ∀ (v : UInt32) (z : BitVec 32) (j : Nat),
      (v ^^^ .ofBitVec z).toBitVec.getLsbD j = (v.toBitVec.getLsbD j ^^ z.getLsbD j) := fun _ _ _ => BitVec.getLsbD_xor
  have hlow : (y <<< 1).getLsbD 0 = false := by simp
  have hup : (y <<< 1).getLsbD (i + 1) = y.getLsbD i := by
    rw [BitVec.getLsbD_shiftLeft, Nat.add_sub_cancel, decide_eq_false (by omega : ¬ i + 1 < 1), Bool.not_false,
      Bool.and_true]
    by_cases h31 : i = 31
    · rw [h31, hy, Bool.and_false]
    · rw [decide_eq_true (by omega : i + 1 < 32), Bool.true_and]
  rw [hxor, bit_getLsbD _ hi, bit_getLsbD _ hi, hxor, hxor, hlow, hup, Bool.xor_false, Bool.xor_assoc, Bool.xor_assoc,
    Bool.xor_comm (y.getLsbD i)]

theorem bits_shift (n : Nat) (x : UInt32) {y : BitVec 32} (hy : ∀ i, 32 ≤ i + n → y.getLsbD i = false) :
    bits n (x ^^^ .ofBitVec (y <<< n)) = bits n x ^^^ .ofBitVec y := by
  induction n generalizing x with
  | zero => rw [BitVec.shiftLeft_zero, bits, bits]
  | succ n ih =>
    have htop : (y <<< n).getLsbD 31 = false := by
      rw [BitVec.getLsbD_shiftLeft]
      by_cases hn : 31 < n
      · simp [hn]
      · rw [hy (31 - n) (by omega), Bool.and_false]
    rw [bits, BitVec.shiftLeft_add, bit_shift x htop, ih _ fun i hi => hy i (by omega), bits]

/-- The bytes as one word, the first of them lowest. -/
def word : List Byte → BitVec 32
  | [] => 0
  | b :: w => b.toBitVec.setWidth 32 ^^^ (word w <<< 8)

theorem word_low (b : Byte) (w : List Byte) {i : Nat} (hi : i < 8) : (word (b :: w)).getLsbD i = b.toBitVec.getLsbD i := by
  simp [word, hi, show i < 32 by omega]

theorem word_high (b : Byte) (w : List Byte) {i : Nat} (hi : i + 8 < 32) :
    (word (b :: w)).getLsbD (i + 8) = (word w).getLsbD i := by
  rw [word, BitVec.getLsbD_xor, BitVec.getLsbD_shiftLeft, Nat.add_sub_cancel, decide_eq_true hi,
    decide_eq_false (by omega : ¬ i + 8 < 8), BitVec.getLsbD_setWidth, BitVec.getLsbD_of_ge _ (i + 8) (by omega)]
  simp

theorem word_top (w : List Byte) {i : Nat} (hi : 8 * w.length ≤ i) : (word w).getLsbD i = false := by
  induction w generalizing i with
  | nil => simp [word]
  | cons b w ih =>
    rw [List.length_cons] at hi
    obtain ⟨j, rfl⟩ : ∃ j, i = j + 8 := ⟨i - 8, by omega⟩
    by_cases h32 : j + 8 < 32
    · rw [word_high b w h32]
      exact ih (by omega)
    · exact BitVec.getLsbD_of_ge _ _ (by omega)

theorem word_injective {v w : List Byte} (hl : v.length = w.length) (h4 : w.length ≤ 4) (h : word v = word w) :
    v = w := by
  induction v generalizing w with
  | nil => exact (List.length_eq_zero_iff.mp hl.symm).symm
  | cons a v ih =>
    obtain ⟨b, w, rfl⟩ := List.exists_cons_of_length_eq_add_one hl.symm
    rw [List.length_cons] at hl h4
    rw [List.length_cons] at hl
    have hl' : v.length = w.length := by omega
    have hb : a = b := by
      apply UInt8.toBitVec_inj.mp
      apply BitVec.eq_of_getLsbD_eq
      intro i hi
      rw [← word_low a v hi, h, word_low b w hi]
    have hw : word v = word w := by
      apply BitVec.eq_of_getLsbD_eq
      intro i hi
      by_cases h32 : i + 8 < 32
      · rw [← word_high a v h32, h, word_high b w h32]
      · rw [word_top v (by omega), word_top w (by omega)]
    rw [hb, ih hl' (by omega) hw]

theorem run_word (crc : UInt32) {w : List Byte} (h : w.length ≤ 4) :
    run crc w = bits (8 * w.length) (crc ^^^ .ofBitVec (word w)) := by
  induction w generalizing crc with
  | nil => exact (UInt32.xor_zero).symm
  | cons b w ih =>
    rw [List.length_cons] at h
    have hy : ∀ i, 32 ≤ i + 8 → (word w).getLsbD i = false := fun i hi => word_top w (by omega)
    have hfirst : crc ^^^ b.toUInt32 ^^^ .ofBitVec (word w <<< 8) = crc ^^^ .ofBitVec (word (b :: w)) := by
      rw [UInt32.xor_assoc]
      rfl
    rw [List.length_cons, Nat.mul_succ, bits_add, ← hfirst, bits_shift 8 _ hy]
    exact ih (byte crc b) (by omega)

/-- Two texts that differ in up to four bytes in a row have different checksums. -/
theorem run_ne_of_burst (crc : UInt32) (u z : List Byte) {a b : List Byte} (hl : a.length = b.length)
    (h4 : b.length ≤ 4) (h : a ≠ b) : run crc (u ++ (a ++ z)) ≠ run crc (u ++ (b ++ z)) := by
  rw [run_append, run_append, run_append, run_append]
  intro he
  have hw : run (run crc u) a = run (run crc u) b := run_injective z he
  rw [run_word _ (hl ▸ h4), run_word _ h4, hl] at hw
  have hx := bits_injective _ hw
  exact h (word_injective hl h4 (by simpa using hx))

end Angelic.Crc
