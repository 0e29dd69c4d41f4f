import Angelic.Lib.CString

namespace Angelic.Base64
open CString

variable {v : Nat} {vs : List Nat} (m : List Byte)

/-! Base64: three bytes are four digits of six bits, and the end is filled up with equals signs. -/

def alphabet : List Byte := lit "ABCDEFGHIJKLMNOPQRSTUVWXYZabcdefghijklmnopqrstuvwxyz0123456789+/"

def digit (v : Nat) : Byte := alphabet.getD v 0

def value (c : Byte) : Option Nat := alphabet.findIdx? (· == c)

/-- The digits of some bytes; the last ones are filled up with zeros. -/
def sextets : List Byte → List Nat
  | x :: y :: z :: r =>
    x.toNat / 4 :: (x.toNat % 4 * 16 + y.toNat / 16) :: (y.toNat % 16 * 4 + z.toNat / 64) :: z.toNat % 64 :: sextets r
  | [x, y] => [x.toNat / 4, x.toNat % 4 * 16 + y.toNat / 16, y.toNat % 16 * 4]
  | [x] => [x.toNat / 4, x.toNat % 4 * 16]
  | [] => []

def padding (n : Nat) : List Byte := if n % 3 = 0 then [] else if n % 3 = 1 then lit "==" else lit "="

def encode (m : List Byte) : List Byte := (sextets m).map digit ++ padding m.length

/-- The bytes that some digits have; bits that fill no byte are left out. -/
def bytes : List Nat → List Byte
  | a :: b :: c :: d :: r =>
    UInt8.ofNat (a * 4 + b / 16) :: UInt8.ofNat (b % 16 * 16 + c / 4) :: UInt8.ofNat (c % 4 * 64 + d) :: bytes r
  | [a, b, c] => [UInt8.ofNat (a * 4 + b / 16), UInt8.ofNat (b % 16 * 16 + c / 4)]
  | [a, b] => [UInt8.ofNat (a * 4 + b / 16)]
  | [_] => []
  | [] => []

/-- The bytes of a text up to its first equals sign, if there are only digits before it. -/
def decode (w : List Byte) : Option (List Byte) := ((w.takeWhile (· != ch '=')).mapM value).map bytes

theorem value_digit (h : v < 64) : value (digit v) = some v := by
  have all : ∀ v : Fin 64, value (digit v) = some v.val := by decide +kernel
  exact all ⟨v, h⟩

theorem digit_ne (h : v < 64) : digit v ≠ ch '=' ∧ digit v ≠ 0 := by
  have all : ∀ v : Fin 64, digit v ≠ ch '=' ∧ digit v ≠ 0 := by decide +kernel
  exact all ⟨v, h⟩

theorem value_some {c : Byte} (h : value c = some v) : v < 64 ∧ digit v = c := by
  have hl : alphabet.length = 64 := by decide +kernel
  obtain ⟨hv, hc, -⟩ := List.findIdx?_eq_some_iff_getElem.mp h
  refine ⟨hl ▸ hv, ?_⟩
  rw [digit, List.getD_eq_getElem?_getD, List.getElem?_eq_getElem hv, Option.getD_some]
  exact beq_iff_eq.mp hc

theorem sextets_lt : ∀ v ∈ sextets m, v < 64 := by
  have hb : ∀ x : Byte, x.toNat < 256 := fun x => x.toNat_lt
  fun_induction sextets m with
  | case1 x y z r ih =>
    have hx := hb x
    have hy := hb y
    have hz := hb z
    intro v hv
    simp only [List.mem_cons] at hv
    rcases hv with rfl | rfl | rfl | rfl | hv
    · omega
    · omega
    · omega
    · omega
    · exact ih v hv
  | case2 x y =>
    have hx := hb x
    have hy := hb y
    intro v hv
    simp only [List.mem_cons, List.not_mem_nil, or_false] at hv
    omega
  | case3 x =>
    have hx := hb x
    intro v hv
    simp only [List.mem_cons, List.not_mem_nil, or_false] at hv
    omega
  | case4 => exact fun v hv => absurd hv List.not_mem_nil

/-- The digits of some bytes have those bytes. -/
theorem bytes_sextets : bytes (sextets m) = m := by
  have same : ∀ (x : Byte) (n : Nat), n = x.toNat → UInt8.ofNat n = x := by
    rintro x n rfl
    exact UInt8.ofNat_toNat
  have hb : ∀ x : Byte, x.toNat < 256 := fun x => x.toNat_lt
  fun_induction sextets m with
  | case1 x y z r ih =>
    have hx := hb x
    have hy := hb y
    have hz := hb z
    rw [bytes, ih, same x _ (by omega), same y _ (by omega), same z _ (by omega)]
  | case2 x y =>
    have hx := hb x
    have hy := hb y
    rw [bytes, same x _ (by omega), same y _ (by omega)]
  | case3 x =>
    have hx := hb x
    rw [bytes, same x _ (by omega)]
  | case4 => rfl

theorem mapM_digits (h : ∀ v ∈ vs, v < 64) : (vs.map digit).mapM value = some vs := by
  induction vs with
  | nil => rfl
  | cons v vs ih =>
    rw [List.map_cons, List.mapM_cons, value_digit (h v List.mem_cons_self), ih fun v hv => h v (List.mem_cons_of_mem _ hv)]
    rfl

theorem mapM_value {w : List Byte} (h : w.mapM value = some vs) : w = vs.map digit ∧ ∀ v ∈ vs, v < 64 := by
  induction w generalizing vs with
  | nil =>
    cases h
    exact ⟨rfl, fun v hv => absurd hv List.not_mem_nil⟩
  | cons c w ih =>
    rw [List.mapM_cons] at h
    obtain ⟨v, hv, h⟩ := Option.bind_eq_some_iff.mp h
    obtain ⟨vs', hvs, h⟩ := Option.bind_eq_some_iff.mp h
    cases h
    obtain ⟨rfl, hlt⟩ := ih hvs
    obtain ⟨hv64, rfl⟩ := value_some hv
    refine ⟨rfl, fun u hu => ?_⟩
    rcases List.mem_cons.mp hu with rfl | hu
    · exact hv64
    · exact hlt u hu

theorem takeWhile_digits (h : ∀ v ∈ vs, v < 64) {r : List Byte} (hr : r.head?.all (· == ch '=')) :
    (vs.map digit ++ r).takeWhile (· != ch '=') = vs.map digit := by
  have hall : ∀ c ∈ vs.map digit, (c != ch '=') = true := by
    intro c hc
    obtain ⟨v, hv, rfl⟩ := List.mem_map.mp hc
    exact bne_iff_ne.mpr (digit_ne (h v hv)).1
  rw [List.takeWhile_append_of_pos hall]
  cases r with
  | nil => simp
  | cons c r =>
    have hc : c = ch '=' := by simpa using hr
    rw [hc, List.takeWhile_cons_of_neg (by decide), List.append_nil]

theorem encode_plain : 0 ∉ encode m := by
  intro h
  rw [encode, List.mem_append] at h
  rcases h with h | h
  · obtain ⟨v, hv, h0⟩ := List.mem_map.mp h
    exact (digit_ne (sextets_lt m v hv)).2 h0
  · revert h
    unfold padding
    split
    · exact List.not_mem_nil
    · split <;> decide

theorem decode_encode : decode (encode m) = some m := by
  have hpad : (padding m.length).head?.all (· == ch '=') := by
    unfold padding
    split
    · rfl
    · split <;> decide
  rw [decode, encode, takeWhile_digits (sextets_lt m) hpad, mapM_digits (sextets_lt m), Option.map_some, bytes_sextets]

end Angelic.Base64
