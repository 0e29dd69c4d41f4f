import Angelic.Lib.Format
import Mathlib.Data.List.FinRange

namespace Angelic.CString

/-- A character array of `n` bytes, with whatever stands behind its terminator. -/
structure Buf (n : Nat) where
  bytes : List Byte
  len : bytes.length = n
  deriving DecidableEq

namespace Buf

variable {k : Nat}

def zero (n : Nat) : Buf n := ⟨List.replicate n 0, List.length_replicate⟩

def str (b : Buf n) : Str := cstr b.bytes

/-- Overwrites the front of the array; what does not fit is not written. -/
def write (b : Buf n) (w : List Byte) : Buf n :=
  ⟨w.take n ++ b.bytes.drop w.length, by
    simp only [List.length_append, List.length_take, List.length_drop, b.len]
    omega⟩

def strncpy (b : Buf n) (k : Nat) (src : Str) : Buf n := b.write (strncpyBytes k src)

def set0 (b : Buf n) (i : Nat) : Buf n := ⟨b.bytes.set i 0, by simp [b.len]⟩

/-- The first `n` bytes of a longer piece of memory. -/
def ofBytes (n : Nat) (w : List Byte) : Buf n :=
  ⟨w.take n ++ List.replicate (n - w.length) 0, by
    simp only [List.length_append, List.length_take, List.length_replicate]
    omega⟩

theorem ext_bytes {a b : Buf n} (h : a.bytes = b.bytes) : a = b := by
  cases a
  cases b
  simp_all

variable (b : Buf n)

theorem ofBytes_append (t : List Byte) : ofBytes n (b.bytes ++ t) = b := by
  apply ext_bytes
  simp [ofBytes, b.len]

/-- Past the array, and from there on. -/
theorem drop_bytes (t : List Byte) (k : Nat) : (b.bytes ++ t).drop (n + k) = t.drop k := by
  rw [List.drop_append, List.drop_eq_nil_of_le (by rw [b.len]; omega), b.len, Nat.add_sub_cancel_left,
    List.nil_append]

/-- A string that fits comes back out of the array it was copied into. -/
theorem strncpy_zero_str {s : Str} (h : Holds (k + 1) s) :
    CString.strncpy k ((zero (k + 1)).strncpy k s).bytes = s := by
  have hl : s.length ≤ k := Nat.le_of_lt_succ h.1
  have hb : ((zero (k + 1)).strncpy k s).bytes = s ++ 0 :: List.replicate (k - s.length) 0 := by
    simp only [Buf.strncpy, Buf.write, strncpyBytes, zero, cstr_of_clean h.2, List.take_of_length_le hl]
    have he : (s ++ List.replicate (k - s.length) (0 : Byte)).length = k := by
      rw [List.length_append, List.length_replicate]
      omega
    rw [List.take_of_length_le (by omega), he, List.drop_replicate, List.append_assoc,
      List.replicate_append_replicate, show k - s.length + (k + 1 - k) = k - s.length + 1 by omega,
      List.replicate_succ]
  rw [CString.strncpy, hb, cstr_append_zero h.2, List.take_of_length_le hl]

theorem str_length_le : b.str.length ≤ n := by
  have h := (List.takeWhile_prefix (l := b.bytes) (· != 0)).length_le
  rwa [b.len] at h

theorem strncmp_bytes (t : Str) : strncmp n b.bytes t = 0 ↔ b.str = (cstr t).take n := by
  rw [strncmp_eq_zero, ← str, List.take_of_length_le b.str_length_le]

/-- A copy that is terminated holds the string, cut to the room there is. -/
theorem copied_str (hk : k < n) (s : Str) : ((b.strncpy k s).set0 k).str = (cstr s).take k := by
  have hl := strncpyBytes_length k s
  have hb : ((b.strncpy k s).set0 k).bytes = strncpyBytes k s ++ 0 :: b.bytes.drop (k + 1) := by
    simp only [set0, Buf.strncpy, write, hl]
    rw [List.take_of_length_le (by omega), List.set_append_right _ _ (by omega), hl, Nat.sub_self]
    have hk' : k < b.bytes.length := by rwa [b.len]
    rw [List.drop_eq_getElem_cons hk', List.set_cons_zero]
  rw [str, hb, strncpyBytes, List.append_assoc]
  have hclean : 0 ∉ (cstr s).take k := fun h => zero_not_mem_cstr s (List.mem_of_mem_take h)
  cases hr : k - (cstr s).length with
  | zero => exact cstr_append_zero hclean _
  | succ m =>
    rw [List.replicate_succ, List.cons_append]
    exact cstr_append_zero hclean _

/-- A string there is room for is copied whole. -/
theorem copied_whole (hk : k < n) {s : Str} (h : Holds (k + 1) s) : ((b.strncpy k s).set0 k).str = s := by
  rw [copied_str b hk, cstr_of_clean h.2, List.take_of_length_le (Nat.le_of_lt_succ h.1)]

/-- Bytes that are written and terminated are a string, if there is room and none of them is 0. -/
theorem written_str {w : Str} (h : Holds n w) : ((b.write w).set0 w.length).str = w := by
  have hb : ((b.write w).set0 w.length).bytes = w ++ 0 :: b.bytes.drop (w.length + 1) := by
    simp only [set0, write]
    have hl : w.length < b.bytes.length := by
      rw [b.len]
      exact h.1
    rw [List.take_of_length_le (Nat.le_of_lt h.1), List.set_append_right _ _ (Nat.le_refl _), Nat.sub_self,
      List.drop_eq_getElem_cons hl, List.set_cons_zero]
  rw [str, hb]
  exact cstr_append_zero h.2 _

theorem ofBytes_self : ofBytes n b.bytes = b := by
  simpa using ofBytes_append b []

end Buf

/-- A 32-bit word as the machine stores it. -/
def le32 (v : UInt32) : List Byte :=
  [UInt8.ofNat v.toNat, UInt8.ofNat (v.toNat / 2 ^ 8), UInt8.ofNat (v.toNat / 2 ^ 16),
    UInt8.ofNat (v.toNat / 2 ^ 24)]

def unle32 (w : List Byte) : UInt32 :=
  UInt32.ofNat ((w.getD 0 0).toNat + (w.getD 1 0).toNat * 2 ^ 8 + (w.getD 2 0).toNat * 2 ^ 16 +
    (w.getD 3 0).toNat * 2 ^ 24)

@[simp] theorem le32_length (v : UInt32) : (le32 v).length = 4 := rfl

theorem unle32_le32 (v : UInt32) (t : List Byte) : unle32 (le32 v ++ t) = v := by
  have hv := v.toNat_lt
  have hsum : v.toNat % 2 ^ 8 + v.toNat / 2 ^ 8 % 2 ^ 8 * 2 ^ 8 +
      v.toNat / 2 ^ 16 % 2 ^ 8 * 2 ^ 16 + v.toNat / 2 ^ 24 % 2 ^ 8 * 2 ^ 24 = v.toNat := by omega
  simp only [unle32, le32, List.cons_append, List.nil_append, List.getD_cons_zero,
    List.getD_cons_succ, UInt8.toNat_ofNat']
  rw [hsum]
  simp

theorem drop_le32 (v : UInt32) (t : List Byte) (k : Nat) : (le32 v ++ t).drop (4 + k) = t.drop k := by
  rw [List.drop_append, List.drop_eq_nil_of_le (by rw [le32_length]; omega), le32_length,
    Nat.add_sub_cancel_left, List.nil_append]

/-- The first bytes of a piece of memory, zeros where it ends before. -/
def front (n : Nat) (w : List Byte) : List Byte := (List.range n).map (w.getD · 0)

theorem front_add (n m : Nat) (w : List Byte) : front (n + m) w = front n w ++ front m (w.drop n) := by
  have hd : ∀ i, (w.drop n).getD i 0 = w.getD (n + i) 0 := fun i => by
    rw [List.getD_eq_getElem?_getD, List.getD_eq_getElem?_getD, List.getElem?_drop]
  rw [front, List.range_add, List.map_append, List.map_map]
  exact congrArg _ (List.map_congr_left fun i _ => (hd i).symm)

theorem front_getElem? (n : Nat) (w : List Byte) (i : Nat) :
    (front n w)[i]? = if i < n then some (w.getD i 0) else none := by
  rw [front, List.getElem?_map]
  split
  · rw [List.getElem?_range ‹_›, Option.map_some]
  · rw [List.getElem?_eq_none (by simpa using ‹¬ i < n›), Option.map_none]

theorem front_take (n : Nat) (w : List Byte) : front n (w.take n) = front n w := by
  refine List.map_congr_left fun i hi => ?_
  rw [List.getD_eq_getElem?_getD, List.getD_eq_getElem?_getD, List.getElem?_take_of_lt (List.mem_range.mp hi)]

theorem Buf.ofBytes_front (n : Nat) (w : List Byte) : (Buf.ofBytes n w).bytes = front n w := by
  refine List.ext_getElem? fun i => ?_
  rw [front_getElem?, Buf.ofBytes, List.getElem?_append, List.getElem?_take, List.getElem?_replicate,
    List.length_take, List.getD_eq_getElem?_getD]
  by_cases hi : i < n
  · by_cases hw : i < w.length
    · simp [hi, hw]
    · have hn : i - min n w.length < n - w.length := by omega
      simp [hi, hw, hn]
  · have hn : ¬ i - min n w.length < n - w.length := by omega
    simp [hi, hn]

theorem le32_front (w : List Byte) : le32 (unle32 w) = front 4 w := by
  have hb : ∀ {n : Nat} {b : Byte}, n % 2 ^ 8 = b.toNat → UInt8.ofNat n = b := fun h =>
    UInt8.toNat_inj.mp (UInt8.toNat_ofNat'.trans h)
  have h0 := (w.getD 0 0).toNat_lt
  have h1 := (w.getD 1 0).toNat_lt
  have h2 := (w.getD 2 0).toNat_lt
  have h3 := (w.getD 3 0).toNat_lt
  have hw : (unle32 w).toNat = (w.getD 0 0).toNat + (w.getD 1 0).toNat * 2 ^ 8 + (w.getD 2 0).toNat * 2 ^ 16 +
      (w.getD 3 0).toNat * 2 ^ 24 := by
    rw [unle32, UInt32.toNat_ofNat', Nat.mod_eq_of_lt (by omega)]
  have hf : front 4 w = [w.getD 0 0, w.getD 1 0, w.getD 2 0, w.getD 3 0] := rfl
  rw [hf, le32, hb (b := w.getD 0 0) (by omega), hb (b := w.getD 1 0) (by omega), hb (b := w.getD 2 0) (by omega),
    hb (b := w.getD 3 0) (by omega)]

variable {α : Type} {m size : Nat}

/-- The elements of an array one after the other in memory. -/
def arrayBytes (enc : α → List Byte) (a : Fin m → α) : List Byte :=
  (List.finRange m).flatMap (fun i => enc (a i))

/-- The `i`-th element of size `size`, cut out of memory. -/
def arrayAt (size : Nat) (w : List Byte) (i : Nat) : List Byte := (w.drop (i * size)).take size

theorem arrayBytes_length (enc : α → List Byte) (hs : ∀ a, (enc a).length = size)
    (a : Fin m → α) : (arrayBytes enc a).length = m * size := by
  simp [arrayBytes, List.length_flatMap, hs]

theorem arrayAt_flatMap (enc : α → List Byte) (hs : ∀ a, (enc a).length = size)
    (l : List α) (t : List Byte) (i : Nat) (hi : i < l.length) : arrayAt size (l.flatMap enc ++ t) i = enc l[i] := by
  induction l generalizing i with
  | nil => simp at hi
  | cons a l ih =>
    cases i with
    | zero =>
      simp only [arrayAt, Nat.zero_mul, List.drop_zero, List.flatMap_cons, List.append_assoc,
        List.getElem_cons_zero]
      rw [← hs a, List.take_left]
    | succ i =>
      have hi' : i < l.length := by simpa using hi
      have hd : (enc a ++ (l.flatMap enc ++ t)).drop ((i + 1) * size) =
          (l.flatMap enc ++ t).drop (i * size) := by
        rw [show (i + 1) * size = (enc a).length + i * size by rw [hs,Nat.succ_mul,Nat.add_comm]]
        rw [List.drop_append]
        simp [List.drop_eq_nil_of_le]
      simpa [arrayAt, List.flatMap_cons, hd] using ih i hi'

theorem arrayAt_arrayBytes (enc : α → List Byte) (hs : ∀ a, (enc a).length = size)
    (a : Fin m → α) (t : List Byte) (i : Fin m) : arrayAt size (arrayBytes enc a ++ t) i = enc (a i) := by
  have hi : (i : Nat) < (List.ofFn a).length := by simp
  have h := arrayAt_flatMap enc hs (List.ofFn a) t i hi
  have he : (List.ofFn a).flatMap enc = arrayBytes enc a := by
    rw [List.ofFn_eq_map, List.flatMap_map]
    rfl
  rw [he] at h
  simpa using h

/-- Elements that are written as they are read are the bytes they were read from. -/
theorem arrayBytes_front {enc : α → List Byte} {dec : List Byte → α} (h : ∀ w, enc (dec w) = front size w) (m : Nat)
    (w : List Byte) : arrayBytes enc (fun i : Fin m => dec (arrayAt size w i)) = front (m * size) w := by
  have hi : ∀ i, enc (dec (arrayAt size w i)) = front size (w.drop (i * size)) := fun i => (h _).trans (front_take _ _)
  rw [arrayBytes]
  simp only [hi]
  induction m with
  | zero =>
    rw [Nat.zero_mul]
    rfl
  | succ m ih =>
    rw [List.finRange_succ_last, List.flatMap_append, List.flatMap_map, Nat.succ_mul, front_add, ← ih]
    simp

end Angelic.CString
