import Mathlib.Algebra.Ring.Nat
import Mathlib.Data.List.Basic

namespace Angelic.CString

abbrev Byte := UInt8

/-- Memory read through a `char *`: the bytes from the pointer on. The end of the
list counts as a NUL, so a pointer into a string is one of the string's suffixes. -/
abbrev Str := List Byte

def ch (c : Char) : Byte := UInt8.ofNat c.toNat

def apos : Byte := 39
def dquote : Byte := 34

def lit (s : String) : Str := s.toByteArray.data.toList

/-- Adjacent string literals, as the C compiler joins them. -/
def cat (ps : List String) : Str := ps.flatMap lit

/-- The characters before the terminator. -/
def cstr (s : Str) : Str := s.takeWhile (· != 0)

def strlen (s : Str) : Nat := (cstr s).length

def strncmp : Nat → Str → Str → Int
  | 0, _, _ => 0
  | _ + 1, [], [] => 0
  | _ + 1, [], b :: _ => 0 - b.toNat
  | _ + 1, a :: _, [] => a.toNat
  | n + 1, a :: s, b :: t =>
    if a ≠ b then a.toNat - b.toNat else if a = 0 then 0 else strncmp n s t

def strchr : Str → Byte → Option Str
  | [], c => if c = 0 then some [] else none
  | a :: s, c => if a = c then some (a :: s) else if a = 0 then none else strchr s c

/-- Whether the needle stands at the start of the haystack. -/
def matchAt : Str → Str → Bool
  | _, [] => true
  | [], n :: _ => n == 0
  | h :: hs, n :: ns => if n = 0 then true else if h = 0 ∨ h ≠ n then false else matchAt hs ns

def strstr : Str → Str → Option Str
  | [], needle => if cstr needle = [] then some [] else none
  | a :: s, needle =>
    if cstr needle = [] then some (a :: s)
    else if a = 0 then none
    else if matchAt (a :: s) needle then some (a :: s)
    else strstr s needle

/-- Reads no terminator: the search runs over the counted bytes only. -/
def memchr : List Byte → Byte → Option (List Byte)
  | [], _ => none
  | a :: s, c => if a = c then some (a :: s) else memchr s c

/-- What lies between a pointer and a later one into the same memory. -/
def upto (p e : Str) : Str := p.take (p.length - e.length)

/-- The `n` bytes `strncpy` writes: the source cut to `n`, then zeros. -/
def strncpyBytes (n : Nat) (src : Str) : List Byte :=
  (cstr src).take n ++ List.replicate (n - (cstr src).length) 0

/-- A string that fits an array of `n` bytes. -/
def Holds (n : Nat) (s : Str) : Prop := s.length < n ∧ 0 ∉ s

theorem Holds.takeWhile {n : Nat} {s : Str} (h : Holds n s) (p : Byte → Bool) : Holds n (s.takeWhile p) :=
  ⟨Nat.lt_of_le_of_lt (List.takeWhile_prefix p).length_le h.1,
    fun hm => h.2 ((List.takeWhile_prefix p).subset hm)⟩

theorem cstr_cons_zero (s : Str) : cstr (0 :: s) = [] := by simp [cstr]

theorem cstr_cons_of_ne {a : Byte} (h : a ≠ 0) (s : Str) : cstr (a :: s) = a :: cstr s := by
  simp [cstr, h]

@[simp] theorem cstr_nil : cstr [] = [] := rfl

theorem zero_not_mem_cstr (s : Str) : 0 ∉ cstr s := by
  intro h
  induction s with
  | nil => simp at h
  | cons a s ih =>
    by_cases ha : a = 0
    · simp [ha, cstr_cons_zero] at h
    · rw [cstr_cons_of_ne ha] at h
      rcases List.mem_cons.mp h with he | h
      · exact ha he.symm
      · exact ih h

theorem cstr_of_clean {s : Str} (h : 0 ∉ s) : cstr s = s := by
  induction s with
  | nil => rfl
  | cons a s ih =>
    simp only [List.mem_cons, not_or] at h
    rw [cstr_cons_of_ne (fun he => h.1 he.symm), ih h.2]

@[simp] theorem cstr_cstr (s : Str) : cstr (cstr s) = cstr s :=
  cstr_of_clean (zero_not_mem_cstr s)

theorem takeWhile_take {α : Type} (p : α → Bool) (l : List α) (n : Nat) :
    (l.take n).takeWhile p = (l.takeWhile p).take n := by
  induction l generalizing n with
  | nil => simp
  | cons a l ih =>
    cases n with
    | zero => simp
    | succ n =>
      rw [List.take_succ_cons, List.takeWhile_cons, List.takeWhile_cons]
      split
      · rw [ih, List.take_succ_cons]
      · rfl

theorem cstr_take (s : Str) (n : Nat) : cstr (s.take n) = (cstr s).take n := takeWhile_take _ s n

theorem cstr_append_zero {s : Str} (h : 0 ∉ s) (t : Str) : cstr (s ++ 0 :: t) = s := by
  induction s with
  | nil => exact cstr_cons_zero t
  | cons a s ih =>
    simp only [List.mem_cons, not_or] at h
    rw [List.cons_append, cstr_cons_of_ne (fun he => h.1 he.symm), ih h.2]

theorem toNat_sub_eq_zero {a b : Byte} : (a.toNat : Int) - b.toNat = 0 ↔ a = b := by
  constructor
  · intro h
    exact UInt8.toNat_inj.mp (by omega)
  · intro h
    simp [h]

theorem toNat_ne_zero {a : Byte} (h : a ≠ 0) : a.toNat ≠ 0 := by
  intro he
  exact h (UInt8.toNat_inj.mp he)

/-- `strncmp` answers zero exactly when the strings agree in the bytes it looks at. -/
theorem strncmp_eq_zero (n : Nat) (s t : Str) : strncmp n s t = 0 ↔ (cstr s).take n = (cstr t).take n := by
  induction n generalizing s t with
  | zero => simp [strncmp]
  | succ n ih =>
    cases s with
    | nil =>
      cases t with
      | nil => simp [strncmp]
      | cons b t =>
        by_cases hb : b = 0
        · simp [strncmp, hb, cstr_cons_zero]
        · have := toNat_ne_zero hb
          simp [strncmp, cstr_cons_of_ne hb, this]
    | cons a s =>
      cases t with
      | nil =>
        by_cases ha : a = 0
        · simp [strncmp, ha, cstr_cons_zero]
        · simp [strncmp, cstr_cons_of_ne ha, toNat_ne_zero ha]
      | cons b t =>
        by_cases hab : a = b
        · subst hab
          by_cases ha : a = 0
          · simp [strncmp, ha, cstr_cons_zero]
          · simp [strncmp, ha, cstr_cons_of_ne ha, ih]
        · rw [strncmp, if_pos hab, toNat_sub_eq_zero]
          by_cases ha : a = 0
          · subst ha
            simp [cstr_cons_zero, cstr_cons_of_ne (Ne.symm hab), hab]
          · by_cases hb : b = 0
            · simp [hb, cstr_cons_zero, cstr_cons_of_ne ha, ha]
            · simp [cstr_cons_of_ne ha, cstr_cons_of_ne hb, hab]

theorem strchr_suffix {s t : Str} {c : Byte} (h : strchr s c = some t) : t <:+ s := by
  induction s with
  | nil =>
    simp only [strchr] at h
    split at h
    · cases h; exact List.suffix_refl _
    · contradiction
  | cons a s ih =>
    simp only [strchr] at h
    split at h
    · cases h; exact List.suffix_refl _
    · split at h
      · contradiction
      · exact (ih h).trans (List.suffix_cons a s)

theorem strstr_suffix {s t n : Str} (h : strstr s n = some t) : t <:+ s := by
  induction s with
  | nil =>
    simp only [strstr] at h
    split at h
    · cases h; exact List.suffix_refl _
    · contradiction
  | cons a s ih =>
    simp only [strstr] at h
    repeat' split at h
    · cases h; exact List.suffix_refl _
    · contradiction
    · cases h; exact List.suffix_refl _
    · exact (ih h).trans (List.suffix_cons a s)

theorem strncpyBytes_length (n : Nat) (s : Str) : (strncpyBytes n s).length = n := by
  simp only [strncpyBytes, List.length_append, List.length_take, List.length_replicate]
  omega

end Angelic.CString
