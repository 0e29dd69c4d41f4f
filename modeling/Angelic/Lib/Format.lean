import Angelic.Lib.CString

namespace Angelic.CString

variable {n size : Nat} {fmt : Str}

/-- `strncat(dst, src, cap - strlen(dst) - 1)` on an array of `cap` bytes. -/
def strncat (cap : Nat) (dst src : Str) : Str := dst ++ (cstr src).take (cap - 1 - dst.length)

/-- The string left by `strncpy(dst, src, n)` and a terminator at `n`. -/
def strncpy (n : Nat) (src : Str) : Str := (cstr src).take n

theorem strncat_holds {s t : Str} (h : Holds n s) : Holds n (strncat n s t) := by
  have hl := h.1
  refine ⟨?_, ?_⟩
  · simp only [strncat, List.length_append, List.length_take]
    omega
  · simp only [strncat, List.mem_append, not_or]
    exact ⟨h.2, fun hm => zero_not_mem_cstr t (List.mem_of_mem_take hm)⟩

theorem strncpy_holds (n : Nat) (s : Str) : Holds (n + 1) (strncpy n s) :=
  ⟨by simp only [strncpy, List.length_take]; omega,
    fun h => zero_not_mem_cstr s (List.mem_of_mem_take h)⟩

inductive Arg where
  | s (v : Str)
  | d (v : Int)
  | u (v : Nat)
  deriving DecidableEq, Repr

def decimal (n : Nat) : Str := (Nat.toDigits 10 n).map ch

/-- What a directive writes before its text is cut to the room left. -/
def Arg.text : Arg → Str
  | .s v => cstr v
  | .d v => if v < 0 then ch '-' :: decimal v.natAbs else decimal v.natAbs
  | .u v => decimal v

/-- The text `vsnprintf` leaves in an array with `remaining` bytes left. It returns the
length of what it wrote, cut or not. A directive it does not know is copied: `%06x`
comes out as it stands and takes no argument. -/
def vsnprintf : Nat → Str → List Arg → Str
  | _, [], _ => []
  | remaining, c :: f, args =>
    if remaining ≤ 1 ∨ c = 0 then []
    else if c ≠ ch '%' then c :: vsnprintf (remaining - 1) f args
    else
      match f with
      | [] => [ch '%']
      | k :: f =>
        if k = ch 's' ∨ k = ch 'd' ∨ k = ch 'u' then
          match args with
          | [] => vsnprintf remaining f []
          | a :: args =>
            let t := a.text.take (remaining - 1)
            t ++ vsnprintf (remaining - t.length) f args
        else
          let t := [ch '%', k].take (remaining - 1)
          t ++ vsnprintf (remaining - t.length) f args

/-! What is written without the cut: the literal pieces of the format with the arguments between
them. -/

/-- Puts a literal text in front of the first piece. -/
def onto (t : Str) : List Str → List Str
  | [] => [t]
  | p :: ps => (t ++ p) :: ps

/-- The texts between the directives; at least one. -/
def pieces : Str → List Str
  | [] => [[]]
  | c :: f =>
    if c = 0 then [[]]
    else if c ≠ ch '%' then onto [c] (pieces f)
    else
      match f with
      | [] => [[ch '%']]
      | k :: f =>
        if k = ch 's' ∨ k = ch 'd' ∨ k = ch 'u' then [] :: pieces f else onto [ch '%', k] (pieces f)

def weave : List Str → List Arg → Str
  | [], _ => []
  | p :: [], _ => p
  | p :: ps, [] => p ++ weave ps []
  | p :: ps, a :: args => p ++ a.text ++ weave ps args

-- The equations of the functions are made here once; the proofs below would all wait for them at the same time.
section
attribute [local simp] vsnprintf pieces weave onto
end

section Pieces
variable (f : Str)

theorem pieces_zero : pieces (0 :: f) = [[]] := by
  cases f <;> simp [pieces]

theorem pieces_char {c : Byte} (h0 : c ≠ 0) (hc : c ≠ ch '%') : pieces (c :: f) = onto [c] (pieces f) := by
  cases f <;> simp [pieces, h0, hc]

theorem pieces_hole {k : Byte} (hk : k = ch 's' ∨ k = ch 'd' ∨ k = ch 'u') :
    pieces (ch '%' :: k :: f) = [] :: pieces f := by
  rw [pieces, if_neg (by decide), if_neg (by decide), if_pos hk]

theorem pieces_other {k : Byte} (hk : ¬ (k = ch 's' ∨ k = ch 'd' ∨ k = ch 'u')) :
    pieces (ch '%' :: k :: f) = onto [ch '%', k] (pieces f) := by
  rw [pieces, if_neg (by decide), if_neg (by decide), if_neg hk]

end Pieces

theorem pieces_ne_nil (f : Str) : pieces f ≠ [] := by
  have honto : ∀ t ps, onto t ps ≠ [] := fun t ps => by cases ps <;> simp [onto]
  unfold pieces
  repeat' first | exact honto _ _ | exact List.cons_ne_nil _ _ | split

theorem weave_onto (t : Str) (ps : List Str) (args : List Arg) : weave (onto t ps) args = t ++ weave ps args := by
  match ps, args with
  | [], _ => simp [onto, weave]
  | [p], _ => simp [onto, weave]
  | p :: q :: ps, [] => simp [onto, weave]
  | p :: q :: ps, a :: args => simp [onto, weave]

theorem weave_hole (f : Str) (a : Arg) (args : List Arg) :
    weave ([] :: pieces f) (a :: args) = a.text ++ weave (pieces f) args := by
  cases h : pieces f with
  | nil => exact absurd h (pieces_ne_nil f)
  | cons p ps => simp [weave]

theorem weave_hole_nil (f : Str) : weave ([] :: pieces f) [] = weave (pieces f) [] := by
  cases h : pieces f with
  | nil => exact absurd h (pieces_ne_nil f)
  | cons p ps => simp [weave]

/-- A text cut to the room left, and then what fits behind it. -/
theorem take_then (hn : 1 < n) (t r : Str) :
    t.take (n - 1) ++ r.take (n - (t.take (n - 1)).length - 1) = (t ++ r).take (n - 1) := by
  rw [List.take_append, List.length_take]
  congr 2
  omega

/-- The text is the one without the cut, cut. -/
theorem vsnprintf_eq (n : Nat) (f : Str) (args : List Arg) :
    vsnprintf n f args = (weave (pieces f) args).take (n - 1) := by
  fun_induction vsnprintf n f args with
  | case1 => simp [pieces, weave]
  | case2 n c f args h =>
    rcases h with h | rfl
    · rw [Nat.sub_eq_zero_of_le h, List.take_zero]
    · simp [pieces_zero, weave]
  | case3 n c f args h hc ih =>
    obtain ⟨m, rfl⟩ : ∃ m, n = m + 2 := ⟨n - 2, by omega⟩
    rw [pieces_char f (fun h0 => h (.inr h0)) hc, weave_onto, ih]
    simp
  | case4 n c args h hc =>
    obtain ⟨m, rfl⟩ : ∃ m, n = m + 2 := ⟨n - 2, by omega⟩
    simp [pieces, weave, not_not.mp hc, (by decide : ch '%' ≠ 0)]
  | case5 n c h hc k f hk ih =>
    rw [not_not.mp hc, pieces_hole f hk, weave_hole_nil, ih]
  | case6 n c h hc k f hk a args t ih =>
    rw [not_not.mp hc, pieces_hole f hk, weave_hole, ih, ← take_then (by omega)]
  | case7 n c args h hc k f hk t ih =>
    rw [not_not.mp hc, pieces_other f hk, weave_onto, ih, ← take_then (by omega)]

theorem weave_length_le (ps : List Str) (args : List Arg) :
    (weave ps args).length ≤ (ps.map List.length).sum + (args.map fun a => a.text.length).sum := by
  fun_induction weave ps args with
  | case1 => simp
  | case2 => simp
  | case3 p ps hne ih =>
    simp only [List.length_append, List.map_cons, List.sum_cons] at ih ⊢
    omega
  | case4 p ps a args hne ih =>
    simp only [List.length_append, List.map_cons, List.sum_cons] at ih ⊢
    omega

theorem decimal_length_le {k : Nat} (hk : 0 < k) (h : n < 10 ^ k) : (decimal n).length ≤ k := by
  rw [decimal, List.length_map]
  exact (Nat.length_toDigits_le_iff (by decide) hk).mpr h

theorem mem_decimal {b : Byte} (h : b ∈ decimal n) : 48 ≤ b.toNat ∧ b.toNat ≤ 57 := by
  obtain ⟨c, hc, rfl⟩ := List.mem_map.mp h
  have hd : c.isDigit = true := Nat.isDigit_of_mem_toDigits (by decide) (by decide) hc
  have hn : 48 ≤ c.toNat ∧ c.toNat ≤ 57 := by
    simpa [Char.isDigit, UInt32.le_iff_toNat_le] using hd
  simp only [ch, UInt8.toNat_ofNat']
  omega

theorem decimal_clean (n : Nat) : 0 ∉ decimal n := fun h => absurd (mem_decimal h).1 (by decide)

theorem Arg.text_clean (a : Arg) : 0 ∉ a.text := by
  cases a with
  | s v => exact zero_not_mem_cstr v
  | u v => exact decimal_clean v
  | d v =>
    rw [Arg.text]
    split
    · intro h
      rcases List.mem_cons.mp h with h | h
      · exact absurd h (by decide)
      · exact decimal_clean _ h
    · exact decimal_clean _

/-- A formatted text holds no terminator. -/
theorem vsnprintf_clean (n : Nat) {f : Str} (hf : 0 ∉ f) (args : List Arg) : 0 ∉ vsnprintf n f args := by
  fun_induction vsnprintf n f args with
  | case1 => exact List.not_mem_nil
  | case2 => exact List.not_mem_nil
  | case3 n c f args h hc ih =>
    intro hm
    rcases List.mem_cons.mp hm with he | hm
    · exact h (.inr he.symm)
    · exact ih (fun h0 => hf (List.mem_cons_of_mem _ h0)) hm
  | case4 n c args h hc => decide
  | case5 n c h hc k f hk ih => exact ih fun h0 => hf (List.mem_cons_of_mem _ (List.mem_cons_of_mem _ h0))
  | case6 n c h hc k f hk a args t ih =>
    intro hm
    rcases List.mem_append.mp hm with hm | hm
    · exact a.text_clean (List.mem_of_mem_take hm)
    · exact ih (fun h0 => hf (List.mem_cons_of_mem _ (List.mem_cons_of_mem _ h0))) hm
  | case7 n c args h hc k f hk t ih =>
    intro hm
    rcases List.mem_append.mp hm with hm | hm
    · rcases List.mem_cons.mp (List.mem_of_mem_take hm) with hm | hm
      · exact absurd hm (by decide)
      · exact hf (List.mem_cons_of_mem _ (List.mem_cons.mpr (.inl (List.mem_singleton.mp hm))))
    · exact ih (fun h0 => hf (List.mem_cons_of_mem _ (List.mem_cons_of_mem _ h0))) hm

def snprintf (size : Nat) (format : Str) (args : List Arg) : Str := vsnprintf size format args

theorem snprintf_length (h : 0 < size) (fmt : Str) (args : List Arg) : (snprintf size fmt args).length < size := by
  rw [snprintf, vsnprintf_eq, List.length_take]
  omega

theorem snprintf_pos (h : 2 ≤ size) (hf : fmt.head? = some (ch '<')) (args : List Arg) :
    0 < (snprintf size fmt args).length := by
  cases fmt with
  | nil => cases hf
  | cons c f =>
    obtain rfl : c = ch '<' := Option.some.inj hf
    rw [snprintf, vsnprintf_eq, pieces_char f (by decide) (by decide), weave_onto, List.length_take,
      List.length_append, List.length_singleton]
    omega

/-- The literal text a format begins with is what the text begins with. -/
theorem snprintf_starts {p : Str} (h : p <+: fmt) (hp : p.all fun c => c != 0 && c != ch '%')
    (hs : p.length < size) (args : List Arg) : p <+: snprintf size fmt args := by
  obtain ⟨f, rfl⟩ := h
  rw [snprintf, vsnprintf_eq, List.prefix_take_iff]
  refine ⟨?_, by omega⟩
  clear hs
  induction p with
  | nil => exact List.nil_prefix
  | cons c p ih =>
    rw [List.all_cons, Bool.and_eq_true, Bool.and_eq_true, bne_iff_ne, bne_iff_ne] at hp
    rw [List.cons_append, pieces_char _ hp.1.1 hp.1.2, weave_onto]
    exact List.cons_prefix_cons.mpr ⟨rfl, ih hp.2⟩

theorem snprintf_holds (h : 0 < size) (hf : 0 ∉ fmt) (args : List Arg) : Holds size (snprintf size fmt args) :=
  ⟨snprintf_length h fmt args, vsnprintf_clean size hf args⟩

end Angelic.CString
