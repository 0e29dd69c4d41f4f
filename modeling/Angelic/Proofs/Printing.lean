import Angelic.Spec.Printf
import Mathlib.Data.List.Infix

namespace Angelic.Proofs
open CString Model.Printf Spec.Printf

/-! What the kernel's `vsnprintf` writes for a piece of a format. -/

namespace Printf

variable {conv k : Byte} {o' : Out} {n : Nat}
variable {o : Out} {args : List VArg}

/-- A text cut to the room that is left. -/
def write (o : Out) (t : Str) : Out := ⟨o.text ++ t.take (o.remaining - 1), o.remaining - min t.length (o.remaining - 1)⟩

section Write
variable (o : Out)

theorem write_nil : write o [] = o := by
  rw [write, List.take_nil, List.append_nil, List.length_nil, Nat.zero_min, Nat.sub_zero]

theorem put_eq (b : Byte) : o.put b = write o [b] := by
  unfold Out.put write
  split
  · rename_i h
    rw [List.take_of_length_le (by rw [List.length_singleton]; omega), List.length_singleton, Nat.min_eq_left (by omega)]
  · rename_i h
    rw [show o.remaining - 1 = 0 by omega, List.take_zero, List.append_nil, Nat.min_zero, Nat.sub_zero]

theorem write_write (t u : Str) : write (write o t) u = write o (t ++ u) := by
  unfold write
  dsimp only
  rw [List.append_assoc, List.take_append, List.length_append]
  congr 1
  · congr 3
    omega
  · omega

theorem write_put (t : Str) (b : Byte) : (write o t).put b = write o (t ++ [b]) := by rw [put_eq, write_write]

theorem foldl_put (t : Str) : t.foldl Out.put o = write o t := by
  induction t generalizing o with
  | nil => exact (write_nil o).symm
  | cons b t ih => rw [List.foldl_cons, ih, put_eq, write_write, List.singleton_append]

/-- With room for all of it nothing is cut. -/
theorem write_fits {t : Str} (h : t.length < o.remaining) : write o t = ⟨o.text ++ t, o.remaining - t.length⟩ := by
  rw [write, List.take_of_length_le (by omega), Nat.min_eq_left (by omega)]

end Write

/-! The digits. -/

theorem simple_append_eq {base : Nat} (hb : 1 < base) {digit : Nat → Byte} {f : Char → Byte}
    (hf : ∀ d < base, f d.digitChar = digit d) (o : Out) (n : Nat) :
    simple_append hb digit o n = write o ((Nat.toDigits base n).map f) := by
  induction n using Nat.strongRecOn with
  | ind n ih =>
    have hlast : f (n % base).digitChar = digit (n % base) := hf _ (Nat.mod_lt n (by omega))
    rw [simple_append]
    split
    · rename_i h
      have hlt : n / base < n := Nat.div_lt_self (by omega) hb
      rw [ih _ hlt, write_put, Nat.toDigits_of_base_le hb h, List.map_append, List.map_singleton, hlast]
    · rename_i h
      have hn : n < base := by omega
      rw [put_eq, Nat.toDigits_of_lt_base hn, List.map_singleton, ← hlast, Nat.mod_eq_of_lt hn]

theorem append_int_eq (o : Out) (n : Nat) : simple_append_int o n = write o (decimal n) :=
  simple_append_eq _ (by decide) o n

theorem append_hex_eq (o : Out) (n : Nat) : simple_append_hex o n = write o (hexUpper n) :=
  simple_append_eq _ (by decide) o n

/-! The directives. -/

/-- The text of a number as the code makes it: hexadecimal digits in upper case, and `%zd` read as an `int`. -/
def printedNum (len : Length) (w : UInt64) : Conv → Str
  | .d | .i => signText (signed (len == .long) w) ++ decimal (signed (len == .long) w).natAbs
  | .u => decimal (len.unsigned w)
  | .x | .X => hexUpper (len.unsigned w)

/-- What the code writes for a piece without a width. -/
def printed : Piece → Str
  | .num _ len conv w => printedNum len w conv
  | p => p.text

theorem unsigned_eq (len : Length) (w : UInt64) : unsigned (len == .long || len == .size) w = len.unsigned w := by
  cases len <;> rfl

theorem signed_bound (is_long : Bool) (w : UInt64) : -2 ^ 63 ≤ signed is_long w ∧ signed is_long w < 2 ^ 63 := by
  unfold signed
  split
  · exact ⟨Int64.le_toInt _, Int64.toInt_lt _⟩
  · have h1 := Int32.le_toInt w.toUInt32.toInt32
    have h2 := Int32.toInt_lt w.toUInt32.toInt32
    omega

section Convert
variable {o : Out} (rest : List VArg)

theorem convert_signed (ho : 1 < o.remaining) (hc : conv = ch 'd' ∨ conv = ch 'i') (is_long is_size : Bool) (w : UInt64) :
    convert is_long is_size conv (.word w :: rest) o =
      some (rest, write o (signText (signed is_long w) ++ decimal (signed is_long w).natAbs)) := by
  have hb := signed_bound is_long w
  rw [convert, if_pos hc]
  dsimp only
  generalize signed is_long w = v at hb ⊢
  by_cases hv : v < 0
  · have hn : (-v % 2 ^ 64).toNat = v.natAbs := by omega
    rw [if_pos ⟨hv, ho⟩, hn, append_int_eq, put_eq, write_write, signText, if_pos hv]
  · have hn : (v % 2 ^ 64).toNat = v.natAbs := by omega
    rw [if_neg (fun h => hv h.1), hn, append_int_eq, signText, if_neg hv, List.nil_append]

theorem convert_unsigned (hc : conv = ch 'u') (is_long is_size : Bool) (w : UInt64) :
    convert is_long is_size conv (.word w :: rest) o = some (rest, write o (decimal (unsigned (is_long || is_size) w))) := by
  subst hc
  rw [convert, if_neg (by decide), if_pos rfl, append_int_eq]

theorem convert_hex (hc : conv = ch 'x' ∨ conv = ch 'X') (is_long is_size : Bool) (w : UInt64) :
    convert is_long is_size conv (.word w :: rest) o = some (rest, write o (hexUpper (unsigned (is_long || is_size) w))) := by
  have hd : ¬ (conv = ch 'd' ∨ conv = ch 'i') := by rcases hc with rfl | rfl <;> decide
  have hu : ¬ conv = ch 'u' := by rcases hc with rfl | rfl <;> decide
  rw [convert, if_neg hd, if_neg hu, if_pos hc, append_hex_eq]

theorem convert_num (ho : 1 < o.remaining) (len : Length) (conv : Conv) (w : UInt64) :
    convert (len == .long) (len == .size) conv.letter (.word w :: rest) o = some (rest, write o (printedNum len w conv)) := by
  cases conv with
  | d => exact convert_signed rest ho (.inl rfl) _ _ w
  | i => exact convert_signed rest ho (.inr rfl) _ _ w
  | u => rw [Conv.letter, convert_unsigned rest rfl, unsigned_eq, printedNum]
  | x => rw [Conv.letter, convert_hex rest (.inl rfl), unsigned_eq, printedNum]
  | X => rw [Conv.letter, convert_hex rest (.inr rfl), unsigned_eq, printedNum]

end Convert

/-- A pointer at the very end of the room loses its `0x` and not its digits. -/
def wrote (o : Out) : Piece → Out
  | .p w => if 2 < o.remaining then write o (lit "0x" ++ hexUpper w.toNat) else write o (hexUpper w.toNat)
  | p => write o (printed p)

/-- One turn of the loop, where the format has two bytes left. -/
theorem loop_turn (c k : Byte) (f : List Byte) (args : List VArg) (o : Out) :
    loop (c :: k :: f) args o =
      if o.remaining ≤ 1 then some o
      else if c ≠ ch '%' then loop (k :: f) args (o.put c)
      else if k = ch 'l' ∨ k = ch 'z' then
        match f with
        | [] => none
        | conv :: f => (convert (k == ch 'l') (k == ch 'z') conv args o).bind fun r => loop f r.1 r.2
      else (convert false false k args o).bind fun r => loop f r.1 r.2 := by
  cases f <;> rfl

/-- The loop over a literal byte. -/
theorem loop_byte {b : Byte} (hb : b ≠ ch '%') (f : List Byte) (args : List VArg) (o : Out) :
    loop (b :: f) args o = if o.remaining ≤ 1 then some o else loop f args (o.put b) := by
  cases f with
  | nil => exact congrArg (ite (o.remaining ≤ 1) (some o)) (if_pos hb)
  | cons k f =>
    rw [loop_turn, if_pos hb]

section Loop
variable {o : Out} (f : List Byte) (args : List VArg)

theorem loop_convert (ho : 1 < o.remaining) (hk : ¬ (k = ch 'l' ∨ k = ch 'z')) :
    loop (ch '%' :: k :: f) args o = (convert false false k args o).bind fun r => loop f r.1 r.2 := by
  rw [loop_turn, if_neg (by omega), if_neg (not_not.mpr rfl), if_neg hk]

theorem loop_modified (ho : 1 < o.remaining) (hk : k = ch 'l' ∨ k = ch 'z') (conv : Byte) :
    loop (ch '%' :: k :: conv :: f) args o =
      (convert (k == ch 'l') (k == ch 'z') conv args o).bind fun r => loop f r.1 r.2 := by
  rw [loop_turn, if_neg (by omega), if_neg (not_not.mpr rfl), if_pos hk]

theorem loop_full (ho : o.remaining ≤ 1) : loop f args o = some o := by
  match f with
  | [] => rfl
  | [c] => exact if_pos ho
  | c :: k :: f => rw [loop_turn, if_pos ho]

theorem loop_num (ho : 1 < o.remaining) (len : Length) (conv : Conv) (w : UInt64) :
    loop (ch '%' :: (len.letters ++ [conv.letter]) ++ f) (.word w :: args) o = loop f args (write o (printedNum len w conv)) := by
  have hconv := convert_num args ho len conv w
  cases len with
  | int =>
    have hk : ¬ (conv.letter = ch 'l' ∨ conv.letter = ch 'z') := by cases conv <;> decide
    change loop (ch '%' :: conv.letter :: f) _ o = _
    rw [loop_convert f _ ho hk]
    exact congrArg (Option.bind · _) hconv
  | long =>
    change loop (ch '%' :: ch 'l' :: conv.letter :: f) _ o = _
    rw [loop_modified f _ ho (.inl rfl)]
    exact congrArg (Option.bind · _) hconv
  | size =>
    change loop (ch '%' :: ch 'z' :: conv.letter :: f) _ o = _
    rw [loop_modified f _ ho (.inr rfl)]
    exact congrArg (Option.bind · _) hconv

/-- A directive without a modifier, its argument and what it writes. -/
theorem loop_plain (ho : 1 < o.remaining) (hk : ¬ (k = ch 'l' ∨ k = ch 'z')) {given rest : List VArg}
    (h : convert false false k given o = some (rest, o')) : loop (ch '%' :: k :: f) given o = loop f rest o' := by
  rw [loop_convert f given ho hk, h]
  rfl

end Loop

def hasWidth : Piece → Bool
  | .num (some _) .. => true
  | _ => false

/-- The loop over a piece without a width. -/
theorem loop_piece {p : Piece} (hp : hasWidth p = false) (f : List Byte) (rest : List VArg) (ho : 1 < o.remaining) :
    loop (p.format ++ f) (p.args ++ rest) o = loop f rest (wrote o p) := by
  cases p with
  | byte b h =>
    rw [Piece.format, Piece.args, List.singleton_append, List.nil_append, loop_byte h.2, if_neg (by omega), put_eq]
    rfl
  | percent => exact loop_plain f ho (by decide) (congrArg (fun o' => some (rest, o')) (put_eq o _))
  | s v => exact loop_plain f ho (by decide) (congrArg (fun o' => some (rest, o')) (foldl_put o _))
  | c w => exact loop_plain f ho (by decide) (congrArg (fun o' => some (rest, o')) (put_eq o _))
  | p w =>
    refine loop_plain f ho (by decide) ?_
    change some (rest, simple_append_hex (if 2 < o.remaining then _ else o) w.toNat) = _
    rw [wrote]
    by_cases h2 : 2 < o.remaining
    · have hl : (lit "0x").length = 2 := by decide
      have hx : (⟨o.text ++ [ch '0', ch 'x'], o.remaining - 2⟩ : Out) = write o (lit "0x") := by
        rw [write_fits o (hl ▸ h2), hl]
        rfl
      rw [if_pos h2, if_pos h2, append_hex_eq, hx, write_write]
    · rw [if_neg h2, if_neg h2, append_hex_eq]
  | num width len conv w =>
    cases width with
    | some n => cases hp
    | none => exact loop_num f rest ho len conv w

/-! What has been written stays. -/

theorem write_extends (o : Out) (t : Str) : o.text <+: (write o t).text := List.prefix_append ..

theorem put_extends (o : Out) (b : Byte) : o.text <+: (o.put b).text := put_eq o b ▸ write_extends o [b]

theorem convert_extends {is_long is_size : Bool} {rest : List VArg}
    (h : convert is_long is_size conv args o = some (rest, o')) : o.text <+: o'.text := by
  have int : ∀ (o : Out) n, o.text <+: (simple_append_int o n).text := fun o n => append_int_eq o n ▸ write_extends o _
  have hex : ∀ (o : Out) n, o.text <+: (simple_append_hex o n).text := fun o n => append_hex_eq o n ▸ write_extends o _
  unfold convert at h
  dsimp only at h
  repeat' split at h
  all_goals cases h
  -- a sign, digits, `0x` in front of digits, a string, a byte, a percent sign, a directive nobody knows
  · exact (put_extends o _).trans (int _ _)
  · exact int o _
  · exact int o _
  · exact hex o _
  · exact (List.prefix_append o.text [ch '0', ch 'x']).trans (hex ⟨o.text ++ [ch '0', ch 'x'], o.remaining - 2⟩ _)
  · exact hex o _
  · exact foldl_put o _ ▸ write_extends o _
  · exact put_extends o _
  · exact put_extends o _
  · exact (put_extends o _).trans (put_extends _ _)

theorem loop_extends {f : List Byte} (h : loop f args o = some o') : o.text <+: o'.text := by
  induction hn : f.length using Nat.strongRecOn generalizing f args o with
  | ind n ih =>
    subst hn
    have bind : ∀ {f' : List Byte} {is_long is_size : Bool} {conv : Byte}, f'.length < f.length →
        ((convert is_long is_size conv args o).bind fun r => loop f' r.1 r.2) = some o' → o.text <+: o'.text := by
      intro f' is_long is_size conv hlt hb
      obtain ⟨⟨rest, o₁⟩, hc, hl⟩ := Option.bind_eq_some_iff.mp hb
      exact (convert_extends hc).trans (ih _ hlt hl rfl)
    match f with
    | [] =>
      cases h
      exact List.prefix_refl _
    | [c] =>
      unfold loop at h
      split at h
      · cases h
        exact List.prefix_refl _
      · split at h
        · cases h
          exact put_extends o c
        · cases h
    | c :: k :: f =>
      rw [loop_turn] at h
      split at h
      · cases h
        exact List.prefix_refl _
      · split at h
        · exact (put_extends o c).trans (ih _ (by simp) h rfl)
        · split at h
          · split at h
            · cases h
            · exact bind (by simp; omega) h
          · exact bind (by simp only [List.length_cons]; omega) h

/-- A width is no directive: the format is copied, beginning with the percent sign. -/
theorem loop_width {n : { n : Nat // 0 < n }} {len : Length} {conv : Conv} {w : UInt64} {f : List Byte}
    (ho : 1 < o.remaining) (h : loop ((Piece.num (some n) len conv w).format ++ f) args o = some o') :
    o.text ++ [ch '%'] <+: o'.text := by
  have hf : (Piece.num (some n) len conv w).format ++ f =
      ch '%' :: ch '0' :: (decimal n ++ len.letters ++ [conv.letter] ++ f) := rfl
  have hzero : convert false false (ch '0') args o = some (args, (o.put (ch '%')).put (ch '0')) := rfl
  rw [hf, loop_plain _ ho (by decide) hzero] at h
  have hput : (o.put (ch '%')).text = o.text ++ [ch '%'] := by rw [Out.put, if_pos ho]
  rw [← hput]
  exact (put_extends _ _).trans (loop_extends h)

/-! The server's own texts: the `vsnprintf` the rest of the model uses is this one. -/

/-- A format of literal bytes, of `%s`, `%d` and `%u` with their arguments, and of directives nobody knows. -/
inductive Served : Str → List Arg → List VArg → Prop where
  | nil (as vs) : Served [] as vs
  | byte {f as vs} (c : Byte) (h0 : c ≠ 0) (hc : c ≠ ch '%') (h : Served f as vs) : Served (c :: f) as vs
  | s {f as vs} (v : Str) (h : Served f as vs) : Served (ch '%' :: ch 's' :: f) (.s v :: as) (.str (some v) :: vs)
  | d {f as vs} (w : UInt64) (h : Served f as vs) :
    Served (ch '%' :: ch 'd' :: f) (.d (signed false w) :: as) (.word w :: vs)
  | u {f as vs} (w : UInt64) (h : Served f as vs) :
    Served (ch '%' :: ch 'u' :: f) (.u (unsigned false w) :: as) (.word w :: vs)
  | other {f as vs} (k : Byte) (hk : k ∉ (lit "lzdiuxXpsc%")) (h : Served f as vs) : Served (ch '%' :: k :: f) as vs

theorem convert_other (hk : k ∉ (lit "lzdiuxXpsc%")) (args : List VArg) (o : Out) :
    convert false false k args o = some (args, write o [ch '%', k]) := by
  have hne : ∀ c ∈ lit "lzdiuxXpsc%", k ≠ c := fun c hc he => hk (he ▸ hc)
  simp only [convert, hne (ch 'd') (by decide), hne (ch 'i') (by decide), hne (ch 'u') (by decide),
    hne (ch 'x') (by decide), hne (ch 'X') (by decide), hne (ch 'p') (by decide), hne (ch 's') (by decide),
    hne (ch 'c') (by decide), hne (ch '%') (by decide), or_self, if_false, put_eq, write_write]
  rfl

theorem vsnprintf_byte (hn : 1 < n) {c : Byte} (h0 : c ≠ 0) (hc : c ≠ ch '%') (f : Str) (as : List Arg) :
    CString.vsnprintf n (c :: f) as = c :: CString.vsnprintf (n - 1) f as := by
  rw [CString.vsnprintf.eq_def n (c :: f) as]
  dsimp only
  rw [if_neg (not_or.mpr ⟨by omega, h0⟩), if_pos hc]

/-- A directive there is room for: its text, and then the rest of the format. -/
theorem vsnprintf_hole (hn : 1 < n) (hk : k = ch 's' ∨ k = ch 'd' ∨ k = ch 'u') (f : Str) (a : Arg) (as : List Arg) :
    CString.vsnprintf n (ch '%' :: k :: f) (a :: as) =
      a.text.take (n - 1) ++ CString.vsnprintf (n - (a.text.take (n - 1)).length) f as := by
  rw [CString.vsnprintf, if_neg (not_or.mpr ⟨by omega, by decide⟩), if_neg (not_not.mpr rfl), if_pos hk]

theorem vsnprintf_other (hn : 1 < n) (hk : ¬ (k = ch 's' ∨ k = ch 'd' ∨ k = ch 'u')) (f : Str) (as : List Arg) :
    CString.vsnprintf n (ch '%' :: k :: f) as =
      [ch '%', k].take (n - 1) ++ CString.vsnprintf (n - ([ch '%', k].take (n - 1)).length) f as := by
  cases as <;> rw [CString.vsnprintf, if_neg (not_or.mpr ⟨by omega, by decide⟩), if_neg (not_not.mpr rfl), if_neg hk]

theorem vsnprintf_full (hn : n ≤ 1) (f : Str) (as : List Arg) : CString.vsnprintf n f as = [] := by
  cases f with
  | nil => rw [CString.vsnprintf]
  | cons c f =>
    unfold CString.vsnprintf
    exact if_pos (.inl hn)

/-- The loop ends with the text of the model's `vsnprintf` behind what it had. -/
def Serves (f : Str) (as : List Arg) (vs : List VArg) (o : Out) : Prop :=
  ∃ o', loop f vs o = some o' ∧ o'.text = o.text ++ CString.vsnprintf o.remaining f as

section Serves
variable {f : Str} {as : List Arg} {vs : List VArg} {o : Out}

theorem serves_of_room (h : 1 < o.remaining → Serves f as vs o) : Serves f as vs o := by
  rcases Nat.lt_or_ge 1 o.remaining with ho | ho
  · exact h ho
  · exact ⟨o, loop_full f vs ho, by rw [vsnprintf_full ho, List.append_nil]⟩

/-- What is left to do once a directive has written its text. -/
theorem serves_write {t f' : Str} {as' : List Arg} {vs' : List VArg} (h : Serves f as vs (write o t))
    (hl : loop f' vs' o = loop f vs (write o t)) (hv : CString.vsnprintf o.remaining f' as' =
      t.take (o.remaining - 1) ++ CString.vsnprintf (o.remaining - (t.take (o.remaining - 1)).length) f as) :
    Serves f' as' vs' o := by
  obtain ⟨o', hl', ht⟩ := h
  refine ⟨o', hl.trans hl', ?_⟩
  rw [ht, hv, write, List.append_assoc, List.length_take, Nat.min_comm]

end Serves

/-- The texts agree byte for byte, cut or not. -/
theorem loop_served {f : Str} {as : List Arg} {vs : List VArg} (h : Served f as vs) (o : Out) : Serves f as vs o := by
  induction h generalizing o with
  | nil as vs => exact ⟨o, rfl, by rw [CString.vsnprintf, List.append_nil]⟩
  | byte c h0 hc h ih =>
    refine serves_of_room fun ho => serves_write (ih (write o [c])) ?_ ?_
    · rw [loop_byte hc, if_neg (by omega), put_eq]
    · rw [vsnprintf_byte ho h0 hc, List.take_of_length_le (by rw [List.length_singleton]; omega)]
      rfl
  | s v h ih =>
    refine serves_of_room fun ho => serves_write (ih (write o (cstr v))) ?_ (vsnprintf_hole ho (.inl rfl) _ _ _)
    exact loop_plain _ ho (by decide) (congrArg (fun o' => some (_, o')) (foldl_put o _))
  | d w h ih =>
    refine serves_of_room fun ho => serves_write (ih (write o (Arg.d (signed false w)).text)) ?_
      (vsnprintf_hole ho (.inr (.inl rfl)) _ _ _)
    refine loop_plain _ ho (by decide) ((convert_signed _ ho (.inl rfl) false false w).trans ?_)
    rw [Arg.text, signText]
    split <;> rfl
  | u w h ih =>
    refine serves_of_room fun ho => serves_write (ih (write o (decimal (unsigned false w)))) ?_
      (vsnprintf_hole ho (.inr (.inr rfl)) _ _ _)
    exact loop_plain _ ho (by decide) (convert_unsigned _ rfl false false w)
  | other k hk h ih =>
    refine serves_of_room fun ho => serves_write (ih (write o [ch '%', k])) ?_ (vsnprintf_other ho ?_ _ _)
    · exact loop_plain _ ho (fun hm => hk (by rcases hm with rfl | rfl <;> decide)) (convert_other hk _ o)
    · rintro (rfl | rfl | rfl) <;> exact absurd hk (by decide)

theorem name_served : Serves (lit "%s%d") [.s (lit "bob"), .d 5] [.str (lit "bob"), .word 5] ⟨[], 4⟩ :=
  loop_served (.s (lit "bob") (.d 5 (.nil [] []))) _

end Printf

end Angelic.Proofs
