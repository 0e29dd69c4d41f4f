import Angelic.Proofs.Printing

namespace Angelic.Proofs
open CString Model.Printf Spec.Printf

/-! When the kernel's `vsnprintf` prints what C99 asks for. Where its text differs from the right one, it is told apart
by two counts: the bytes that are no minus sign, of which it never prints more, and the percent signs. -/

namespace Printf

variable {t : Str} {p : Piece} {o : Out}

/-- The bytes of a text that are no minus sign. -/
def solid (t : Str) : Nat := t.countP (· != ch '-')

def percents (t : Str) : Nat := t.count (ch '%')

theorem solid_append (t u : Str) : solid (t ++ u) = solid t + solid u := List.countP_append

theorem percents_append (t u : Str) : percents (t ++ u) = percents t + percents u := List.count_append

theorem solid_le {u : Str} (h : t <+: u) : solid t ≤ solid u := h.sublist.countP_le

/-- One of the texts begins with the other. -/
def Comparable (t u : Str) : Prop := t <+: u ∨ u <+: t

theorem Comparable.eq {u : Str} (h : Comparable t u) (hl : t.length = u.length) : t = u :=
  h.elim (·.eq_of_length hl) fun h => (h.eq_of_length hl.symm).symm

theorem Comparable.rest {a u : Str} (h : Comparable (a ++ t) (a ++ u)) : Comparable t u :=
  h.imp (List.prefix_append_right_inj a).mp (List.prefix_append_right_inj a).mp

theorem Comparable.of_common {u v : Str} (ht : t <+: v) (hu : u <+: v) : Comparable t u :=
  List.prefix_or_prefix_of_prefix ht hu

theorem Comparable.symm {u : Str} (h : Comparable t u) : Comparable u t := Or.symm h

theorem Comparable.head {b c : Byte} {u : Str} (h : Comparable (b :: t) (c :: u)) : b = c :=
  h.elim (fun h => (List.cons_prefix_cons.mp h).1) fun h => (List.cons_prefix_cons.mp h).1.symm

/-! Digits. -/

theorem mem_toDigits {base n : Nat} (hb : 1 < base) {c : Char} (h : c ∈ Nat.toDigits base n) : ∃ d < base, c = d.digitChar := by
  induction n using Nat.strongRecOn with
  | ind n ih =>
    by_cases hn : base ≤ n
    · rw [Nat.toDigits_of_base_le hb hn, List.mem_append, List.mem_singleton] at h
      rcases h with h | h
      · exact ih _ (Nat.div_lt_self (by omega) hb) h
      · exact ⟨_, Nat.mod_lt n (by omega), h⟩
    · rw [Nat.toDigits_of_lt_base (by omega), List.mem_singleton] at h
      exact ⟨n, by omega, h⟩

/-- A text of digits, letters among them or not. -/
def Digital (t : Str) : Prop := ∀ b ∈ t, b ≠ ch '-' ∧ b ≠ ch '%'

theorem Digital.solid (h : Digital t) : solid t = t.length :=
  List.countP_eq_length.mpr fun b hb => bne_iff_ne.mpr (h b hb).1

theorem Digital.percents (h : Digital t) : percents t = 0 := List.count_eq_zero.mpr fun hb => (h _ hb).2 rfl

theorem digital_map {base n : Nat} (hb : 1 < base) {f : Char → Byte}
    (hf : ∀ d < base, f d.digitChar ≠ ch '-' ∧ f d.digitChar ≠ ch '%') : Digital ((Nat.toDigits base n).map f) := by
  intro b hm
  obtain ⟨c, hc, rfl⟩ := List.mem_map.mp hm
  obtain ⟨d, hd, rfl⟩ := mem_toDigits hb hc
  exact hf d hd

theorem digital_decimal (n : Nat) : Digital (decimal n) := digital_map (by decide) (by decide)
theorem digital_hexUpper (n : Nat) : Digital (hexUpper n) := digital_map (by decide) (by decide)
theorem digital_hexLower (n : Nat) : Digital (hexLower n) := digital_map (by decide) (by decide)

theorem hex_length (n : Nat) : (hexUpper n).length = (hexLower n).length := by
  rw [hexUpper, hexLower, List.length_map, List.length_map]

theorem decimal_injective {m n : Nat} (h : decimal m = decimal n) : m = n := by
  have hdigit : ∀ d < 10, Char.ofNat (ch d.digitChar).toNat = d.digitChar := by decide
  have hback : ∀ k, (decimal k).map (fun b => Char.ofNat b.toNat) = Nat.toDigits 10 k := by
    intro k
    rw [decimal, List.map_map]
    refine (List.map_congr_left fun c hc => ?_).trans (List.map_id _)
    obtain ⟨d, hd, rfl⟩ := mem_toDigits (by decide) hc
    exact hdigit d hd
  have hd : Nat.toDigits 10 m = Nat.toDigits 10 n := by rw [← hback m, h, hback n]
  rw [← Nat.ofDigitChars_toDigits (b := 10) (n := m) (by decide) (by decide), hd,
    Nat.ofDigitChars_toDigits (by decide) (by decide)]

/-- No digit of a number is a letter in hexadecimal. -/
def NoLetters (n : Nat) : Prop := ∀ c ∈ Nat.toDigits 16 n, c.isDigit = true

instance (n : Nat) : Decidable (NoLetters n) := inferInstanceAs (Decidable (∀ c ∈ Nat.toDigits 16 n, c.isDigit = true))

theorem hex_eq_iff (n : Nat) : hexUpper n = hexLower n ↔ NoLetters n := by
  have hdigit : ∀ d < 16, ch d.digitChar.toUpper = ch d.digitChar ↔ d.digitChar.isDigit = true := by decide
  rw [hexUpper, hexLower, List.map_inj_left]
  refine forall₂_congr fun c hc => ?_
  obtain ⟨d, hd, rfl⟩ := mem_toDigits (by decide) hc
  exact hdigit d hd

/-! Signed numbers. -/

def InInt (v : Int) : Prop := -2 ^ 31 ≤ v ∧ v < 2 ^ 31

instance (v : Int) : Decidable (InInt v) := inferInstanceAs (Decidable (_ ∧ _))

theorem int_bmod (w : UInt64) : w.toUInt32.toInt32.toInt = Int.bmod w.toNat (2 ^ 32) := by
  change w.toUInt32.toBitVec.toInt = _
  rw [BitVec.toInt_eq_toNat_bmod]
  change Int.bmod (w.toUInt32.toNat : Int) (2 ^ 32) = _
  rw [UInt64.toNat_toUInt32, Int.natCast_emod]
  exact Int.emod_bmod ..

theorem long_bmod (w : UInt64) : w.toInt64.toInt = Int.bmod w.toNat (2 ^ 64) := BitVec.toInt_eq_toNat_bmod w.toBitVec

theorem int_inInt (w : UInt64) : InInt w.toUInt32.toInt32.toInt := ⟨Int32.le_toInt _, Int32.toInt_lt _⟩

/-- The `int` in the lower half of a word is the word where that is an `int`. -/
theorem int_of_long {w : UInt64} (h : InInt w.toInt64.toInt) : w.toUInt32.toInt32.toInt = w.toInt64.toInt := by
  have hw := w.toNat_lt
  obtain ⟨h1, h2⟩ := h
  rw [long_bmod] at h1 h2 ⊢
  rw [int_bmod]
  unfold Int.bmod at *
  dsimp only at *
  split at h1 <;> split <;> omega

/-- A number with its sign. -/
def signedText (v : Int) : Str := signText v ++ decimal v.natAbs

theorem signText_counts (v : Int) : solid (signText v) = 0 ∧ percents (signText v) = 0 := by
  unfold signText
  split <;> decide

theorem solid_signed (v : Int) : solid (signedText v) = (decimal v.natAbs).length := by
  rw [signedText, solid_append, (signText_counts v).1, Nat.zero_add, (digital_decimal _).solid]

theorem percents_signed (v : Int) : percents (signedText v) = 0 := by
  rw [signedText, percents_append, (signText_counts v).2, (digital_decimal _).percents]

theorem decimal_ne_nil (n : Nat) : decimal n ≠ [] := by
  intro h
  have : (decimal n).length ≤ 0 := by rw [h]; exact Nat.le_refl 0
  rw [decimal, List.length_map] at this
  exact absurd this (Nat.not_le.mpr (List.length_pos_iff.mpr Nat.toDigits_ne_nil))

/-- A sign is no digit: two numbers that begin alike and have as many digits are the same. -/
theorem signed_comparable {a b : Int} (h : Comparable (signedText a) (signedText b))
    (hs : solid (signedText a) = solid (signedText b)) : a = b := by
  rw [solid_signed, solid_signed] at hs
  have hdigit : ∀ (n : Nat) (t : Str), ¬ Comparable (ch '-' :: t) (decimal n) := by
    intro n t hc
    cases hd : decimal n with
    | nil => exact decimal_ne_nil n hd
    | cons d ds =>
      rw [hd] at hc
      exact (digital_decimal n d (hd ▸ List.mem_cons_self)).1 hc.head.symm
  have habs : ∀ {m n : Nat}, Comparable (decimal m) (decimal n) → (decimal m).length = (decimal n).length → m = n :=
    fun hc hl => decimal_injective (hc.eq hl)
  unfold signedText signText at h
  by_cases ha : a < 0
  · by_cases hb : b < 0
    · rw [if_pos ha, if_pos hb] at h
      have := habs h.rest hs
      omega
    · rw [if_pos ha, if_neg hb] at h
      exact absurd h (hdigit _ _)
  · by_cases hb : b < 0
    · rw [if_neg ha, if_pos hb] at h
      exact absurd h.symm (hdigit _ _)
    · rw [if_neg ha, if_neg hb] at h
      have := habs h.rest hs
      omega

/-- An `int` has no more digits than a number that is none. -/
theorem solid_int_le {a b : Int} (ha : InInt a) (hb : ¬ InInt b) : solid (signedText a) ≤ solid (signedText b) := by
  have h1 : (decimal a.natAbs).length ≤ 10 := decimal_length_le (by decide) (by unfold InInt at ha; omega)
  have h2 : ¬ (decimal b.natAbs).length ≤ 9 := by
    rw [decimal, List.length_map, Nat.length_toDigits_le_iff (by decide) (by decide)]
    unfold InInt at hb
    omega
  rw [solid_signed, solid_signed]
  omega

/-! The pieces without a width. -/

/-- The code prints the piece as C99 does: it has no width, no letters in lower case, and no number of the size of a
pointer that is read as an `int`. -/
def Exact : Piece → Prop
  | .num width len conv w =>
    width = none ∧ (conv = .x → NoLetters (len.unsigned w)) ∧ (conv.isSigned → len = .size → InInt (len.signed w))
  | _ => True

theorem padded_none (sign digits : Str) : padded none sign digits = sign ++ digits := by
  rw [padded, Option.elim_none, Nat.zero_sub, List.replicate_zero, List.append_nil]

/-- How far the text of a piece may be from the right one. -/
structure Near (printed text : Str) (exact : Prop) : Prop where
  solid : Printf.solid printed ≤ Printf.solid text
  percents : Printf.percents printed = Printf.percents text
  same : Printf.solid printed = Printf.solid text → Comparable printed text → printed = text ∧ exact

theorem Near.refl (t : Str) {exact : Prop} (h : exact) : Near t t exact := ⟨Nat.le_refl _, rfl, fun _ _ => ⟨rfl, h⟩⟩

theorem near_signed (len : Length) (w : UInt64) :
    Near (signedText (signed (len == .long) w)) (signedText (len.signed w)) (len = .size → InInt (len.signed w)) := by
  cases len with
  | int => exact .refl _ nofun
  | long => exact .refl _ nofun
  | size =>
    change Near (signedText w.toUInt32.toInt32.toInt) (signedText w.toInt64.toInt) (_ → InInt w.toInt64.toInt)
    refine ⟨?_, by rw [percents_signed, percents_signed], fun hs hc => ?_⟩
    · by_cases hi : InInt w.toInt64.toInt
      · rw [int_of_long hi]
      · exact solid_int_le (int_inInt w) hi
    · have he := signed_comparable hc hs
      exact ⟨by rw [he], fun _ => he ▸ int_inInt w⟩

theorem near_hex (n : Nat) : Near (hexUpper n) (hexLower n) (NoLetters n) where
  solid := by rw [(digital_hexUpper n).solid, (digital_hexLower n).solid, hex_length]
  percents := by rw [(digital_hexUpper n).percents, (digital_hexLower n).percents]
  same _ hc := ⟨hc.eq (hex_length n), (hex_eq_iff n).mp (hc.eq (hex_length n))⟩

theorem near_piece (hp : hasWidth p = false) : Near (printed p) p.text (Exact p) := by
  cases p with
  | num width len conv w =>
    cases width with
    | some n => cases hp
    | none =>
      rw [Piece.text, padded_none]
      cases conv with
      | d | i =>
        have h := near_signed len w
        exact ⟨h.solid, h.percents, fun hs hc => ⟨(h.same hs hc).1, rfl, by rintro ⟨⟩, fun _ => (h.same hs hc).2⟩⟩
      | u | X => exact .refl _ ⟨rfl, by rintro ⟨⟩, by rintro ⟨⟩⟩
      | x =>
        have h := near_hex (len.unsigned w)
        exact ⟨h.solid, h.percents, fun hs hc => ⟨(h.same hs hc).1, rfl, fun _ => (h.same hs hc).2, by rintro ⟨⟩⟩⟩
  | byte b h => exact .refl _ trivial
  | percent => exact .refl _ trivial
  | s v => exact .refl _ trivial
  | c w => exact .refl _ trivial
  | p w => exact .refl _ trivial

theorem Near.append {a b u : Str} {e e' : Prop} (h : Near a t e) (h' : Near b u e') :
    Near (a ++ b) (t ++ u) (e ∧ e') where
  solid := by
    rw [solid_append, solid_append]
    exact Nat.add_le_add h.solid h'.solid
  percents := by rw [percents_append, percents_append, h.percents, h'.percents]
  same hs hc := by
    rw [solid_append, solid_append] at hs
    have h1 := h.solid
    have h2 := h'.solid
    have hfront : Comparable a t := hc.elim
      (fun hc => .of_common ((List.prefix_append a b).trans hc) (List.prefix_append t u))
      fun hc => .of_common (List.prefix_append a b) ((List.prefix_append t u).trans hc)
    obtain ⟨rfl, he⟩ := h.same (by omega) hfront
    obtain ⟨rfl, he'⟩ := h'.same (by omega) hc.rest
    exact ⟨rfl, he, he'⟩

theorem digital_digits (conv : Conv) (len : Length) (w : UInt64) : Digital (conv.digits len w) ∧ conv.digits len w ≠ [] := by
  have hex : ∀ {f : Char → Byte} (n : Nat), (Nat.toDigits 16 n).map f ≠ [] := fun n h => Nat.toDigits_ne_nil (List.map_eq_nil_iff.mp h)
  cases conv with
  | d => exact ⟨digital_decimal _, decimal_ne_nil _⟩
  | i => exact ⟨digital_decimal _, decimal_ne_nil _⟩
  | u => exact ⟨digital_decimal _, decimal_ne_nil _⟩
  | x => exact ⟨digital_hexLower _, hex _⟩
  | X => exact ⟨digital_hexUpper _, hex _⟩

/-- A number is never printed as nothing, and no percent sign is in it. -/
theorem num_text (width : Option { n : Nat // 0 < n }) (len : Length) (conv : Conv) (w : UInt64) :
    (Piece.num width len conv w).text ≠ [] ∧ percents (Piece.num width len conv w).text = 0 := by
  obtain ⟨hd, hne⟩ := digital_digits conv len w
  have hsign : percents (conv.sign len w) = 0 := by
    unfold Conv.sign
    split
    · exact (signText_counts _).2
    · rfl
  have hzero : ∀ n, percents (List.replicate n (ch '0')) = 0 := by
    intro n
    rw [percents, List.count_eq_zero]
    exact fun h => absurd (List.eq_of_mem_replicate h) (by decide)
  rw [Piece.text, padded]
  refine ⟨fun h => hne (List.append_eq_nil_iff.mp h).2, ?_⟩
  rw [percents_append, percents_append, hsign, hzero, hd.percents]

theorem exact_of_empty (h : p.text = []) : Exact p := by
  cases p with
  | num width len conv w => exact absurd h (num_text width len conv w).1
  | byte b h => trivial
  | percent => trivial
  | s v => trivial
  | c w => trivial
  | p w => trivial

/-! The loop over the whole format. -/

/-- A piece is written whole, or less than it and then there is no room left. -/
def Written (o : Out) (p : Piece) (o' : Out) : Prop :=
  o'.text = o.text ++ printed p ∨
  o'.remaining ≤ 1 ∧ ∃ cut, o'.text = o.text ++ cut ∧ cut.length < (printed p).length ∧
    solid cut ≤ solid (printed p) ∧ (p.text <+: cut → Comparable (printed p) p.text)

theorem written_write (p : Piece) (ho : 1 < o.remaining) : Written o p (write o (printed p)) := by
  rcases Nat.lt_or_ge (printed p).length o.remaining with hl | hl
  · left
    rw [write_fits o hl]
  · refine .inr ⟨?_, (printed p).take (o.remaining - 1), rfl, ?_, solid_le (List.take_prefix ..), fun h => ?_⟩
    · change o.remaining - min (printed p).length (o.remaining - 1) ≤ 1
      omega
    · rw [List.length_take]
      omega
    · exact .inr (h.trans (List.take_prefix ..))

theorem written_wrote (p : Piece) (ho : 1 < o.remaining) : Written o p (wrote o p) := by
  cases p with
  | p w =>
    rw [wrote]
    split
    · exact written_write (.p w) ho
    · -- one byte is left for the pointer, and it gets its first digit
      rename_i h2
      have h1 : o.remaining - 1 = 1 := by omega
      have hpos : 0 < (hexUpper w.toNat).length := by
        rw [hexUpper, List.length_map]
        exact List.length_pos_iff.mpr Nat.toDigits_ne_nil
      have hsolid : solid (printed (.p w)) = 2 + (hexUpper w.toNat).length := by
        change solid (lit "0x" ++ hexUpper w.toNat) = _
        rw [solid_append, (digital_hexUpper _).solid, show solid (lit "0x") = 2 by decide]
      have hlen : (printed (.p w)).length = 2 + (hexUpper w.toNat).length := by
        change (lit "0x" ++ hexUpper w.toNat).length = _
        rw [List.length_append, show (lit "0x").length = 2 by decide]
      have hcut : ((hexUpper w.toNat).take (o.remaining - 1)).length ≤ 1 := by
        rw [h1, List.length_take]
        omega
      refine .inr ⟨?_, (hexUpper w.toNat).take (o.remaining - 1), rfl, by omega, ?_, fun _ => .inl (List.prefix_refl _)⟩
      · change o.remaining - min (hexUpper w.toNat).length (o.remaining - 1) ≤ 1
        omega
      · have := List.countP_le_length (p := (· != ch '-')) (l := (hexUpper w.toNat).take (o.remaining - 1))
        rw [hsolid, solid]
        omega
  | byte b h => exact written_write _ ho
  | percent => exact written_write _ ho
  | s v => exact written_write _ ho
  | c w => exact written_write _ ho
  | num width len conv w => exact written_write _ ho

/-- A width cannot be told from the text: the percent sign shows. -/
theorem width_shows {a text : Str} {e : Prop} (hn : Near a t e) {num rest : Str} (hnum : num ≠ [] ∧ percents num = 0)
    (hw : a ++ [ch '%'] <+: text) (ht : text = t ++ num ++ rest) : False := by
  obtain ⟨hne, hp⟩ := hnum
  cases num with
  | nil => exact hne rfl
  | cons c num =>
    have hc : ch '%' ≠ c := by
      rintro rfl
      rw [percents, List.count_cons_self] at hp
      omega
    have hright : t ++ [c] <+: text := ⟨num ++ rest, by rw [ht]; simp⟩
    rcases Nat.lt_trichotomy a.length t.length with hl | hl | hl
    · have hin : a ++ [ch '%'] <+: t := List.prefix_of_prefix_length_le hw ((List.prefix_append t [c]).trans hright) (by simp; omega)
      have hle : percents (a ++ [ch '%']) ≤ percents t := hin.sublist.count_le _
      rw [percents_append, hn.percents] at hle
      exact absurd hle (by simp [percents])
    · have heq : a ++ [ch '%'] = t ++ [c] := (Comparable.of_common hw hright).eq (by simp; omega)
      exact hc (List.append_inj_right' heq rfl |> List.singleton_inj.mp)
    · have hin : t ++ [c] <+: a := List.prefix_of_prefix_length_le hright ((List.prefix_append a _).trans hw) (by simp; omega)
      have hta : t <+: a := (List.prefix_append t [c]).trans hin
      have hsame := (hn.same (Nat.le_antisymm hn.solid (solid_le hta)) (.inr hta)).1
      exact absurd (congrArg List.length hsame) (by omega)

/-- Nor can a piece that is cut off end the right text. -/
theorem cut_shows {a text rest printed cut : Str} {e e' : Prop} (hn : Near a t e) (hp : Near printed text e')
    (heq : a ++ cut = t ++ text ++ rest) (hlen : cut.length < printed.length) (hsolid : solid cut ≤ solid printed)
    (hcomp : text <+: cut → Comparable printed text) : False := by
  have hs := congrArg solid heq
  rw [solid_append, solid_append, solid_append] at hs
  have h1 := hn.solid
  have h2 := hp.solid
  have hfront : Comparable a t := .of_common (List.prefix_append a cut) ⟨text ++ rest, by rw [heq, List.append_assoc]⟩
  obtain ⟨rfl, -⟩ := hn.same (by omega) hfront
  rw [List.append_assoc] at heq
  have hcut := List.append_cancel_left heq
  obtain ⟨rfl, -⟩ := hp.same (by omega) (hcomp ⟨rest, hcut.symm⟩)
  rw [hcut, List.length_append] at hlen
  omega

theorem format_cons (p : Piece) (ps : List Piece) : format (p :: ps) = p.format ++ format ps := List.flatMap_cons

theorem args_cons (p : Piece) (ps : List Piece) (rest : List VArg) :
    args (p :: ps) ++ rest = p.args ++ (args ps ++ rest) := by
  rw [args, List.flatMap_cons, List.append_assoc]
  rfl

theorem render_cons (p : Piece) (ps : List Piece) : render (p :: ps) = p.text ++ render ps := List.flatMap_cons

/-- Where the loop ends with the right text, it has printed every piece as C99 does. The induction carries how near the
text written so far is to the right one. -/
theorem exact_of_text (ps : List Piece) (rest : List VArg) {o' : Out} {e : Prop} (hn : Near o.text t e)
    (h : loop (format ps) (args ps ++ rest) o = some o') (ht : o'.text = t ++ render ps) : e ∧ ∀ p ∈ ps, Exact p := by
  induction ps generalizing o t e with
  | nil =>
    obtain rfl : o = o' := Option.some.inj h
    have ht : o.text = t := ht.trans (List.append_nil t)
    exact ⟨(hn.same (by rw [ht]) (.inl (ht ▸ List.prefix_refl _))).2, fun p hp => absurd hp List.not_mem_nil⟩
  | cons p ps ih =>
    rw [format_cons, args_cons] at h
    rcases Nat.lt_or_ge 1 o.remaining with ho | ho
    · rw [render_cons, ← List.append_assoc] at ht
      cases hw : hasWidth p with
      | true =>
        cases p with
        | num width len conv w =>
          cases width with
          | none => cases hw
          | some n => exact (width_shows hn (num_text (some n) len conv w) (loop_width ho h) ht).elim
        | byte b h => cases hw
        | percent => cases hw
        | s v => cases hw
        | c w => cases hw
        | p w => cases hw
      | false =>
        rw [loop_piece hw _ _ ho] at h
        have hp := near_piece hw
        rcases written_wrote p ho with hwhole | ⟨hfull, cut, hcut, hlen, hsolid, hcomp⟩
        · obtain ⟨⟨he, hex⟩, hrest⟩ := ih (hwhole ▸ hn.append hp) h ht
          exact ⟨he, List.forall_mem_cons.mpr ⟨hex, hrest⟩⟩
        · rw [loop_full _ _ hfull] at h
          obtain rfl : wrote o p = o' := Option.some.inj h
          exact (cut_shows hn hp (hcut.symm.trans ht) hlen hsolid hcomp).elim
    · -- no room is left, and so nothing is left to print
      rw [loop_full _ _ ho] at h
      obtain rfl : o = o' := Option.some.inj h
      have hpre : t <+: o.text := ⟨_, ht.symm⟩
      obtain ⟨hsame, he⟩ := hn.same (Nat.le_antisymm hn.solid (solid_le hpre)) (.inr hpre)
      have hnil : render (p :: ps) = [] := by
        rw [hsame] at ht
        exact List.self_eq_append_right.mp ht
      exact ⟨he, fun q hq => exact_of_empty (List.flatMap_eq_nil_iff.mp hnil q hq)⟩

theorem printed_of_exact (h : Exact p) : hasWidth p = false ∧ printed p = p.text := by
  cases p with
  | num width len conv w =>
    obtain ⟨rfl, hx, hsize⟩ := h
    refine ⟨rfl, ?_⟩
    rw [Piece.text, padded_none]
    have hsigned : conv.isSigned = true → signed (len == .long) w = len.signed w := by
      intro hs
      cases len with
      | int => rfl
      | long => rfl
      | size => exact int_of_long (hsize hs rfl)
    cases conv with
    | d =>
      change signText (signed (len == .long) w) ++ decimal (signed (len == .long) w).natAbs = _
      rw [hsigned rfl]
      rfl
    | i =>
      change signText (signed (len == .long) w) ++ decimal (signed (len == .long) w).natAbs = _
      rw [hsigned rfl]
      rfl
    | u => rfl
    | x => exact (hex_eq_iff _).mpr (hx rfl)
    | X => rfl
  | byte b h => exact ⟨rfl, rfl⟩
  | percent => exact ⟨rfl, rfl⟩
  | s v => exact ⟨rfl, rfl⟩
  | c w => exact ⟨rfl, rfl⟩
  | p w => exact ⟨rfl, rfl⟩

theorem wrote_of_fits (h : (printed p).length < o.remaining) : wrote o p = write o (printed p) := by
  cases p with
  | p w =>
    have hl : (lit "0x" ++ hexUpper w.toNat).length < o.remaining := h
    rw [List.length_append, show (lit "0x").length = 2 by decide] at hl
    rw [wrote, if_pos (by omega)]
    rfl
  | byte b h => rfl
  | percent => rfl
  | s v => rfl
  | c w => rfl
  | num width len conv w => rfl

theorem text_of_exact (ps : List Piece) (rest : List VArg) (h : ∀ p ∈ ps, Exact p)
    (hl : (render ps).length < o.remaining) : loop (format ps) (args ps ++ rest) o = some (write o (render ps)) := by
  induction ps generalizing o with
  | nil =>
    rw [show render [] = [] from rfl, write_nil]
    rfl
  | cons p ps ih =>
    rcases Nat.lt_or_ge 1 o.remaining with ho | ho
    · obtain ⟨hw, hp⟩ := printed_of_exact (h p List.mem_cons_self)
      rw [render_cons, List.length_append] at hl
      have hfit : (printed p).length < o.remaining := by rw [hp]; omega
      rw [format_cons, args_cons, loop_piece hw _ _ ho, wrote_of_fits hfit, hp,
        ih (fun q hq => h q (List.mem_cons_of_mem p hq)) (by rw [write_fits o (hp ▸ hfit)]; dsimp only; omega),
        write_write, render_cons]
    · have hnil : render (p :: ps) = [] := List.length_eq_zero_iff.mp (by omega)
      rw [loop_full _ _ ho, hnil, write_nil]

theorem format_clean (ps : List Piece) : (0 : Byte) ∉ format ps := by
  intro h
  obtain ⟨p, -, hp⟩ := List.mem_flatMap.mp h
  cases p with
  | byte b hb => exact hb.1 (List.mem_singleton.mp hp).symm
  | percent => exact absurd hp (by decide)
  | s v => exact absurd hp (show (0 : Byte) ∉ [ch '%', ch 's'] by decide)
  | c w => exact absurd hp (show (0 : Byte) ∉ [ch '%', ch 'c'] by decide)
  | p w => exact absurd hp (show (0 : Byte) ∉ [ch '%', ch 'p'] by decide)
  | num width len conv w =>
    simp only [Piece.format, List.mem_cons, List.mem_append, List.not_mem_nil, or_false] at hp
    rcases hp with hp | (hp | hp) | hp
    · exact absurd hp (by decide)
    · cases width with
      | none => exact List.not_mem_nil hp
      | some n => exact (List.mem_cons.mp hp).elim (by decide) (decimal_clean n)
    · cases len <;> exact absurd hp (by decide)
    · cases conv <;> exact absurd hp (by decide)

theorem vsnprintf_format (size : Nat) (ps : List Piece) (given : List VArg) :
    Model.Printf.vsnprintf size (format ps) given =
      (loop (format ps) given ⟨[], size⟩).map fun o => ⟨o.text ++ [0], Int.bmod o.text.length (2 ^ 32)⟩ := by
  rw [Model.Printf.vsnprintf, cstr_of_clean (format_clean ps)]

/-- What is returned is the length of what was written, and of no longer text. -/
theorem returned_length {n m : Nat} (h : Int.bmod n (2 ^ 32) = m) (hle : n ≤ m) : n = m ∧ m < 2 ^ 31 := by
  unfold Int.bmod at h
  dsimp only at h
  split at h <;> omega

theorem returned_whole {n : Nat} (h : n < 2 ^ 31) : Int.bmod n (2 ^ 32) = n := by
  unfold Int.bmod
  dsimp only
  split <;> omega

/-- C99 is met exactly where the room is larger than the text and no piece is one the code prints its own way. A text
that is cut is never reported. -/
theorem vsnprintf_conforms_iff (size : Nat) (ps : List Piece) (extra : List VArg) :
    Conforms size ps (Model.Printf.vsnprintf size (format ps) (args ps ++ extra)) ↔
      (∀ p ∈ ps, Exact p) ∧ (render ps).length < size ∧ (render ps).length < 2 ^ 31 := by
  rw [vsnprintf_format]
  constructor
  · rintro ⟨r, hr, hlen, hstored, hret⟩
    obtain ⟨o, hloop, rfl⟩ := Option.map_eq_some_iff.mp hr
    have htext : o.text = (render ps).take (size - 1) := List.append_cancel_right hstored
    have hle : o.text.length ≤ (render ps).length := by
      rw [htext, List.length_take]
      omega
    dsimp only at hret
    obtain ⟨hwhole, hint⟩ := returned_length hret hle
    have hsize : o.text.length + 1 ≤ size := by simpa using hlen
    have hall : o.text = [] ++ render ps := by rw [List.nil_append, htext, List.take_of_length_le (by omega)]
    exact ⟨(exact_of_text ps extra (.refl [] trivial) hloop hall).2, by omega, hint⟩
  · rintro ⟨hexact, hsize, hint⟩
    rw [text_of_exact ps extra hexact hsize, write_fits ⟨[], size⟩ hsize]
    refine ⟨_, rfl, ?_, ?_, ?_⟩
    · simpa using Nat.succ_le_of_lt hsize
    · rw [List.take_of_length_le (by omega)]
      rfl
    · dsimp only
      rw [List.nil_append]
      exact returned_whole hint

def greeting : List Piece := [.s (some (lit "hello"))]
def resumeId : List Piece := [.num (some ⟨6, by decide⟩) .int .x 255]

/-- Four bytes hold three of a greeting and the length of three is returned, so that the caller's test passes; a width
is printed and not obeyed; where there is no room at all a byte is stored. -/
theorem vsnprintf_differs :
    ¬ Conforms 4 greeting (Model.Printf.vsnprintf 4 (format greeting) (args greeting)) ∧
    Model.Printf.vsnprintf 4 (format greeting) (args greeting) = some ⟨lit "hel" ++ [0], 3⟩ ∧ render greeting = lit "hello" ∧
    Model.Printf.vsnprintf 64 (format resumeId) (args resumeId) = some ⟨lit "%06x" ++ [0], 4⟩ ∧ render resumeId = lit "0000ff" ∧
    Model.Printf.vsnprintf 0 (format greeting) (args greeting) = some ⟨[0], 0⟩ := by
  have hruns : Model.Printf.vsnprintf 4 (format greeting) (args greeting) = some ⟨lit "hel" ++ [0], 3⟩ ∧
      render greeting = lit "hello" ∧
      Model.Printf.vsnprintf 64 (format resumeId) (args resumeId) = some ⟨lit "%06x" ++ [0], 4⟩ ∧ render resumeId = lit "0000ff" ∧
      Model.Printf.vsnprintf 0 (format greeting) (args greeting) = some ⟨[0], 0⟩ := by decide +kernel
  refine ⟨?_, hruns⟩
  rintro ⟨r, hr, -, -, hret⟩
  rw [hruns.1] at hr
  rw [← Option.some.inj hr, hruns.2.1] at hret
  exact absurd hret (by decide)

end Printf

end Angelic.Proofs
