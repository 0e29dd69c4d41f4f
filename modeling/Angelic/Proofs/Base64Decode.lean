import Angelic.Lib.Base64
import Angelic.Model.Session

namespace Angelic.Proofs
open CString Model
open Base64 (digit value bytes decode encode decode_encode)

/-! The decoder of the source is the one of the library, up to the size of its buffer. -/

section Decoder
variable {n v : Nat} {buf : UInt32}

/-- Six more bits. -/
def shifted (buf : UInt32) (v : Nat) : UInt32 := (buf <<< 6) ||| UInt32.ofNat v

/-- The byte above some bits. -/
def above (buf : UInt32) (bits : Nat) : Byte := UInt8.ofNat ((buf >>> UInt32.ofNat bits) &&& 0xFF).toNat

theorem shifted_toNat (buf : UInt32) (hv : v < 64) : (shifted buf v).toNat = (buf.toNat * 64 + v) % 2 ^ 32 := by
  have hsix : (buf <<< 6).toNat = buf.toNat * 64 % 2 ^ 32 := by
    rw [UInt32.toNat_shiftLeft, Nat.shiftLeft_eq]
    rfl
  have hofv : (UInt32.ofNat v).toNat = v := by
    rw [UInt32.toNat_ofNat']
    omega
  have hmul : buf.toNat * 64 % 2 ^ 32 = 2 ^ 6 * (buf.toNat % 2 ^ 26) := by omega
  rw [shifted, UInt32.toNat_or, hsix, hofv, hmul, ← Nat.two_pow_add_eq_or_of_lt hv]
  omega

theorem above_eq {bits x : Nat} (hb : bits < 32) (hx : buf.toNat / 2 ^ bits % 256 = x % 256) :
    above buf bits = UInt8.ofNat x := by
  have hbits : (UInt32.ofNat bits).toNat % 32 = bits := by
    rw [UInt32.toNat_ofNat']
    omega
  have hand : ((buf >>> UInt32.ofNat bits) &&& 0xFF).toNat = buf.toNat / 2 ^ bits % 256 := by
    rw [UInt32.toNat_and, UInt32.toNat_shiftRight, hbits, Nat.shiftRight_eq_div_pow]
    exact Nat.and_two_pow_sub_one_eq_mod _ 8
  apply UInt8.toNat_inj.mp
  rw [above, hand, UInt8.toNat_ofNat', UInt8.toNat_ofNat']
  omega

theorem b64loop_digit (hv : v < 64) (src : Str) (bits : Nat) (dst : List Byte) :
    b64loop n (digit v :: src) buf bits dst =
      if bits + 6 ≥ 8 then
        b64loop n src (shifted buf v) (bits + 6 - 8)
          (if dst.length < n then dst ++ [above (shifted buf v) (bits + 6 - 8)] else dst)
      else b64loop n src (shifted buf v) (bits + 6) dst := by
  have hne : ¬ (digit v = 0 ∨ digit v = ch '=') := fun h => h.elim (Base64.digit_ne hv).2 (Base64.digit_ne hv).1
  have hval : b64chars.findIdx? (· == digit v) = some v := Base64.value_digit hv
  rw [b64loop, if_neg hne, hval]
  rfl

theorem put_take (D : List Byte) (b : Byte) :
    (if (D.take n).length < n then D.take n ++ [b] else D.take n) = (D ++ [b]).take n := by
  rw [List.length_take, List.take_append]
  by_cases h : D.length < n
  · rw [if_pos (by omega), List.take_of_length_le (l := [b]) (by simp; omega)]
  · rw [if_neg (by omega), show n - D.length = 0 by omega, List.take_zero, List.append_nil]

/-- A digit that completes a byte. -/
theorem b64loop_byte (hv : v < 64) (src : Str) {bits x : Nat} (hb : 2 ≤ bits) (hb' : bits < 8) (D : List Byte)
    (hx : (shifted buf v).toNat / 2 ^ (bits - 2) % 256 = x % 256) : b64loop n (digit v :: src) buf bits (D.take n) =
      b64loop n src (shifted buf v) (bits - 2) ((D ++ [UInt8.ofNat x]).take n) := by
  have hbits : bits + 6 - 8 = bits - 2 := by omega
  rw [b64loop_digit hv, if_pos (by omega), hbits, above_eq (by omega) hx, put_take]

theorem b64loop_stop {rest : Str} (hr : rest.head?.all (· == ch '=')) (bits : Nat) (dst : List Byte) :
    b64loop n rest buf bits dst = some dst := by
  cases rest with
  | nil => rfl
  | cons c rest =>
    have hc : c = ch '=' := by simpa using hr
    rw [b64loop, if_pos (.inr hc)]

-- the digits are taken in fours, as the library takes them; what was in the buffer before is shifted out
theorem b64loop_bytes {vs : List Nat} (hvs : ∀ v ∈ vs, v < 64) {rest : Str} (hr : rest.head?.all (· == ch '='))
    (buf : UInt32) (D : List Byte) :
    b64loop n (vs.map digit ++ rest) buf 0 (D.take n) = some ((D ++ bytes vs).take n) := by
  have first : ∀ {v : Nat} (_ : v < 64) (src : Str) (buf : UInt32) (dst : List Byte),
      b64loop n (digit v :: src) buf 0 dst = b64loop n src (shifted buf v) 6 dst := by
    intro v hv src buf dst
    rw [b64loop_digit hv, if_neg (by decide)]
  fun_induction bytes vs generalizing buf D with
  | case1 a b c d r ih =>
    have ha : a < 64 := hvs a (by simp)
    have hb : b < 64 := hvs b (by simp)
    have hc : c < 64 := hvs c (by simp)
    have hd : d < 64 := hvs d (by simp)
    have hA := shifted_toNat buf ha
    have hB := shifted_toNat (shifted buf a) hb
    have hC := shifted_toNat (shifted (shifted buf a) b) hc
    have hD := shifted_toNat (shifted (shifted (shifted buf a) b) c) hd
    simp only [List.map_cons, List.cons_append]
    rw [first ha, b64loop_byte (x := a * 4 + b / 16) hb _ (by decide) (by decide) D (by omega),
      b64loop_byte (x := b % 16 * 16 + c / 4) hc _ (by decide) (by decide) _ (by omega),
      b64loop_byte (x := c % 4 * 64 + d) hd _ (by decide) (by decide) _ (by omega),
      ih fun v hv => hvs v (by simp [hv])]
    simp only [List.append_assoc, List.cons_append, List.nil_append]
  | case2 a b c =>
    have ha : a < 64 := hvs a (by simp)
    have hb : b < 64 := hvs b (by simp)
    have hc : c < 64 := hvs c (by simp)
    have hA := shifted_toNat buf ha
    have hB := shifted_toNat (shifted buf a) hb
    have hC := shifted_toNat (shifted (shifted buf a) b) hc
    simp only [List.map_cons, List.cons_append, List.map_nil, List.nil_append]
    rw [first ha, b64loop_byte (x := a * 4 + b / 16) hb _ (by decide) (by decide) D (by omega),
      b64loop_byte (x := b % 16 * 16 + c / 4) hc _ (by decide) (by decide) _ (by omega), b64loop_stop hr]
    simp only [List.append_assoc, List.cons_append, List.nil_append]
  | case3 a b =>
    have ha : a < 64 := hvs a (by simp)
    have hb : b < 64 := hvs b (by simp)
    have hA := shifted_toNat buf ha
    have hB := shifted_toNat (shifted buf a) hb
    simp only [List.map_cons, List.cons_append, List.map_nil, List.nil_append]
    rw [first ha, b64loop_byte (x := a * 4 + b / 16) hb _ (by decide) (by decide) D (by omega), b64loop_stop hr]
  | case4 a =>
    simp only [List.map_cons, List.cons_append, List.map_nil, List.nil_append, List.append_nil]
    rw [first (hvs a (by simp)), b64loop_stop hr]
  | case5 =>
    simp only [List.map_nil, List.nil_append, List.append_nil]
    exact b64loop_stop hr _ _

theorem b64loop_none {src : Str} (h0 : 0 ∉ src) (h : (src.takeWhile (· != ch '=')).mapM value = none) (buf : UInt32)
    (bits : Nat) (dst : List Byte) : b64loop n src buf bits dst = none := by
  induction src generalizing buf bits dst with
  | nil => cases h
  | cons c src ih =>
    have hc0 : c ≠ 0 := fun hc => h0 (hc ▸ List.mem_cons_self)
    by_cases hc : c = ch '='
    · rw [List.takeWhile_cons_of_neg (by simp [hc])] at h
      cases h
    · rw [List.takeWhile_cons_of_pos (by simp [hc]), List.mapM_cons] at h
      cases hv : value c with
      | none =>
        have hval : b64chars.findIdx? (· == c) = none := hv
        rw [b64loop, if_neg (fun h => h.elim hc0 hc), hval]
      | some v =>
        obtain ⟨hv64, rfl⟩ := Base64.value_some hv
        have hrest : (src.takeWhile (· != ch '=')).mapM value = none := by
          rw [hv] at h
          cases hm : (src.takeWhile (· != ch '=')).mapM value with
          | none => rfl
          | some vs =>
            rw [hm] at h
            cases h
        have ih := ih (fun hz => h0 (List.mem_cons_of_mem _ hz)) hrest
        rw [b64loop_digit hv64]
        split
        · exact ih _ _ _
        · exact ih _ _ _

theorem b64decode_eq {src : Str} (h0 : 0 ∉ src) (n : Nat) : b64decode src n = (decode src).map (·.take n) := by
  cases hm : (src.takeWhile (· != ch '=')).mapM value with
  | none => rw [b64decode, b64loop_none h0 hm, decode, hm, Option.map_none, Option.map_none]
  | some vs =>
    obtain ⟨hw, hvs⟩ := Base64.mapM_value hm
    have hsplit : src = vs.map digit ++ src.dropWhile (· != ch '=') := by
      rw [← hw, List.takeWhile_append_dropWhile]
    have hr : (src.dropWhile (· != ch '=')).head?.all (· == ch '=') := by
      cases hd : src.dropWhile (· != ch '=') with
      | nil => rfl
      | cons c r =>
        have := List.head?_dropWhile_not (p := (· != ch '=')) src
        rw [hd] at this
        simpa using this
    have hrun := b64loop_bytes (n := n) hvs hr 0 []
    rw [← hsplit, List.take_nil, List.nil_append] at hrun
    rw [b64decode, hrun, decode, hm, Option.map_some, Option.map_some]

/-- The loop ends at a NUL. -/
theorem b64loop_cstr (n : Nat) : ∀ (src : Str) (buf : UInt32) (bits : Nat) (dst : List Byte),
    b64loop n src buf bits dst = b64loop n (cstr src) buf bits dst
  | [], _, _, _ => rfl
  | c :: src, buf, bits, dst => by
    by_cases hc : c = 0
    · subst hc
      rfl
    · rw [show cstr (c :: src) = c :: cstr src from List.takeWhile_cons_of_pos (bne_iff_ne.mpr hc)]
      simp only [b64loop, ← b64loop_cstr n src]

theorem b64decode_cstr (src : Str) (n : Nat) : b64decode src n = b64decode (cstr src) n := b64loop_cstr n src 0 0 []

theorem decode_outside {src : Str} {c : Byte} (hc : c ∈ src.takeWhile (· != ch '=')) (hv : c ∉ b64chars) :
    decode src = none := by
  cases hm : (src.takeWhile (· != ch '=')).mapM value with
  | none => rw [decode, hm, Option.map_none]
  | some vs =>
    obtain ⟨hw, hvs⟩ := Base64.mapM_value hm
    rw [hw] at hc
    obtain ⟨v, hv', rfl⟩ := List.mem_map.mp hc
    refine absurd ?_ hv
    have hlen : b64chars.length = 64 := by decide +kernel
    rw [digit, List.getD_eq_getElem?_getD, List.getElem?_eq_getElem (hlen ▸ hvs v hv'), Option.getD_some]
    exact List.getElem_mem _

/-- What was encoded is read back where it fits, and a text with another character before the first equals sign is
refused. -/
theorem b64decode_reads (dst_len : Nat) :
    (∀ x : List Byte, x.length ≤ dst_len → b64decode (encode x) dst_len = some x) ∧
      ∀ src : Str, (∃ c ∈ (cstr src).takeWhile (· != ch '='), c ∉ b64chars) → b64decode src dst_len = none := by
  refine ⟨fun x hx => ?_, fun src hsrc => ?_⟩
  · rw [b64decode_eq (Base64.encode_plain x), decode_encode, Option.map_some, List.take_of_length_le hx]
  · obtain ⟨c, hc, hv⟩ := hsrc
    rw [b64decode_cstr, b64decode_eq (zero_not_mem_cstr src), decode_outside hc hv, Option.map_none]

theorem b64decode_word : (lit "\x00admin\x00admin").length ≤ 127 ∧
    b64decode (encode (lit "\x00admin\x00admin")) 127 = some (lit "\x00admin\x00admin") ∧
    b64decode (lit "AGFk bWlu") 127 = none := by
  have hlen : (lit "\x00admin\x00admin").length ≤ 127 := by decide
  refine ⟨hlen, (b64decode_reads 127).1 _ hlen, (b64decode_reads 127).2 _ ?_⟩
  exact ⟨ch ' ', by decide, by decide⟩

end Decoder

end Angelic.Proofs
