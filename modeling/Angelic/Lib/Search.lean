import Angelic.Lib.CString
import Mathlib.Data.List.Infix

namespace Angelic.CString

variable {s : Str} {c : Byte}

/-! Searching a string for another. Neither holds a terminator. -/

theorem matchAt_iff {n : Str} (hn : 0 ∉ n) (hs : 0 ∉ s) : matchAt s n = true ↔ n <+: s := by
  induction n generalizing s with
  | nil => simp [matchAt]
  | cons c n ih =>
    simp only [List.mem_cons, not_or] at hn
    cases s with
    | nil => simp [matchAt, Ne.symm hn.1]
    | cons a s =>
      simp only [List.mem_cons, not_or] at hs
      rw [matchAt, if_neg (Ne.symm hn.1), List.cons_prefix_cons]
      by_cases hac : a = c
      · rw [if_neg (by simp [hac, Ne.symm hn.1]), ih hn.2 hs.2]
        simp [hac]
      · rw [if_pos (.inr hac)]
        simp [Ne.symm hac]

variable {n : Str}

theorem strstr_cons {a : Byte} (hn : 0 ∉ n) (hne : n ≠ []) (hs : 0 ∉ a :: s) :
    strstr (a :: s) n = if n <+: a :: s then some (a :: s) else strstr s n := by
  have ha : a ≠ 0 := fun h => hs (h ▸ List.mem_cons_self)
  rw [strstr, cstr_of_clean hn, if_neg hne, if_neg ha]
  exact if_congr (matchAt_iff hn hs) rfl rfl

theorem strstr_nil (hn : 0 ∉ n) (hne : n ≠ []) : strstr [] n = none := by
  rw [strstr, cstr_of_clean hn, if_neg hne]

/-- The search finds exactly what is there. -/
theorem strstr_isSome (hn : 0 ∉ n) (hne : n ≠ []) (hs : 0 ∉ s) : (strstr s n).isSome ↔ n <:+: s := by
  induction s with
  | nil => simp [strstr_nil hn hne, hne]
  | cons a s ih =>
    rw [strstr_cons hn hne hs, List.infix_cons_iff]
    by_cases hp : n <+: a :: s
    · simp [hp]
    · rw [if_neg hp, ih fun h => hs (List.mem_cons_of_mem a h)]
      simp [hp]

theorem strstr_eq_none (hn : 0 ∉ n) (hne : n ≠ []) (hs : 0 ∉ s) : strstr s n = none ↔ ¬ n <:+: s := by
  rw [← strstr_isSome hn hne hs, Option.not_isSome_iff_eq_none]

/-- What is found starts with what was searched. -/
theorem strstr_starts {t : Str} (hn : 0 ∉ n) (hne : n ≠ []) (hs : 0 ∉ s) (h : strstr s n = some t) : n <+: t := by
  induction s with
  | nil => simp [strstr_nil hn hne] at h
  | cons a s ih =>
    rw [strstr_cons hn hne hs] at h
    split at h
    · cases h
      assumption
    · exact ih (fun h0 => hs (List.mem_cons_of_mem a h0)) h

/-- What is found in a string is found with anything behind it. -/
theorem strstr_append {t : Str} (hn : 0 ∉ n) (hne : n ≠ []) {r : Str} (hs : 0 ∉ s ++ r)
    (h : strstr s n = some t) : strstr (s ++ r) n = some (t ++ r) := by
  induction s with
  | nil => simp [strstr_nil hn hne] at h
  | cons a s ih =>
    have hs' : 0 ∉ a :: s := fun h0 => hs (List.mem_append_left r h0)
    rw [strstr_cons hn hne hs'] at h
    rw [List.cons_append] at hs ⊢
    rw [strstr_cons hn hne hs]
    split at h
    · rename_i hp
      cases h
      exact if_pos (hp.trans (List.prefix_append (a :: s) r))
    · rename_i hp
      have ih := ih (fun h0 => hs (List.mem_cons_of_mem a h0)) h
      by_cases hp' : n <+: a :: (s ++ r)
      · -- the needle is shorter than the string, so it is found without what was added
        have hlen : n.length ≤ (a :: s).length :=
          ((strstr_starts hn hne (fun h0 => hs' (List.mem_cons_of_mem a h0)) h).length_le.trans
            (strstr_suffix h).length_le).trans (Nat.le_succ _)
        exact absurd (List.prefix_of_prefix_length_le hp' (List.prefix_append (a :: s) r) hlen) hp
      · rw [if_neg hp', ih]

/-- The needle stands in the string, with `after` behind it, and not further to the left. -/
def FirstAt (n s after : Str) : Prop :=
  ∃ before, s = before ++ (n ++ after) ∧ ∀ b a, s = b ++ (n ++ a) → before.length ≤ b.length

theorem FirstAt.unique {a b : Str} (ha : FirstAt n s a) (hb : FirstAt n s b) : a = b := by
  obtain ⟨x, hx, hxm⟩ := ha
  obtain ⟨y, hy, hym⟩ := hb
  have hlen : x.length = y.length := Nat.le_antisymm (hxm _ _ hy) (hym _ _ hx)
  have := List.append_inj (hx.symm.trans hy) hlen
  exact List.append_cancel_left this.2

/-- The search finds the first place. -/
theorem strstr_eq_some_iff {t : Str} (hn : 0 ∉ n) (hne : n ≠ []) (hs : 0 ∉ s) :
    strstr s n = some t ↔ ∃ after, t = n ++ after ∧ FirstAt n s after := by
  have found : ∀ {s t : Str}, 0 ∉ s → strstr s n = some t → ∃ after, t = n ++ after ∧ FirstAt n s after := by
    intro s t hs h
    induction s with
    | nil => rw [strstr_nil hn hne] at h; cases h
    | cons c s ih =>
      rw [strstr_cons hn hne hs] at h
      split at h
      · rename_i hp
        cases h
        obtain ⟨after, ha⟩ := hp
        exact ⟨after, ha.symm, [], ha.symm, fun _ _ _ => Nat.zero_le _⟩
      · rename_i hp
        obtain ⟨after, ht, before, hb, hmin⟩ := ih (fun h0 => hs (List.mem_cons_of_mem c h0)) h
        refine ⟨after, ht, c :: before, by rw [hb]; rfl, fun b a hba => ?_⟩
        cases b with
        | nil => exact absurd ⟨a, hba.symm⟩ hp
        | cons x b => exact Nat.succ_le_succ (hmin b a (List.cons.inj hba).2)
  constructor
  · exact found hs
  · rintro ⟨after, rfl, hf⟩
    have ⟨before, hb, _⟩ := hf
    have hsome : (strstr s n).isSome := (strstr_isSome hn hne hs).mpr ⟨before, after, by rw [hb, List.append_assoc]⟩
    obtain ⟨t, ht⟩ := Option.isSome_iff_exists.mp hsome
    obtain ⟨after', ht', hf'⟩ := found hs ht
    rw [ht, ht', hf'.unique hf]

/-- No match goes over a byte that the needle does not have. -/
theorem prefix_over (hc : c ∉ n) {a b : Str} : n <+: a ++ c :: b ↔ n <+: a := by
  induction a generalizing n with
  | nil =>
    cases n with
    | nil => simp
    | cons x n =>
      simp only [List.mem_cons, not_or] at hc
      simp [List.cons_prefix_cons, Ne.symm hc.1]
  | cons y a ih =>
    cases n with
    | nil => simp
    | cons x n =>
      simp only [List.mem_cons, not_or] at hc
      rw [List.cons_append, List.cons_prefix_cons, List.cons_prefix_cons, ih hc.2]

theorem infix_over (hc : c ∉ n) {a b : Str} : n <:+: a ++ c :: b ↔ n <:+: a ∨ n <:+: b := by
  induction a with
  | nil =>
    rw [List.nil_append, List.infix_cons_iff, ← List.nil_append (c :: b), prefix_over hc]
    cases n with
    | nil => simp
    | cons x n => simp
  | cons y a ih =>
    rw [List.cons_append, List.infix_cons_iff, ← List.cons_append, prefix_over hc, ih, List.infix_cons_iff, or_assoc]

/-- A search goes on behind such a byte. -/
theorem strstr_over (hn : 0 ∉ n) (hne : n ≠ []) (hc : c ∉ n) {a b : Str} (hs : 0 ∉ a ++ c :: b)
    (ha : ¬ n <:+: a) : strstr (a ++ c :: b) n = strstr b n := by
  induction a with
  | nil =>
    change strstr (c :: b) n = _
    rw [strstr_cons hn hne hs, if_neg]
    rw [← List.nil_append (c :: b), prefix_over hc]
    exact fun h => hne (List.prefix_nil.mp h)
  | cons y a ih =>
    rw [List.infix_cons_iff, not_or] at ha
    rw [List.cons_append] at hs ⊢
    rw [strstr_cons hn hne hs, if_neg, ih (fun h0 => hs (List.mem_cons_of_mem y h0)) ha.2]
    rw [← List.cons_append, prefix_over hc]
    exact ha.1

/-- Nor over one that the needle has in front only. -/
theorem strstr_at {m : Str} (hn : 0 ∉ c :: m) (hc : c ∉ m) {a b : Str} (hs : 0 ∉ a ++ c :: b)
    (ha : ¬ c :: m <:+: a) : strstr (a ++ c :: b) (c :: m) = strstr (c :: b) (c :: m) := by
  induction a with
  | nil => rfl
  | cons y a ih =>
    rw [List.infix_cons_iff, not_or] at ha
    rw [List.cons_append] at hs ⊢
    rw [strstr_cons hn (List.cons_ne_nil c m) hs, if_neg, ih (fun h0 => hs (List.mem_cons_of_mem y h0)) ha.2]
    rw [List.cons_prefix_cons, prefix_over hc, ← List.cons_prefix_cons]
    exact ha.1

/-- Nothing is found before the needle's first byte. -/
theorem strstr_behind {m : Str} (hn : 0 ∉ c :: m) {a b : Str} (hs : 0 ∉ a ++ b) (hc : c ∉ a) :
    strstr (a ++ b) (c :: m) = strstr b (c :: m) := by
  induction a with
  | nil => rfl
  | cons y a ih =>
    rw [List.mem_cons, not_or] at hc
    rw [List.cons_append] at hs ⊢
    rw [strstr_cons hn (List.cons_ne_nil c m) hs, if_neg, ih (fun h0 => hs (List.mem_cons_of_mem y h0)) hc.2]
    rw [List.cons_prefix_cons]
    exact fun h => hc.1 h.1

/-- A byte is found behind all others. -/
theorem strchr_over {a b : Str} (ha : 0 ∉ a) (hca : c ∉ a) : strchr (a ++ c :: b) c = some (c :: b) := by
  induction a with
  | nil => simp [strchr]
  | cons x a ih =>
    simp only [List.mem_cons, not_or] at ha hca
    rw [List.cons_append, strchr, if_neg (Ne.symm hca.1), if_neg (Ne.symm ha.1), ih ha.2 hca.2]

theorem strchr_split (hc : c ≠ 0) {e : Str} (h : strchr s c = some e) :
    ∃ a b, s = a ++ c :: b ∧ e = c :: b ∧ c ∉ a := by
  induction s with
  | nil => simp [strchr, hc] at h
  | cons x s ih =>
    rw [strchr] at h
    split at h
    · rename_i hx
      cases h
      exact ⟨[], s, by rw [hx]; rfl, by rw [hx], List.not_mem_nil⟩
    · rename_i hx
      split at h
      · cases h
      · obtain ⟨a, b, hs, he, hn⟩ := ih h
        exact ⟨x :: a, b, by rw [hs]; rfl, he, by simp [Ne.symm hx, hn]⟩

theorem upto_append (a e : Str) : upto (a ++ e) e = a := by
  rw [upto, List.length_append, Nat.add_sub_cancel, List.take_left]

end Angelic.CString
