import Angelic.Lib.Search
import Angelic.Proofs.RosterTable

namespace Angelic.Proofs
open CString Model

variable {nm : Str} {w : Subscription}

/-! The text of a roster item as the server writes it. It is read back by searching, and what is written
reads as it was meant, for every name a user can have. -/

/-- A name that authentication accepts. -/
structure LocalUser (u : Str) : Prop where
  holds : Holds 32 u
  chars : u.any badUserChar = false
  nonempty : u ≠ []

instance (u : Str) : Decidable (LocalUser u) :=
  decidable_of_iff (u.length < 32 ∧ 0 ∉ u ∧ u.any badUserChar = false ∧ u ≠ [])
    ⟨fun h => ⟨⟨h.1, h.2.1⟩, h.2.2.1, h.2.2.2⟩, fun h => ⟨h.holds.1, h.holds.2, h.chars, h.nonempty⟩⟩

/-- The address of a user of this server. -/
def address (u : Str) : Str := u ++ lit "@angelic.local"

/-- An address that stands between two quotes without ending there. -/
structure PlainJid (J : Str) : Prop where
  holds : Holds 64 J
  apos : apos ∉ J
  dquote : dquote ∉ J
  space : ch ' ' ∉ J
  slash : ch '/' ∉ J
  gt : ch '>' ∉ J
  last : ∃ w, J = w ++ [ch 'l']

def mark : Str := lit "subscription='"

/-- No subscription is to be read in the text, not even one without its last quote. -/
def Unmarked (t : Str) : Prop := ∀ sub : Subscription, sub ≠ .none_ → ¬ mark ++ sub.text <:+: t

/-- What may stand for the name in an item that the server wrote. -/
def NameText (J nm : Str) : Prop :=
  nm = [] ∨ ∃ n, nm = lit " name='" ++ n ++ lit "'" ∧ n.length ≤ 63 ∧ 0 ∉ n ∧ dquote ∉ n ∧ Unmarked n ∧
    lit "name=" <:+: J

/-- The item of a contact as the server writes it. -/
def ItemOf (J : Str) (sub : Subscription) (xml : Str) : Prop :=
  ∃ nm, xml = lit "<item jid='" ++ J ++ lit "'" ++ nm ++ lit " subscription='" ++ sub.text ++ lit "'/>" ∧
    NameText J nm

theorem address_plain {u : Str} (h : LocalUser u) : PlainJid (address u) := by
  have hall : ∀ c ∈ u, badUserChar c = false := by
    intro c hc
    have := h.chars
    rw [List.any_eq_false] at this
    simpa using this c hc
  have hnot : ∀ c : Byte, badUserChar c = true → c ∉ lit "@angelic.local" → c ∉ address u := by
    intro c hb hd hm
    rcases List.mem_append.mp hm with hm | hm
    · rw [hall c hm] at hb
      cases hb
    · exact hd hm
  refine ⟨⟨?_, ?_⟩, hnot _ (by decide) (by decide), hnot _ (by decide) (by decide), hnot _ (by decide) (by decide),
    hnot _ (by decide) (by decide), hnot _ (by decide) (by decide), u ++ lit "@angelic.loca", ?_⟩
  · have hl : (lit "@angelic.local").length = 14 := by decide
    have := h.holds.1
    rw [address, List.length_append, hl]
    omega
  · intro hm
    rcases List.mem_append.mp hm with hm | hm
    · exact h.holds.2 hm
    · exact absurd hm (by decide)
  · have hl : lit "@angelic.local" = lit "@angelic.loca" ++ [ch 'l'] := by decide
    rw [address, hl, List.append_assoc]

/-! Where a subscription can be read. -/

/-- A text that is searched for: it has one quote, well behind its start, and does not end with it. -/
structure Pattern (n : Str) : Prop where
  clean : 0 ∉ n
  nonempty : n ≠ []
  space : ch ' ' ∉ n
  start : apos ∉ n.take 13
  long : 13 ≤ n.length
  last : n.getLast? ≠ some apos

theorem mark_pattern (sub : Subscription) : Pattern (mark ++ sub.text) := by
  cases sub <;> exact ⟨by decide, by decide, by decide, by decide, by decide, by decide⟩

/-- A short key and a quoted value hold the pattern only if the value does. -/
theorem infix_attr {n : Str} (hn : Pattern n) {k v : Str} (hk : k.length < 13) (hv : ¬ n <:+: v) :
    ¬ n <:+: k ++ lit "'" ++ v ++ lit "'" := by
  rintro ⟨l, r, he⟩
  have hq : lit "'" = [apos] := by decide
  rw [hq, List.append_assoc l, List.append_assoc k, List.append_assoc k] at he
  rcases List.append_eq_append_iff.mp he with ⟨c, hkl, hr⟩ | ⟨c, hlk, hr⟩
  · -- the first quote would be among the first bytes of the pattern
    have hc : c.length < 13 := by
      have := congrArg List.length hkl
      rw [List.length_append] at this
      omega
    have hm : apos ∈ n.take 13 := by
      have ht : apos ∈ (n ++ r).take 13 := by
        rw [hr, List.take_append, List.take_of_length_le (by omega)]
        refine List.mem_append_right _ ?_
        obtain ⟨m, hm⟩ : ∃ m, 13 - c.length = m + 1 := ⟨12 - c.length, by omega⟩
        rw [hm]
        exact List.mem_cons_self
      rwa [List.take_append_of_le_length hn.long] at ht
    exact hn.start hm
  · cases c with
    | nil =>
      have hm : apos ∈ n.take 13 := by
        have ht : apos ∈ (n ++ r).take 13 := by
          rw [List.nil_append] at hr
          rw [← hr]
          exact List.mem_cons_self
        rwa [List.take_append_of_le_length hn.long] at ht
      exact hn.start hm
    | cons x c =>
      have hin : n <:+: v ++ [apos] := by
        refine ⟨c, r, ?_⟩
        rw [List.append_assoc]
        exact (List.cons.inj hr).2.symm
      rcases List.infix_concat_iff.mp hin with hs | hi
      · obtain ⟨w, hw⟩ := hs
        refine hn.last ?_
        have hlast := congrArg List.getLast? hw
        rw [List.getLast?_append, List.getLast?_concat] at hlast
        cases hg : n.getLast? with
        | none => exact absurd (List.getLast?_eq_none_iff.mp hg) hn.nonempty
        | some y =>
          rw [hg] at hlast
          exact hlast
      · exact hv hi

/-- Where the name ends, no subscription has been read. -/
theorem unmarked_head {J : Str} (hJ : PlainJid J) (hm : NameText J nm) :
    Unmarked (lit "<item jid='" ++ J ++ lit "'" ++ nm) := by
  intro sub hs
  have hp := mark_pattern sub
  have hq : apos ∈ mark ++ sub.text := by cases sub <;> decide
  have hjid : ¬ mark ++ sub.text <:+: lit "jid=" ++ lit "'" ++ J ++ lit "'" :=
    infix_attr hp (by decide) fun h => hJ.apos (h.subset hq)
  have hsplit : lit "<item jid='" ++ J ++ lit "'" ++ nm =
      lit "<item" ++ ch ' ' :: (lit "jid=" ++ lit "'" ++ J ++ lit "'" ++ nm) := by
    have : lit "<item jid='" = lit "<item" ++ ch ' ' :: (lit "jid=" ++ lit "'") := by decide
    rw [this]
    simp only [List.append_assoc, List.cons_append]
  rw [hsplit, infix_over hp.space, not_or]
  refine ⟨by cases sub <;> decide, ?_⟩
  rcases hm with rfl | ⟨n, rfl, -, -, -, hn, -⟩
  · rwa [List.append_nil]
  · have hname : lit " name='" ++ n ++ lit "'" = ch ' ' :: (lit "name=" ++ lit "'" ++ n ++ lit "'") := rfl
    rw [hname, infix_over hp.space, not_or]
    exact ⟨hjid, infix_attr hp (by decide) (hn sub hs)⟩

/-! Reading. -/

section Reading
variable {J xml : Str} {sub : Subscription}

theorem NameText.chars (h : NameText J nm) : 0 ∉ nm ∧ dquote ∉ nm := by
  rcases h with rfl | ⟨n, rfl, -, h0, hd, -, -⟩
  · exact ⟨List.not_mem_nil, List.not_mem_nil⟩
  · simp only [List.mem_append, not_or]
    exact ⟨⟨⟨by decide, h0⟩, by decide⟩, ⟨⟨by decide, hd⟩, by decide⟩⟩

theorem ItemOf.chars (hJ : PlainJid J) (h : ItemOf J sub xml) : 0 ∉ xml ∧ dquote ∉ xml := by
  obtain ⟨nm, rfl, hm⟩ := h
  have hs : 0 ∉ sub.text ∧ dquote ∉ sub.text := by cases sub <;> decide
  simp only [List.mem_append, not_or]
  exact ⟨⟨⟨⟨⟨⟨⟨by decide, hJ.holds.2⟩, by decide⟩, hm.chars.1⟩, by decide⟩, hs.1⟩, by decide⟩,
    ⟨⟨⟨⟨⟨⟨by decide, hJ.dquote⟩, by decide⟩, hm.chars.2⟩, by decide⟩, hs.2⟩, by decide⟩⟩

theorem item_split (t : Str) (sub : Subscription) :
    t ++ lit " subscription='" ++ sub.text ++ lit "'/>" = t ++ ch ' ' :: (mark ++ sub.text ++ lit "'/>") := by
  have : lit " subscription='" = ch ' ' :: mark := by decide
  rw [this]
  simp only [List.append_assoc, List.cons_append]

/-- The subscription is the only one that stands in the item. -/
theorem ItemOf.infix_iff (hJ : PlainJid J) (h : ItemOf J sub xml) (hw : w ≠ .none_) :
    mark ++ w.text ++ lit "'" <:+: xml ↔ w = sub := by
  obtain ⟨nm, rfl, hm⟩ := h
  have hspace : ch ' ' ∉ mark ++ w.text ++ lit "'" := by cases w <;> decide
  have hhead : ¬ mark ++ w.text ++ lit "'" <:+: lit "<item jid='" ++ J ++ lit "'" ++ nm := fun hi =>
    unmarked_head hJ hm w hw ((List.prefix_append _ _).isInfix.trans hi)
  rw [item_split, infix_over hspace, or_iff_right hhead]
  cases w <;> cases sub <;> first | exact absurd rfl hw | decide

theorem ItemOf.hasAttr_iff (hJ : PlainJid J) (h : ItemOf J sub xml) (hw : w ≠ .none_)
    {single double : String} (hs : lit single = mark ++ w.text ++ lit "'") (hd : dquote ∈ lit double)
    (h0 : 0 ∉ lit double) : hasAttr xml single double = true ↔ w = sub := by
  have hc := h.chars hJ
  have hclean : 0 ∉ lit single := by
    rw [hs]
    cases w <;> decide
  have hne : lit single ≠ [] := by
    rw [hs]
    cases w <;> decide
  have hdouble : strstr xml (lit double) = none :=
    (strstr_eq_none h0 (List.ne_nil_of_mem hd) hc.1).mpr fun hi => hc.2 (hi.subset hd)
  rw [hasAttr, hdouble, Option.isSome_none, Bool.or_false, strstr_isSome hclean hne hc.1, hs]
  exact h.infix_iff hJ hw

/-- What the server writes it reads. -/
theorem ItemOf.reads (hJ : PlainJid J) (h : ItemOf J sub xml) : subscriptionOf xml = sub := by
  have hb : hasAttr xml "subscription='both'" "subscription=\"both\"" = true ↔ Subscription.both = sub :=
    h.hasAttr_iff hJ (by decide) (by decide) (by decide) (by decide)
  have ht : hasAttr xml "subscription='to'" "subscription=\"to\"" = true ↔ Subscription.to_ = sub :=
    h.hasAttr_iff hJ (by decide) (by decide) (by decide) (by decide)
  have hf : hasAttr xml "subscription='from'" "subscription=\"from\"" = true ↔ Subscription.from_ = sub :=
    h.hasAttr_iff hJ (by decide) (by decide) (by decide) (by decide)
  simp only [subscriptionOf, hb, ht, hf]
  cases sub <;> rfl

end Reading

/-! Writing. -/

section Writing
variable {J xml : Str} {sub : Subscription}

/-- Behind a subscription that can be read in an item there is its end and nothing else. -/
theorem ItemOf.after_mark (hJ : PlainJid J) (h : ItemOf J sub xml) (hw : w ≠ .none_) {l r : Str}
    (he : xml = l ++ (mark ++ w.text) ++ r) : r <:+ lit "'/>" := by
  obtain ⟨nm, rfl, hm⟩ := h
  have hp := mark_pattern w
  rw [item_split, List.append_assoc l] at he
  have hhead := unmarked_head hJ hm w hw
  rcases List.append_eq_append_iff.mp he with ⟨c, hl, hr⟩ | ⟨c, hh, hr⟩
  · cases c with
    | nil =>
      -- the text would start with the space
      have hm : ch ' ' ∈ (mark ++ w.text ++ r).take 1 := by
        rw [← List.nil_append (mark ++ w.text ++ r), ← hr]
        exact List.mem_cons_self
      rw [List.take_append_of_le_length (by have := hp.long; omega)] at hm
      exact absurd (List.mem_of_mem_take hm) hp.space
    | cons x c =>
      have htail : c ++ (mark ++ w.text ++ r) = mark ++ sub.text ++ lit "'/>" := (List.cons.inj hr).2.symm
      have hin : mark ++ w.text <:+: mark ++ sub.text ++ lit "'/>" := ⟨c, r, by rw [List.append_assoc, htail]⟩
      obtain rfl : w = sub := by
        revert hin hw
        cases w <;> cases sub <;> decide
      have hlen := congrArg List.length htail
      simp only [List.length_append] at hlen
      have hr' : r <:+ mark ++ w.text ++ lit "'/>" := by
        rw [← htail, ← List.append_assoc]
        exact List.suffix_append _ _
      exact List.suffix_of_suffix_length_le hr' (List.suffix_append _ _) (by omega)
  · -- the text cannot go over the space, so it would stand in front of it
    refine absurd ?_ hhead
    rw [hh]
    have hpre : mark ++ w.text <+: c ++ ch ' ' :: (mark ++ sub.text ++ lit "'/>") := ⟨r, hr⟩
    exact ((prefix_over hp.space).mp hpre).isInfix.trans (List.suffix_append l c).isInfix

theorem looseAttr_some {key : String} {p : Str} (hs : strstr xml (lit key) = some (lit key ++ p)) :
    looseAttr xml key = (strchr p.tail (p.headD 0)).map fun e => (upto p.tail e).take 63 := by
  rw [looseAttr, hs]
  dsimp only
  rw [List.drop_left]
  cases strchr p.tail (p.headD 0) <;> rfl

theorem looseAttr_none {key : String} (hs : strstr xml (lit key) = none) : looseAttr xml key = none := by
  rw [looseAttr, hs]

/-- The address in an item is the one it was written with. -/
theorem ItemOf.jid (hJ : PlainJid J) (h : ItemOf J sub xml) : looseAttr xml "jid=" = some J := by
  have hc := (h.chars hJ).1
  obtain ⟨nm, he, -⟩ := h
  obtain ⟨r, hr⟩ : ∃ r, xml = lit "<item jid=" ++ apos :: (J ++ apos :: r) := by
    have h1 : lit "<item jid='" = lit "<item jid=" ++ [apos] := by decide
    have h2 : lit "'" = [apos] := by decide
    rw [h1, h2] at he
    exact ⟨nm ++ lit " subscription='" ++ sub.text ++ lit "'/>", by
      rw [he]; simp only [List.append_assoc, List.cons_append, List.nil_append]⟩
  rw [hr] at hc
  have hs : strstr xml (lit "jid=") = some (lit "jid=" ++ apos :: (J ++ apos :: r)) := by
    rw [hr]
    exact strstr_append (by decide) (by decide) hc (by decide)
  have hq : strchr (J ++ apos :: r) apos = some (apos :: r) := strchr_over hJ.holds.2 hJ.apos
  rw [looseAttr_some hs, List.tail_cons, List.headD_cons, hq, Option.map_some, upto_append,
    List.take_of_length_le (Nat.le_of_lt_succ hJ.holds.1)]

/-- What is read for a name from an item without one in its address: nothing. -/
theorem ItemOf.no_name (hJ : PlainJid J) (h : ItemOf J sub xml) (hn : ¬ lit "name=" <:+: J) :
    looseAttr xml "name=" = none := by
  have hc := (h.chars hJ).1
  obtain ⟨nm, he, hm⟩ := h
  obtain rfl : nm = [] := by
    rcases hm with rfl | ⟨n, -, -, -, -, -, hin⟩
    · rfl
    · exact absurd hin hn
  have hparts : xml = lit "<item jid=" ++ apos :: (J ++ apos :: (lit " subscription=" ++ apos ::
      (sub.text ++ apos :: lit "/>"))) := by
    have h1 : lit "<item jid='" = lit "<item jid=" ++ [apos] := by decide
    have h2 : lit "'" = [apos] := by decide
    have h3 : lit " subscription='" = lit " subscription=" ++ [apos] := by decide
    have h4 : lit "'/>" = apos :: lit "/>" := by decide
    rw [he, h1, h2, h3, h4]
    simp only [List.append_assoc, List.cons_append, List.nil_append]
  refine looseAttr_none ((strstr_eq_none (by decide) (by decide) hc).mpr ?_)
  have hq : apos ∉ lit "name=" := by decide
  rw [hparts, infix_over hq, infix_over hq, infix_over hq, infix_over hq]
  simp only [not_or]
  exact ⟨by decide, hn, by decide, by cases sub <;> decide, by decide⟩

/-- A name that is read out of the address holds no subscription: it ends before a byte of the address, and
the item ends behind its subscription. -/
theorem ItemOf.name_in_jid (hJ : PlainJid J) (h : ItemOf J sub xml) (hin : lit "name=" <:+: J) {n : Str}
    (hn : looseAttr xml "name=" = some n) : n.length ≤ 63 ∧ 0 ∉ n ∧ dquote ∉ n ∧ Unmarked n := by
  have hc := h.chars hJ
  obtain ⟨pre, rest, hx⟩ : ∃ pre rest, xml = pre ++ apos :: (J ++ rest) ∧ pre = lit "<item jid=" := by
    obtain ⟨nm, he, -⟩ := h
    have h1 : lit "<item jid='" = lit "<item jid=" ++ [apos] := by decide
    refine ⟨_, lit "'" ++ nm ++ lit " subscription='" ++ sub.text ++ lit "'/>", ?_, rfl⟩
    rw [he, h1]
    simp only [List.append_assoc, List.cons_append, List.nil_append]
  obtain ⟨hx, rfl⟩ := hx
  obtain ⟨y, hy⟩ := Option.isSome_iff_exists.mp ((strstr_isSome (by decide) (by decide) hJ.holds.2).mpr hin)
  obtain ⟨y', rfl⟩ := strstr_starts (by decide) (by decide) hJ.holds.2 hy
  -- the address does not end with the key, so the quote is one of its bytes
  obtain ⟨q, y'', rfl⟩ : ∃ q y'', y' = q :: y'' := by
    cases y' with
    | cons q y'' => exact ⟨q, y'', rfl⟩
    | nil =>
      obtain ⟨w, hw⟩ := hJ.last
      obtain ⟨w', hw'⟩ := strstr_suffix hy
      rw [hw] at hw'
      have hlast := congrArg List.getLast? hw'
      have hkey : (lit "name=").getLast? = some (ch '=') := by decide
      rw [List.append_nil, List.getLast?_append, List.getLast?_concat, hkey, Option.some_or] at hlast
      exact absurd hlast (by decide)
  have hq : q ∈ J := (strstr_suffix hy).subset (List.mem_append_right _ List.mem_cons_self)
  have hs : strstr xml (lit "name=") = some (lit "name=" ++ q :: (y'' ++ rest)) := by
    have hc' := hc.1
    rw [hx] at hc' ⊢
    rw [strstr_over (by decide) (by decide) (by decide) hc' (by decide)]
    have h0 : 0 ∉ J ++ rest := fun h => hc' (List.mem_append_right _ (List.mem_cons_of_mem _ h))
    rw [strstr_append (by decide) (by decide) h0 hy, List.append_assoc, List.cons_append]
  rw [looseAttr_some hs, List.tail_cons, List.headD_cons, Option.map_eq_some_iff] at hn
  obtain ⟨e, he, rfl⟩ := hn
  have hq0 : q ≠ 0 := fun h => hJ.holds.2 (h ▸ hq)
  obtain ⟨a, b, hab, rfl, -⟩ := strchr_split hq0 he
  rw [hab, upto_append]
  obtain ⟨l, hl⟩ := strstr_suffix hs
  rw [hab] at hl
  have hsub : ∀ c ∈ a.take 63, c ∈ xml := by
    intro c hc
    rw [← hl]
    simp only [List.mem_append, List.mem_cons]
    exact .inr (.inr (.inr (.inl (List.mem_of_mem_take hc))))
  refine ⟨by rw [List.length_take]; omega, fun h0 => hc.1 (hsub _ h0), fun hd => hc.2 (hsub _ hd), ?_⟩
  intro w hw hi
  obtain ⟨l', r', hlr⟩ := hi.trans (List.take_prefix 63 a).isInfix
  have hend : r' ++ q :: b <:+ lit "'/>" := h.after_mark hJ hw (l := l ++ lit "name=" ++ q :: l') (by
    rw [← hl, ← hlr]
    simp only [List.append_assoc, List.cons_append])
  have hmem : q ∈ lit "'/>" := hend.subset (List.mem_append_right _ List.mem_cons_self)
  have hparts : lit "'/>" = [apos, ch '/', ch '>'] := by decide
  rw [hparts] at hmem
  simp only [List.mem_cons, List.not_mem_nil, or_false] at hmem
  rcases hmem with rfl | rfl | rfl
  · exact hJ.apos hq
  · exact hJ.slash hq
  · exact hJ.gt hq

/-- The name attribute that is written again. -/
def nameAttr (xml : Str) : Str := (looseAttr xml "name=").elim [] fun n => snprintf 128 (lit " name='%s'") [.s n]

theorem subscriptionItem_eq (xml jid : Str) (sub : Subscription) :
    subscriptionItem xml jid sub = snprintf 256 (lit "<item jid='%s'%s subscription='%s'/>")
      [.s (if (looseAttr xml "jid=").getD [] = [] then strncpy 63 jid else (looseAttr xml "jid=").getD []),
        .s (nameAttr xml), .s sub.text] := by
  unfold subscriptionItem nameAttr
  cases looseAttr xml "name=" <;> rfl

theorem ItemOf.name (hJ : PlainJid J) (h : ItemOf J sub xml) : NameText J (nameAttr xml) := by
  unfold nameAttr
  by_cases hin : lit "name=" <:+: J
  · cases hn : looseAttr xml "name=" with
    | none => exact .inl rfl
    | some n =>
      obtain ⟨hlen, h0, hd, hu⟩ := h.name_in_jid hJ hin hn
      refine .inr ⟨n, ?_, hlen, h0, hd, hu, hin⟩
      have hp : pieces (lit " name='%s'") = [lit " name='", lit "'"] := by decide +kernel
      have hl1 : (lit " name='").length = 7 := by decide
      have hl2 : (lit "'").length = 1 := by decide
      rw [Option.elim_some, snprintf, vsnprintf_eq, hp]
      simp only [weave, Arg.text, cstr_of_clean h0]
      refine List.take_of_length_le ?_
      simp only [List.length_append, hl1, hl2]
      omega
  · rw [h.no_name hJ hin]
    exact .inl rfl

theorem NameText.holds (h : NameText J nm) : Holds 128 nm := by
  rcases h with rfl | ⟨n, rfl, hl, h0, -⟩
  · exact ⟨by decide, by decide⟩
  · have hl1 : (lit " name='").length = 7 := by decide
    have hl2 : (lit "'").length = 1 := by decide
    constructor
    · simp only [List.length_append, hl1, hl2]
      omega
    · simp only [List.mem_append, h0, or_false, not_or]
      exact ⟨by decide, by decide⟩

/-- An item is written from an address and a name that fit. -/
theorem snprintf_item (hJ : Holds 64 J) (hm : Holds 128 nm) (sub : Subscription) :
    snprintf 256 (lit "<item jid='%s'%s subscription='%s'/>") [.s J, .s nm, .s sub.text] =
      lit "<item jid='" ++ J ++ lit "'" ++ nm ++ lit " subscription='" ++ sub.text ++ lit "'/>" := by
  have hp : pieces (lit "<item jid='%s'%s subscription='%s'/>") =
      [lit "<item jid='", lit "'", lit " subscription='", lit "'/>"] := by decide +kernel
  have hs : 0 ∉ sub.text ∧ sub.text.length ≤ 4 := by cases sub <;> decide
  have l1 : (lit "<item jid='").length = 11 := by decide
  have l2 : (lit "'").length = 1 := by decide
  have l3 : (lit " subscription='").length = 15 := by decide
  have l4 : (lit "'/>").length = 3 := by decide
  have hJl := hJ.1
  have hml := hm.1
  rw [snprintf, vsnprintf_eq, hp]
  simp only [weave, Arg.text, cstr_of_clean hJ.2, cstr_of_clean hm.2, cstr_of_clean hs.1]
  rw [List.take_of_length_le]
  · simp only [List.append_assoc]
  · simp only [List.length_append, l1, l2, l3, l4]
    omega

/-- A change of subscription writes an item that reads as the new one, on a new entry and on one that was
written so before. -/
theorem subscriptionItem_itemOf (hJ : PlainJid J) (h : xml = [] ∨ ∃ cur, ItemOf J cur xml) (sub : Subscription) :
    ItemOf J sub (subscriptionItem xml J sub) := by
  have hne : J ≠ [] := by
    obtain ⟨w, rfl⟩ := hJ.last
    simp
  rcases h with rfl | ⟨cur, h⟩
  · have hcopy : strncpy 63 J = J := by
      rw [strncpy, cstr_of_clean hJ.holds.2, List.take_of_length_le (Nat.le_of_lt_succ hJ.holds.1)]
    have hj : looseAttr [] "jid=" = none := by decide
    have hn : nameAttr [] = [] := by decide
    refine ⟨[], ?_, .inl rfl⟩
    rw [subscriptionItem_eq, hj, hn, Option.getD_none, if_pos rfl, hcopy]
    exact snprintf_item hJ.holds ⟨by decide, by decide⟩ sub
  · refine ⟨_, ?_, h.name hJ⟩
    rw [subscriptionItem_eq, h.jid hJ, Option.getD_some, if_neg hne]
    exact snprintf_item hJ.holds (h.name hJ).holds sub

end Writing

end Angelic.Proofs
