import Angelic.Proofs.RosterItems
import Angelic.Proofs.Rosters

namespace Angelic.Proofs
open CString Model StateRel
open Xml (Tag Attr emptyText)

/-! Items that a subscription writes again. -/

/-- What stands behind the first `name=` of the old item, put between apostrophes, is attributes, and the address can
stand between apostrophes too. -/
structure Rewritable (xml jid : Str) : Prop where
  jid : apos ∉ jid ∧ ch '<' ∉ jid
  name : ∃ as : List Attr, as.flatMap Attr.text = nameAttr xml

section Rewriting
variable {xml jid : Str} {sub : Subscription}

theorem looseAttr_of_extract (h : roster_extract_jid xml = some jid) : looseAttr xml "jid=" = some jid := by
  have hl : (lit "jid=").length = 4 := by decide
  unfold roster_extract_jid at h
  unfold looseAttr
  split at h
  · rename_i p hp
    simp only [hp, hl]
    unfold quoted at h
    split at h
    · rename_i q rest hq
      rw [hq]
      split at h
      · exact h
      · cases h
    · cases h
  · cases h

theorem nameAttr_eq (xml : Str) :
    nameAttr xml = (looseAttr xml "name=").elim [] fun n => lit " name='" ++ cstr n ++ lit "'" := by
  unfold nameAttr
  cases hn : looseAttr xml "name=" with
  | none => rfl
  | some n =>
    have hlen : n.length ≤ 63 := by
      unfold looseAttr at hn
      split at hn
      · cases hn
      · dsimp only at hn
        split at hn
        · cases hn
          exact List.length_take_le ..
        · cases hn
    have hc : (cstr n).length ≤ n.length := (List.takeWhile_prefix _).length_le
    have hp : pieces (lit " name='%s'") = [lit " name='", lit "'"] := by decide +kernel
    have hl1 : (lit " name='").length = 7 := by decide
    have hl2 : (lit "'").length = 1 := by decide
    rw [Option.elim_some, Option.elim_some, snprintf, vsnprintf_eq, hp]
    simp only [weave, Arg.text]
    refine List.take_of_length_le ?_
    simp only [List.length_append, hl1, hl2]
    omega

theorem nameAttr_holds (xml : Str) : Holds 128 (nameAttr xml) := by
  unfold nameAttr
  cases looseAttr xml "name=" with
  | none => exact ⟨by decide, by decide⟩
  | some n => exact snprintf_holds (by decide) (by decide) _

theorem nameAttr_last (xml : Str) : ∀ c ∈ (nameAttr xml).getLast?, Xml.isSpace c = false := by
  have hq : lit "'" = [apos] := by decide
  rw [nameAttr_eq]
  intro c hc
  cases hn : looseAttr xml "name=" with
  | none =>
    rw [hn] at hc
    cases hc
  | some n =>
    rw [hn, Option.elim_some, hq, List.getLast?_concat] at hc
    cases hc
    decide

/-- The item as it is written again. -/
def rewritten (xml jid : Str) (sub : Subscription) : Str :=
  lit "<item jid='" ++ jid ++ lit "'" ++ nameAttr xml ++ lit " subscription='" ++ sub.text ++ lit "'/>"

theorem subscriptionItem_rewritten (hj : Holds 64 jid) (h : xml = [] ∨ SoundItem xml jid) :
    subscriptionItem xml jid sub = rewritten xml jid sub := by
  have hcopy : strncpy 63 jid = jid := by
    rw [strncpy, cstr_of_clean hj.2, List.take_of_length_le (Nat.le_of_lt_succ hj.1)]
  have hval : (if (looseAttr xml "jid=").getD [] = [] then strncpy 63 jid else (looseAttr xml "jid=").getD []) = jid := by
    rcases h with rfl | h
    · have hnone : looseAttr [] "jid=" = none := by decide
      rw [hnone, Option.getD_none, if_pos rfl, hcopy]
    · rw [looseAttr_of_extract h.2, Option.getD_some, hcopy, ite_self]
  rw [subscriptionItem_eq, hval]
  exact snprintf_item hj (nameAttr_holds xml) sub

def itemName : Xml.Name := ⟨ch 'i', lit "tem", by decide, by decide⟩

def jidName : Xml.Name := ⟨ch 'j', lit "id", by decide, by decide⟩

def subscriptionName : Xml.Name := ⟨ch 's', lit "ubscription", by decide, by decide⟩

theorem sub_text_clean (sub : Subscription) : apos ∉ sub.text ∧ ch '<' ∉ sub.text ∧ 0 ∉ sub.text := by
  cases sub <;> decide

theorem rewritten_eq (xml jid : Str) (sub : Subscription) : rewritten xml jid sub = ch '<' :: (lit "item" ++
      (ch ' ' :: (jidName.text ++ ch '=' :: apos :: (jid ++ apos :: (nameAttr xml ++
        ch ' ' :: (subscriptionName.text ++ ch '=' :: apos :: (sub.text ++ [apos])))))) ++ lit "/>") := by
  have h1 : lit "<item jid='" = ch '<' :: (lit "item" ++ ch ' ' :: (jidName.text ++ [ch '=', apos])) := by decide
  have h2 : lit "'" = [apos] := by decide
  have h3 : lit " subscription='" = ch ' ' :: (subscriptionName.text ++ [ch '=', apos]) := by decide
  have h4 : lit "'/>" = apos :: lit "/>" := by decide
  rw [rewritten, h1, h2, h3, h4]
  simp only [List.append_assoc, List.cons_append, List.nil_append]

/-- The end of a text that does not end in a space is not the space of a tag. -/
theorem trail_nil {l r : Str} {c : Byte} {s : Xml.Space} (hc : Xml.isSpace c = false) (h : l ++ s.text = r ++ [c]) :
    s.text = [] := by
  rcases List.eq_nil_or_concat s.text with he | ⟨w, d, he⟩
  · exact he
  · have hd := List.all_eq_true.mp s.ok d (by rw [he]; simp)
    rw [he, List.concat_eq_append, ← List.append_assoc] at h
    obtain ⟨-, hdc⟩ := List.append_inj' h rfl
    cases hdc
    rw [hc] at hd
    cases hd

theorem oneItem_rewritten_iff (hj : 0 ∉ jid) : OneItem (rewritten xml jid sub) jid ↔ Rewritable xml jid := by
  have hid : jidName.text = lit "jid" := by decide
  rw [rewritten_eq]
  constructor
  · rintro ⟨⟨n, as, trail⟩, hn, he, ha⟩
    have hbody := List.append_cancel_right (List.cons.inj he).2
    dsimp only at hn
    rw [← hn] at hbody
    simp only [Tag.text, List.append_assoc] at hbody
    replace hbody := List.append_cancel_left hbody.symm
    cases as with
    | nil =>
      -- the address cannot be the space of a tag
      have hm : ch 'j' ∈ trail.text := by
        have : trail.text = _ := hbody
        rw [this]
        exact List.mem_cons_of_mem _ (List.mem_append_left _ List.mem_cons_self)
      exact absurd (List.all_eq_true.mp trail.ok _ hm) (by decide)
    | cons a as =>
      rw [List.flatMap_cons, List.append_assoc] at hbody
      obtain ⟨hname, hquote, hrest⟩ := Attr.read (.inl rfl) hbody
      have hvalue : a.value = jid := by
        rw [Tag.attr_first (hname.trans hid)] at ha
        exact Option.some.inj ha
      have hok := a.value_ok
      rw [hvalue] at hrest hok
      rw [hquote] at hrest hok
      replace hrest := (List.cons.inj (List.append_cancel_left hrest)).2
      have hend : as.flatMap Attr.text ++ trail.text =
          (nameAttr xml ++ ch ' ' :: (subscriptionName.text ++ ch '=' :: apos :: sub.text)) ++ [apos] := by
        rw [hrest]
        simp only [List.append_assoc, List.cons_append]
      rw [trail_nil (by decide) hend, List.append_nil] at hrest
      refine ⟨⟨hok.1, hok.2.1⟩, ?_⟩
      rcases List.eq_nil_or_concat as with rfl | ⟨as', b, rfl⟩
      · have := congrArg List.length hrest
        simp at this
      · rw [List.concat_eq_append, List.flatMap_append, List.flatMap_singleton] at hrest
        refine ⟨as', Attr.read_back (sub_text_clean sub).1 ?_ (nameAttr_last xml) hrest⟩
        intro c hc
        exact Xml.isSpace_quote (Xml.attrs_last hc)
  · rintro ⟨⟨ha, hlt⟩, as, has⟩
    have hi : itemName.text = lit "item" := by decide
    refine ⟨⟨itemName, Attr.single jidName jid ⟨ha, hlt, hj⟩ ::
      (as ++ [Attr.single subscriptionName sub.text (sub_text_clean sub)]), ⟨[], rfl⟩⟩, hi, ?_, ?_⟩
    · rw [← hi]
      simp only [emptyText, Tag.text, List.flatMap_cons, List.flatMap_append, List.flatMap_nil, Attr.single_text, has,
        List.append_assoc, List.cons_append, List.nil_append, List.append_nil]
    · exact Tag.attr_first hid

/-- The search for the address comes upon the one that was written. -/
theorem extract_rewritten (hj : Holds 64 jid) (ha : apos ∉ jid) :
    roster_extract_jid (rewritten xml jid sub) = some jid := by
  have hz : 0 ∉ rewritten xml jid sub := by
    rw [rewritten, ← snprintf_item hj (nameAttr_holds xml) sub]
    exact (snprintf_holds (by decide) (by decide) _).2
  obtain ⟨r, hr⟩ : ∃ r, rewritten xml jid sub = lit "<item jid=" ++ apos :: (jid ++ apos :: r) := by
    have h1 : lit "<item jid='" = lit "<item jid=" ++ [apos] := by decide
    have h2 : lit "'" = [apos] := by decide
    exact ⟨nameAttr xml ++ lit " subscription='" ++ sub.text ++ lit "'/>", by
      rw [rewritten, h1, h2]; simp only [List.append_assoc, List.cons_append, List.nil_append]⟩
  rw [hr] at hz ⊢
  have hs : strstr (lit "<item jid=" ++ apos :: (jid ++ apos :: r)) (lit "jid=") =
      some (lit "jid=" ++ apos :: (jid ++ apos :: r)) := strstr_append (by decide) (by decide) hz (by decide)
  have hd : (lit "jid=" ++ apos :: (jid ++ apos :: r)).drop 4 = apos :: (jid ++ apos :: r) := by
    have hl : (lit "jid=").length = 4 := by decide
    rw [← hl, List.drop_left]
  rw [roster_extract_jid, hs]
  dsimp only
  rw [hd, quoted, if_pos (.inl rfl), strchr_over hj.2 ha]
  dsimp only
  rw [upto_append, List.take_of_length_le (Nat.le_of_lt_succ hj.1)]

/-- A change of a subscription writes an item: it is another one, and there is a slot for it. -/
def Rewrites (T : Roster) (user jid : Str) (inbound subscribed : Bool) : Prop :=
  newSubscription inbound subscribed (T.subscription user jid) ≠ T.subscription user jid ∧
    ¬ (T.slot (user, jid) = none ∧ T.free = none)

theorem subscription_items_iff {s : Server} (h : EveryItem SoundItem s.stores) {user : Str} (hu : Holds 32 user)
    (hj : Holds 64 jid) (inbound subscribed : Bool) {P : Str → Str → Prop} (hP : P = OneItem ∨ P = SoundItem) :
    EveryItem P (subscription_update_roster user jid inbound subscribed s).2.stores ↔
      (Rewrites (rosterView s.stores.roster_store) user jid inbound subscribed →
        Rewritable (((rosterView s.stores.roster_store).get (user, jid)).getD []) jid) := by
  have hT : (rosterView s.stores.roster_store).Every SoundItem := (everyItem_iff s.stores).mp h
  have hTP : (rosterView s.stores.roster_store).Every P := by
    rcases hP with rfl | rfl
    · exact fun i u k x hi => (hT i u k x hi).1
    · exact hT
  have hx : ((rosterView s.stores.roster_store).get (user, jid)).getD [] = [] ∨
      SoundItem (((rosterView s.stores.roster_store).get (user, jid)).getD []) jid := by
    cases hg : (rosterView s.stores.roster_store).get (user, jid) with
    | none => exact .inl rfl
    | some xml => exact .inr (hT.get hg)
  have hw : ∀ sub, P (subscriptionItem (((rosterView s.stores.roster_store).get (user, jid)).getD []) jid sub) jid ↔
      Rewritable (((rosterView s.stores.roster_store).get (user, jid)).getD []) jid := by
    intro sub
    rw [subscriptionItem_rewritten hj hx]
    rcases hP with rfl | rfl
    · exact oneItem_rewritten_iff hj.2
    · exact ⟨fun hs => (oneItem_rewritten_iff hj.2).mp hs.1,
        fun hr => ⟨(oneItem_rewritten_iff hj.2).mpr hr, extract_rewritten hj hr.jid.1⟩⟩
  rw [everyItem_iff, subscription_update_run, subscription_view hu hj, Roster.subscribe]
  unfold Rewrites
  split
  · rename_i hsame
    exact iff_of_true hTP fun hne => absurd hsame hne.1
  · rename_i hnew
    rw [hTP.put_iff, hw]
    constructor
    · rintro (hr | hn) hne
      · exact hr
      · exact absurd hn hne.2
    · intro hr
      by_cases hn : (rosterView s.stores.roster_store).slot (user, jid) = none ∧ (rosterView s.stores.roster_store).free = none
      · exact .inr hn
      · exact .inl (hr ⟨hnew, hn⟩)

end Rewriting

/-! Both. -/

/-- The items of a payload that stay are whole. -/
def WholeItems (t : Stores) (user payload : Str) : Prop :=
  ∀ raw ∈ rawItems payload.length payload,
    Remains (rosterView t.roster_store) user (rosterItems payload.length payload) (shortened raw) → WholeItem raw

/-- An item that a change of a subscription writes again can be written so. -/
def WholeRewrite (t : Stores) (user jid : Str) (inbound subscribed : Bool) : Prop :=
  Rewrites (rosterView t.roster_store) user jid inbound subscribed →
    Rewritable (((rosterView t.roster_store).get (user, jid)).getD []) jid

/-- Where every entry is sound, a roster set leaves one item in each entry, with its address, if and only if the items of
the payload that stay are whole; and a change of a subscription does if and only if an item that it writes again can be
written so. The entries are then sound again. -/
theorem roster_items_iff {s : Server} (h : EveryItem SoundItem s.stores) {user : Str} (hu : Holds 32 user) :
    (∀ payload, 0 ∉ payload →
      (EveryItem OneItem (roster_store_set_from_payload user payload s.stores) ↔ WholeItems s.stores user payload) ∧
        (WholeItems s.stores user payload → EveryItem SoundItem (roster_store_set_from_payload user payload s.stores))) ∧
    ∀ jid inbound subscribed, Holds 64 jid →
      (EveryItem OneItem (subscription_update_roster user jid inbound subscribed s).2.stores ↔
        WholeRewrite s.stores user jid inbound subscribed) ∧
      (WholeRewrite s.stores user jid inbound subscribed →
        EveryItem SoundItem (subscription_update_roster user jid inbound subscribed s).2.stores) := by
  refine ⟨fun payload hp => ?_, fun jid inbound subscribed hj => ?_⟩
  · exact ⟨set_items_iff h hu hp (.inl rfl), (set_items_iff h hu hp (.inr rfl)).mpr⟩
  · exact ⟨subscription_items_iff h hu hj inbound subscribed (.inl rfl),
      (subscription_items_iff h hu hj inbound subscribed (.inr rfl)).mpr⟩

def friendJid : Str := lit "user1@angelic.local"

/-- A roster set with one contact, whose item is not empty. -/
def friendSet : Str := lit "<item jid='user1@angelic.local'><group>Friends</group></item>"

theorem friend_whole : WholeItem (lit "<item jid='user1@angelic.local'>") where
  short := by decide +kernel
  tag := ⟨⟨itemName, [Attr.single jidName friendJid (by decide +kernel)], ⟨[], rfl⟩⟩, by decide, .inl (by decide +kernel),
    friendJid, by decide +kernel, by decide +kernel⟩

theorem nobody_sound : EveryItem SoundItem blank.boot.stores := by
  have h0 : ∀ i, (blank.boot.stores.roster_store i).active = 0 := by decide +kernel
  exact fun i ha => absurd (h0 i) ha

/-- The item of a roster set and the one of a first subscription are whole. -/
theorem friend_items_whole :
    EveryItem OneItem (roster_store_set_from_payload (lit "admin") friendSet blank.boot.stores) ∧
      EveryItem OneItem (subscription_update_roster (lit "admin") friendJid true true blank.boot).2.stores := by
  have hu : Holds 32 (lit "admin") := ⟨by decide, by decide⟩
  have hraw : rawItems friendSet.length friendSet = [lit "<item jid='user1@angelic.local'>"] := by decide +kernel
  have hget : (rosterView blank.boot.stores.roster_store).get (lit "admin", friendJid) = none := by decide +kernel
  obtain ⟨hset, hsub⟩ := roster_items_iff nobody_sound hu
  constructor
  · refine (hset friendSet (by decide +kernel)).1.mpr fun raw hr _ => ?_
    rw [hraw] at hr
    rw [List.mem_singleton.mp hr]
    exact friend_whole
  · refine (hsub friendJid true true ⟨by decide +kernel, by decide +kernel⟩).1.mpr fun _ => ?_
    rw [hget]
    exact ⟨by decide +kernel, [], by decide⟩

/-- A roster set with an item of more than 255 bytes. -/
def longSet : Str := lit "<item jid='user1@angelic.local' name='" ++ List.replicate 240 (ch 'a') ++ lit "'/>"

/-- And one with an apostrophe in a name. -/
def apostropheSet : Str := lit "<item jid='user1@angelic.local' name=\"O'Brien\"/>"

/-- No attributes are written with an apostrophe in the middle of a name. -/
theorem apostrophe_torn (sub : Subscription) : ¬ OneItem (rewritten apostropheSet friendJid sub) friendJid := by
  have hname : nameAttr apostropheSet = ch ' ' :: (lit "name" ++ ch '=' :: apos :: (lit "O" ++ apos :: lit "Brien'")) := by
    decide +kernel
  rw [oneItem_rewritten_iff (by decide +kernel)]
  rintro ⟨-, as, has⟩
  rw [hname] at has
  cases as with
  | nil => cases has
  | cons a as =>
    rw [List.flatMap_cons] at has
    obtain ⟨-, hquote, hrest⟩ := Attr.read (n := ⟨ch 'n', lit "ame", by decide, by decide⟩) (.inl rfl) has
    rw [hquote] at hrest
    have hv := a.value_ok.1
    rw [hquote] at hv
    have hstop : a.value.all (· != apos) := List.all_eq_true.mpr fun c hc => bne_iff_ne.mpr fun he => hv (he ▸ hc)
    -- the value ends at the apostrophe, and what follows does not start with a space
    obtain ⟨-, hb⟩ := Xml.split_unique hstop (by decide) (by rintro c ⟨⟩; decide) (by rintro c ⟨⟩; decide) hrest
    replace hb := (List.cons.inj hb).2
    cases as with
    | nil => cases hb
    | cons b as =>
      obtain ⟨c, l, hl⟩ := List.exists_cons_of_ne_nil b.lead_ok
      have hc := List.all_eq_true.mp b.lead.ok c (by rw [hl]; exact List.mem_cons_self)
      rw [List.flatMap_cons, Attr.text, hl] at hb
      simp only [List.cons_append] at hb
      rw [(List.cons.inj hb).1] at hc
      revert hc
      decide

/-- The stores with that name. -/
def apostropheStores : Stores := roster_store_set_from_payload (lit "admin") apostropheSet blank.boot.stores

theorem apostrophe_entry :
    (apostropheStores.roster_store 0).item_xml.str = apostropheSet ∧
      let t := (Texts.rosterUpdate blank.boot apostropheStores (lit "admin") friendJid true true).1
      (t.roster_store 0).active ≠ 0 ∧ (t.roster_store 0).jid.str = friendJid ∧
        (t.roster_store 0).item_xml.str = rewritten apostropheSet friendJid .to_ := by decide +kernel

/-- A long item is left without its end; and a name with an apostrophe, which is stored as it came, is written between
apostrophes when the contact accepts a subscription. -/
theorem items_left_torn :
    ¬ EveryItem OneItem (roster_store_set_from_payload (lit "admin") longSet blank.boot.stores) ∧
      (apostropheStores.roster_store 0).item_xml.str = apostropheSet ∧
      ¬ EveryItem OneItem (subscription_update_roster (lit "admin") friendJid true true
        (blank.boot.setStores apostropheStores)).2.stores := by
  obtain ⟨hbefore, ha, hj, hx⟩ := apostrophe_entry
  refine ⟨fun h => ?_, hbefore, fun h => ?_⟩
  · have hlong : ((roster_store_set_from_payload (lit "admin") longSet blank.boot.stores).roster_store 0).active ≠ 0 ∧
        ((roster_store_set_from_payload (lit "admin") longSet blank.boot.stores).roster_store 0).item_xml.str.getLast? =
          some (ch 'a') := by decide +kernel
    obtain ⟨t, -, he, -⟩ := h 0 hlong.1
    have hl := hlong.2
    have hsplit : emptyText t = (ch '<' :: t.text ++ [ch '/']) ++ [ch '>'] := by
      rw [emptyText_eq, List.append_assoc]
      rfl
    rw [he, hsplit, List.getLast?_concat] at hl
    exact absurd hl (by decide)
  · have hstores : ∀ s t, (Texts.rosterUpdate s t (lit "admin") friendJid true true).1 =
        (Texts.rosterUpdate blank.boot t (lit "admin") friendJid true true).1 := by
      intro s t
      unfold Texts.rosterUpdate
      split <;> rfl
    have hown : (blank.boot.setStores apostropheStores).stores = apostropheStores := rfl
    rw [subscription_update_run, hown, hstores] at h
    have ho := h 0 ha
    rw [hj, hx] at ho
    exact apostrophe_torn .to_ ho

end Angelic.Proofs
