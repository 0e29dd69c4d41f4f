import Angelic.Proofs.PrivateChild

namespace Angelic.Proofs
open CString Model StateRel Relation Spec
open Xml (Tag Content elementText)

/-! Private data that is set and asked for again. -/

/-- The answer to a get, with a child in it. -/
def privateText (id jid child : Str) : Str :=
  lit "<iq type='result' id='" ++ id ++ lit "' to='" ++ jid ++ lit "'><query xmlns='jabber:iq:private'>" ++ child ++
    lit "</query></iq>"

/-- One answer is sent, to the one who asked, and it starts so. -/
def AnsweredBy (s s' : Server) (me : Slot) (start : String) : Prop :=
  ∃ text, sends s' = sends s ++ [(me, text)] ∧ lit start <+: text

theorem snprintf_begins {size : Nat} {fmt p : Str} {ps : List Str} (args : List Arg) {w : Str}
    (hp : pieces fmt = p :: ps) (hw : w <+: p) (hl : w.length ≤ size - 1) : w <+: snprintf size fmt args := by
  have hweave : p <+: weave (p :: ps) args := by
    cases ps with
    | nil => exact List.prefix_refl _
    | cons p' ps =>
      cases args with
      | nil => exact List.prefix_append _ _
      | cons a args =>
        change p <+: p ++ a.text ++ weave (p' :: ps) args
        rw [List.append_assoc]
        exact List.prefix_append _ _
  rw [snprintf, vsnprintf_eq, hp]
  exact List.prefix_take_iff.mpr ⟨hw.trans hweave, hl⟩

section Answers
variable {s : Server} {me : Slot} {st : Stanza} {user jid ns xml : Str}

/-- An answer starts as a result or as an error, not as both. -/
theorem AnsweredBy.not_both {s' : Server} (hr : AnsweredBy s s' me "<iq type='result'")
    (he : AnsweredBy s s' me "<iq type='error'") : False := by
  obtain ⟨text, hs, hp⟩ := hr
  obtain ⟨text', hs', hp'⟩ := he
  have hone := List.append_cancel_left (hs.symm.trans hs')
  simp only [List.cons.injEq, Prod.mk.injEq, true_and, and_true] at hone
  rw [← hone] at hp'
  have := List.prefix_of_prefix_length_le hp' hp (by decide)
  revert this
  decide

/-- What a user has stored for a namespace, or the empty element that is sent for nothing. -/
def privateValue (T : PrivateTable) (user payload : Str) : Str :=
  (T.get (user, (privateChild payload).2)).getD
    (snprintf 192 fmtEmptyElem [.s (privateChild payload).1, .s (privateChild payload).2])

theorem privateText_inj {id jid v w : Str} : privateText id jid v = privateText id jid w ↔ v = w := by
  constructor
  · intro h
    exact List.append_cancel_left (List.append_cancel_right h)
  · rintro rfl
    rfl

theorem privateView_value (P : PrivateArray) {k : Str × Str} {v : Str} (h : (privateView P).get k = some v) :
    v.length ≤ 900 ∧ 0 ∉ v := by
  unfold SlotTable.get at h
  obtain ⟨i, -, hi⟩ := Option.bind_eq_some_iff.mp h
  rw [privateView, privateSlot] at hi
  split at hi
  · cases hi
    exact ⟨Buf.str_length_le _, zero_not_mem_cstr _⟩
  · cases hi

theorem privateValue_fits (P : PrivateArray) (user payload : Str) :
    (privateValue (privateView P) user payload).length ≤ 900 ∧ 0 ∉ privateValue (privateView P) user payload := by
  unfold privateValue
  cases h : (privateView P).get (user, (privateChild payload).2) with
  | none =>
    have hh : Holds 192 (snprintf 192 fmtEmptyElem [.s (privateChild payload).1, .s (privateChild payload).2]) :=
      snprintf_holds (by decide) (by decide) _
    have := hh.1
    exact ⟨by rw [Option.getD_none]; omega, hh.2⟩
  | some v => exact privateView_value P h

theorem snprintf_private {id v : Str} (hid : Holds 64 id) (hj : Holds 64 jid) (hv : v.length ≤ 900 ∧ 0 ∉ v) :
    snprintf 1300 fmtPrivate [.s id, .s jid, .s v] = privateText id jid v := by
  have hp : pieces fmtPrivate = [lit "<iq type='result' id='", lit "' to='", lit "'><query xmlns='jabber:iq:private'>",
      lit "</query></iq>"] := by decide +kernel
  have h1 : (lit "<iq type='result' id='").length = 22 := by decide
  have h2 : (lit "' to='").length = 6 := by decide
  have h3 : (lit "'><query xmlns='jabber:iq:private'>").length = 35 := by decide
  have h4 : (lit "</query></iq>").length = 13 := by decide
  have hil := hid.1
  have hjl := hj.1
  have hvl := hv.1
  rw [snprintf, vsnprintf_eq, hp]
  simp only [weave, Arg.text, cstr_of_clean hid.2, cstr_of_clean hj.2, cstr_of_clean hv.2]
  rw [List.take_of_length_le]
  · simp only [privateText, List.append_assoc]
  · simp only [List.length_append, h1, h2, h3, h4]
    omega

/-- A get is refused, or answered with the value. -/
theorem private_get_answer (hu : Holds 32 (s.client_registry me).username) (hj : Holds 64 (s.client_registry me).full_jid)
    (hid : Holds 64 st.id) (hp : 0 ∉ st.payload) (ht : st.type ≠ .IQ_SET) (child : Str) :
    sends (handle_private_storage me st s).2 =
        sends s ++ [(me, privateText st.id (s.client_registry me).full_jid child)] ↔
      (privateChild st.payload).2 ≠ [] ∧
        privateValue (privateView s.stores.private_store) (s.client_registry me).username st.payload = child := by
  have hs := (sends_handle_private_storage me st s (Now.refl (G := fun _ => True) trivial)).1
  rw [hs, List.append_cancel_left_eq]
  by_cases hns : (privateChild st.payload).2 = []
  · have hpieces : pieces fmtNotAcceptable = lit "<iq type='error' id='" :: (pieces fmtNotAcceptable).tail := by
      decide +kernel
    have hstart : lit "<iq type='error'" <+:
        snprintf 512 fmtNotAcceptable [.s st.id, .s (s.client_registry me).full_jid] :=
      snprintf_begins _ hpieces (by decide) (by decide)
    refine iff_of_false (fun h => ?_) fun h => h.1 hns
    rw [Texts.private_, if_pos hns] at h
    have htext : snprintf 512 fmtNotAcceptable [.s st.id, .s (s.client_registry me).full_jid] =
        privateText st.id (s.client_registry me).full_jid child := (Prod.mk.inj (List.cons.inj h).1).2
    have hres : lit "<iq type='result'" <+: privateText st.id (s.client_registry me).full_jid child := by
      have hsplit : lit "<iq type='result' id='" = lit "<iq type='result'" ++ lit " id='" := by decide
      rw [privateText, hsplit]
      simp only [List.append_assoc]
      exact List.prefix_append _ _
    rw [htext] at hstart
    have := List.prefix_of_prefix_length_le hstart hres (by decide)
    revert this
    decide
  · have hsent : (Texts.private_ s me st).map rendered = [(me, privateText st.id (s.client_registry me).full_jid
        (privateValue (privateView s.stores.private_store) (s.client_registry me).username st.payload))] := by
      rw [Texts.private_, if_neg hns, if_neg ht, ← snprintf_private hid hj (privateValue_fits _ _ _),
        Texts.privateGet, private_find_eq hu (privateChild_holds hp), privateValue, SlotTable.get]
      cases hi : (privateView s.stores.private_store).slot ((s.client_registry me).username, (privateChild st.payload).2) with
      | none => rfl
      | some i =>
        have ha := (privateView_holds.mp (SlotTable.first_some hi)).1
        rw [Option.bind_some, privateView, privateSlot, if_pos ha]
        rfl
    rw [hsent]
    simp only [List.cons.injEq, Prod.mk.injEq, true_and, and_true, privateText_inj]
    exact ⟨fun h => ⟨hns, h⟩, fun h => h.2⟩

/-- What a set does: it is refused and nothing changes, or answered with a result, and then the store has what was cut
out, or is as it was if nothing could be. -/
inductive SetOutcome (s : Server) (me : Slot) (st : Stanza) (s' : Server) : Prop
  | noNs (hn : (privateChild st.payload).2 = []) (ha : AnsweredBy s s' me "<iq type='error'")
      (hs : s'.stores = s.stores)
  | full {xml : Str} (hn : (privateChild st.payload).2 ≠ []) (hx : privateXml st.payload = some xml)
      (hfull : (privateView s.stores.private_store).slot
        ((s.client_registry me).username, (privateChild st.payload).2) = none ∧
          (privateView s.stores.private_store).free = none)
      (ha : AnsweredBy s s' me "<iq type='error'") (hs : s'.stores = s.stores)
  | nothing (hn : (privateChild st.payload).2 ≠ []) (hx : privateXml st.payload = none)
      (ha : AnsweredBy s s' me "<iq type='result'") (hs : s'.stores = s.stores)
  | put {xml : Str} (hn : (privateChild st.payload).2 ≠ []) (hx : privateXml st.payload = some xml)
      (hroom : ¬ ((privateView s.stores.private_store).slot
        ((s.client_registry me).username, (privateChild st.payload).2) = none ∧
          (privateView s.stores.private_store).free = none))
      (ha : AnsweredBy s s' me "<iq type='result'")
      (hs : privateView s'.stores.private_store = (privateView s.stores.private_store).put
        ((s.client_registry me).username, (privateChild st.payload).2) (xml.take 899))

theorem answered_error (size : Nat) (fmt : Str) (args : List Arg) (hp : (pieces fmt).head? = some (lit "<iq type='error' id='"))
    (hsize : 16 ≤ size - 1) (s : Server) (me : Slot) :
    AnsweredBy s (send_raw me (snprintf size fmt args) s).2 me "<iq type='error'" ∧
      (send_raw me (snprintf size fmt args) s).2.stores = s.stores := by
  obtain ⟨hs, hn⟩ := sends_send me ⟨size, fmt, args⟩ s (Now.refl (G := fun _ => True) trivial)
  obtain ⟨ps, hps⟩ : ∃ ps, pieces fmt = lit "<iq type='error' id='" :: ps := by
    cases h : pieces fmt with
    | nil =>
      rw [h] at hp
      cases hp
    | cons p ps =>
      rw [h] at hp
      exact ⟨ps, by rw [Option.some.inj hp]⟩
  exact ⟨⟨_, hs, snprintf_begins args hps (by decide) hsize⟩, hn.stores⟩

theorem answered_result (s : Server) (me : Slot) (st : Stanza) :
    AnsweredBy s (replyResult 256 me st s).2 me "<iq type='result'" ∧ (replyResult 256 me st s).2.stores = s.stores := by
  have hp : pieces fmtResult = [lit "<iq type='result' id='", lit "' to='", lit "'/>"] := by decide +kernel
  obtain ⟨hs, hn⟩ := sends_result me st 256 s (Now.refl (G := fun _ => True) trivial)
  have hstart : lit "<iq type='result'" <+: snprintf 256 fmtResult [.s st.id, .s (s.client_registry me).full_jid] :=
    snprintf_begins _ hp (by decide) (by decide)
  exact ⟨⟨_, hs, hstart⟩, hn.stores⟩

theorem private_set_outcome (hu : Holds 32 (s.client_registry me).username) (hp : 0 ∉ st.payload) (ht : st.type = .IQ_SET) :
    SetOutcome s me st (handle_private_storage me st s).2 := by
  have hns := privateChild_holds hp
  have hset : (privateChild st.payload).2 ≠ [] → SetOutcome s me st (privateSet me st (privateChild st.payload).2 s).2 := by
    intro hn
    rcases privateSet_cases me st (privateChild st.payload).2 s with ⟨hx, he⟩ | ⟨xml, hx, ⟨hfull, he⟩ | ⟨t, hput, he⟩⟩
    · rw [he]
      obtain ⟨ha, hs⟩ := answered_result s me st
      exact .nothing hn hx ha hs
    · rw [he]
      obtain ⟨ha, hs⟩ := answered_error 512 fmtResourceConstraint
        [.s st.id, .s (s.client_registry me).full_jid] (by decide +kernel) (by decide) s me
      exact .full hn hx ((upsert_full hu hns).mp hfull) ha hs
    · rw [he]
      have hsave : (persist xmpp_persist_save_private (s.setStores t)).2.stores = t := (save_cases .private_ _).1
      have hsent : sends (persist xmpp_persist_save_private (s.setStores t)).2 = sends s :=
        (sends_save (G := fun _ => True) (v := s.setStores t) (k := .private_) (by decide) (s.setStores t)
          (Now.refl trivial)).1.trans (List.append_nil _)
      obtain ⟨⟨text, ha, hstart⟩, hs⟩ := answered_result (persist xmpp_persist_save_private (s.setStores t)).2 me st
      refine .put hn hx (fun hf => ?_) ⟨text, ha.trans (by rw [hsent]), hstart⟩ ?_
      · rw [(upsert_full hu hns).mpr hf] at hput
        cases hput
      · rw [hs, hsave, upsert_put hu hns (privateXml_clean hp hx) hput]
  have main : Triple (· = s) (handle_private_storage me st) fun _ s' => SetOutcome s me st s' := by
    refine .bind (Q := fun _ s' => s' = s) (fun _ h => h) fun c => .bind (Q := fun _ s' => s' = s) (fun _ h => h) fun t => ?_
    refine .ite (fun hn => ?_) fun hn => .ite (fun _ => ?_) fun hn => absurd ht hn
    · rintro _ rfl
      obtain ⟨ha, hs⟩ := answered_error 512 fmtNotAcceptable
        [.s st.id, .s c.full_jid] (by decide +kernel) (by decide) _ me
      exact .noNs hn ha hs
    · rintro _ rfl
      exact hset hn
  exact main s rfl

end Answers

/-- A set is answered with a result and a get that follows with the child; or the set is answered with an error and no
store changes. -/
def RoundTrip (s : Server) (me : Slot) (set get : Stanza) (child : Str) : Prop :=
  let s₁ := (handle_private_storage me set s).2
  (AnsweredBy s s₁ me "<iq type='result'" ∧ sends (handle_private_storage me get s₁).2 =
      sends s₁ ++ [(me, privateText get.id (s.client_registry me).full_jid child)]) ∨
    (AnsweredBy s s₁ me "<iq type='error'" ∧ s₁.stores = s.stores)

/-- A set that stores something for a namespace, if there is a slot. -/
def SetsNs (set : Stanza) (ns : Str) : Prop := NamesNs set.payload ns ∧ lit "</query>" <:+: set.payload

/-- The set names no namespace; or there is no slot for it; or the get names a namespace for which the set stores its child
whole, or for which it stores nothing and the child is what the get would have been answered before. -/
def KeepsChild (s : Server) (me : Slot) (set get : Stanza) (q : Tag) (inner : Str) (trail : Xml.Space) : Prop :=
  let T := privateView s.stores.private_store
  let user := (s.client_registry me).username
  (¬ ∃ ns, NamesNs set.payload ns) ∨ (∃ ns, SetsNs set ns ∧ T.slot (user, ns) = none ∧ T.free = none) ∨
    ∃ ns, NamesNs get.payload ns ∧ (SetsNs set ns → WholeChild q inner trail) ∧
      (¬ SetsNs set ns → privateValue T user get.payload = inner)

section RoundTrip
variable {s : Server} {me : Slot} {set get : Stanza} {q : Tag} {c : Content} {trail : Xml.Space}

theorem private_keeps_face (s : Server) (me : Slot) (st : Stanza) :
    ((handle_private_storage me st s).2.client_registry me).username = (s.client_registry me).username ∧
      ((handle_private_storage me st s).2.client_registry me).full_jid = (s.client_registry me).full_jid := by
  obtain ⟨p, hn⟩ := (sends_handle_private_storage me st s (Now.refl (G := fun _ => True) trivial)).2
  have hface : Ctx.face ((handle_private_storage me st s).2.client_registry me) = Ctx.face (s.client_registry me) :=
    hn.face me
  have husername : (Ctx.face ((handle_private_storage me st s).2.client_registry me)).username =
      (Ctx.face (s.client_registry me)).username := by rw [hface]
  have hjid : (Ctx.face ((handle_private_storage me st s).2.client_registry me)).full_jid =
      (Ctx.face (s.client_registry me)).full_jid := by rw [hface]
  exact ⟨husername, hjid⟩

theorem roundTrip_iff (hd : (privateView s.stores.private_store).Distinct)
    (hu : Holds 32 (s.client_registry me).username) (hj : Holds 64 (s.client_registry me).full_jid)
    (hset : set.type = .IQ_SET) (hget : get.type = .IQ_GET) (hpay : set.payload = elementText q c.text trail)
    (hchild : ch '<' ∈ c.text) (hid : Holds 64 get.id) (hgp : 0 ∉ get.payload) :
    RoundTrip s me set get c.text ↔ KeepsChild s me set get q c.text trail := by
  have h0 : 0 ∉ elementText q c.text trail := Xml.elementText_zero q c.zero_not_mem trail
  have hsp : 0 ∉ set.payload := by rwa [hpay]
  have hstart : ¬ lit "</" <+: c.text ++ closing q trail := c.no_end (List.ne_nil_of_mem hchild) _
  have hnames := fun ns => namesNs_iff ns hsp
  have hgnames := fun ns => namesNs_iff ns hgp
  -- whether there is an end tag is whether something is cut out
  have hcut : privateXml set.payload = none ↔ ¬ lit "</query>" <:+: set.payload := by
    rw [hpay]
    obtain ⟨lead, -, -, ⟨hno, hn⟩ | ⟨before, after, -, -, hin, hs⟩⟩ := privateXml_element h0 hstart
    · exact iff_of_true hn hno
    · rw [hs]
      exact iff_of_false (fun h => by cases h) fun hno => hno hin
  have hin : ∀ {xml : Str}, privateXml set.payload = some xml → lit "</query>" <:+: set.payload := by
    intro xml hx
    by_contra hno
    rw [hcut.mpr hno] at hx
    cases hx
  obtain ⟨huser, hjid⟩ := private_keeps_face s me set
  have hanswer := private_get_answer (s := (handle_private_storage me set s).2) (by rw [huser]; exact hu)
    (by rw [hjid]; exact hj) hid hgp (by rw [hget]; decide) c.text
  rw [huser, hjid] at hanswer
  unfold RoundTrip KeepsChild
  dsimp only
  rw [hanswer]
  have hout := private_set_outcome hu hsp hset
  cases hout with
  | noNs hn ha hs =>
    refine iff_of_true (.inr ⟨ha, hs⟩) (.inl ?_)
    rintro ⟨ns, hns⟩
    obtain ⟨he, hne⟩ := (hnames ns).mp hns
    exact hne (he.symm.trans hn)
  | full hn hx hfull ha hs =>
    exact iff_of_true (.inr ⟨ha, hs⟩) (.inr (.inl ⟨_, ⟨(hnames _).mpr ⟨rfl, hn⟩, hin hx⟩, hfull⟩))
  | nothing hn hx ha hs =>
    have hno : ∀ ns, ¬ SetsNs set ns := fun ns h => hcut.mp hx h.2
    rw [hs]
    constructor
    · rintro (⟨-, hne, hv⟩ | ⟨he, -⟩)
      · exact .inr (.inr ⟨_, (hgnames _).mpr ⟨rfl, hne⟩, fun h => absurd h (hno _), fun _ => hv⟩)
      · exact absurd (ha.not_both he) id
    · rintro (hnone | ⟨ns, h, -⟩ | ⟨ns, hg, -, hv⟩)
      · exact absurd ⟨_, (hnames _).mpr ⟨rfl, hn⟩⟩ hnone
      · exact absurd h (hno ns)
      · obtain ⟨rfl, hne⟩ := (hgnames ns).mp hg
        exact .inl ⟨ha, hne, hv (hno _)⟩
  | @put xml hn hx hroom ha hs =>
    have hwhole : xml.take 899 = c.text ↔ WholeChild q c.text trail :=
      privateXml_take_iff h0 c.closes hstart hchild (by rw [← hpay]; exact hx)
    have hsets : ∀ ns, SetsNs set ns ↔ (privateChild set.payload).2 = ns := by
      intro ns
      constructor
      · exact fun h => ((hnames ns).mp h.1).1
      · rintro rfl
        exact ⟨(hnames _).mpr ⟨rfl, hn⟩, hin hx⟩
    have hvalue : privateValue (privateView (handle_private_storage me set s).2.stores.private_store)
        (s.client_registry me).username get.payload = c.text ↔
          (SetsNs set (privateChild get.payload).2 → WholeChild q c.text trail) ∧
          (¬ SetsNs set (privateChild get.payload).2 → privateValue (privateView s.stores.private_store)
            (s.client_registry me).username get.payload = c.text) := by
      rw [hs, hsets]
      by_cases hsame : (privateChild set.payload).2 = (privateChild get.payload).2
      · rw [privateValue, ← hsame, hd.get_put_self, if_neg hroom, Option.getD_some, hwhole]
        exact ⟨fun h => ⟨fun _ => h, fun hne => absurd rfl hne⟩, fun h => h.1 rfl⟩
      · have hkey : ((s.client_registry me).username, (privateChild get.payload).2) ≠
            ((s.client_registry me).username, (privateChild set.payload).2) := fun he => hsame (Prod.mk.inj he).2.symm
        rw [privateValue, hd.get_put_of_ne hkey, ← privateValue]
        exact ⟨fun h => ⟨fun he => absurd he hsame, fun _ => h⟩, fun h => h.2 hsame⟩
    rw [hvalue]
    constructor
    · rintro (⟨-, hne, hv⟩ | ⟨he, -⟩)
      · exact .inr (.inr ⟨_, (hgnames _).mpr ⟨rfl, hne⟩, hv⟩)
      · exact absurd (ha.not_both he) id
    · rintro (hnone | ⟨ns, h, hfull⟩ | ⟨ns, hg, hv⟩)
      · exact absurd ⟨_, (hnames _).mpr ⟨rfl, hn⟩⟩ hnone
      · rw [← (hsets ns).mp h] at hfull
        exact absurd hfull hroom
      · obtain ⟨rfl, hne⟩ := (hgnames ns).mp hg
        exact .inl ⟨ha, hne, hv⟩

end RoundTrip

/-- In every state of every run, on the disk that any number of runs before left: a set with a child in it, of whatever
length and with whatever elements inside, and a get that follows go round if and only if the searches agree with the
elements. -/
theorem private_round_trip_iff (d : Disk) (hd : DistinctPrivate (diskStores d)) (ls : List Life) (l : Life) (s : Server)
    (hs : Arises (l.on (reboots d ls)) s) (me : Slot) (set get : Stanza) (hset : set.type = .IQ_SET)
    (hget : get.type = .IQ_GET) (q : Tag) (c : Content) (trail : Xml.Space)
    (hpay : set.payload = elementText q c.text trail) (hchild : ch '<' ∈ c.text) (hid : Holds 64 get.id)
    (hgp : 0 ∉ get.payload) : RoundTrip s me set get c.text ↔ KeepsChild s me set get q c.text trail := by
  have hk : StoreId.Single .private_ := .inl rfl
  have hdisk : DistinctPrivate (diskStores (reboots d ls)) := private_lasts.reboots hk hd ls
  have hboth : InBoth DistinctPrivate s := private_lasts.arises hk (m := l.on (reboots d ls)) hdisk hs
  have hn : (abs s).Named := Registry.reach_keeps (fun _ _ hs => hs.names) (actions_refines hs) (boot_named _)
  exact roundTrip_iff ((distinctPrivate_iff _).mp hboth.store) (hn.session me).username (hn.session me).full_jid hset hget
    hpay hchild hid hgp

def queryTag : Tag :=
  ⟨.of 'q' "uery" (by decide),
    [.single (.of 'x' "mlns" (by decide)) (lit "jabber:iq:private") (by decide)], .none⟩

def noteTag : Tag :=
  ⟨.of 'n' "ote" (by decide), [.single (.of 'x' "mlns" (by decide)) (lit "urn:n") (by decide)],
    .none⟩

/-- A note with something in it. -/
def noteOf (inner : Content) : Content := .element noteTag inner .none .done

def setNote (inner : Content) : Stanza :=
  { Stanza.zero with
    type := .IQ_SET, id := lit "s1", payload := elementText queryTag (noteOf inner).text .none }

def adminVisit : Life := lifeOf (visit 7 authAdmin [])

def someWords : Content := .misc (.chars (lit "milk and bread") (by decide)) .done

theorem words_round_trip :
    RoundTrip (adminVisit.run (reboots (fun _ => []) [])) 0 (setNote someWords) askNote (noteOf someWords).text := by
  have hk : StoreId.Single .private_ := .inl rfl
  have hset : (privateChild (setNote someWords).payload).2 = lit "urn:n" := by decide +kernel
  have hget : (privateChild askNote.payload).2 = lit "urn:n" := by decide +kernel
  have hclean : 0 ∉ (setNote someWords).payload ∧ 0 ∉ askNote.payload := by decide +kernel
  refine (private_round_trip_iff (fun _ => []) (private_lasts.blank hk) [] adminVisit _ (Arises.life _ _) 0
    (setNote someWords) askNote rfl rfl queryTag (noteOf someWords) .none rfl (by decide +kernel)
    ⟨by decide, by decide⟩ hclean.2).mpr (.inr (.inr ⟨lit "urn:n", ?_, fun _ => ?_, fun hno => absurd ?_ hno⟩))
  · exact (namesNs_iff _ hclean.2).mpr ⟨hget, by decide⟩
  · exact ⟨by decide +kernel, by decide +kernel, by decide, rfl, by decide +kernel⟩
  · exact ⟨(namesNs_iff _ hclean.1).mpr ⟨hset, by decide⟩, by decide +kernel⟩

/-- A query inside the note. -/
def innerQuery : Content :=
  .element ⟨.of 'q' "uery" (by decide), [], .none⟩ (.misc (.chars (lit "x") (by decide)) .done) .none .done

/-- It ends what is stored, though the set is answered with a result. -/
theorem inner_query_cut :
    let s := adminVisit.run (fun _ => [])
    let s₁ := (handle_private_storage 0 (setNote innerQuery) s).2
    (noteOf innerQuery).text = lit "<note xmlns='urn:n'><query>x</query></note>" ∧
      AnsweredBy s s₁ 0 "<iq type='result'" ∧
      sends (handle_private_storage 0 askNote s₁).2 = sends s₁ ++ [(0, privateText (lit "g1")
        (lit "admin@angelic.local/unikernel-0") (lit "<note xmlns='urn:n'><query>x"))] ∧
      ¬ RoundTrip s 0 (setNote innerQuery) askNote (noteOf innerQuery).text := by
  have hsent : let s := adminVisit.run (fun _ => [])
      let s₁ := (handle_private_storage 0 (setNote innerQuery) s).2
      sends s₁ = sends s ++ [(0, lit "<iq type='result' id='s1' to='admin@angelic.local/unikernel-0'/>")] ∧
        sends (handle_private_storage 0 askNote s₁).2 = sends s₁ ++ [(0, privateText (lit "g1")
          (lit "admin@angelic.local/unikernel-0") (lit "<note xmlns='urn:n'><query>x"))] := by decide +kernel
  have hresult : AnsweredBy (adminVisit.run (fun _ => []))
      (handle_private_storage 0 (setNote innerQuery) (adminVisit.run (fun _ => []))).2 0 "<iq type='result'" :=
    ⟨_, hsent.1, by decide +kernel⟩
  refine ⟨by decide +kernel, hresult, hsent.2, ?_⟩
  rintro (⟨-, h⟩ | ⟨he, -⟩)
  · have htext := (Prod.mk.inj (List.cons.inj (List.append_cancel_left (hsent.2.symm.trans h))).1).2
    revert htext
    decide +kernel
  · exact hresult.not_both he

end Angelic.Proofs
