import Angelic.Proofs.StoreImages

namespace Angelic.Proofs
open CString Model StateRel Relation Spec

variable {i : Fin PRIVATE_STORAGE_SLOTS}

/-! Private data as a table of users and namespaces: no key is there twice, and no request reads or writes what
belongs to another user. -/

abbrev PrivateArray := Fin PRIVATE_STORAGE_SLOTS → PrivateEntry

abbrev PrivateTable := SlotTable PRIVATE_STORAGE_SLOTS (Str × Str) Str

def privateSlot (e : PrivateEntry) : Option ((Str × Str) × Str) :=
  if e.active ≠ 0 then some ((e.username.str, e.ns.str), e.xml.str) else none

/-- The entries in use, without what stands behind their terminators. -/
def privateView (P : PrivateArray) : PrivateTable := fun i => privateSlot (P i)

section Table
variable {t t' : Stores} {user ns xml : Str}

theorem privateView_holds {P : PrivateArray} {x : Str × Str} :
    (privateView P).holds x i = true ↔ (P i).active ≠ 0 ∧ (P i).username.str = x.1 ∧ (P i).ns.str = x.2 := by
  obtain ⟨u, n⟩ := x
  rw [SlotTable.holds, privateView, privateSlot]
  split <;> simp [*]

theorem private_find_eq (hu : Holds 32 user) (hn : Holds 128 ns) :
    private_store_find t user ns = (privateView t.private_store).slot (user, ns) := by
  unfold private_store_find SlotTable.slot SlotTable.first firstIdx
  congr 1
  funext i
  rw [Bool.eq_iff_iff, privateView_holds]
  simp only [Bool.and_eq_true, bne_iff_ne, bufIs_iff _ hu, bufIs_iff _ hn, and_assoc]

theorem private_free_eq : (firstIdx fun i => (t.private_store i).active == 0) = (privateView t.private_store).free := by
  unfold SlotTable.free SlotTable.first firstIdx
  congr 1
  funext i
  rw [privateView, privateSlot]
  by_cases ha : (t.private_store i).active = 0
  · simp [ha]
  · simp [ha]

theorem privateSlot_entry (e : PrivateEntry) (hu : Holds 32 user) (hn : Holds 128 ns) (hx : 0 ∉ xml) :
    privateSlot (privateEntry e user ns xml) = some ((user, ns), xml.take 899) := by
  have husername : (privateEntry e user ns xml).username.str = user := Buf.copied_whole _ (by decide) hu
  have hns : (privateEntry e user ns xml).ns.str = ns := Buf.copied_whole _ (by decide) hn
  have hxml : (privateEntry e user ns xml).xml.str = xml.take 899 := by
    refine Buf.written_str _ ⟨?_, fun h0 => hx (List.mem_of_mem_take h0)⟩
    rw [List.length_take]
    omega
  have hactive : (privateEntry e user ns xml).active ≠ 0 := by
    change (1 : Int32) ≠ 0
    decide
  rw [privateSlot, if_pos hactive, husername, hns, hxml]

/-- A set is a `put` of the table: it has a slot, or the table is full and stays. -/
theorem upsert_put (hu : Holds 32 user) (hn : Holds 128 ns) (hx : 0 ∉ xml)
    (h : private_store_upsert user ns xml t = some t') :
    privateView t'.private_store = (privateView t.private_store).put (user, ns) (xml.take 899) := by
  unfold private_store_upsert at h
  rw [private_find_eq hu hn, private_free_eq] at h
  unfold SlotTable.put
  cases hi : ((privateView t.private_store).slot (user, ns)).or (privateView t.private_store).free with
  | none =>
    rw [hi] at h
    cases h
  | some i =>
    rw [hi] at h
    cases h
    funext j
    change privateSlot (Function.update t.private_store i _ j) = Function.update (privateView t.private_store) i _ j
    by_cases hj : j = i
    · subst hj
      rw [Function.update_self, Function.update_self, privateSlot_entry _ hu hn hx]
    · rw [Function.update_of_ne hj, Function.update_of_ne hj]
      rfl

theorem upsert_full (hu : Holds 32 user) (hn : Holds 128 ns) : private_store_upsert user ns xml t = none ↔
      (privateView t.private_store).slot (user, ns) = none ∧ (privateView t.private_store).free = none := by
  unfold private_store_upsert
  rw [private_find_eq hu hn, private_free_eq, ← Option.or_eq_none_iff]
  cases ((privateView t.private_store).slot (user, ns)).or (privateView t.private_store).free with
  | none => simp
  | some i => simp

/-- Only an entry of the user, or a slot that was free, is other than before. -/
theorem upsert_others (hu : Holds 32 user) (hn : Holds 128 ns) (h : private_store_upsert user ns xml t = some t')
    (ha : (t.private_store i).active ≠ 0) (hne : (t.private_store i).username.str ≠ user) :
    t'.private_store i = t.private_store i := by
  unfold private_store_upsert at h
  rw [private_find_eq hu hn, private_free_eq] at h
  cases hi : ((privateView t.private_store).slot (user, ns)).or (privateView t.private_store).free with
  | none =>
    rw [hi] at h
    cases h
  | some j =>
    rw [hi] at h
    cases h
    refine Function.update_of_ne (fun hij => ?_) _ _
    subst hij
    rcases Option.or_eq_some_iff.mp hi with hs | ⟨-, hf⟩
    · exact hne (privateView_holds.mp (SlotTable.first_some hs)).2.1
    · have hnone := SlotTable.free_some hf
      rw [privateView, privateSlot, if_pos ha] at hnone
      cases hnone

end Table

/-! Requests. -/

section Request
variable {payload : Str}

theorem privateChild_holds (hp : 0 ∉ payload) : Holds 128 (privateChild payload).2 := by
  have hnil : Holds 128 ([] : Str) := ⟨by decide, by decide⟩
  unfold privateChild
  cases hq : strchr payload (ch '>') with
  | none => exact hnil
  | some q =>
    dsimp only
    have hsuffix : 0 ∉ q.tail := fun h0 => hp ((strchr_suffix hq).subset (List.mem_of_mem_tail h0))
    cases hx : strstr q.tail (lit "xmlns=") with
    | none => exact hnil
    | some x =>
      dsimp only
      have hclean : 0 ∉ x.drop 6 := fun h0 => hsuffix ((strstr_suffix hx).subset (List.mem_of_mem_drop h0))
      cases hns : quoted (x.drop 6) 4096 with
      | none => exact hnil
      | some ns =>
        dsimp only
        split
        · rename_i hlen
          exact ⟨Nat.lt_trans hlen.2 (by decide), (quoted_holds (by decide) hclean hns).2⟩
        · exact hnil

theorem privateXml_clean (hp : 0 ∉ payload) {xml : Str} (h : privateXml payload = some xml) : 0 ∉ xml := by
  unfold privateXml at h
  split at h
  · rename_i q e hq _
    split at h
    · cases h
      exact fun h0 => hp ((strchr_suffix hq).subset (List.mem_of_mem_tail (upto_subset _ _ h0)))
    · cases h
  · cases h

end Request

/-- What a request leaves: the store as it was, or with one child set. -/
inductive PrivateStep (user payload : Str) (t t' : Stores) : Prop
  | same (h : StoreId.Same t t' .private_)
  | set {xml : Str} {u : Stores} (hx : privateXml payload = some xml)
      (hu : private_store_upsert user (privateChild payload).2 xml t = some u) (h : StoreId.Same u t' .private_)

section Step
variable {me : Slot} {st : Stanza}

theorem privateSet_step (me : Slot) (st : Stanza) (s : Server) :
    PrivateStep (s.client_registry me).username st.payload s.stores
      (privateSet me st (privateChild st.payload).2 s).2.stores := by
  rcases privateSet_cases me st (privateChild st.payload).2 s with ⟨-, he⟩ | ⟨xml, hx, ⟨-, he⟩ | ⟨t, ht, he⟩⟩
  · rw [he]
    exact .same (spares_of_does (spares_replyResult _ _ _) s).store
  · rw [he]
    exact .same (spares_of_does (spares_send _ _) s).store
  · rw [he]
    have hsave : (persist xmpp_persist_save_private (s.setStores t)).2.stores = t := (save_cases .private_ _).1
    have hreply := (spares_of_does (spares_replyResult (k := .private_) 256 me st)
      (persist xmpp_persist_save_private (s.setStores t)).2).store
    rw [hsave] at hreply
    exact .set hx ht hreply

theorem private_storage_step (me : Slot) (st : Stanza) (s : Server) :
    PrivateStep (s.client_registry me).username st.payload s.stores (handle_private_storage me st s).2.stores := by
  have none : ∀ m : M Unit, Does (Untouched .private_) m → Triple (· = s) m fun _ s' =>
      PrivateStep (s.client_registry me).username st.payload s.stores s'.stores := by
    rintro m hm _ rfl
    exact .same (spares_of_does hm _).store
  have main : Triple (· = s) (handle_private_storage me st) fun _ s' =>
      PrivateStep (s.client_registry me).username st.payload s.stores s'.stores := by
    refine .bind (Q := fun _ s' => s' = s) (fun _ h => h) fun c => .bind (Q := fun _ s' => s' = s) (fun _ h => h) fun t => ?_
    refine .ite (fun _ => none _ (spares_send _ _)) fun _ => .ite (fun _ => ?_) fun _ =>
      .ite (fun _ => none _ (spares_send _ _)) fun _ => none _ (spares_send _ _)
    rintro _ rfl
    exact privateSet_step me st _
  exact main s rfl

/-! The other handlers leave private data alone. -/

theorem spares_routeByKind (me : Slot) {st : Stanza} (h : StanzaOk st) : Does (Untouched .private_) (routeByKind me st) := by
  have message : Does (Untouched .private_) (handle_chat_message me st) := by
    by_cases hc : (strstr st.to_ CONFERENCE).isSome
    · exact Stirs.spares (by decide) fun _ _ => stirs_messages h.payload hc
    · rw [handle_chat_message, if_neg hc]
      exact (allows_untouched _ me).directMessage (by decide) st
  have presence : Does (Untouched .private_) (routePresence me st) :=
    .bind (does_ctxOf me) fun _ => .ite (Stirs.spares (by decide) fun _ _ => stirs_handle_muc_presence h.to_)
      (.ite (.bind (spares_modCtx _ _) fun _ => (allows_untouched _ me).handle_initial_presence (by decide) (by decide) _)
        ((allows_untouched _ me).handle_broadcast_presence (by decide) (by decide) _))
  have request : Does (Untouched .private_) (unknownRequest me st) :=
    .bind (does_ctxOf me) fun _ => .ite (Stirs.spares (by decide) fun _ _ => stirs_handle_muc_owner)
      (.ite (spares_send _ _) (spares_send _ _))
  exact .bind (does_ctxOf me) fun _ => .ite message (.ite presence (.ite request (.ite (spares_send _ _) (.pure _))))

/-- Whatever the stanza, the private data stay or one child is set for its sender. -/
theorem route_private_step (me : Slot) {st : Stanza} (h : StanzaOk st) (s : Server) :
    PrivateStep (s.client_registry me).username st.payload s.stores (xmpp_route_stanza me st s).2.stores := by
  let c := s.client_registry me
  let s₁ : Server := { s with routed := s.routed ++ [(c, st)] }
  have hp : (stamped c st).payload = st.payload := by
    unfold stamped
    split <;> rfl
  change PrivateStep c.username st.payload s.stores (dispatch me c (stamped c st) s₁).2.stores
  rw [← hp]
  refine dispatch_spares (k := .private_) (X := fun m =>
    PrivateStep c.username (stamped c st).payload s.stores (m s₁).2.stores) (by decide) (by decide) (stamped_ok h) ?_ ?_ ?_
  · exact fun m hm => .same (spares_of_does hm s₁).store
  · exact private_storage_step me (stamped c st) s₁
  · exact .same (spares_of_does (spares_routeByKind me (stamped_ok h)) s₁).store

end Step

/-! No key is there twice. -/

/-- No two active entries are of the same user and namespace. -/
def DistinctPrivate (t : Stores) : Prop :=
  ∀ i j, (t.private_store i).active ≠ 0 → (t.private_store j).active ≠ 0 →
    (t.private_store i).username.str = (t.private_store j).username.str →
    (t.private_store i).ns.str = (t.private_store j).ns.str → i = j

theorem distinctPrivate_iff (t : Stores) : DistinctPrivate t ↔ (privateView t.private_store).Distinct := by
  constructor
  · intro h x i j hi hj
    obtain ⟨ha, hu, hn⟩ := privateView_holds.mp hi
    obtain ⟨hb, hu', hn'⟩ := privateView_holds.mp hj
    exact h i j ha hb (hu.trans hu'.symm) (hn.trans hn'.symm)
  · intro h i j hi hj hu hn
    exact h (_, _) i j (privateView_holds.mpr ⟨hi, hu, hn⟩) (privateView_holds.mpr ⟨hj, rfl, rfl⟩)

theorem private_lasts : Lasting .private_ DistinctPrivate := by
  refine ⟨fun t u he h => ?_, fun i j hi => absurd rfl hi, fun {s me st} ok hn h => ?_⟩
  · have hu : u.private_store = t.private_store := he
    unfold DistinctPrivate
    rw [hu]
    exact h
  · rw [distinctPrivate_iff] at h ⊢
    cases route_private_step me ok s with
    | same he =>
      have hsame : (xmpp_route_stanza me st s).2.stores.private_store = s.stores.private_store := he
      rw [hsame]
      exact h
    | set hx hu he =>
      rename_i xml u
      have hsame : (xmpp_route_stanza me st s).2.stores.private_store = u.private_store := he
      have husername : Holds 32 (s.client_registry me).username := (hn.session me).username
      rw [hsame, upsert_put husername (privateChild_holds ok.payload) (privateXml_clean ok.payload hx) hu]
      exact h.put _ _

/-! What a request is answered. -/

/-- The text of an answer: one that tells nothing of the store, or the child of an entry of the user, or that there is
none. -/
inductive PrivateAnswer (s : Server) (me : Slot) (st : Stanza) : Str → Prop
  | done : PrivateAnswer s me st (snprintf 256 fmtResult [.s st.id, .s (s.client_registry me).full_jid])
  | notAcceptable : PrivateAnswer s me st (snprintf 512 fmtNotAcceptable [.s st.id, .s (s.client_registry me).full_jid])
  | constraint : PrivateAnswer s me st (snprintf 512 fmtResourceConstraint [.s st.id, .s (s.client_registry me).full_jid])
  | own (i : Fin PRIVATE_STORAGE_SLOTS) (ha : (s.stores.private_store i).active ≠ 0)
      (hu : (s.stores.private_store i).username.str = (s.client_registry me).username)
      (hn : (s.stores.private_store i).ns.str = (privateChild st.payload).2) :
      PrivateAnswer s me st (snprintf 1300 fmtPrivate
        [.s st.id, .s (s.client_registry me).full_jid, .s (s.stores.private_store i).xml.str])
  | empty : PrivateAnswer s me st (snprintf 1300 fmtPrivate [.s st.id, .s (s.client_registry me).full_jid,
      .s (snprintf 192 fmtEmptyElem [.s (privateChild st.payload).1, .s (privateChild st.payload).2])])

section Answer
variable {s : Server} {me : Slot} {st : Stanza}

theorem privateGet_answer (hu : Holds 32 (s.client_registry me).username) (hp : 0 ∉ st.payload) :
    ∃ text, (Texts.privateGet s me st (privateChild st.payload).1 (privateChild st.payload).2).map rendered =
      [(me, text)] ∧ PrivateAnswer s me st text := by
  refine ⟨_, rfl, ?_⟩
  dsimp only [Texts.reg]
  cases hf : private_store_find s.stores (s.client_registry me).username (privateChild st.payload).2 with
  | none => exact .empty
  | some i =>
    rw [private_find_eq hu (privateChild_holds hp)] at hf
    obtain ⟨ha, husername, hns⟩ := privateView_holds.mp (SlotTable.first_some hf)
    exact .own i ha husername hns

theorem privateSet_answer (ns : Str) :
    ∃ text, (Texts.privateSet s me st ns).map rendered = [(me, text)] ∧ PrivateAnswer s me st text := by
  unfold Texts.privateSet
  cases privateXml st.payload with
  | none => exact ⟨_, rfl, .done⟩
  | some xml =>
    dsimp only
    cases private_store_upsert (Texts.reg s me).username ns xml s.stores with
    | none => exact ⟨_, rfl, .constraint⟩
    | some t => exact ⟨_, rfl, .done⟩

/-- A request gets one answer, which goes to its sender. -/
theorem private_answered (hu : Holds 32 (s.client_registry me).username) (hp : 0 ∉ st.payload) :
    ∃ text, sends (handle_private_storage me st s).2 = sends s ++ [(me, text)] ∧ PrivateAnswer s me st text := by
  have hs := (sends_handle_private_storage me st s (Now.refl (G := fun _ => True) trivial)).1
  have ha : ∃ text, (Texts.private_ s me st).map rendered = [(me, text)] ∧ PrivateAnswer s me st text := by
    unfold Texts.private_
    dsimp only
    split
    · exact ⟨_, rfl, .notAcceptable⟩
    · split
      · exact privateSet_answer _
      · exact privateGet_answer hu hp
  obtain ⟨text, ht, hans⟩ := ha
  exact ⟨text, by rw [hs, ht], hans⟩

theorem private_others (hu : Holds 32 (s.client_registry me).username) (hp : 0 ∉ st.payload)
    (ha : (s.stores.private_store i).active ≠ 0)
    (hne : (s.stores.private_store i).username.str ≠ (s.client_registry me).username) :
    (handle_private_storage me st s).2.stores.private_store i = s.stores.private_store i := by
  cases private_storage_step me st s with
  | same he => exact congrFun he i
  | set hx hup he => exact (congrFun he i).trans (upsert_others hu (privateChild_holds hp) hup ha hne)

theorem private_full (hu : Holds 32 (s.client_registry me).username) (hp : 0 ∉ st.payload)
    (hown : ∀ i, (s.stores.private_store i).active ≠ 0 →
      (s.stores.private_store i).username.str = (s.client_registry me).username →
      (s.stores.private_store i).ns.str ≠ (privateChild st.payload).2)
    (hfull : ∀ i, (s.stores.private_store i).active ≠ 0) :
    (handle_private_storage me st s).2.stores.private_store = s.stores.private_store := by
  cases private_storage_step me st s with
  | same he => exact he
  | set hx hup he =>
    rename_i xml u
    have hslot : (privateView s.stores.private_store).slot
        ((s.client_registry me).username, (privateChild st.payload).2) = none := by
      refine SlotTable.first_eq_none fun i => ?_
      rw [Bool.eq_false_iff, Ne, privateView_holds]
      exact fun ⟨ha, hi, hn⟩ => hown i ha hi hn
    have hfree : (privateView s.stores.private_store).free = none := by
      refine SlotTable.first_eq_none fun i => ?_
      rw [privateView, privateSlot, if_pos (hfull i)]
      rfl
    have hnone : private_store_upsert _ _ xml _ = none := (upsert_full hu (privateChild_holds hp)).mpr ⟨hslot, hfree⟩
    rw [hnone] at hup
    cases hup

end Answer

/-- In every state of every run, on the disk that any number of runs before left, no user has two entries for a
namespace. A request of a user leaves what others stored, is answered with nothing of it, and leaves the store as it is
if it finds neither an own entry nor a free slot. -/
theorem private_store_isolated (d : Disk) (hd : DistinctPrivate (diskStores d)) (ls : List Life) (l : Life)
    (s : Server) (hs : Arises (l.on (reboots d ls)) s) :
    DistinctPrivate s.stores ∧ ∀ me st, StanzaOk st →
      let user := (s.client_registry me).username
      let P := s.stores.private_store
      let s' := (handle_private_storage me st s).2
      (∀ i, (P i).active ≠ 0 → (P i).username.str ≠ user → s'.stores.private_store i = P i) ∧
        (∃ text, sends s' = sends s ++ [(me, text)] ∧ PrivateAnswer s me st text) ∧
        ((∀ i, (P i).active ≠ 0 → (P i).username.str = user → (P i).ns.str ≠ (privateChild st.payload).2) →
          (∀ i, (P i).active ≠ 0) → s'.stores.private_store = P) := by
  have hk : StoreId.Single .private_ := .inl rfl
  have hdisk : DistinctPrivate (diskStores (reboots d ls)) := private_lasts.reboots hk hd ls
  have hboth : InBoth DistinctPrivate s := private_lasts.arises hk (m := l.on (reboots d ls)) hdisk hs
  have hn : (abs s).Named := Registry.reach_keeps (fun _ _ hs => hs.names) (actions_refines hs) (boot_named _)
  refine ⟨hboth.store, fun me st ok => ?_⟩
  have hu : Holds 32 (s.client_registry me).username := (hn.session me).username
  exact ⟨fun i ha hne => private_others hu ok.payload ha hne, private_answered hu ok.payload,
    fun hown hfull => private_full hu ok.payload hown hfull⟩

/-- Two users store something under the same namespace. -/
def keepsakes : Life :=
  let set (w : String) := cat ["<iq type='set' id='s1'><query xmlns='jabber:iq:private'><note xmlns='urn:n'>", w,
    "</note></query></iq>"]
  lifeOf (visit 7 authAdmin [set "mine"] ++ visit 8 authUser1 [set "theirs"])

def askNote : Stanza :=
  { Stanza.zero with
    type := .IQ_GET, id := lit "g1", payload := lit "<query xmlns='jabber:iq:private'><note xmlns='urn:n'/></query>" }

/-- Each is answered with their own. -/
theorem keepsakes_apart :
    let s := keepsakes.run (reboots (fun _ => []) [])
    DistinctPrivate s.stores ∧ (s.stores.private_store 0).active ≠ 0 ∧ (s.stores.private_store 1).active ≠ 0 ∧
      (s.stores.private_store 0).ns.str = (s.stores.private_store 1).ns.str ∧
      sends (handle_private_storage 1 askNote s).2 = sends s ++ [(1, cat
        ["<iq type='result' id='g1' to='user1@angelic.local/unikernel-0'><query xmlns='jabber:iq:private'>",
          "<note xmlns='urn:n'>theirs</note></query></iq>"])] := by
  have hk : StoreId.Single .private_ := .inl rfl
  refine ⟨(private_store_isolated (fun _ => []) (private_lasts.blank hk) [] keepsakes _ (Arises.life _ _)).1, ?_⟩
  decide +kernel

end Angelic.Proofs
