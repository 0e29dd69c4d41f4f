import Angelic.Proofs.Disclosure
import Angelic.Proofs.Relays
import Angelic.Proofs.SelfPresence

namespace Angelic.Proofs
open CString Model Relation

/-! What a message to a room becomes: one copy for each occupant. -/

/-- A client in session whose address without the resource is `jid`. -/
structure SessionOf (s : Server) (jid : Str) (k : Slot) : Prop where
  live : (s.client_registry k).live
  jid : bare (s.client_registry k).full_jid = jid

/-- The payload, as a body unless it is an element already. -/
def content (st : Stanza) : Str :=
  if st.payload.head? = some (ch '<') then st.payload else lit "<body>" ++ st.payload ++ lit "</body>"

/-- The copy for the occupant with the address `jid` of what the one called `nick` wrote. -/
def copyFor (st : Stanza) (nick jid : Str) : Str :=
  lit "<message from='" ++ st.to_ ++ lit "/" ++ nick ++ lit "' to='" ++ jid ++ lit "' type='groupchat' id='" ++ st.id ++
    lit "'>" ++ content st ++ lit "</message>"

/-- The sessions of each occupant that has any get one copy together, and no one else gets anything. -/
structure FansOut (s : Server) (st : Stanza) (r : Room) (nick : Str) (l : List (Slot × Str)) : Prop where
  one : ∀ j, (r.users j).active → (∃ k, SessionOf s (r.users j).jid k) → ∃ k, SessionOf s (r.users j).jid k ∧
    l.filter (fun x => bare (s.client_registry x.1).full_jid == (r.users j).jid) =
      [(k, copyFor st nick (r.users j).jid)]
  only : ∀ x ∈ l, ∃ j, (r.users j).active ∧ SessionOf s (r.users j).jid x.1

/-- The copy is short enough for the array it is written to. -/
def FitsCopy (st : Stanza) (nick jid : Str) : Prop :=
  st.to_.length + nick.length + jid.length + st.id.length + (content st).length ≤ 2342

/-! No address is in a room twice. -/

def DistinctJids (r : Room) : Prop :=
  ∀ j k, (r.users j).active → (r.users k).active → (r.users j).jid = (r.users k).jid → j = k

theorem Arises.distinctJids {m : Machine} {s : Server} (h : Arises m s) (i : Fin MAX_ROOMS) :
    DistinctJids (s.stores.rooms i) := by
  have apart : Separate (·.jid) (s.stores.rooms i).users := by
    refine h.users (P := Separate (·.jid)) (fun u hu => (Distinct.of_inactive hu).jid) (fun {E c u u'} hp hd => ?_) i
    cases hp with
    | kept => exact hd
    | emptied => exact (Distinct.of_inactive fun _ => rfl).jid
    | freed j => exact Separate.update hd j fun hj => absurd hj Bool.false_ne_true
    | renamed k nick hk => exact Separate.update hd k fun _ l hl hla => hd l k hl hla hk
    | taken j nick pcb he hj => exact Separate.update hd j fun _ k _ hk => hj k hk
  exact fun j k hj hk he => not_not.mp fun hne => apart j k hne hj hk he

/-! Whom the server finds by an address. -/

section Sessions
variable {s : Server} {jid : Str} {k : Slot}

theorem find_client_session (hj : ∀ i, Holds 64 (s.client_registry i).full_jid) (hb : bare jid = jid)
    (h : find_client_by_jid s jid = some k) : SessionOf s jid k := by
  have hf := firstIdx_some h
  simp only [Bool.and_eq_true] at hf
  exact ⟨hf.1.1, find_client_bare hj hb h⟩

theorem find_client_of_session (hj : ∀ i, Holds 64 (s.client_registry i).full_jid) (h : SessionOf s jid k) :
    ∃ k', find_client_by_jid s jid = some k' := by
  cases hf : find_client_by_jid s jid with
  | some k' => exact ⟨k', rfl⟩
  | none =>
    have hno := firstIdx_none hf k
    have hcut : strncpy 63 (s.client_registry k).full_jid = (s.client_registry k).full_jid := by
      rw [strncpy, cstr_of_clean (hj k).2, List.take_of_length_le (Nat.le_of_lt_succ (hj k).1)]
    have hjid := h.jid
    rw [bare, hcut] at hjid
    have hfull : jid ++ (s.client_registry k).full_jid.dropWhile (· != ch '/') = (s.client_registry k).full_jid := by
      rw [← hjid]
      exact List.takeWhile_append_dropWhile
    have htake : (s.client_registry k).full_jid.take jid.length = jid := by
      rw [← hfull, List.take_left]
    have hdrop : (s.client_registry k).full_jid.drop jid.length =
        (s.client_registry k).full_jid.dropWhile (· != ch '/') := by
      conv_lhs => rw [← hfull, List.drop_left]
    have hrest := List.head?_dropWhile_not (· != ch '/') (s.client_registry k).full_jid
    dsimp only at hno
    rw [htake, hdrop, h.live, beq_self_eq_true, Bool.and_self, Bool.true_and, Bool.or_eq_false_iff] at hno
    cases hd : ((s.client_registry k).full_jid.dropWhile (· != ch '/')).head? with
    | none =>
      rw [hd] at hno
      exact absurd hno.2 (by decide)
    | some b =>
      rw [hd] at hno hrest
      have hb : b = ch '/' := by simpa using hrest
      rw [hb, beq_self_eq_true] at hno
      exact absurd hno.1 (by decide)

end Sessions

/-- A loop that sends something for one index only. -/
theorem each_one {n : Nat} {f : Fin n → List Sent} (j : Fin n) (h : ∀ k, k ≠ j → f k = []) : each n f = f j := by
  have hlist : ∀ l : List (Fin n), l.Nodup → j ∈ l → l.flatMap f = f j := by
    intro l hl hj
    induction l with
    | nil => exact absurd hj List.not_mem_nil
    | cons k l ih =>
      rw [List.flatMap_cons]
      rcases List.mem_cons.mp hj with rfl | hm
      · have hnil : l.flatMap f = [] :=
          List.flatMap_eq_nil_iff.mpr fun k hk => h k fun he => (List.nodup_cons.mp hl).1 (he ▸ hk)
        rw [hnil, List.append_nil]
      · rw [h k fun he => (List.nodup_cons.mp hl).1 (he ▸ hm), List.nil_append]
        exact ih (List.nodup_cons.mp hl).2 hm
  exact hlist _ (List.nodup_finRange n) (List.mem_finRange j)

section Copies
variable {s : Server} {st : Stanza} {r : Room} {nick : Str}

theorem group_full (ok : StanzaOk st) (hid : 0 ∉ st.id) (hnick : 0 ∉ nick) {p : Participant} (hjid : 0 ∉ p.jid) :
    (Texts.group st nick p).full = copyFor st nick p.jid := by
  unfold Texts.group alreadyWrapped Text.full copyFor content
  by_cases hw : st.payload.head? = some (ch '<')
  · rw [if_pos hw, beq_iff_eq.mpr hw]
    have hp : pieces fmtGroupWrapped = [lit "<message from='", lit "/", lit "' to='", lit "' type='groupchat' id='",
      lit "'>", lit "</message>"] := by decide +kernel
    simp only [if_true, hp, weave, Arg.text, cstr_of_clean ok.to_, cstr_of_clean hnick, cstr_of_clean hjid,
      cstr_of_clean hid, cstr_of_clean ok.payload, List.append_assoc]
  · rw [if_neg hw, beq_eq_false_iff_ne.mpr hw]
    have hp : pieces fmtGroup = [lit "<message from='", lit "/", lit "' to='", lit "' type='groupchat' id='",
      lit "'>" ++ lit "<body>", lit "</body>" ++ lit "</message>"] := by decide +kernel
    simp only [Bool.false_eq_true, if_false, hp, weave, Arg.text, cstr_of_clean ok.to_, cstr_of_clean hnick,
      cstr_of_clean hjid, cstr_of_clean hid, cstr_of_clean ok.payload, List.append_assoc]

theorem fitsCopy_iff (jid : Str) : FitsCopy st nick jid ↔ (copyFor st nick jid).length < 2400 := by
  have h : (copyFor st nick jid).length =
      st.to_.length + nick.length + jid.length + st.id.length + (content st).length + 57 := by
    simp only [copyFor, List.length_append]
    rw [show (lit "<message from='").length = 15 by decide, show (lit "/").length = 1 by decide,
      show (lit "' to='").length = 6 by decide, show (lit "' type='groupchat' id='").length = 23 by decide,
      show (lit "'>").length = 2 by decide, show (lit "</message>").length = 10 by decide]
    omega
  rw [h, FitsCopy]
  omega

variable (hj : ∀ i, Holds 64 (s.client_registry i).full_jid) (hr : AllEntitled r) (hd : DistinctJids r)
include hj hr hd

/-- What the sessions of one occupant get of what is sent to all. -/
theorem occupants_filter (text : Participant → Text) {j : Fin MAX_USERS_PER_ROOM} (ha : (r.users j).active) :
    (Texts.occupants s r nobody text).filter (fun x => bare (s.client_registry x.1).full_jid == (r.users j).jid) =
      Texts.toJid s (r.users j).jid (text (r.users j)) := by
  have hbare : ∀ k, (r.users k).active → ∀ x ∈ Texts.toJid s (r.users k).jid (text (r.users k)),
      bare (s.client_registry x.1).full_jid = (r.users k).jid := fun k hk x hx =>
    find_client_bare hj (hr k hk).jid (mem_toJid.mp hx).1
  have hskip : ∀ k, ((r.users k).active = true ∧ ¬ nobody k = true) ↔ (r.users k).active = true := fun k => by
    simp [nobody]
  rw [Texts.occupants, each, List.filter_flatMap]
  refine (each_one j fun k hk => ?_).trans ?_
  · simp only [hskip]
    split
    · rename_i hka
      refine List.filter_eq_nil_iff.mpr fun x hx he => hk (hd k j hka ha ?_)
      rw [← hbare k hka x hx]
      exact beq_iff_eq.mp he
    · rfl
  · simp only [hskip]
    rw [if_pos ha]
    exact List.filter_eq_self.mpr fun x hx => beq_iff_eq.mpr (hbare j ha x hx)

/-- The copies are what they should be exactly if they all fit. -/
theorem fansOut_iff (ok : StanzaOk st) (hid : 0 ∉ st.id) (hnick : 0 ∉ nick) :
    FansOut s st r nick ((Texts.occupants s r nobody (Texts.group st nick)).map rendered) ↔
      ∀ j, (r.users j).active → (∃ k, SessionOf s (r.users j).jid k) → FitsCopy st nick (r.users j).jid := by
  have hfull : ∀ j, (r.users j).active → (Texts.group st nick (r.users j)).full = copyFor st nick (r.users j).jid := by
    intro j ha
    refine group_full ok hid hnick ?_
    rw [← (hr j ha).jid]
    exact (bare_holds _).2
  have hfilter : ∀ j, (r.users j).active →
      ((Texts.occupants s r nobody (Texts.group st nick)).map rendered).filter
          (fun x => bare (s.client_registry x.1).full_jid == (r.users j).jid) =
        (Texts.toJid s (r.users j).jid (Texts.group st nick (r.users j))).map rendered := by
    intro j ha
    rw [List.filter_map]
    exact congrArg (List.map rendered) (occupants_filter hj hr hd (Texts.group st nick) ha)
  have hsent : ∀ j, (r.users j).active → ∀ k, find_client_by_jid s (r.users j).jid = some k →
      (Texts.toJid s (r.users j).jid (Texts.group st nick (r.users j))).map rendered =
        [(k, (Texts.group st nick (r.users j)).str)] := by
    intro j ha k hk
    rw [Texts.toJid, hk]
    rfl
  have hstr : ∀ j, (r.users j).active →
      ((Texts.group st nick (r.users j)).str = copyFor st nick (r.users j).jid ↔ FitsCopy st nick (r.users j).jid) := by
    intro j ha
    rw [fitsCopy_iff, ← hfull j ha, Text.str_eq_full_iff (show 0 < 2400 by decide)]
    rfl
  constructor
  · intro h j ha hs
    obtain ⟨k, hk⟩ := find_client_of_session hj hs.choose_spec
    obtain ⟨k', -, he⟩ := h.one j ha hs
    rw [hfilter j ha, hsent j ha k hk] at he
    exact (hstr j ha).mp (Prod.mk.inj (List.cons.inj he).1).2
  · intro h
    refine ⟨fun j ha hs => ?_, fun x hx => ?_⟩
    · obtain ⟨k, hk⟩ := find_client_of_session hj hs.choose_spec
      refine ⟨k, find_client_session hj (hr j ha).jid hk, ?_⟩
      rw [hfilter j ha, hsent j ha k hk, (hstr j ha).mpr (h j ha hs)]
    · obtain ⟨y, hy, rfl⟩ := List.mem_map.mp hx
      obtain ⟨j, ⟨ha, -⟩, hk, -⟩ := mem_occupants.mp hy
      exact ⟨j, ha, find_client_session hj (hr j ha).jid hk⟩

end Copies

/-- The other user has more to say. -/
def bobRants : Stanza := { bobWrites with payload := List.replicate 2400 (ch 'a') }

end Angelic.Proofs
