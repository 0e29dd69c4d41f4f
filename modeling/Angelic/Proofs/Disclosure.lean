import Angelic.Proofs.RoomChanges
import Angelic.Proofs.RoomLaws
import Angelic.Proofs.RoomNames
import Angelic.Proofs.Rosters

namespace Angelic.Proofs
open CString Model StateRel Relation

/-! Which addresses the handlers of rooms show, and to whom. -/

/-! The attributes of a text that the server fills in from what it has stored: `to`, and `jid` other than that of a
room to go to instead. -/

def opensAddress (p : Str) : Bool :=
  (lit " to='").isSuffixOf p || (lit " jid='").isSuffixOf p && !(lit "<destroy jid='").isSuffixOf p

/-- The places of a format that are the whole value of such an attribute. -/
def addressHoles (ps : List Str) : List Nat :=
  (List.range (ps.length - 1)).filter fun k => opensAddress (ps.getD k []) && (lit "'").isPrefixOf (ps.getD (k + 1) [])

def Text.addresses (t : Text) : List Str :=
  (addressHoles (pieces t.fmt)).filterMap fun k => t.args[k]?.map Arg.text

/-- Formats whose second place is the address of the one they are sent to. -/
def secondFormats : List Str :=
  [fmtResult, fmtAdminEmpty, fmtConfigured, fmtRoomForm, fmtSubject, fmtBadRequest, fmtNoOccupant, fmtItemNotFound,
    fmtItems, fmtServiceItem]

/-- Formats whose third place is. -/
def thirdFormats : List Str :=
  [fmtLockedErr, fmtLeft, fmtLeftSelf, fmtAvailSelf, fmtAvail, fmtNickConflict, fmtNickGoneSelf, fmtNickGone,
    fmtMemberSelf, fmtMember, fmtForbidden, fmtJoinConflict, fmtNewRoom, fmtKickReason, fmtKick, fmtKickedReason,
    fmtKicked, fmtDestroyReason, fmtDestroyJid, fmtDestroy, fmtPmWrapped, fmtPm, fmtGroupWrapped, fmtGroup]

theorem holes_second : ∀ f ∈ secondFormats, addressHoles (pieces f) = [1] := by decide +kernel

theorem holes_third : ∀ f ∈ thirdFormats, addressHoles (pieces f) = [2] := by decide +kernel

theorem holes_jid : addressHoles (pieces fmtMemberJid) = [2, 3] ∧ addressHoles (pieces fmtOwner) = [1, 2] := by
  decide +kernel

/-! Texts that show no address but that of the one they are sent to. -/

def OwnOnly (s : Server) (x : Sent) : Prop := ∀ v ∈ x.2.addresses, bare v = bare (s.client_registry x.1).full_jid

section Own
variable {s : Server} {k : Slot} {size : Nat} {fmt b : Str} {a a' : Arg} {args : List Arg}

theorem bare_cstr (jid : Str) : bare (cstr jid) = bare jid := by rw [bare, bare, strncpy, strncpy, cstr_cstr]

theorem own_at {n : Nat} (hh : addressHoles (pieces fmt) = [n]) (ha : args[n]? = some (.s b))
    (hb : bare b = bare (s.client_registry k).full_jid) : OwnOnly s (k, ⟨size, fmt, args⟩) := by
  intro v hv
  simp only [Text.addresses, hh, List.filterMap_cons, List.filterMap_nil, ha, Option.map_some, List.mem_singleton] at hv
  rw [hv, Arg.text, bare_cstr, hb]

theorem own_second (hf : fmt ∈ secondFormats) (hb : bare b = bare (s.client_registry k).full_jid) :
    OwnOnly s (k, ⟨size, fmt, a :: .s b :: args⟩) := own_at (holes_second fmt hf) rfl hb

theorem own_third (hf : fmt ∈ thirdFormats) (hb : bare b = bare (s.client_registry k).full_jid) :
    OwnOnly s (k, ⟨size, fmt, a :: a' :: .s b :: args⟩) := own_at (holes_third fmt hf) rfl hb

/-- The session found for a bare address has it. -/
theorem find_client_bare (hj : ∀ i, Holds 64 (s.client_registry i).full_jid) {jid : Str} (hb : bare jid = jid)
    (h : find_client_by_jid s jid = some k) : bare (s.client_registry k).full_jid = jid := by
  have hf := firstIdx_some h
  simp only [Bool.and_eq_true, Bool.or_eq_true, beq_iff_eq] at hf
  obtain ⟨⟨-, htake⟩, hrest⟩ := hf
  have hslash : ch '/' ∉ jid := by
    rw [← hb]
    exact fun hm => by simpa using List.mem_takeWhile_imp hm
  have hfull : (s.client_registry k).full_jid = jid ++ (s.client_registry k).full_jid.drop jid.length := by
    conv_lhs => rw [← List.take_append_drop jid.length (s.client_registry k).full_jid, htake]
  have hcut : strncpy 63 (s.client_registry k).full_jid = (s.client_registry k).full_jid := by
    rw [strncpy, cstr_of_clean (hj k).2, List.take_of_length_le (Nat.le_of_lt_succ (hj k).1)]
  rw [bare, hcut, hfull, List.takeWhile_append_of_pos fun b hm => by
    simp only [bne_iff_ne, ne_eq]
    exact fun he => hslash (he ▸ hm)]
  generalize (s.client_registry k).full_jid.drop jid.length = rest at hrest
  cases rest with
  | nil => simp
  | cons b rest =>
    have he : b = ch '/' := by simpa using hrest
    simp [he]

/-- Notices to the occupants carry the addresses of those. -/
theorem own_occupants (hj : ∀ i, Holds 64 (s.client_registry i).full_jid) {r : Room} (hr : AllEntitled r)
    {skip : Fin MAX_USERS_PER_ROOM → Bool} {text : Participant → Text}
    (ht : ∀ p, ∃ size fmt a a' args, text p = ⟨size, fmt, a :: a' :: .s p.jid :: args⟩ ∧ fmt ∈ thirdFormats) :
    Every (OwnOnly s) (Texts.occupants s r skip text) := by
  refine Every.occupants fun j hact _ k hk => ?_
  obtain ⟨size, fmt, a, a', args, he, hf⟩ := ht (r.users j)
  rw [he]
  refine own_third hf ?_
  rw [find_client_bare hj (hr j hact).jid hk, (hr j hact).jid]

end Own

/-- The text is for the creator of the room, or shows no other address. -/
def OwnOr (s : Server) (r : Room) (x : Sent) : Prop :=
  bare (s.client_registry x.1).full_jid = r.creator_jid ∨ OwnOnly s x

theorem Every.ownOr {s : Server} {l : List Sent} (h : Every (OwnOnly s) l) (r : Room) : Every (OwnOr s r) l :=
  h.mono fun _ hx => .inr hx

section Rooms
variable {s : Server} {me : Slot} {st : Stanza} {r : Room} (hj : ∀ i, Holds 64 (s.client_registry i).full_jid)
  (hr : AllEntitled r)
include hj hr

theorem leaving_own (t : MucTarget) : Every (OwnOnly s) (Texts.leave s me r t) := by
  unfold Texts.leave
  cases r.firstUser (·.nick == t.nick) with
  | none => exact Every.nil
  | some j =>
    refine Every.append (own_occupants hj hr fun p => ⟨_, _, _, _, _, rfl, by simp [thirdFormats]⟩) (Every.single ?_)
    exact own_third (by simp [thirdFormats]) rfl

theorem occupant_own (t : MucTarget) {k : Fin MAX_USERS_PER_ROOM} (hk : (r.users k).active) :
    Every (OwnOnly s) (Texts.occupant s me st r t k) := by
  refine Every.ite (fun _ => own_occupants hj hr fun p => ⟨_, _, _, _, _, rfl, ?_⟩) fun _ =>
    Every.ite (fun _ => Every.single (own_third (by simp [thirdFormats]) rfl)) fun _ =>
      Every.append (own_occupants hj hr fun p => ⟨_, _, _, _, _, rfl, ?_⟩)
        (own_occupants hj (Placed.entitled (E := True) (c := .zero) (.renamed k t.nick hk) hr) fun p => ⟨_, _, _, _, _, rfl, ?_⟩)
  all_goals split <;> simp [thirdFormats]

/-- Only the creator of a room that hides addresses is shown some. -/
theorem welcome_own (hanon : r.semi_anon ≠ 0) (t : MucTarget) (is_new : Bool) :
    Every (OwnOr s r) (Texts.welcome s me r t is_new) := by
  refine Every.append (Every.append (Every.each fun j => ?_) (Every.occupants fun j hact _ k hk => ?_)) (Every.pair ?_ ?_)
  · refine Every.ite (fun _ => Every.ite (fun hc => ?_) fun _ => ?_) fun _ => Every.nil
    · exact Every.single (.inl (hc.resolve_left hanon))
    · exact Every.single (.inr (own_third (by simp [thirdFormats]) rfl))
  · have hbare := find_client_bare hj (hr j hact).jid hk
    unfold Texts.joined
    split
    · rename_i hc
      exact .inl (hbare.trans (hc.resolve_left hanon))
    · exact .inr (own_third (by simp [thirdFormats]) (by rw [hbare, (hr j hact).jid]))
  · refine .inr (own_third ?_ rfl)
    cases is_new <;> simp [thirdFormats]
  · exact .inr (own_second (by simp [secondFormats]) rfl)

theorem attend_own (hanon : r.semi_anon ≠ 0) (t : MucTarget) (is_new : Bool) :
    Every (OwnOr s r) (Texts.attend s me st r t is_new) := by
  refine Every.ite (fun _ => Every.single (.inr (own_third (by simp [thirdFormats]) rfl))) fun _ =>
    Every.ite (fun _ => (leaving_own hj hr t).ownOr r) fun _ => ?_
  cases hk : r.firstUser (·.jid == bare (Texts.reg s me).full_jid) with
  | some k => exact (occupant_own hj hr t (firstUser_some hk).1).ownOr r
  | none =>
    refine Every.ite (fun _ => Every.single (.inr (own_third (by simp [thirdFormats]) rfl))) fun _ =>
      Every.ite (fun _ => Every.single (.inr (own_third (by simp [thirdFormats]) rfl))) fun _ => ?_
    have hjoin : (r.join (Texts.reg s me) t.nick).semi_anon = r.semi_anon ∧
        (r.join (Texts.reg s me) t.nick).creator_jid = r.creator_jid := by
      unfold Room.join
      cases firstIdx (fun j => !(r.users j).active) <;> exact ⟨rfl, rfl⟩
    have hnew : ∀ j, (r.users j).active → (r.users j).jid ≠ bare (Texts.reg s me).full_jid := fun j ha => by
      simpa using firstUser_none hk j ha
    have hw : Every (OwnOr s _) (Texts.welcome s me (r.join (Texts.reg s me) t.nick) t is_new) :=
      welcome_own hj ((join_placed trivial hnew t.nick).entitled hr) (by rwa [hjoin.1]) t is_new
    exact hw.mono fun x hx => hx.imp_left fun h => h.trans hjoin.2

omit hj hr in
theorem kick_eq_text (size : Nat) (fmtR fmt room nick jid reason : Str) (want_ban : Bool) :
    ∃ f args, Texts.kick size fmtR fmt room nick jid reason want_ban =
      ⟨size, f, .s room :: .s nick :: .s jid :: args⟩ ∧ (f = fmtR ∨ f = fmt) := by
  by_cases hreason : reason ≠ []
  · exact ⟨_, _, if_pos hreason, .inl rfl⟩
  · exact ⟨_, _, if_neg hreason, .inr rfl⟩

theorem kickOne_own {j : Fin MAX_USERS_PER_ROOM} (hact : (r.users j).active) (room reason : Str) (want_ban : Bool) :
    Every (OwnOnly s) (Texts.kickOne s r j room reason want_ban) := by
  refine Every.append (own_occupants hj hr fun p => ?_) (Every.toJid fun k hk => ?_)
  · obtain ⟨f, args, he, hf⟩ := kick_eq_text 512 fmtKickReason fmtKick room (r.users j).nick p.jid reason want_ban
    refine ⟨_, f, _, _, args, he, ?_⟩
    rcases hf with rfl | rfl <;> simp [thirdFormats]
  · obtain ⟨f, args, he, hf⟩ :=
      kick_eq_text 640 fmtKickedReason fmtKicked room (r.users j).nick (r.users j).jid reason want_ban
    rw [he]
    refine own_third ?_ ?_
    · rcases hf with rfl | rfl <;> simp [thirdFormats]
    · rw [find_client_bare hj (hr j hact).jid hk, (hr j hact).jid]

theorem destroy_own (alt reason room : Str) :
    Every (OwnOnly s) (Texts.occupants s r nobody (Texts.destroy alt reason room)) := by
  refine own_occupants hj hr fun p => ?_
  unfold Texts.destroy
  split
  · exact ⟨_, _, _, _, _, rfl, by simp [thirdFormats]⟩
  · split <;> exact ⟨_, _, _, _, _, rfl, by simp [thirdFormats]⟩

theorem groupMessage_own : Every (OwnOnly s) (Texts.groupMessage s me st r) := by
  refine own_occupants hj hr fun p => ⟨_, _, _, _, _, rfl, ?_⟩
  split <;> simp [thirdFormats]

omit hj hr in
theorem privateMessage_own (p : Str) : Every (OwnOnly s) (Texts.privateMessage s me st r p) := by
  refine Every.ite (fun _ => Every.single (own_second (by simp [secondFormats]) rfl)) fun _ => ?_
  cases Texts.recipient s r p.tail with
  | none => exact Every.single (own_second (by simp [secondFormats]) rfl)
  | some k =>
    refine Every.single (own_third ?_ rfl)
    split <;> simp [thirdFormats]

end Rooms

/-! Creators are known by their bare addresses. -/

theorem creator_bare : Law fun r => bare r.creator_jid = r.creator_jid where
  zero := rfl
  create _ _ full_jid _ := bare_bare full_jid
  people _ _ _ _ h := h
  configure _ _ h := h
  subject _ _ h := h
  release _ _ := rfl

theorem Law.arises {P : Room → Prop} (hP : Law P) {m : Machine} {s : Server} (hs : Arises m s)
    (hd : Tidy (roomImage m.disk)) (h : ∀ i, P (roomImage m.disk i)) : Lawful P (view s) := by
  induction hs with
  | refl => exact hP.boot m hd h
  | tail _ ha ih =>
    obtain ⟨o, ho⟩ := action_handled ha
    exact hP.steps ho.steps ih

/-- The place where the handler of a stanza looks for its room. -/
def lookupOf (st : Stanza) : Option Lookup :=
  match roomRequest st with
  | some .presence => some .presence
  | some .owner => some .owner
  | some .admin => some (if st.type = .IQ_SET then .adminSet else .adminGet)
  | some .message => if (strstr st.to_ CONFERENCE).isSome then some .message else none
  | none => if ¬ restarts st ∧ Service.of st.xmlns = some .discoItems ∧ (strstr st.to_ CONFERENCE).isSome then
      some .discoItems else none

/-- To no one but the creator of room `i` an address is shown that is the creator's or another occupant's. -/
def Discreet (s : Server) (me : Slot) (st : Stanza) (i : Fin MAX_ROOMS) : Prop :=
  let r := s.stores.rooms i
  ∀ x ∈ sent s me st, bare (s.client_registry x.1).full_jid ≠ r.creator_jid → ∀ v ∈ x.2.addresses,
    bare v ≠ r.creator_jid ∧
      ∀ j, (r.users j).active → (r.users j).jid ≠ bare (s.client_registry x.1).full_jid → bare v ≠ (r.users j).jid

theorem OwnOr.discreet {s : Server} {me : Slot} {st : Stanza} {i : Fin MAX_ROOMS}
    (h : Every (OwnOr s (s.stores.rooms i)) (sent s me st)) : Discreet s me st i := by
  intro x hx hne v hv
  have hown := (h x hx).resolve_left hne v hv
  exact ⟨fun he => hne (hown.symm.trans he), fun j _ hj he => hj (he.symm.trans hown)⟩

/-- Someone else than the creator asks who the owner is. -/
structure OwnerAsked (c : Ctx) (st : Stanza) (r : Room) : Prop where
  asks : hasAttr st.payload "affiliation='owner'" "affiliation=\"owner\""
  other : bare c.full_jid ≠ r.creator_jid
  answer : r.creator_jid ≠ [] ∨
    ∃ j, r.firstUser (fun _ => true) = some j ∧ (r.users j).jid ≠ [] ∧ (r.users j).jid ≠ bare c.full_jid

/-- What discovery shows of the occupants of a room are their nicks. -/
theorem occupantItems_nicks {r r' : Room} (h : ∀ j, (r'.users j).active = (r.users j).active ∧
    (r'.users j).nick = (r.users j).nick) (to_ : Str) : Texts.occupantItems r' to_ = Texts.occupantItems r to_ := by
  have hmap : ∀ (q : Room) (js : List (Fin MAX_USERS_PER_ROOM)), ((js.map q.users).filter (·.active)).map
      (fun p => snprintf 256 fmtOccupantItem [.s to_, .s p.nick, .s p.nick]) =
      (js.filter fun j => (q.users j).active).map fun j =>
        snprintf 256 fmtOccupantItem [.s to_, .s (q.users j).nick, .s (q.users j).nick] := by
    intro q js
    rw [List.filter_map, List.map_map]
    rfl
  simp only [Texts.occupantItems, hmap, h]

/-- The owner of a room as far as it is known. -/
def knownOwner (r : Room) : Str :=
  if r.creator_jid ≠ [] then strncpy 63 r.creator_jid
  else (r.firstUser fun _ => true).elim [] fun j => bare (r.users j).jid

theorem ownerJid_known {t : Stores} {to_ : Str} {i : Fin MAX_ROOMS} (hi : Lookup.adminGet.room t to_ = some i)
    (full_jid : Str) : ownerJid t to_ full_jid =
      if knownOwner (t.rooms i) = [] then strncpy 63 full_jid else knownOwner (t.rooms i) := by
  rw [Lookup.room] at hi
  split at hi
  · rename_i hat
    unfold ownerJid knownOwner
    rw [if_pos hat, hi]
    dsimp only
    cases (t.rooms i).firstUser (fun _ => true) <;> rfl
  · cases hi

section Owner
variable {s : Server} {me : Slot} {st : Stanza} {i : Fin MAX_ROOMS}

theorem strncpy_same {x : Str} (h : Holds 64 x) : strncpy 63 x = x := by
  rw [strncpy, cstr_of_clean h.2, List.take_of_length_le (Nat.le_of_lt_succ h.1)]

theorem knownOwner_own {c : Ctx} {r : Room} (hr : AllEntitled r) (hother : bare c.full_jid ≠ r.creator_jid)
    (hno : ¬ OwnerAsked c st r) (ha : hasAttr st.payload "affiliation='owner'" "affiliation=\"owner\"")
    (hk : knownOwner r ≠ []) : knownOwner r = bare c.full_jid := by
  have hanswer : ¬ (r.creator_jid ≠ [] ∨
      ∃ j, r.firstUser (fun _ => true) = some j ∧ (r.users j).jid ≠ [] ∧ (r.users j).jid ≠ bare c.full_jid) :=
    fun h => hno ⟨ha, hother, h⟩
  obtain ⟨hcr, hfirst⟩ := not_or.mp hanswer
  rw [knownOwner, if_neg hcr] at hk ⊢
  cases hj : r.firstUser (fun _ => true) with
  | none =>
    rw [hj] at hk
    exact absurd rfl hk
  | some j =>
    rw [hj] at hk
    have hjid : bare (r.users j).jid = (r.users j).jid := (hr j (firstUser_some hj).1).jid
    dsimp only [Option.elim_some] at hk ⊢
    rw [hjid] at hk ⊢
    by_contra hne
    exact hfirst ⟨j, hj, hk, hne⟩

/-- The answer to the question for the owner. -/
def ownerAnswer (s : Server) (me : Slot) (st : Stanza) : Text :=
  ⟨1024, fmtOwner, [.s st.id, .s (s.client_registry me).full_jid,
    .s (ownerJid s.stores st.to_ (s.client_registry me).full_jid)]⟩

theorem mem_ownerAnswer {v : Str} : v ∈ (ownerAnswer s me st).addresses ↔ v = cstr (s.client_registry me).full_jid ∨
      v = cstr (ownerJid s.stores st.to_ (s.client_registry me).full_jid) := by
  have hholes : addressHoles (pieces (ownerAnswer s me st).fmt) = [1, 2] := holes_jid.2
  rw [Text.addresses, hholes]
  simp [ownerAnswer, Arg.text]

theorem ownerAnswer_iff (hj : ∀ i, Holds 64 (s.client_registry i).full_jid) (hr : AllEntitled (s.stores.rooms i))
    (hok : RoomOk (s.stores.rooms i)) (hcr : bare (s.stores.rooms i).creator_jid = (s.stores.rooms i).creator_jid)
    (hi : Lookup.adminGet.room s.stores st.to_ = some i)
    (ha : hasAttr st.payload "affiliation='owner'" "affiliation=\"owner\"")
    (hsent : sent s me st = [(me, ownerAnswer s me st)]) :
    Discreet s me st i ↔ ¬ OwnerAsked (s.client_registry me) st (s.stores.rooms i) := by
  let c := s.client_registry me
  let r := s.stores.rooms i
  have howner := ownerJid_known hi c.full_jid
  constructor
  · intro hd hask
    have hmem : (me, ownerAnswer s me st) ∈ sent s me st := by
      rw [hsent]
      exact List.mem_singleton_self _
    have hx := hd _ hmem hask.other _ (mem_ownerAnswer.mpr (.inr rfl))
    rw [bare_cstr, howner] at hx
    by_cases hcreator : r.creator_jid ≠ []
    · have hknown : knownOwner r = r.creator_jid := (if_pos hcreator).trans (strncpy_same hok.creator_jid)
      rw [if_neg (hknown ▸ hcreator), hknown] at hx
      exact hx.1 hcr
    · obtain ⟨j, hfirst, hne, hnot⟩ := hask.answer.resolve_left hcreator
      have hact := (firstUser_some hfirst).1
      have hknown : knownOwner r = (r.users j).jid := by
        rw [knownOwner, if_neg hcreator, hfirst]
        exact (hr j hact).jid
      rw [if_neg (hknown ▸ hne), hknown] at hx
      exact hx.2 j hact hnot (hr j hact).jid
  · intro hno
    refine OwnOr.discreet ?_
    rw [hsent]
    refine Every.single ?_
    by_cases hother : bare c.full_jid = r.creator_jid
    · exact .inl hother
    · refine .inr fun v hv => ?_
      rcases mem_ownerAnswer.mp hv with rfl | rfl
      · exact bare_cstr _
      · rw [bare_cstr, howner]
        split
        · rw [strncpy_same (hj me)]
        · rename_i hk
          rw [knownOwner_own hr hother hno ha hk, bare_bare]

end Owner

section Served
variable {s : Server} {me : Slot} {st : Stanza} {i : Fin MAX_ROOMS}
  (hj : ∀ i, Holds 64 (s.client_registry i).full_jid) (hr : ∀ i, AllEntitled (s.stores.rooms i))
include hj hr

theorem mucPresence_own (hi : Lookup.presence.room s.stores st.to_ = some i)
    (hanon : (s.stores.rooms i).semi_anon ≠ 0) : Every (OwnOr s (s.stores.rooms i)) (Texts.mucPresence s me st) := by
  obtain ⟨t, ht, hf⟩ := Option.bind_eq_some_iff.mp hi
  have hfind : RoomTable.find s.stores.rooms t.room_name = some i := hf
  simp only [Texts.mucPresence, ht, enter_found hfind, hfind]
  exact attend_own hj (hr i) hanon t _

theorem mucKick_own (want_ban : Bool) : Every (OwnOnly s) (Texts.mucKick s st want_ban) := by
  unfold Texts.mucKick
  cases ht : kickTarget s.stores st with
  | none => exact Every.nil
  | some p =>
    unfold kickTarget at ht
    cases hf : findRoom s.stores (roomName st.to_) with
    | none => simp [hf] at ht
    | some k =>
      simp only [hf, Option.map_eq_some_iff] at ht
      obtain ⟨j, hfirst, rfl⟩ := ht
      exact kickOne_own hj (hr k) (firstUser_some hfirst).1 _ _ _

theorem adminSet_own (h : st.type = .IQ_SET) : Every (OwnOnly s) (Texts.admin s me st) := by
  unfold Texts.admin
  dsimp only
  rw [if_pos h]
  exact Every.append (Every.ite (fun _ => mucKick_own hj hr _) fun _ => Every.nil)
    (Every.single (own_second (by simp [secondFormats]) rfl))

theorem owner_own : Every (OwnOnly s) (Texts.owner s me st) := by
  refine Every.ite (fun _ => Every.append ?_ (Every.single (own_second (by simp [secondFormats]) rfl))) fun _ =>
    Every.ite (fun _ => Every.single (own_second (by simp [secondFormats]) rfl)) fun _ =>
      Every.single (own_second (by simp [secondFormats]) rfl)
  unfold Texts.mucDestroy
  cases findRoom s.stores (roomName st.to_) with
  | none => exact Every.nil
  | some k => exact destroy_own hj (hr k) _ _ _

theorem message_own (hc : (strstr st.to_ CONFERENCE).isSome) : Every (OwnOnly s) (Texts.message s me st) := by
  rw [Texts.message, if_pos hc]
  cases Texts.messageRoom s.stores st.to_ with
  | none => exact Every.nil
  | some k =>
    dsimp only
    cases roomSlash st.to_ with
    | some p => exact privateMessage_own p
    | none => exact groupMessage_own hj (hr k)

omit hj hr in
theorem discoItems_own (hc : (strstr st.to_ CONFERENCE).isSome) : Every (OwnOnly s) (Texts.discoItems s me st) := by
  rw [Texts.discoItems, if_pos hc]
  refine Every.ite (fun _ => ?_) fun _ => Every.single (own_second (by simp [secondFormats]) rfl)
  cases findRoom s.stores (localPart st.to_) <;> exact Every.single (own_second (by simp [secondFormats]) rfl)

/-- What is sent at every place but that of the question for the owner. -/
theorem served_own (hstate : .SESSION ≤ (s.client_registry me).state) {x : Lookup} (hx : lookupOf st = some x)
    (hne : x ≠ .adminGet) (hi : x.room s.stores st.to_ = some i) (hanon : (s.stores.rooms i).semi_anon ≠ 0) :
    Every (OwnOr s (s.stores.rooms i)) (sent s me st) := by
  unfold lookupOf at hx
  cases hq : roomRequest st with
  | some q =>
    rw [hq] at hx
    rw [sent_request hq hstate]
    cases q with
    | presence =>
      cases hx
      exact mucPresence_own hj hr hi hanon
    | owner => exact (owner_own hj hr).ownOr _
    | admin =>
      refine (adminSet_own hj hr ?_).ownOr _
      by_contra ht
      rw [if_neg ht] at hx
      exact hne (Option.some.inj hx).symm
    | message =>
      refine (message_own hj hr ?_).ownOr _
      by_contra hc
      rw [if_neg hc] at hx
      cases hx
  | none =>
    rw [hq] at hx
    by_cases hd : ¬ restarts st ∧ Service.of st.xmlns = some .discoItems ∧ (strstr st.to_ CONFERENCE).isSome
    · obtain ⟨hre, hk, hc⟩ := hd
      have hsent : sent s me st = Texts.discoItems s me st := by
        rw [sent, if_neg hre, hk]
        exact if_neg (Nat.not_lt.mpr hstate)
      rw [hsent]
      exact (discoItems_own hc).ownOr _
    · rw [if_neg hd] at hx
      cases hx

omit hj hr in
theorem adminGet_sent (hstate : .SESSION ≤ (s.client_registry me).state) (hx : lookupOf st = some .adminGet) :
    sent s me st = if hasAttr st.payload "affiliation='owner'" "affiliation=\"owner\"" then [(me, ownerAnswer s me st)]
      else [(me, ⟨1024, fmtAdminEmpty, [.s st.id, .s (s.client_registry me).full_jid]⟩)] := by
  have hadmin : roomRequest st = some .admin ∧ st.type ≠ .IQ_SET := by
    unfold lookupOf at hx
    cases hq : roomRequest st with
    | some q =>
      rw [hq] at hx
      cases q with
      | presence => cases hx
      | owner => cases hx
      | admin =>
        refine ⟨rfl, fun ht => ?_⟩
        rw [if_pos ht] at hx
        cases hx
      | message =>
        dsimp only at hx
        split at hx <;> cases hx
    | none =>
      rw [hq] at hx
      dsimp only at hx
      split at hx <;> cases hx
  rw [sent_request hadmin.1 hstate]
  exact if_neg hadmin.2

end Served

/-- In every room that hides addresses, every stanza to it shows those of the creator and of the other occupants to no
one but the creator exactly if it is not the question of someone else for the owner. What discovery lists of the
occupants are their nicks. -/
theorem semi_anonymous_iff (d : Disk) (hd : Tidy (roomImage d))
    (hc : ∀ i, bare (roomImage d i).creator_jid = (roomImage d i).creator_jid) (ls : List Life) (l : Life) {s : Server}
    (hs : Arises (l.on (reboots d ls)) s) (me : Slot) {st : Stanza} (hstate : .SESSION ≤ (s.client_registry me).state)
    {x : Lookup} (hx : lookupOf st = some x) {i : Fin MAX_ROOMS} (hi : x.room s.stores st.to_ = some i)
    (hanon : (s.stores.rooms i).semi_anon ≠ 0) :
    (Discreet s me st i ↔ ¬ (x = .adminGet ∧ OwnerAsked (s.client_registry me) st (s.stores.rooms i))) ∧
      ∀ r, (∀ j, (r.users j).active = ((s.stores.rooms i).users j).active ∧
          (r.users j).nick = ((s.stores.rooms i).users j).nick) →
        Texts.occupantItems r st.to_ = Texts.occupantItems (s.stores.rooms i) st.to_ := by
  have hj : ∀ i, Holds 64 (s.client_registry i).full_jid := fun i =>
    ((actions_entered hs (boot_named _)).1.session i).full_jid
  have hr : ∀ i, AllEntitled (s.stores.rooms i) := hs.entitled
  refine ⟨?_, fun r h => occupantItems_nicks h _⟩
  by_cases hne : x = .adminGet
  · subst hne
    have hlaw : Lawful (fun r => bare r.creator_jid = r.creator_jid) (view s) := by
      obtain ⟨hdisk, himage⟩ := creator_bare.reboots ls hd hc
      exact creator_bare.arises hs hdisk himage
    have hsent := adminGet_sent hstate hx
    by_cases ha : hasAttr st.payload "affiliation='owner'" "affiliation=\"owner\""
    · rw [if_pos ha] at hsent
      rw [ownerAnswer_iff hj (hr i) (hlaw.ok.table.room i).ok (hlaw.table i) hi ha hsent]
      simp
    · rw [if_neg ha] at hsent
      refine iff_of_true (OwnOr.discreet ?_) fun h => ha h.2.asks
      rw [hsent]
      exact Every.single (.inr (own_second (by simp [secondFormats]) rfl))
  · exact iff_of_true (OwnOr.discreet (served_own hj hr hstate hx hne hi hanon)) fun h => hne h.1

/-- The other user shows up again. -/
def bobAgain : Stanza := { Stanza.zero with type := .PRESENCE, to_ := cat [HALL, "/bob"], xmlns := RoomTable.NS_MUC }

theorem semi_anonymous_bob :
    (sent gathered 1 bobAgain).map (fun x => (x.1, x.2.addresses)) =
        [(0, [lit "admin@angelic.local"]), (1, [lit "user1@angelic.local"])] ∧
      Discreet gathered 1 bobAgain 0 := by
  have hstate : ClientState.rank .SESSION ≤ (gathered.client_registry 1).state.rank ∧
      Lookup.presence.room gathered.stores bobAgain.to_ = some 0 ∧ (gathered.stores.rooms 0).semi_anon = 1 ∧
      (sent gathered 1 bobAgain).map (fun x => (x.1, x.2.addresses)) =
        [(0, [lit "admin@angelic.local"]), (1, [lit "user1@angelic.local"])] := by decide +kernel
  obtain ⟨hs, hroom, hanon, hsent⟩ := hstate
  have hlookup : lookupOf bobAgain = some .presence := by decide +kernel
  have harises : Arises (gathering.on (reboots (fun _ => []) [])) gathered := .life gathering fun _ => []
  have h := semi_anonymous_iff (fun _ => []) tidy_blank (fun i => by rw [roomImage_blank]; rfl) [] gathering harises 1 hs
    hlookup hroom (by rw [hanon]; decide)
  exact ⟨hsent, h.1.mpr fun hc => by cases hc.1⟩

/-- Asked for the owner of the room, the server tells the other user who created it. -/
theorem owner_told :
    let s := step gathered (.recv 8 [passed (cat ["<iq type='get' id='o' to='", HALL,
      "'><query xmlns='http://jabber.org/protocol/muc#admin'><item affiliation='owner'/></query></iq>"])] true)
    (gathered.stores.rooms 0).semi_anon = 1 ∧ (gathered.stores.rooms 0).creator_jid = lit "admin@angelic.local" ∧
      bare (gathered.client_registry 1).full_jid = lit "user1@angelic.local" ∧
      (sends s).getLast? = some (1, cat ["<iq type='result' id='o' to='user1@angelic.local/unikernel-0'>",
        "<query xmlns='http://jabber.org/protocol/muc#admin'>",
        "<item affiliation='owner' jid='admin@angelic.local' role='moderator'/></query></iq>"]) := by
  decide +kernel

end Angelic.Proofs
