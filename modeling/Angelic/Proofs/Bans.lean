import Angelic.Proofs.Routing
import Angelic.Proofs.RoomChanges
import Angelic.Proofs.RoomLaws

namespace Angelic.Proofs
open CString Model Spec StateRel Relation

variable {r : Room} {x : Str} {c : Ctx}
variable {r' : Room} {i : Fin MAX_ROOMS}

/-! Bans: what was banned stays out of the room until it ends, over stanzas and restarts. -/

/-! The list of bans. -/

theorem banned_iff {jid : Str} : r.banned jid = true ↔
    ∃ bi : Fin MAX_BANNED_PER_ROOM, (bi : Int) < r.banned_count.toInt ∧ r.banned_jids bi = jid := by
  rw [Room.banned, firstIdx, List.find?_isSome]
  simp

/-- The bans of another room count as those of this one. -/
structure SameBans (r r' : Room) : Prop where
  count : r'.banned_count = r.banned_count
  jids : ∀ bi : Fin MAX_BANNED_PER_ROOM, (bi : Int) < r.banned_count.toInt → r'.banned_jids bi = r.banned_jids bi

theorem SameBans.banned (h : SameBans r r') (jid : Str) : r'.banned jid = r.banned jid := by
  rw [Bool.eq_iff_iff, banned_iff, banned_iff, h.count]
  refine exists_congr fun bi => and_congr_right fun hb => ?_
  rw [h.jids bi hb]

theorem SameBans.banRoom (h : SameBans r r') : Room.banRoom r' ↔ Room.banRoom r := by
  rw [Room.banRoom, Room.banRoom, h.count]

/-- A ban is added behind the others. -/
theorem ban_banned_iff (h : Room.banRoom r) (jid x : Str) :
    (r.ban jid).banned x = true ↔ r.banned x = true ∨ x = strncpy 63 jid := by
  have h0 : 0 ≤ r.banned_count.toInt := h.1
  have h8 : r.banned_count.toInt < 8 := h.2
  have hlt : r.banned_count.toInt.toNat < MAX_BANNED_PER_ROOM := by
    change _ < 8
    omega
  let next : Fin MAX_BANNED_PER_ROOM := ⟨r.banned_count.toInt.toNat, hlt⟩
  have hb : r.ban jid = { r with
      banned_jids := Function.update r.banned_jids next (strncpy 63 jid)
      banned_count := r.banned_count + 1 } := dif_pos h
  have hn : (r.banned_count + 1).toInt = r.banned_count.toInt + 1 := by
    have h1 : (1 : Int32).toInt = 1 := rfl
    rw [Int32.toInt_add, h1, Int.bmod_eq_of_le (by omega) (by omega)]
  rw [banned_iff, banned_iff, hb]
  dsimp only
  rw [hn]
  constructor
  · rintro ⟨bi, hbi, he⟩
    by_cases hne : bi = next
    · rw [hne, Function.update_self] at he
      exact .inr he.symm
    · rw [Function.update_of_ne hne] at he
      have hval : (bi : Nat) ≠ r.banned_count.toInt.toNat := fun e => hne (Fin.ext e)
      exact .inl ⟨bi, by omega, he⟩
  · rintro (⟨bi, hbi, he⟩ | rfl)
    · have hne : bi ≠ next := by
        intro e
        have hval : (bi : Nat) = r.banned_count.toInt.toNat := congrArg Fin.val e
        omega
      exact ⟨bi, by omega, by rw [Function.update_of_ne hne]; exact he⟩
    · have hval : (next : Nat) = r.banned_count.toInt.toNat := rfl
      exact ⟨next, by omega, Function.update_self ..⟩

/-- A ban never takes one away, and none is added to a full list. -/
theorem ban_keeps (h : r.banned x = true) (jid : Str) : (r.ban jid).banned x = true := by
  by_cases hr : Room.banRoom r
  · exact (ban_banned_iff hr jid x).mpr (.inl h)
  · rwa [ban_of_full hr]

/-! The fate of an address in a room that lasts. -/

/-- The address is banned, and is not in the room. -/
structure KeptOut (x : Str) (r : Room) : Prop where
  banned : r.banned x = true
  absent : ∀ j, (r.users j).active → (r.users j).jid ≠ x

/-- The address is not banned, and cannot be any more. -/
structure Admitted (x : Str) (r : Room) : Prop where
  banned : r.banned x = false
  full : ¬ Room.banRoom r

/-- What changes a room that stays in use takes no ban away, and adds none when there is no room for one. -/
theorem change_banned (hc : RoomChange c r r') (ha : r'.active ≠ 0) :
    SameBans r r' ∨ ∃ jid j, r' = (r.ban jid).setUser j .zero := by
  cases hc with
  | same => exact .inl ⟨rfl, fun _ _ => rfl⟩
  | destroyed => exact absurd rfl ha
  | configured payload => exact .inl ⟨rfl, fun _ _ => rfl⟩
  | subject text => exact .inl ⟨rfl, fun _ _ => rfl⟩
  | kicked j hj want_ban =>
    cases want_ban with
    | false => exact .inl ⟨rfl, fun _ _ => rfl⟩
    | true => exact .inr ⟨_, j, rfl⟩
  | left j => exact .inl ⟨rfl, fun _ _ => rfl⟩
  | released j => exact absurd rfl ha
  | renamed k nick hk => exact .inl ⟨rfl, fun _ _ => rfl⟩
  | joined nick hb hj =>
    unfold Room.join
    cases firstIdx (fun j => !(r.users j).active) with
    | none => exact .inl ⟨rfl, fun _ _ => rfl⟩
    | some j => exact .inl ⟨rfl, fun _ _ => rfl⟩

theorem KeptOut.change (h : KeptOut x r) (hc : RoomChange c r r') (ha : r'.active ≠ 0) : KeptOut x r' := by
  constructor
  · rcases change_banned hc ha with hs | ⟨jid, j, rfl⟩
    · exact (hs.banned x).trans h.banned
    · exact ban_keeps h.banned jid
  · intro j hj he
    rcases hc.occupant hj with ⟨hu, hjid⟩ | ⟨hjid, hb⟩
    · exact h.absent j hu (hjid.symm.trans he)
    · rw [← hjid, he, h.banned] at hb
      cases hb

theorem Admitted.sameBans (h : Admitted x r) (hs : SameBans r r') : Admitted x r' :=
  ⟨(hs.banned x).trans h.banned, fun hr => h.full (hs.banRoom.mp hr)⟩

theorem Admitted.change (h : Admitted x r) (hc : RoomChange c r r') (ha : r'.active ≠ 0) : Admitted x r' := by
  rcases change_banned hc ha with hs | ⟨jid, j, rfl⟩
  · exact h.sameBans hs
  · rw [ban_of_full h.full]
    exact h.sameBans ⟨rfl, fun _ _ => rfl⟩

/-- No room is ever locked. -/
theorem unlocked : Law (·.locked = 0) where
  zero := rfl
  create _ _ _ _ := rfl
  people _ _ _ _ h := h
  configure _ _ _ := rfl
  subject _ _ h := h
  release _ h := h

/-! What goes on after a ban: actions, and restarts that find on the disk what was in memory. -/

inductive Goes : Server → Server → Prop where
  | action {s s'} (h : Action s s') : Goes s s'
  | restart {s} (l : Life) (hd : OnDisk s.mem) (hok : ∀ n, l.disk_ok n) : Goes s (l.on s.mem.disk).boot

/-- A restart brings the stores back. -/
theorem restart_stores {s : Server} (l : Life) (hd : OnDisk s.mem) (hok : ∀ n, l.disk_ok n) :
    (l.on s.mem.disk).boot.stores = Stores.saved s.mem.stores := by
  have hload := try_load_run (m := ⟨.zero, s.mem.disk, l.disk_ok, 0⟩) hd.magic hd.version fun _ _ => hok _
  have hcrc : (unle32 ((s.mem.disk.get .header).drop 8) == compute_full_crc (diskStores s.mem.disk)) = true := by
    rw [hd.image, compute_full_crc_saved]
    simpa using hd.crc
  have hboot : (l.on s.mem.disk).boot.mem = ((if (try_load ⟨.zero, s.mem.disk, l.disk_ok, 0⟩).1 then pure ()
      else fresh_start : StateM Mem Unit) (try_load ⟨.zero, s.mem.disk, l.disk_ok, 0⟩).2).2 := rfl
  rw [Server.stores, hboot, hload]
  dsimp only
  rw [if_pos hcrc]
  exact hd.image

theorem restart_rooms {s : Server} (l : Life) (hd : OnDisk s.mem) (hok : ∀ n, l.disk_ok n) (i : Fin MAX_ROOMS) :
    SameBans (s.stores.rooms i) ((l.on s.mem.disk).boot.stores.rooms i) ∧
      ∀ j, (((l.on s.mem.disk).boot.stores.rooms i).users j).active = false := by
  rw [restart_stores l hd hok]
  exact ⟨⟨rfl, fun bi hb => if_pos hb⟩, fun _ => rfl⟩

theorem Goes.lawful {P : Room → Prop} (hP : Law P) {s s' : Server} (h : Goes s s') (hl : Lawful P (view s)) :
    Lawful P (view s') := by
  cases h with
  | action h =>
    obtain ⟨o, ho⟩ := action_handled h
    exact hP.steps ho.steps hl
  | restart l hd hok => exact hP.boot _ hl.ok.image hl.image

/-- What an action does to a room that was in use. -/
theorem action_change {s s' : Server} (h : Action s s') (ha : (s.stores.rooms i).active ≠ 0) :
    ∃ c, RoomChange c (s.stores.rooms i) (s'.stores.rooms i) := by
  obtain ⟨o, ho⟩ := action_handled h
  rw [ho.rooms]
  cases o with
  | none => exact ⟨.zero, .same⟩
  | some p =>
    obtain ⟨r, hr, hc⟩ := handle_change s.stores.rooms p.1 p.2 i
    rcases hr with rfl | ⟨h0, -⟩
    · exact ⟨p.1, hc⟩
    · exact absurd h0 ha

/-- The server goes on, and the room is in use all the time. -/
def Endures (i : Fin MAX_ROOMS) : Server → Server → Prop :=
  ReflTransGen fun s s' => Goes s s' ∧ (s'.stores.rooms i).active ≠ 0

theorem Endures.keeps {P : Room → Prop} (hc : ∀ c r r', RoomChange c r r' → r'.active ≠ 0 → P r → P r')
    (hr : ∀ r r', SameBans r r' → (∀ j, (r'.users j).active = false) → P r → P r') {s s' : Server}
    (h : Endures i s s') (ha : (s.stores.rooms i).active ≠ 0) (hP : P (s.stores.rooms i)) :
    P (s'.stores.rooms i) ∧ (s'.stores.rooms i).active ≠ 0 := by
  induction h with
  | refl => exact ⟨hP, ha⟩
  | tail _ hg ih =>
    obtain ⟨hb, hba⟩ := ih
    refine ⟨?_, hg.2⟩
    cases hg.1 with
    | action h =>
      obtain ⟨c, hch⟩ := action_change h hba
      exact hc c _ _ hch hg.2 hb
    | restart l hd hok =>
      obtain ⟨hs, hu⟩ := restart_rooms l hd hok i
      exact hr _ _ hs hu hb

theorem Endures.lawful {P : Room → Prop} (hP : Law P) {s s' : Server} (h : Endures i s s')
    (hl : Lawful P (view s)) : Lawful P (view s') := by
  induction h with
  | refl => exact hl
  | tail _ hg ih => exact hg.1.lawful hP ih

/-! Attempts to join. -/

/-- A presence, other than an unavailable one, to the room in slot `i`. -/
structure Attempts (s : Server) (you : Slot) (st : Stanza) (i : Fin MAX_ROOMS) : Prop where
  state : .SESSION ≤ (s.client_registry you).state
  request : roomRequest st = some .presence
  type : st.type ≠ .PRESENCE_UNAVAILABLE
  room : ∃ t, mucTarget st.to_ = some t ∧ RoomTable.find s.stores.rooms t.room_name = some i

/-- It is answered with `forbidden`, and nothing else is sent. -/
def Refused (s : Server) (you : Slot) (st : Stanza) : Prop :=
  ∃ t, mucTarget st.to_ = some t ∧ sent s you st =
    [(you, ⟨512, fmtForbidden, [.s t.bare_jid, .s t.nick, .s (s.client_registry you).full_jid]⟩)]

section Attempt
variable {s : Server} {you : Slot} {st : Stanza} {i : Fin MAX_ROOMS}

theorem Attempts.sent (h : Attempts s you st i) : ∃ t, mucTarget st.to_ = some t ∧
    Proofs.sent s you st = Texts.attend s you st (s.stores.rooms i) t false := by
  obtain ⟨t, ht, hf⟩ := h.room
  refine ⟨t, ht, ?_⟩
  rw [sent_request h.request h.state]
  change Texts.mucPresence s you st = _
  simp only [Texts.mucPresence, ht, enter_found hf, hf, Option.isNone_some]

theorem Attempts.refused (h : Attempts s you st i) (hl : (s.stores.rooms i).locked = 0)
    (hk : KeptOut (bare (s.client_registry you).full_jid) (s.stores.rooms i)) : Refused s you st := by
  obtain ⟨t, ht, hs⟩ := h.sent
  refine ⟨t, ht, hs.trans ?_⟩
  have hshut : ¬ RoomTable.shut (s.stores.rooms i) (s.client_registry you) := fun hc => hc.1 hl
  have habsent : (s.stores.rooms i).firstUser (·.jid == bare (s.client_registry you).full_jid) = none := by
    refine List.find?_eq_none.mpr fun j _ => ?_
    have := hk.absent j
    simpa using this
  unfold Texts.attend
  dsimp only
  rw [if_neg hshut, if_neg h.type, habsent]
  dsimp only
  rw [Texts.join]
  exact if_pos hk.banned

/-- A presence that is not banned is never answered so. -/
theorem Attempts.not_refused (h : Attempts s you st i)
    (hb : (s.stores.rooms i).banned (bare (s.client_registry you).full_jid) = false) : ¬ Refused s you st := by
  rintro ⟨t, -, hs⟩
  obtain ⟨t', -, ha⟩ := h.sent
  have hmem := hs ▸ List.mem_singleton_self (you, (⟨512, fmtForbidden, _⟩ : Text))
  rw [ha] at hmem
  unfold Texts.attend at hmem
  dsimp only at hmem
  split at hmem
  · exact absurd (congrArg (fun x => x.2.fmt) (List.mem_singleton.mp hmem)) (by decide : fmtForbidden ≠ fmtLockedErr)
  · have hother : ∀ f ∈ [fmtAvailSelf, fmtAvail, fmtNickConflict, fmtNickGoneSelf, fmtNickGone, fmtMemberSelf, fmtMember,
        fmtMemberJid, fmtNewRoom, fmtSubject], f ≠ fmtForbidden := by decide
    rw [if_neg h.type] at hmem
    cases hu : (s.stores.rooms i).firstUser (·.jid == bare (s.client_registry you).full_jid) with
    | some k =>
      rw [hu] at hmem
      exact hother _ ((occupant_formats s you st _ t' k).mono (by simp) _ hmem) rfl
    | none =>
      rw [hu] at hmem
      dsimp only at hmem
      rw [Texts.join, if_neg (by rw [hb]; decide)] at hmem
      split at hmem
      · exact absurd (congrArg (fun x => x.2.fmt) (List.mem_singleton.mp hmem))
          (by decide : fmtForbidden ≠ fmtJoinConflict)
      · exact hother _ ((welcome_formats s you _ t' false).mono (by simp) _ hmem) rfl

end Attempt

/-! The ban itself. -/

/-- A request to ban, in session, and the room and the occupant it is about. -/
structure BanRequest (s : Server) (me : Slot) (st : Stanza) (i : Fin MAX_ROOMS) (j : Fin MAX_USERS_PER_ROOM) : Prop where
  state : .SESSION ≤ (s.client_registry me).state
  request : roomRequest st = some .admin
  type : st.type = .IQ_SET
  ban : RoomTable.wantBan st
  target : RoomTable.target s.stores.rooms st = some (i, j)

section Ban
variable {s : Server} {me : Slot} {st : Stanza} {i : Fin MAX_ROOMS} {j : Fin MAX_USERS_PER_ROOM}

theorem BanRequest.room (h : BanRequest s me st i j) : (s.stores.rooms i).active ≠ 0 ∧
    ((s.stores.rooms i).users j).active ∧ RoomTable.find s.stores.rooms (roomName st.to_) = some i ∧
    kicked (s.stores.rooms i) st = some j := by
  have ht := h.target
  unfold RoomTable.target at ht
  cases hf : RoomTable.find s.stores.rooms (roomName st.to_) with
  | none => simp [hf] at ht
  | some k =>
    rw [hf] at ht
    obtain ⟨j', hj, he⟩ := Option.map_eq_some_iff.mp ht
    obtain ⟨rfl, rfl⟩ := Prod.mk.inj he
    exact ⟨(RoomTable.find_some hf).1, (firstUser_some hj).1, rfl, hj⟩

theorem BanRequest.after (h : BanRequest s me st i j) (ok : StanzaOk st) :
    (xmpp_route_stanza me st s).2.stores.rooms i =
      ((s.stores.rooms i).ban (bare ((s.stores.rooms i).users j).jid)).setUser j .zero := by
  obtain ⟨-, -, hf, hk⟩ := h.room
  have hs : .AUTHENTICATED ≤ (s.client_registry me).state :=
    Nat.le_trans (by decide : ClientState.rank .AUTHENTICATED ≤ ClientState.rank .SESSION) h.state
  rw [(route_rooms ok hs).2.1, RoomTable.handle_eq_serve _ (Nat.not_lt.mpr h.state), h.request, RoomTable.serve,
    RoomTable.admin, if_pos ⟨h.type, .inr h.ban⟩, kick_eq hf, hk]
  dsimp only
  rw [RoomTable.mod_self, if_pos h.ban]

end Ban

/-- After every ban that is answered with a result, and as long as the room is there, a presence of the banned address
is answered with `forbidden` exactly if the list of bans had a place for it or the address was on it before. -/
theorem bans_hold_iff (d : Disk) (hd : Tidy (roomImage d)) (hl : ∀ i, (roomImage d i).locked = 0) (ls : List Life)
    (l : Life) (me : Slot) (st : Stanza) (ok : StanzaOk st) (i : Fin MAX_ROOMS) (j : Fin MAX_USERS_PER_ROOM) :
    let s := l.run (reboots d ls)
    let r := s.stores.rooms i
    BanRequest s me st i j →
      (∀ x ∈ Texts.result s me st 1024, x ∈ sent s me st) ∧
      ∀ s', Endures i (xmpp_route_stanza me st s).2 s' → ∀ you st', Attempts s' you st' i →
        bare (s'.client_registry you).full_jid = (r.users j).jid →
          (Refused s' you st' ↔ Room.banRoom r ∨ r.banned (r.users j).jid) := by
  intro s r hban
  obtain ⟨ha, hj, -, -⟩ := hban.room
  have htidy : TidyRoom r := (life_ok l (reboots_ok ls hd)).table.room i
  have hunlocked : Lawful (·.locked = 0) (view s) := by
    obtain ⟨hdisk, himage⟩ := unlocked.reboots ls hd hl
    exact unlocked.life l hdisk himage
  have hbare : bare (r.users j).jid = (r.users j).jid := ((Arises.life l _).entitled i j hj).jid
  have hafter : (xmpp_route_stanza me st s).2.stores.rooms i = (r.ban (r.users j).jid).setUser j .zero := by
    have := hban.after ok
    rwa [hbare] at this
  have hactive : ((r.ban (r.users j).jid).setUser j .zero).active = r.active := by
    obtain ⟨jids, n, he⟩ := ban_eq r (r.users j).jid
    rw [he]
    rfl
  refine ⟨fun x hx => ?_, fun s' hs you st' hatt hjid => ?_⟩
  · rw [sent_request hban.request hban.state]
    change x ∈ Texts.admin s me st
    rw [Texts.admin, if_pos hban.type]
    exact List.mem_append_right _ hx
  · have hx : (strncpy 63 (r.users j).jid) = (r.users j).jid := by
      have hh := bare_holds (r.users j).jid
      rw [hbare] at hh
      rw [strncpy, cstr_of_clean hh.2, List.take_of_length_le (Nat.le_of_lt_succ hh.1)]
    have hlocked : (s'.stores.rooms i).locked = 0 :=
      (hs.lawful unlocked (unlocked.steps (route_rooms ok (Nat.le_trans (by decide) hban.state)).1 hunlocked)).table i
    have hgone : ∀ k, (((r.ban (r.users j).jid).setUser j .zero).users k).active →
        (((r.ban (r.users j).jid).setUser j .zero).users k).jid ≠ (r.users j).jid := by
      obtain ⟨jids, n, he⟩ := ban_eq r (r.users j).jid
      rw [he]
      intro k hk
      by_cases hkj : k = j
      · subst hkj
        simp only [Room.setUser, Function.update_self] at hk
        exact absurd hk Bool.false_ne_true
      · simp only [Room.setUser, Function.update_of_ne hkj] at hk ⊢
        exact htidy.users.jid k j hkj hk hj
    by_cases hcond : Room.banRoom r ∨ r.banned (r.users j).jid = true
    · have hout : KeptOut (r.users j).jid ((r.ban (r.users j).jid).setUser j .zero) := by
        refine ⟨?_, hgone⟩
        change (r.ban (r.users j).jid).banned (r.users j).jid = true
        rcases hcond with hr | hb
        · exact (ban_banned_iff hr _ _).mpr (.inr hx.symm)
        · exact ban_keeps hb _
      refine iff_of_true (hatt.refused hlocked ?_) hcond
      rw [hjid]
      exact (hs.keeps (fun _ _ _ hc ha h => KeptOut.change h hc ha)
        (fun _ _ hsame hnone h => ⟨(hsame.banned _).trans h.banned, fun k hk => absurd hk (by simp [hnone k])⟩)
        (by rw [hafter, hactive]; exact ha) (by rw [hafter]; exact hout)).1
    · obtain ⟨hfull, hb⟩ := not_or.mp hcond
      have hin : Admitted (r.users j).jid ((r.ban (r.users j).jid).setUser j .zero) := by
        rw [ban_of_full hfull]
        exact Admitted.sameBans ⟨Bool.eq_false_iff.mpr hb, hfull⟩ ⟨rfl, fun _ _ => rfl⟩
      refine iff_of_false (hatt.not_refused ?_) hcond
      rw [hjid]
      exact (hs.keeps (fun _ _ _ hc ha h => Admitted.change h hc ha) (fun _ _ hsame _ h => h.sameBans hsame)
        (by rw [hafter, hactive]; exact ha) (by rw [hafter]; exact hin)).1.banned

def banFromHall (nick : String) : Str :=
  cat ["<iq type='set' id='b' to='", HALL, "'><query xmlns='http://jabber.org/protocol/muc#admin'><item nick='", nick,
    "' affiliation='outcast'/></query></iq>"]

/-- The administrator bans the other user, as the router gets it. -/
def banBob : Stanza :=
  { Stanza.zero with
    type := .IQ_SET, to_ := lit HALL, xmlns := RoomTable.NS_ADMIN
    payload := lit "<item nick='bob' affiliation='outcast'/>" }

def bobJoins : Stanza :=
  { Stanza.zero with type := .PRESENCE, to_ := cat [HALL, "/bob"], xmlns := RoomTable.NS_MUC }

theorem bans_hold_bob :
    let s := (xmpp_route_stanza 0 banBob gathered).2
    bare (s.client_registry 1).full_jid = lit "user1@angelic.local" ∧ Refused s 1 bobJoins := by
  have hrequest : roomRequest banBob = some .admin ∧ RoomTable.wantBan banBob ∧
      roomRequest bobJoins = some .presence ∧ mucTarget bobJoins.to_ = some ⟨lit "bob", lit HALL, lit "hall"⟩ := by
    decide +kernel
  obtain ⟨hadmin, hwant, hpresence, htarget⟩ := hrequest
  -- one evaluation of the run for all that is read off it
  have hstate : ClientState.rank .SESSION ≤ (gathered.client_registry 0).state.rank ∧
      RoomTable.target gathered.stores.rooms banBob = some (0, 1) ∧
      0 ≤ (gathered.stores.rooms 0).banned_count.toInt ∧ (gathered.stores.rooms 0).banned_count.toInt < 8 ∧
      ((gathered.stores.rooms 0).users 1).jid = lit "user1@angelic.local" ∧
      ClientState.rank .SESSION ≤ ((xmpp_route_stanza 0 banBob gathered).2.client_registry 1).state.rank ∧
      RoomTable.find (xmpp_route_stanza 0 banBob gathered).2.stores.rooms (lit "hall") = some 0 ∧
      bare ((xmpp_route_stanza 0 banBob gathered).2.client_registry 1).full_jid = lit "user1@angelic.local" := by
    decide +kernel
  obtain ⟨hin, hbob, hnonneg, hplace, huser, hyou, hfind, hjid⟩ := hstate
  have hrun : gathering.run (reboots (fun _ => []) []) = gathered := rfl
  have h := bans_hold_iff (fun _ => []) tidy_blank (fun i => by rw [roomImage_blank]; rfl) [] gathering 0 banBob
    ⟨by decide, by decide⟩ 0 1
  dsimp only at h
  rw [hrun] at h
  exact ⟨hjid, ((h ⟨hin, hadmin, rfl, hwant, hbob⟩).2 _ .refl 1 bobJoins
    ⟨hyou, hpresence, by decide, ⟨_, htarget, hfind⟩⟩ (hjid.trans huser.symm)).mpr (.inl ⟨hnonneg, hplace⟩)⟩

/-- Someone without a password, under the name given in base64, joins with that as the nick and is banned. -/
def comesAndIsBanned (pcb : Pcb) (name : String) : List Event :=
  visit pcb (cat ["<auth mechanism='ANONYMOUS'>", name, "</auth>"]) [inHall name ""] ++
    [.recv 7 [passed (banFromHall name)] true]

def eightBans : List Event :=
  visit 7 authAdmin [inHall "ada" ""] ++ comesAndIsBanned 11 "AHUxAA==" ++ comesAndIsBanned 12 "AHUyAA==" ++
    comesAndIsBanned 13 "AHUzAA==" ++ comesAndIsBanned 14 "AHU0AA==" ++ comesAndIsBanned 15 "AHU1AA==" ++
    comesAndIsBanned 16 "AHU2AA==" ++ comesAndIsBanned 17 "AHU3AA==" ++ comesAndIsBanned 18 "AHU4AA=="

set_option maxRecDepth 20000 in
/-- The ninth ban is answered with a result, and whom it was about joins again. -/
theorem ninth_ban_lost :
    let s := (lifeOf (eightBans ++ comesAndIsBanned 19 "AHU5AA==")).run fun _ => []
    let s' := step s (.recv 19 [passed (inHall "AHU5AA==" "")] true)
    bare (s.client_registry 9).full_jid = lit "u9@angelic.local" ∧
      (sends s).getLast? = some (0, cat ["<iq type='result' id='b' to='admin@angelic.local/unikernel-0'/>"]) ∧
      (s.stores.rooms 0).firstUser (·.jid == lit "u9@angelic.local") = none ∧
      (s'.stores.rooms 0).firstUser (·.jid == lit "u9@angelic.local") = some 1 := by
  decide +kernel

end Angelic.Proofs
