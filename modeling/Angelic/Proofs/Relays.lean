import Angelic.Proofs.RoomChanges
import Angelic.Proofs.Rosters

namespace Angelic.Proofs
open CString Model Relation

variable {x : Sent}

/-! What a room passes on of a message, and under whose nick. -/

def relayFormats : List Str := [fmtPmWrapped, fmtPm, fmtGroupWrapped, fmtGroup]

/-- The entry of a room that is the client's own. -/
structure Occupies (c : Ctx) (r : Room) (j : Fin MAX_USERS_PER_ROOM) : Prop where
  active : (r.users j).active
  jid : (r.users j).jid = bare c.full_jid

/-- The address of the room in that of an occupant. -/
def roomOf (to_ : Str) : Str :=
  match roomSlash to_ with
  | some p => upto to_ p
  | none => to_

/-- The text starts as one from the occupant of a nick. -/
def From (t : Text) (room nick : Str) : Prop :=
  ∃ rest args, t.fmt = lit "<message from='%s/%s' to='%s' " ++ rest ∧ t.args = .s room :: .s nick :: args

theorem relay_from {t : Text} (h : t.fmt ∈ relayFormats) (room nick : Str) :
    From t room nick ↔ t.args.take 2 = [.s room, .s nick] := by
  have hfmt : ∀ f ∈ relayFormats, f = lit "<message from='%s/%s' to='%s' " ++ f.drop 30 := by decide +kernel
  constructor
  · rintro ⟨rest, args, -, ha⟩
    rw [ha]
    rfl
  · intro ha
    exact ⟨_, t.args.drop 2, hfmt _ h, by rw [← List.take_append_drop 2 t.args, ha]; rfl⟩

/-- All that room `i` passes on is from the sender, and nothing comes from someone who is not in it. -/
structure Relays (s : Server) (me : Slot) (st : Stanza) (i : Fin MAX_ROOMS) : Prop where
  from_ : ∀ x ∈ sent s me st, x.2.fmt ∈ relayFormats →
    ∃ j, Occupies (s.client_registry me) (s.stores.rooms i) j ∧
      From x.2 (roomOf st.to_) ((s.stores.rooms i).users j).nick
  outsider : (∀ j, ¬ Occupies (s.client_registry me) (s.stores.rooms i) j) →
    (∀ x ∈ sent s me st, x.2.fmt ∉ relayFormats) ∧
      ((xmpp_route_stanza me st s).2.stores.rooms i).subject = (s.stores.rooms i).subject

/-- The message comes to the handler of messages. -/
def Heard (s : Server) (me : Slot) (st : Stanza) : Prop :=
  .SESSION ≤ (s.client_registry me).state ∧ roomRequest st = some .message

/-- The nick of a private message is that of an occupant in session, and the receive buffer does not have it for a
group message. -/
def PassedOn (s : Server) (me : Slot) (r : Room) (to_slash : Str) : Prop :=
  hasAttr (s.client_registry me).rx "type='groupchat'" "type=\"groupchat\"" = false ∧
    (Texts.recipient s r to_slash.tail).isSome

/-- Group messages look for the sender's bare address, private ones for the full one, and whom they do not find they
call `unknown`. -/
def Attributed (s : Server) (me : Slot) (st : Stanza) (r : Room) : Prop :=
  match roomSlash st.to_ with
  | some p => PassedOn s me r p → ∃ j, Occupies (s.client_registry me) r j ∧
      (ch '/' ∉ (s.client_registry me).full_jid ∨ (r.users j).nick = lit "unknown")
  | none => (∃ j, Occupies (s.client_registry me) r j) ∨
      (∀ j, (r.users j).active → find_client_by_jid s (r.users j).jid = none) ∧
        ∀ subj, newSubject st.payload = some subj → subj = r.subject

section Stanza
variable {s : Server} {me : Slot} {st : Stanza}

/-- No other handler uses the formats. -/
theorem heard_of_relay (ht : st.type = .MESSAGE) (hx : x ∈ sent s me st) (hf : x.2.fmt ∈ relayFormats) :
    Heard s me st := by
  have hother : ∀ f ∈ [fmtFeaturesBind, fmtFeaturesSasl, fmtFeaturesTls], f ∉ relayFormats := by decide
  have hservice : ∀ (k : Service), ∀ f ∈ k.formats, f ∉ relayFormats := by
    intro k
    cases k <;> decide
  unfold sent at hx
  split at hx
  · exact absurd hf (hother _ (features_formats s me x hx))
  · rename_i hr
    cases hk : Service.of st.xmlns with
    | some k =>
      simp only [hk] at hx
      split at hx
      · have hearly : Texts.tooEarly s me st = [] := if_neg (by simp [ht, StanzaType.isRequest])
        rw [hearly] at hx
        exact absurd hx List.not_mem_nil
      · exact absurd hf (hservice k _ (k.texts_formats s me st x hx))
    | none =>
      simp only [hk] at hx
      by_cases hs : .SESSION ≤ (s.client_registry me).state
      · refine ⟨hs, ?_⟩
        rw [roomRequest, if_neg (show ¬ (st.xmlns ≠ [] ∧ _) from hr), Service.find_router, hk, if_pos (by rfl), if_pos ht]
      · have hnone : Texts.byKind s me st = [] := by
          unfold Texts.byKind
          dsimp only
          rw [if_neg fun h => hs h.1, if_neg fun h => hs h.1, if_neg fun h => hs h.1,
            if_neg fun h => absurd (ht.symm.trans h.1) (by decide)]
        rw [hnone] at hx
        exact absurd hx List.not_mem_nil

variable {T : RoomTable} {c : Ctx} {i : Fin MAX_ROOMS}

theorem mod_subject {k : Fin MAX_ROOMS} {f : Room → Room} (hf : ∀ r, (f r).subject = r.subject) :
    (T.mod k f i).subject = (T i).subject := by
  by_cases hik : i = k
  · subst hik
    rw [T.mod_self]
    exact hf _
  · rw [T.mod_of_ne hik]

theorem attend_subject {k : Fin MAX_ROOMS} (ht : st.type = .MESSAGE) (nick : Str) :
    (T.attend k c st nick i).subject = (T i).subject := by
  unfold RoomTable.attend
  split
  · rfl
  · rw [if_neg (by simp [ht])]
    unfold RoomTable.arrive
    cases (T k).firstUser (·.jid == bare c.full_jid) with
    | some j =>
      dsimp only [RoomTable.rename]
      split
      · rfl
      · exact mod_subject fun _ => rfl
    | none =>
      dsimp only [RoomTable.join]
      split
      · rfl
      · refine mod_subject fun r => ?_
        unfold Room.join
        cases firstIdx (fun j => !(r.users j).active) <;> rfl

/-- A message that another handler takes leaves the subjects of all rooms. -/
theorem serve_subject (ht : st.type = .MESSAGE) (hq : roomRequest st ≠ some .message) (hi : (T i).active ≠ 0) :
    (T.serve c st (roomRequest st) i).subject = (T i).subject := by
  cases hr : roomRequest st with
  | none => rfl
  | some q =>
    cases q with
    | message => exact absurd hr hq
    | admin =>
      change (T.admin st i).subject = _
      rw [RoomTable.admin, if_neg (by simp [ht])]
    | owner =>
      change (T.owner st i).subject = _
      rw [RoomTable.owner, if_neg (by simp [RoomTable.wantDestroy, ht])]
      split
      · unfold RoomTable.owned
        cases T.find (roomName st.to_) with
        | none => rfl
        | some k => exact mod_subject fun _ => rfl
      · rfl
    | presence =>
      change (T.presence c st i).subject = _
      unfold RoomTable.presence
      cases mucTarget st.to_ with
      | none => rfl
      | some t =>
        dsimp only
        cases hf : T.find t.room_name with
        | some k =>
          rw [enter_found hf]
          exact attend_subject ht _
        | none =>
          unfold RoomTable.enter
          rw [hf]
          cases hk : firstIdx (fun i => (T i).active == 0) with
          | none => rfl
          | some k =>
            have hik : i ≠ k := by
              rintro rfl
              exact hi (by simpa using firstIdx_some hk)
            dsimp only
            rw [attend_subject ht, T.mod_of_ne hik]

theorem message_subject (hc : (strstr st.to_ CONFERENCE).isSome) (hm : Texts.messageRoom s.stores st.to_ = some i) :
    (RoomTable.message s.stores.rooms st i).subject =
      if (roomSlash st.to_).isNone then (newSubject st.payload).getD (s.stores.rooms i).subject
      else (s.stores.rooms i).subject := by
  unfold Texts.messageRoom at hm
  split at hm
  · rename_i hat
    have hf : RoomTable.find s.stores.rooms (localPart st.to_) = some i := hm
    unfold RoomTable.message
    by_cases hn : (roomSlash st.to_).isNone
    · rw [if_pos ⟨hc, hat, hn⟩, if_pos hn, hf]
      cases newSubject st.payload with
      | none => rfl
      | some subj =>
        dsimp only
        rw [RoomTable.mod_self]
        rfl
    · rw [if_neg fun h => hn h.2.2, if_neg hn]
  · cases hm

end Stanza

section Nick
variable {c : Ctx} {r : Room}

/-- The nick of a bare address that has an entry. -/
theorem nickOf_bare {j : Fin MAX_USERS_PER_ROOM} (h : Occupies c r j) :
    ∃ k, Occupies c r k ∧ nickOf r (bare c.full_jid) = (r.users k).nick := by
  unfold nickOf
  cases hf : r.firstUser (·.jid == bare c.full_jid) with
  | none => exact absurd h.jid (by simpa using firstUser_none hf j h.active)
  | some k =>
    obtain ⟨ha, he⟩ := firstUser_some hf
    exact ⟨k, ⟨ha, by simpa using he⟩, rfl⟩

/-- Entries have bare addresses, so none has one with a resource. -/
theorem nickOf_full (hr : AllEntitled r) (h : ch '/' ∈ c.full_jid) : nickOf r c.full_jid = lit "unknown" := by
  unfold nickOf
  cases hf : r.firstUser (·.jid == c.full_jid) with
  | none => rfl
  | some k =>
    obtain ⟨ha, he⟩ := firstUser_some hf
    have hjid : (r.users k).jid = c.full_jid := by simpa using he
    have hslash : ch '/' ∉ bare (r.users k).jid := fun hm => by simpa using List.mem_takeWhile_imp hm
    rw [(hr k ha).jid, hjid] at hslash
    exact absurd h hslash

theorem bare_of_no_slash (hj : Holds 64 c.full_jid) (h : ch '/' ∉ c.full_jid) : bare c.full_jid = c.full_jid := by
  rw [bare, strncpy, cstr_of_clean hj.2, List.take_of_length_le (Nat.le_of_lt_succ hj.1)]
  refine List.takeWhile_eq_self_iff.mpr fun b hb => ?_
  simpa using fun e : b = ch '/' => h (e ▸ hb)

end Nick

/-- A message to a room or to one of its occupants. -/
structure ToRoom (s : Server) (st : Stanza) (i : Fin MAX_ROOMS) : Prop where
  type : st.type = .MESSAGE
  service : (strstr st.to_ CONFERENCE).isSome
  room : Texts.messageRoom s.stores st.to_ = some i

section Message
variable {s : Server} {me : Slot} {st : Stanza} {i : Fin MAX_ROOMS}
variable {p : Str}

theorem ToRoom.active (h : ToRoom s st i) : (s.stores.rooms i).active ≠ 0 := by
  have hm := h.room
  unfold Texts.messageRoom at hm
  split at hm
  · exact (RoomTable.find_some hm).1
  · cases hm

theorem ToRoom.sent_private (h : ToRoom s st i) (hh : Heard s me st) (hp : roomSlash st.to_ = some p) :
    sent s me st = Texts.privateMessage s me st (s.stores.rooms i) p := by
  rw [sent_request hh.2 hh.1]
  change Texts.message s me st = _
  simp only [Texts.message, if_pos h.service, h.room, hp]

theorem ToRoom.sent_group (h : ToRoom s st i) (hh : Heard s me st) (hp : roomSlash st.to_ = none) :
    sent s me st = Texts.groupMessage s me st (s.stores.rooms i) := by
  rw [sent_request hh.2 hh.1]
  change Texts.message s me st = _
  simp only [Texts.message, if_pos h.service, h.room, hp]

theorem ToRoom.subject (h : ToRoom s st i) (ok : StanzaOk st) (hs : .AUTHENTICATED ≤ (s.client_registry me).state) :
    ((xmpp_route_stanza me st s).2.stores.rooms i).subject =
      if .SESSION ≤ (s.client_registry me).state ∧ roomRequest st = some .message ∧ (roomSlash st.to_).isNone then
        (newSubject st.payload).getD (s.stores.rooms i).subject
      else (s.stores.rooms i).subject := by
  rw [(route_rooms ok hs).2.1]
  by_cases hlt : (s.client_registry me).state < .SESSION
  · rw [RoomTable.handle_early _ hlt, if_neg fun hc => absurd hlt (Nat.not_lt.mpr hc.1)]
  · rw [RoomTable.handle_eq_serve _ hlt]
    by_cases hq : roomRequest st = some .message
    · rw [hq]
      refine (message_subject h.service h.room).trans ?_
      by_cases hn : (roomSlash st.to_).isNone
      · rw [if_pos hn, if_pos ⟨Nat.not_lt.mp hlt, rfl, hn⟩]
      · rw [if_neg hn, if_neg fun hc => hn hc.2.2]
    · rw [serve_subject h.type hq h.active, if_neg fun hc => hq hc.2.1]

/-- The text of a private message. -/
theorem privateMessage_relay {r : Room} (hx : x ∈ Texts.privateMessage s me st r p)
    (hf : x.2.fmt ∈ relayFormats) : PassedOn s me r p ∧ ∃ k, x = (k, Texts.pm s me st r p k) := by
  have hother : ∀ f ∈ [fmtBadRequest, fmtNoOccupant], f ∉ relayFormats := by decide
  unfold Texts.privateMessage at hx
  dsimp only at hx
  split at hx
  · rw [List.mem_singleton.mp hx] at hf
    exact absurd hf (hother _ (by simp))
  · rename_i hg
    cases hk : Texts.recipient s r p.tail with
    | none =>
      rw [hk] at hx
      rw [List.mem_singleton.mp hx] at hf
      exact absurd hf (hother _ (by simp))
    | some k =>
      rw [hk] at hx
      exact ⟨⟨Bool.eq_false_iff.mpr hg, by rw [hk]; rfl⟩, k, List.mem_singleton.mp hx⟩

variable (st) in
theorem privateMessage_passed {r : Room} (h : PassedOn s me r p) :
    ∃ k, (k, Texts.pm s me st r p k) ∈ Texts.privateMessage s me st r p := by
  obtain ⟨hg, hk⟩ := h
  obtain ⟨k, hk⟩ := Option.isSome_iff_exists.mp hk
  refine ⟨k, ?_⟩
  unfold Texts.privateMessage
  dsimp only
  rw [if_neg (by rw [hg]; exact Bool.false_ne_true), hk]
  exact List.mem_singleton_self _

theorem pm_fmt (r : Room) (p : Str) (k : Slot) : (Texts.pm s me st r p k).fmt ∈ relayFormats := by
  unfold Texts.pm
  cases alreadyWrapped st <;> simp [relayFormats]

theorem group_fmt (nick : Str) (p : Participant) : (Texts.group st nick p).fmt ∈ relayFormats := by
  unfold Texts.group
  cases alreadyWrapped st <;> simp [relayFormats]

/-- A private message. -/
theorem private_attributed_iff (h : ToRoom s st i) (hh : Heard s me st) (hto : st.to_.length < 64)
    (hr : AllEntitled (s.stores.rooms i)) (hj : Holds 64 (s.client_registry me).full_jid)
    (hp : roomSlash st.to_ = some p) : (∀ x ∈ sent s me st, x.2.fmt ∈ relayFormats →
        ∃ j, Occupies (s.client_registry me) (s.stores.rooms i) j ∧
          From x.2 (roomOf st.to_) ((s.stores.rooms i).users j).nick) ↔ Attributed s me st (s.stores.rooms i) := by
  have hroom : (upto st.to_ p).take 63 = roomOf st.to_ := by
    rw [roomOf, hp]
    refine List.take_of_length_le ?_
    rw [upto, List.length_take]
    omega
  have hfrom : ∀ k nick, From (Texts.pm s me st (s.stores.rooms i) p k) (roomOf st.to_) nick ↔
      (nickOf (s.stores.rooms i) (s.client_registry me).full_jid).take 31 = nick := by
    intro k nick
    rw [relay_from (pm_fmt _ _ _)]
    simp [Texts.pm, hroom]
  rw [h.sent_private hh hp, Attributed, hp]
  constructor
  · intro hx hpass
    obtain ⟨k, hk⟩ := privateMessage_passed st hpass
    obtain ⟨j, ho, hn⟩ := hx _ hk (pm_fmt _ _ _)
    refine ⟨j, ho, ?_⟩
    by_cases hslash : ch '/' ∈ (s.client_registry me).full_jid
    · rw [hfrom, nickOf_full hr hslash] at hn
      exact .inr hn.symm
    · exact .inl hslash
  · intro hcond x hx hf
    obtain ⟨hpass, k, rfl⟩ := privateMessage_relay hx hf
    obtain ⟨j, ho, hj'⟩ := hcond hpass
    by_cases hslash : ch '/' ∈ (s.client_registry me).full_jid
    · refine ⟨j, ho, (hfrom k _).mpr ?_⟩
      rw [nickOf_full hr hslash, (hj'.resolve_left fun hn => hn hslash)]
      rfl
    · obtain ⟨k', ho', hn⟩ := nickOf_bare ho
      refine ⟨k', ho', (hfrom k _).mpr ?_⟩
      rw [bare_of_no_slash hj hslash] at hn
      rw [hn]
      exact List.take_of_length_le (Nat.le_of_lt_succ (hr k' ho'.active).nick.1)

theorem mem_groupMessage {r : Room} : x ∈ Texts.groupMessage s me st r ↔
    ∃ j, (r.users j).active ∧ find_client_by_jid s (r.users j).jid = some x.1 ∧
      x.2 = Texts.group st (nickOf r (bare (s.client_registry me).full_jid)) (r.users j) := by
  rw [Texts.groupMessage, mem_occupants]
  simp [nobody]

/-- A message to all. -/
theorem group_attributed_iff (h : ToRoom s st i) (hh : Heard s me st) (ok : StanzaOk st)
    (hp : roomSlash st.to_ = none) : Relays s me st i ↔ Attributed s me st (s.stores.rooms i) := by
  let c := s.client_registry me
  let r := s.stores.rooms i
  have hsubject : ((xmpp_route_stanza me st s).2.stores.rooms i).subject = (newSubject st.payload).getD r.subject := by
    rw [h.subject ok (Nat.le_trans (by decide) hh.1), if_pos ⟨hh.1, hh.2, by rw [hp]; rfl⟩]
  have hcond : Attributed s me st r ↔ (∃ j, Occupies c r j) ∨
      (∀ j, (r.users j).active → find_client_by_jid s (r.users j).jid = none) ∧
        ∀ subj, newSubject st.payload = some subj → subj = r.subject := by
    rw [Attributed, hp]
  rw [hcond]
  constructor
  · intro hR
    by_cases hocc : ∃ j, Occupies c r j
    · exact .inl hocc
    · obtain ⟨hnone, hsame⟩ := hR.outsider (not_exists.mp hocc)
      refine .inr ⟨fun j hj => ?_, fun subj hsubj => ?_⟩
      · by_contra hk
        obtain ⟨k, hk⟩ := Option.ne_none_iff_exists'.mp hk
        rw [h.sent_group hh hp] at hnone
        have hmem : (k, Texts.group st (nickOf r (bare c.full_jid)) (r.users j)) ∈ Texts.groupMessage s me st r :=
          mem_groupMessage.mpr ⟨j, hj, hk, rfl⟩
        exact hnone _ hmem (group_fmt _ _)
      · rwa [hsubject, hsubj] at hsame
  · rintro (⟨j, ho⟩ | ⟨hnone, hsame⟩)
    · refine ⟨fun x hx _ => ?_, fun hno => absurd ho (hno j)⟩
      rw [h.sent_group hh hp] at hx
      obtain ⟨k, -, -, he⟩ := mem_groupMessage.mp hx
      obtain ⟨j', ho', hn⟩ := nickOf_bare ho
      refine ⟨j', ho', ?_⟩
      rw [he, relay_from (group_fmt _ _), hn, roomOf, hp]
      rfl
    · have hquiet : ∀ x, x ∉ sent s me st := by
        intro x hx
        rw [h.sent_group hh hp] at hx
        obtain ⟨j, hj, hk, -⟩ := mem_groupMessage.mp hx
        rw [hnone j hj] at hk
        cases hk
      refine ⟨fun x hx => absurd hx (hquiet x), fun _ => ⟨fun x hx => absurd hx (hquiet x), ?_⟩⟩
      rw [hsubject]
      cases hs : newSubject st.payload with
      | none => rfl
      | some subj => exact hsame subj hs

end Message

/-- In every state that arises, what the room passes on of a message is from the sender, and of someone who is not in
it nothing, exactly if the message does not reach the handler or its condition holds. -/
theorem messages_relayed_iff (m : Machine) {s : Server} (hs : Arises m s) (me : Slot) {st : Stanza} (ok : StanzaOk st)
    (hto : st.to_.length < 64) (hstate : .AUTHENTICATED ≤ (s.client_registry me).state) {i : Fin MAX_ROOMS}
    (h : ToRoom s st i) :
    Relays s me st i ↔ (Heard s me st → Attributed s me st (s.stores.rooms i)) := by
  by_cases hh : Heard s me st
  · refine Iff.trans ?_ (forall_prop_of_true hh).symm
    cases hp : roomSlash st.to_ with
    | none => exact group_attributed_iff h hh ok hp
    | some p =>
      have hj : Holds 64 (s.client_registry me).full_jid :=
        ((actions_entered hs (boot_named m)).1.session me).full_jid
      refine Iff.trans ⟨Relays.from_, fun hx => ⟨hx, fun hno => ⟨fun x hxm hf => ?_, ?_⟩⟩⟩
        (private_attributed_iff h hh hto (hs.entitled i) hj hp)
      · obtain ⟨j, ho, -⟩ := hx x hxm hf
        exact hno j ho
      · rw [h.subject ok hstate, if_neg (by simp [hp])]
  · refine iff_of_true ?_ fun h => absurd h hh
    have hnone : ∀ x ∈ sent s me st, x.2.fmt ∉ relayFormats := fun x hx hf => hh (heard_of_relay h.type hx hf)
    refine ⟨fun x hx hf => absurd hf (hnone x hx), fun _ => ⟨hnone, ?_⟩⟩
    rw [h.subject ok hstate, if_neg fun hc => hh ⟨hc.1, hc.2.1⟩]

/-- The other user writes to the room. -/
def bobWrites : Stanza := { Stanza.zero with type := .MESSAGE, to_ := lit HALL, payload := lit "hi" }

theorem messages_relayed_bob :
    ((sent gathered 1 bobWrites).map fun x => (x.1, x.2.fmt)) = [(0, fmtGroup), (1, fmtGroup)] ∧
      Relays gathered 1 bobWrites 0 := by
  have hstate : ClientState.rank .AUTHENTICATED ≤ (gathered.client_registry 1).state.rank ∧
      Texts.messageRoom gathered.stores bobWrites.to_ = some 0 ∧ ((gathered.stores.rooms 0).users 1).active ∧
      ((gathered.stores.rooms 0).users 1).jid = bare (gathered.client_registry 1).full_jid ∧
      ((sent gathered 1 bobWrites).map fun x => (x.1, x.2.fmt)) = [(0, fmtGroup), (1, fmtGroup)] := by
    decide +kernel
  obtain ⟨hs, hroom, ha, hjid, hsent⟩ := hstate
  have hslash : roomSlash bobWrites.to_ = none := by decide +kernel
  have hto : (strstr bobWrites.to_ CONFERENCE).isSome := by decide +kernel
  have harises : Arises (gathering.on fun _ => []) gathered := .life gathering fun _ => []
  refine ⟨hsent, (messages_relayed_iff _ harises 1 ⟨by decide, by decide⟩ (by decide) hs ⟨rfl, hto, hroom⟩).mpr
    fun _ => ?_⟩
  rw [Attributed, hslash]
  exact .inl ⟨1, ha, hjid⟩

/-- A third user, who is in no room. -/
def crowded : Server :=
  (visit 9 (lit "<auth mechanism='ANONYMOUS'>AHUzAA==</auth>") []).foldl step gathered

/-- An occupant's private message comes from `unknown`, and so does the message of someone who is not there, which sets
the subject. -/
theorem messages_from_unknown :
    let s := step crowded (.recv 8 [passed (cat ["<message to='", HALL, "/ada'>hi</message>"])] true)
    let s' := step crowded (.recv 9 [passed (cat ["<message to='", HALL, "'><subject>mine</subject></message>"])] true)
    ((crowded.stores.rooms 0).users 1).nick = lit "bob" ∧
      (sends s).getLast? = some (0, cat ["<message from='", HALL, "/unknown' to='admin@angelic.local/unikernel-0' ",
        "type='chat' id=''><x xmlns='http://jabber.org/protocol/muc#user'/><body>hi</body></message>"]) ∧
      (crowded.stores.rooms 0).firstUser (·.jid == lit "u3@angelic.local") = none ∧
      (sends s').getLast? = some (1, cat ["<message from='", HALL, "/unknown' to='user1@angelic.local' ",
        "type='groupchat' id=''><subject>mine</subject></message>"]) ∧
      (crowded.stores.rooms 0).subject = [] ∧ (s'.stores.rooms 0).subject = lit "mine" := by
  decide +kernel

end Angelic.Proofs
