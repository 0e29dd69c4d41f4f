import Angelic.Lib.Search
import Angelic.Proofs.RoomRights
import Angelic.Proofs.Texts

namespace Angelic.Proofs
open CString Model

/-! The room that an address names. Each handler reads it off the address by itself. -/

/-- The places where a room is looked up. -/
inductive Lookup where
  | presence | message | adminSet | adminGet | owner | discoInfo | discoItems
  deriving DecidableEq, Repr

/-- The room that is found at a place for the address of a stanza. -/
def Lookup.room (t : Stores) (to_ : Str) : Lookup → Option (Fin MAX_ROOMS)
  | presence => (mucTarget to_).bind fun g => findRoom t g.room_name
  | message => if to_.contains (ch '@') then findRoom t (localPart to_) else none
  | adminSet => findRoom t (roomName to_)
  | adminGet => if to_.contains (ch '@') then findRoom t (localPart to_) else none
  | owner => findRoom t (roomName to_)
  | discoInfo => if to_.contains (ch '@') then findRoom t (discoRoomName to_) else none
  | discoItems =>
    if to_.contains (ch '@') ∧ to_.head? ≠ some (ch '@') then findRoom t (localPart to_) else none

/-- The handlers serve the room that is found at their place: a presence enters it or opens a new one, a message is
relayed in it, requests of administrators and owners are about it and queries describe it. -/
structure ServesFound (s : Server) (me : Slot) (st : Stanza) : Prop where
  presence : ∀ g, mucTarget st.to_ = some g → ∀ c, RoomTable.enter s.stores.rooms c g.room_name =
    (Lookup.presence.room s.stores st.to_).elim
      ((firstIdx fun i => (s.stores.rooms i).active == 0).map fun i =>
        (i, RoomTable.mod s.stores.rooms i fun r => r.create g.room_name c.full_jid))
      fun i => some (i, s.stores.rooms)
  message : (strstr st.to_ CONFERENCE).isSome → Texts.message s me st =
    (Lookup.message.room s.stores st.to_).elim [] fun i =>
      (roomSlash st.to_).elim (Texts.groupMessage s me st (s.stores.rooms i))
        (Texts.privateMessage s me st (s.stores.rooms i))
  adminSet : kickTarget s.stores st = (Lookup.adminSet.room s.stores st.to_).bind fun i =>
    ((s.stores.rooms i).firstUser fun p => targetNick st.payload == [] || p.nick == targetNick st.payload).map (i, ·)
  adminGet : ∀ full_jid, Lookup.adminGet.room s.stores st.to_ = none →
    ownerJid s.stores st.to_ full_jid = strncpy 63 full_jid
  owner : ∀ f, RoomTable.owned s.stores.rooms st f =
    (Lookup.owner.room s.stores st.to_).elim s.stores.rooms fun i => RoomTable.mod s.stores.rooms i f
  discoInfo : st.to_.contains (ch '@') → (strstr st.to_ CONFERENCE).isSome → Texts.discoInfo s me st =
    (Lookup.discoInfo.room s.stores st.to_).elim [(me, ⟨1024, fmtItemNotFound, Texts.echo s me st⟩)] fun i =>
      [(me, Texts.roomInfo s me st (s.stores.rooms i) (discoRoomName st.to_))]
  discoItems : st.to_.contains (ch '@') → st.to_.head? ≠ some (ch '@') → (strstr st.to_ CONFERENCE).isSome →
    Texts.discoItems s me st =
      (Lookup.discoItems.room s.stores st.to_).elim [(me, ⟨2048, fmtItemNotFound, Texts.echo s me st⟩)] fun i =>
        [(me, ⟨2048, fmtItems, Texts.echo s me st ++ [.s (Texts.occupantItems (s.stores.rooms i) st.to_)]⟩)]

theorem serves_found (s : Server) (me : Slot) (st : Stanza) : ServesFound s me st where
  presence g hg c := by
    have hf : RoomTable.find s.stores.rooms g.room_name = findRoom s.stores g.room_name := rfl
    rw [Lookup.room, hg, Option.bind_some, RoomTable.enter, hf]
    cases findRoom s.stores g.room_name with
    | some i => rfl
    | none => cases firstIdx (fun i => (s.stores.rooms i).active == 0) <;> rfl
  message hc := by
    rw [Texts.message, if_pos hc, Texts.messageRoom, Lookup.room]
    generalize (if st.to_.contains (ch '@') then findRoom s.stores (localPart st.to_) else none) = o
    cases o with
    | none => rfl
    | some i => cases roomSlash st.to_ <;> rfl
  adminSet := by
    rw [kickTarget, Lookup.room]
    cases findRoom s.stores (roomName st.to_) <;> rfl
  adminGet full_jid hn := by
    rw [Lookup.room] at hn
    unfold ownerJid
    by_cases ha : st.to_.contains (ch '@') = true
    · rw [if_pos ha] at hn ⊢
      rw [hn]
      rfl
    · rw [if_neg ha]
      rfl
  owner f := by
    have hf : RoomTable.find s.stores.rooms (roomName st.to_) = findRoom s.stores (roomName st.to_) := rfl
    rw [RoomTable.owned, Lookup.room, hf]
    cases findRoom s.stores (roomName st.to_) <;> rfl
  discoInfo ha hc := by
    rw [Texts.discoInfo, Lookup.room, if_pos ha, if_pos ⟨ha, hc⟩]
    cases findRoom s.stores (discoRoomName st.to_) <;> rfl
  discoItems ha hh hc := by
    rw [Texts.discoItems, if_pos hc, Lookup.room, if_pos ⟨ha, hh⟩, if_pos ⟨ha, hh⟩]
    cases findRoom s.stores (localPart st.to_) <;> rfl

/-! Addresses of rooms. -/

/-- The address of a room: presences add a nick to it. -/
def roomJid (name : Str) : Str := name ++ ch '@' :: CONFERENCE

def Lookup.address (name nick : Str) : Lookup → Str
  | presence => roomJid name ++ ch '/' :: nick
  | _ => roomJid name

/-- A local part has no separators in it. -/
structure LocalName (name : Str) : Prop where
  zero : 0 ∉ name
  at_ : ch '@' ∉ name
  slash : ch '/' ∉ name

/-- The names under which the room of a local part may be looked up. -/
def Lookup.name (name : Str) : Lookup → Option Str
  | discoInfo => some (if name.length < 32 then name else [])
  | discoItems => if name = [] then none else some (name.take 31)
  | _ => some (name.take 31)

theorem takeWhile_at {name : Str} (h : LocalName name) (rest : Str) :
    (name ++ ch '@' :: rest).takeWhile (· != ch '@') = name := by
  rw [List.takeWhile_append_of_pos fun b hb => by
    simp only [bne_iff_ne, ne_eq]
    exact fun he => h.at_ (he ▸ hb)]
  simp

theorem Lookup.room_address (t : Stores) {name : Str} (h : LocalName name) (nick : Str) (x : Lookup) :
    x.room t (x.address name nick) = (x.name name).bind (findRoom t) := by
  have hat : (roomJid name).contains (ch '@') = true := by simp [roomJid]
  have hloc : localPart (roomJid name) = name.take 31 := by rw [localPart, roomJid, takeWhile_at h]
  have hname : roomName (roomJid name) = name.take 31 := (if_pos hat).trans hloc
  have byLocal : (if (roomJid name).contains (ch '@') then findRoom t (localPart (roomJid name)) else none) =
      findRoom t (name.take 31) := by rw [if_pos hat, hloc]
  cases x with
  | presence =>
    have hslash : strchr (roomJid name ++ ch '/' :: nick) (ch '/') = some (ch '/' :: nick) := by
      refine strchr_over (fun h0 => ?_) fun hs => ?_
      · rcases List.mem_append.mp h0 with h0 | h0
        · exact h.zero h0
        · revert h0
          decide
      · rcases List.mem_append.mp hs with hs | hs
        · exact h.slash hs
        · revert hs
          decide
    have hj : roomJid name ++ ch '/' :: nick = name ++ ch '@' :: (CONFERENCE ++ ch '/' :: nick) := by simp [roomJid]
    have hg : (mucTarget (roomJid name ++ ch '/' :: nick)).map MucTarget.room_name = some (name.take 31) := by
      rw [mucTarget, hslash]
      dsimp only
      rw [if_pos (by simp [roomJid]), Option.map_some, localPart, hj, takeWhile_at h]
    change (mucTarget (roomJid name ++ ch '/' :: nick)).bind (fun g => findRoom t g.room_name) = _
    obtain ⟨g, hm, hr⟩ := Option.map_eq_some_iff.mp hg
    rw [hm, Option.bind_some, hr]
    rfl
  | message => exact byLocal
  | adminGet => exact byLocal
  | adminSet => exact congrArg (findRoom t) hname
  | owner => exact congrArg (findRoom t) hname
  | discoInfo =>
    change (if (roomJid name).contains (ch '@') then findRoom t (discoRoomName (roomJid name)) else none) = _
    rw [if_pos hat, discoRoomName, roomJid, takeWhile_at h]
    rfl
  | discoItems =>
    have hhead : (roomJid name).head? ≠ some (ch '@') ↔ name ≠ [] := by
      cases name with
      | nil => simp [roomJid]
      | cons a name =>
        have ha : a ≠ ch '@' := fun he => h.at_ (he ▸ List.mem_cons_self)
        simp [roomJid, ha]
    change (if (roomJid name).contains (ch '@') ∧ (roomJid name).head? ≠ some (ch '@') then
      findRoom t (localPart (roomJid name)) else none) = _
    rw [Lookup.name]
    by_cases hn : name = []
    · rw [if_pos hn, if_neg fun hc => hhead.mp hc.2 hn]
      rfl
    · rw [if_neg hn, if_pos ⟨hat, hhead.mpr hn⟩, hloc]
      rfl

/-! Whether the lookups agree, and whether they tell local parts apart. -/

/-- No room in use has the name. -/
def Unused (t : Stores) (name : Str) : Prop := ∀ i, (t.rooms i).active ≠ 0 → (t.rooms i).name ≠ name

theorem findRoom_none_iff {t : Stores} {name : Str} : findRoom t name = none ↔ Unused t name := by
  constructor
  · exact fun h => RoomTable.find_none h
  · intro h
    refine List.find?_eq_none.mpr fun i _ => ?_
    simpa using h i

theorem findRoom_some {t : Stores} {name : Str} {i : Fin MAX_ROOMS} (h : findRoom t name = some i) :
    (t.rooms i).active ≠ 0 ∧ (t.rooms i).name = name := RoomTable.find_some h

/-- A local part that all lookups read alike: none is empty and none is cut. -/
def ShortName (name : Str) : Prop := name ≠ [] ∧ name.length < 32

theorem ShortName.name {name : Str} (h : ShortName name) (x : Lookup) : x.name name = some name := by
  have ht : name.take 31 = name := List.take_of_length_le (Nat.le_of_lt_succ h.2)
  cases x with
  | discoInfo => exact congrArg some (if_pos h.2)
  | discoItems => exact (if_neg h.1).trans (congrArg some ht)
  | _ => exact congrArg some ht

/-- All lookups find the same room or none. -/
def Agree (t : Stores) (name : Str) : Prop :=
  ∀ x y : Lookup, (x.name name).bind (findRoom t) = (y.name name).bind (findRoom t)

theorem agree_iff (t : Stores) (name : Str) :
    Agree t name ↔ ShortName name ∨ Unused t [] ∧ Unused t (name.take 31) := by
  constructor
  · intro h
    by_cases hp : ShortName name
    · exact .inl hp
    · right
      rw [← findRoom_none_iff, ← findRoom_none_iff]
      by_cases hn : name = []
      · -- the items of the nameless room are never asked for
        subst hn
        have he : findRoom t [] = none := h .message .discoItems
        exact ⟨he, he⟩
      · have hlen : ¬ name.length < 32 := fun hl => hp ⟨hn, hl⟩
        have he : findRoom t [] = findRoom t (name.take 31) := by
          have := h .discoInfo .message
          rwa [Lookup.name, if_neg hlen] at this
        cases hf : findRoom t [] with
        | none => exact ⟨rfl, he ▸ hf⟩
        | some i =>
          have h1 := (findRoom_some hf).2
          have h2 := (findRoom_some (he ▸ hf)).2
          have h3 := congrArg List.length (h1.symm.trans h2)
          simp only [List.length_nil, List.length_take] at h3
          omega
  · rintro (hp | ⟨h0, h1⟩) x y
    · rw [hp.name, hp.name]
    · have hnone : ∀ z : Lookup, (z.name name).bind (findRoom t) = none := by
        rw [← findRoom_none_iff] at h0 h1
        intro z
        cases z with
        | discoInfo =>
          change findRoom t (if name.length < 32 then name else []) = none
          split
          · rename_i hl
            rwa [List.take_of_length_le (Nat.le_of_lt_succ hl)] at h1
          · exact h0
        | discoItems =>
          rw [Lookup.name]
          split
          · rfl
          · exact h1
        | _ => exact h1
      rw [hnone, hnone]

/-- No room is found for both local parts. -/
def ToldApart (t : Stores) (name name' : Str) : Prop :=
  ∀ (x y : Lookup) i, (x.name name).bind (findRoom t) = some i → (y.name name').bind (findRoom t) ≠ some i

/-- The names of both that some lookup uses are not those of a room. -/
theorem apart_iff (t : Stores) (name name' : Str) :
    ToldApart t name name' ↔ ∀ (x y : Lookup) n, x.name name = some n → y.name name' = some n → Unused t n := by
  constructor
  · intro h x y n hx hy
    rw [← findRoom_none_iff]
    by_contra hf
    obtain ⟨i, hi⟩ := Option.ne_none_iff_exists'.mp hf
    exact h x y i (by rw [hx]; exact hi) (by rw [hy]; exact hi)
  · intro h x y i hx hy
    obtain ⟨n, hn, hi⟩ := Option.bind_eq_some_iff.mp hx
    obtain ⟨n', hn', hi'⟩ := Option.bind_eq_some_iff.mp hy
    have he : n = n' := (findRoom_some hi).2.symm.trans (findRoom_some hi').2
    subst he
    exact h x y n hn hn' i (findRoom_some hi).1 (findRoom_some hi).2

theorem roomJid_conference {name : Str} (h : LocalName name) : (strstr (roomJid name) CONFERENCE).isSome := by
  have hc : 0 ∉ CONFERENCE := by decide
  refine (strstr_isSome hc (by decide) fun h0 => ?_).mpr ⟨name ++ [ch '@'], [], by simp [roomJid]⟩
  rcases List.mem_append.mp h0 with h0 | h0
  · exact h.zero h0
  · revert h0
    decide

/-- The handlers find the same room for an address, or all none, exactly if its local part has one to 31 bytes, or no
room has the empty name or that of the first 31 bytes. They find a room for two local parts exactly if it has a name
that both may be looked up by. -/
theorem rooms_resolved_iff (s : Server) (name name' nick : Str) (h : LocalName name) (h' : LocalName name') :
    (∀ me st, ServesFound s me st) ∧ (strstr (roomJid name) CONFERENCE).isSome ∧
      ((∀ x y : Lookup, x.room s.stores (x.address name nick) = y.room s.stores (y.address name nick)) ↔
        ShortName name ∨ Unused s.stores [] ∧ Unused s.stores (name.take 31)) ∧
      ((∀ (x y : Lookup) i, x.room s.stores (x.address name nick) = some i →
          y.room s.stores (y.address name' nick) ≠ some i) ↔
        ∀ (x y : Lookup) n, x.name name = some n → y.name name' = some n → Unused s.stores n) := by
  simp only [Lookup.room_address _ h, Lookup.room_address _ h']
  exact ⟨serves_found s, roomJid_conference h, agree_iff _ _, apart_iff _ _ _⟩

theorem rooms_resolved_gathered :
    (∀ x y : Lookup, x.room gathered.stores (x.address (lit "hall") (lit "ada")) =
        y.room gathered.stores (y.address (lit "hall") (lit "ada"))) ∧
      ∀ (x y : Lookup) i, x.room gathered.stores (x.address (lit "hall") (lit "ada")) = some i →
        y.room gathered.stores (y.address (lit "lobby") (lit "ada")) ≠ some i := by
  have hhall : ShortName (lit "hall") := ⟨by decide, by decide⟩
  have hlobby : ShortName (lit "lobby") := ⟨by decide, by decide⟩
  obtain ⟨-, -, hagree, hapart⟩ := rooms_resolved_iff gathered (lit "hall") (lit "lobby") (lit "ada")
    ⟨by decide, by decide, by decide⟩ ⟨by decide, by decide, by decide⟩
  refine ⟨hagree.mpr (.inl hhall), hapart.mpr fun x y n hx hy => ?_⟩
  rw [hhall.name] at hx
  rw [hlobby.name, ← hx] at hy
  exact absurd hy (by decide)

/-- A local part of 32 bytes. -/
def longName (last : String) : Str := List.replicate 31 (ch 'a') ++ lit last

/-- A room is opened for such a part: queries about it find none, and another part finds it too. -/
theorem long_names_collide :
    let s := (lifeOf (visit 7 authAdmin [cat ["<presence to='"] ++ longName "x" ++
      cat ["@conference.angelic.local/ada'><x xmlns='http://jabber.org/protocol/muc'/></presence>"]])).run fun _ => []
    Lookup.presence.room s.stores (Lookup.presence.address (longName "x") (lit "ada")) = some 0 ∧
      Lookup.discoInfo.room s.stores (Lookup.discoInfo.address (longName "x") (lit "ada")) = none ∧
      Lookup.presence.room s.stores (Lookup.presence.address (longName "y") (lit "ada")) = some 0 := by
  decide +kernel

end Angelic.Proofs
