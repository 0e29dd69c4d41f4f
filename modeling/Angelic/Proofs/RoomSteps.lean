import Angelic.Lib.StateRel
import Angelic.Proofs.Image

namespace Angelic.Proofs
open CString Model Relation

variable {r : Room} {users : Fin MAX_USERS_PER_ROOM → Participant} {f : Room → Room}

/-! The room table as a machine of its own: the rooms in memory, the rooms on disk, and what can be
done to them one step at a time. -/

abbrev RoomTable := Fin MAX_ROOMS → Room

structure Rooms where
  table : RoomTable
  image : RoomTable

/-- The rooms a disk holds. -/
def roomImage (d : Disk) : RoomTable := (diskStores d).rooms

def view (s : Server) : Rooms := ⟨s.stores.rooms, roomImage s.mem.disk⟩

def RoomTable.mod (T : RoomTable) (i : Fin MAX_ROOMS) (f : Room → Room) : RoomTable :=
  Function.update T i (f (T i))

@[simp] theorem RoomTable.mod_self (T : RoomTable) (i : Fin MAX_ROOMS) (f : Room → Room) : T.mod i f i = f (T i) :=
  Function.update_self i _ T

theorem RoomTable.mod_of_ne (T : RoomTable) {i j : Fin MAX_ROOMS} (h : j ≠ i) (f : Room → Room) : T.mod i f j = T j :=
  Function.update_of_ne h _ T

namespace Rooms

def mod (a : Rooms) (i : Fin MAX_ROOMS) (f : Room → Room) : Rooms := { a with table := a.table.mod i f }

/-- A free slot becomes a room of a new name, an occupant comes, takes another nick or goes, a room is
changed, ends, or all of them are saved. -/
inductive Step : Rooms → Rooms → Prop where
  | create (a i) {name full_jid} (hn : Holds 32 name) (hi : (a.table i).active = 0)
      (hfree : ∀ j, (a.table j).active ≠ 0 → (a.table j).name ≠ name) :
      Step a (a.mod i fun r => r.create name full_jid)
  | join (a i j) {p : Participant} (hi : (a.table i).active ≠ 0) (hj : ((a.table i).users j).active = false)
      (hnick : ∀ k, ((a.table i).users k).active → ((a.table i).users k).nick ≠ p.nick)
      (hjid : ∀ k, ((a.table i).users k).active → ((a.table i).users k).jid ≠ p.jid) :
      Step a (a.mod i fun r => r.setUser j p)
  | rename (a i k) {nick} (hk : ((a.table i).users k).active)
      (hnick : ∀ j, j ≠ k → ((a.table i).users j).active → ((a.table i).users j).nick ≠ nick) :
      Step a (a.mod i fun r => r.setUser k { r.users k with nick := nick })
  | remove (a i j) : Step a (a.mod i fun r => r.setUser j .zero)
  | ban (a i jid) (hi : (a.table i).active ≠ 0) : Step a (a.mod i fun r => r.ban jid)
  | configure (a i payload) (hi : (a.table i).active ≠ 0) : Step a (a.mod i fun r => r.configure payload)
  | subject (a i) {text} (hi : (a.table i).active ≠ 0) (ht : Holds 256 text) :
      Step a (a.mod i fun r => { r with subject := text })
  | release (a i) (h : ∀ j, ((a.table i).users j).active = false) : Step a (a.mod i Room.release)
  | destroy (a i) : Step a (a.mod i fun _ => .zero)
  | save (a) : Step a { a with image := fun i => (a.table i).pack.unpack }

end Rooms

/-! Sizes. -/

theorem RoomOk.zero : RoomOk .zero :=
  ⟨⟨by decide, by decide⟩, ⟨by decide, by decide⟩, ⟨by decide, by decide⟩, by decide,
    fun _ => ⟨Nat.zero_lt_succ _, List.not_mem_nil⟩⟩

theorem bare_holds (jid : Str) : Holds 64 (bare jid) := (strncpy_holds 63 jid).takeWhile _

theorem RoomOk.create (h : RoomOk r) {name : Str} (hn : Holds 32 name) (full_jid : Str) :
    RoomOk (r.create name full_jid) :=
  ⟨hn, bare_holds _, h.subject, h.banned_count, h.banned_jids⟩

theorem RoomOk.setUser (h : RoomOk r) (j : Fin MAX_USERS_PER_ROOM) (p : Participant) : RoomOk (r.setUser j p) :=
  ⟨h.name, h.creator_jid, h.subject, h.banned_count, h.banned_jids⟩

theorem RoomOk.ban (h : RoomOk r) (jid : Str) : RoomOk (r.ban jid) := by
  unfold Room.ban
  split
  · rename_i hb
    refine ⟨h.name, h.creator_jid, h.subject, ?_, fun bi => ?_⟩
    · have h1 : (1 : Int32).toInt = 1 := rfl
      have h8 : r.banned_count.toInt < 8 := hb.2
      rw [Int32.toInt_add, h1, Int.bmod_eq_of_le (by omega) (by omega)]
      exact h8
    · dsimp only
      by_cases he : bi = ⟨r.banned_count.toInt.toNat, by omega⟩
      · rw [he, Function.update_self]
        exact strncpy_holds 63 jid
      · rw [Function.update_of_ne he]
        exact h.banned_jids bi
  · exact h

theorem RoomOk.configure (h : RoomOk r) (payload : Str) : RoomOk (r.configure payload) :=
  ⟨h.name, h.creator_jid, h.subject, h.banned_count, h.banned_jids⟩

theorem RoomOk.withSubject (h : RoomOk r) {text : Str} (ht : Holds 256 text) : RoomOk { r with subject := text } :=
  ⟨h.name, h.creator_jid, ht, h.banned_count, h.banned_jids⟩

theorem RoomOk.release (h : RoomOk r) : RoomOk r.release :=
  ⟨RoomOk.zero.name, RoomOk.zero.creator_jid, RoomOk.zero.subject, RoomOk.zero.banned_count,
    h.banned_jids⟩

/-- A ban touches the list of bans alone. -/
theorem ban_eq (r : Room) (jid : Str) :
    ∃ jids n, r.ban jid = { r with banned_jids := jids, banned_count := n } := by
  unfold Room.ban
  split
  · exact ⟨_, _, rfl⟩
  · exact ⟨_, _, rfl⟩

/-! What a slot that is not in use holds, and what tells rooms and occupants apart. -/

structure Vacant (r : Room) : Prop where
  name : r.name = []
  creator_jid : r.creator_jid = []
  subject : r.subject = []
  banned_count : r.banned_count = 0
  persistent : r.persistent = 0
  moderated : r.moderated = 0
  members_only : r.members_only = 0
  users : ∀ j, (r.users j).active = false

/-- The active occupants have nicks and addresses of their own. -/
structure Distinct (users : Fin MAX_USERS_PER_ROOM → Participant) : Prop where
  nick : ∀ j k, j ≠ k → (users j).active → (users k).active → (users j).nick ≠ (users k).nick
  jid : ∀ j k, j ≠ k → (users j).active → (users k).active → (users j).jid ≠ (users k).jid

theorem Distinct.of_inactive (h : ∀ j, (users j).active = false) : Distinct users :=
  ⟨fun j _ _ hj => by simp [h] at hj, fun j _ _ hj => by simp [h] at hj⟩

/-- Occupants that are told apart by `f`. -/
def Separate (f : Participant → Str) (users : Fin MAX_USERS_PER_ROOM → Participant) : Prop :=
  ∀ j k, j ≠ k → (users j).active → (users k).active → f (users j) ≠ f (users k)

/-- One occupant is replaced by one that is told apart from the others, or by none. -/
theorem Separate.update {f : Participant → Str} (h : Separate f users) (j : Fin MAX_USERS_PER_ROOM) {p : Participant}
    (hp : p.active → ∀ k, k ≠ j → (users k).active → f (users k) ≠ f p) : Separate f (Function.update users j p) := by
  intro k l hkl hk hl
  by_cases hkj : k = j
  · subst hkj
    rw [Function.update_self, Function.update_of_ne (Ne.symm hkl)] at *
    exact Ne.symm (hp hk l (Ne.symm hkl) hl)
  · by_cases hlj : l = j
    · subst hlj
      rw [Function.update_self, Function.update_of_ne hkj] at *
      exact hp hl k hkl hk
    · rw [Function.update_of_ne hkj, Function.update_of_ne hlj] at *
      exact h k l hkl hk hl

theorem Distinct.update (h : Distinct users) (j : Fin MAX_USERS_PER_ROOM) {p : Participant}
    (hp : p.active → ∀ k, k ≠ j → (users k).active → (users k).nick ≠ p.nick ∧ (users k).jid ≠ p.jid) :
    Distinct (Function.update users j p) :=
  ⟨Separate.update (f := (·.nick)) h.nick j fun ha k hk hu => (hp ha k hk hu).1,
    Separate.update (f := (·.jid)) h.jid j fun ha k hk hu => (hp ha k hk hu).2⟩

structure TidyRoom (r : Room) : Prop where
  ok : RoomOk r
  users : Distinct r.users
  vacant : r.active = 0 → Vacant r

structure Tidy (T : RoomTable) : Prop where
  room : ∀ i, TidyRoom (T i)
  names : ∀ i j, i ≠ j → (T i).active ≠ 0 → (T j).active ≠ 0 → (T i).name ≠ (T j).name

theorem TidyRoom.zero : TidyRoom .zero :=
  ⟨.zero, .of_inactive fun _ => rfl, fun _ => ⟨rfl, rfl, rfl, rfl, rfl, rfl, rfl, fun _ => rfl⟩⟩

theorem Tidy.zero : Tidy fun _ => .zero :=
  ⟨fun _ => .zero, fun _ _ _ h => absurd rfl h⟩

variable {T : RoomTable}

/-- One room is replaced by a tidy one whose name no other has. -/
theorem Tidy.mod (h : Tidy T) (i : Fin MAX_ROOMS) (hr : TidyRoom (f (T i)))
    (hn : (f (T i)).active ≠ 0 → ∀ j, j ≠ i → (T j).active ≠ 0 → (T j).name ≠ (f (T i)).name) : Tidy (T.mod i f) := by
  refine ⟨fun j => ?_, fun j k hjk hj hk => ?_⟩
  · by_cases hj : j = i
    · subst hj
      rwa [RoomTable.mod_self]
    · rw [RoomTable.mod_of_ne T hj]
      exact h.room j
  · by_cases hji : j = i
    · subst hji
      rw [RoomTable.mod_self] at hj ⊢
      rw [RoomTable.mod_of_ne T (Ne.symm hjk)] at hk ⊢
      exact Ne.symm (hn hj k (Ne.symm hjk) hk)
    · rw [RoomTable.mod_of_ne T hji] at hj ⊢
      by_cases hki : k = i
      · subst hki
        rw [RoomTable.mod_self] at hk ⊢
        exact hn hk j hji hj
      · rw [RoomTable.mod_of_ne T hki] at hk ⊢
        exact h.names j k hjk hj hk

/-- A room in use stays in use under its name. -/
theorem Tidy.modActive (h : Tidy T) (i : Fin MAX_ROOMS)
    (hi : (T i).active ≠ 0) (ha : (f (T i)).active = (T i).active) (hname : (f (T i)).name = (T i).name)
    (hok : RoomOk (f (T i))) (hu : Distinct (f (T i)).users) : Tidy (T.mod i f) := by
  refine h.mod i ⟨hok, hu, fun h0 => absurd (ha ▸ h0) hi⟩ fun _ j hj hja => ?_
  rw [hname]
  exact h.names j i hj hja hi

theorem TidyRoom.saved (h : TidyRoom r) : TidyRoom (Room.saved r) := by
  refine ⟨⟨h.ok.name, h.ok.creator_jid, h.ok.subject, h.ok.banned_count, fun bi => ?_⟩,
    .of_inactive fun _ => rfl, fun h0 => ?_⟩
  · simp only [Room.saved]
    split
    · exact h.ok.banned_jids bi
    · exact RoomOk.zero.banned_jids bi
  · obtain ⟨hn, hc, hs, hb, hp, hm, ho, -⟩ := h.vacant h0
    exact ⟨hn, hc, hs, hb, hp, hm, ho, fun _ => rfl⟩

theorem Tidy.saved (h : Tidy T) : Tidy fun i => Room.saved (T i) :=
  ⟨fun i => (h.room i).saved, h.names⟩

namespace Rooms

structure Ok (a : Rooms) : Prop where
  table : Tidy a.table
  image : Tidy a.image

theorem Ok.mod {a : Rooms} {i : Fin MAX_ROOMS} (hm : Tidy a.image) (h : Tidy (a.table.mod i f)) : (a.mod i f).Ok :=
  ⟨h, hm⟩

theorem Step.ok {a b : Rooms} (h : Step a b) (ha : a.Ok) : b.Ok := by
  obtain ⟨ht, hm⟩ := ha
  cases h with
  | create i hn hi hfree =>
    refine .mod hm (ht.mod i ⟨(ht.room i).ok.create hn _, (ht.room i).users, fun h0 => ?_⟩ fun _ j _ hj => ?_)
    · exact absurd h0 (by decide : (1 : Int32) ≠ 0)
    · exact hfree j hj
  | join i j hi hj hnick hjid =>
    refine .mod hm (ht.modActive i hi rfl rfl ((ht.room i).ok.setUser j _) ((ht.room i).users.update j ?_))
    exact fun _ k _ hk => ⟨hnick k hk, hjid k hk⟩
  | rename i k hk hnick =>
    have hi : (a.table i).active ≠ 0 := fun h0 => by
      have := ((ht.room i).vacant h0).users k
      simp [this] at hk
    refine .mod hm (ht.modActive i hi rfl rfl ((ht.room i).ok.setUser k _) ((ht.room i).users.update k ?_))
    exact fun _ j hj hja => ⟨hnick j hj hja, (ht.room i).users.jid j k hj hja hk⟩
  | remove i j =>
    have hu := (ht.room i).users.update j (p := .zero) nofun
    refine .mod hm (ht.mod i ⟨(ht.room i).ok.setUser j _, hu, fun h0 => ?_⟩ fun h0 k hk hka => ?_)
    · obtain ⟨hn, hc, hs, hb, hp, hmo, ho, hus⟩ := (ht.room i).vacant h0
      refine ⟨hn, hc, hs, hb, hp, hmo, ho, fun k => ?_⟩
      by_cases hkj : k = j
      · simp [Room.setUser, hkj, Participant.zero]
      · simp [Room.setUser, hkj, hus]
    · exact ht.names k i hk hka h0
  | ban i jid hi =>
    obtain ⟨jids, n, he⟩ := ban_eq (a.table i) jid
    have hok := (ht.room i).ok.ban jid
    refine .mod hm (ht.modActive i hi (by rw [he]) (by rw [he]) hok ?_)
    rw [he]
    exact (ht.room i).users
  | configure i payload hi =>
    exact .mod hm (ht.modActive i hi rfl rfl ((ht.room i).ok.configure _) (ht.room i).users)
  | subject i hi htext =>
    exact .mod hm (ht.modActive i hi rfl rfl ((ht.room i).ok.withSubject htext) (ht.room i).users)
  | release i hu =>
    refine .mod hm (ht.mod i ⟨(ht.room i).ok.release, .of_inactive hu, fun _ => ?_⟩ fun h0 => absurd rfl h0)
    exact ⟨rfl, rfl, rfl, rfl, rfl, rfl, rfl, hu⟩
  | destroy i => exact .mod hm (ht.mod i .zero fun h0 => absurd rfl h0)
  | save =>
    refine ⟨ht, ?_⟩
    have he : (fun i => (a.table i).pack.unpack) = fun i => Room.saved (a.table i) := by
      funext i
      exact Room.unpack_pack (ht.room i).ok
    exact he ▸ ht.saved

theorem steps_ok {a b : Rooms} (h : ReflTransGen Step a b) (ha : a.Ok) : b.Ok := by
  induction h with
  | refl => exact ha
  | tail _ hs ih => exact hs.ok ih

end Rooms

/-! Saving, as the machine sees it. -/

/-- A save writes its region, and then the header, as far as the disk lets it. -/
theorem save_cases (k : StoreId) (m : Mem) : (k.save m).2.stores = m.stores ∧ ((k.save m).2.disk = m.disk ∨
      ∃ w, (k.save m).2.disk = m.disk.put k.region (k.region.buf (k.bytes m.stores)) ∨
        (k.save m).2.disk = (m.disk.put k.region (k.region.buf (k.bytes m.stores))).put .header w) := by
  have hrun : k.save m = (do
      if ← disk_write_sectors k.region (k.region.buf (k.bytes m.stores)) then write_header :
        StateM Mem Unit) m := rfl
  rw [hrun, StateRel.bind_run, disk_write_sectors]
  split
  · simp only [if_true]
    have hw : ∀ m' : Mem, (write_header m').2.stores = m'.stores ∧ ((write_header m').2.disk = m'.disk ∨
        (write_header m').2.disk = m'.disk.put .header (headerBytes (compute_full_crc m'.stores))) := by
      intro m'
      change (disk_write_sectors .header _ m').2.stores = _ ∧ ((disk_write_sectors .header _ m').2.disk = _ ∨
        (disk_write_sectors .header _ m').2.disk = _)
      rw [disk_write_sectors]
      split
      · exact ⟨rfl, .inr rfl⟩
      · exact ⟨rfl, .inl rfl⟩
    obtain ⟨hs, hd | hd⟩ := hw { m with
      disk := m.disk.put k.region (k.region.buf (k.bytes m.stores)), transfers := m.transfers + 1 }
    · exact ⟨hs, .inr ⟨[], .inl hd⟩⟩
    · exact ⟨hs, .inr ⟨_, .inr hd⟩⟩
  · exact ⟨rfl, .inl rfl⟩

/-- A save leaves a store of the disk as it was, or it is the one that is saved. -/
theorem save_image (k j : StoreId) (m : Mem) : k.Same (diskStores m.disk) (diskStores (j.save m).2.disk) ∨
      k = j ∧ k.Same (Stores.packed m.stores) (diskStores (j.save m).2.disk) := by
  have header : ∀ {t d w}, k.Same t (diskStores d) → k.Same t (diskStores (d.put .header w)) :=
    fun h => h.trans (same_put _ (apart_header k) _)
  rcases (save_cases j m).2 with hd | ⟨w, hd⟩
  · rw [hd]
    exact .inl (.refl k _)
  · by_cases hk : k = j
    · subst hk
      refine .inr ⟨rfl, ?_⟩
      rcases hd with hd | hd
      · exact hd ▸ same_put_own m.disk k m.stores
      · exact hd ▸ header (same_put_own m.disk k m.stores)
    · have hput := same_put m.disk (apart_of_ne hk) (j.region.buf (j.bytes m.stores))
      rcases hd with hd | hd
      · exact .inl (hd ▸ hput)
      · exact .inl (hd ▸ header hput)

theorem view_persist {k : StoreId} (hk : k ≠ .rooms) (s : Server) : view (persist k.save s).2 = view s := by
  have hs : (k.save s.mem).2.stores = s.mem.stores := (save_cases k s.mem).1
  have hi : roomImage (k.save s.mem).2.disk = roomImage s.mem.disk :=
    (save_image .rooms k s.mem).resolve_right fun h => hk h.1.symm
  change Rooms.mk (k.save s.mem).2.stores.rooms (roomImage (k.save s.mem).2.disk) = _
  rw [hs, hi]
  rfl

theorem view_persist_rooms (s : Server) :
    ReflTransGen Rooms.Step (view s) (view (persist xmpp_persist_save_rooms s).2) ∧
      (persist xmpp_persist_save_rooms s).2.stores = s.stores := by
  have hs := (save_cases .rooms s.mem).1
  have ht : (StoreId.save .rooms s.mem).2.stores.rooms = s.mem.stores.rooms := congrArg Stores.rooms hs
  have hv : view (persist xmpp_persist_save_rooms s).2 =
      ⟨s.mem.stores.rooms, roomImage (StoreId.save .rooms s.mem).2.disk⟩ := by rw [← ht]; rfl
  refine ⟨?_, hs⟩
  rw [hv]
  rcases save_image .rooms .rooms s.mem with h | ⟨-, h⟩
  · have hi : roomImage (StoreId.save .rooms s.mem).2.disk = roomImage s.mem.disk := h
    rw [hi]
    exact .refl
  · have hi : roomImage (StoreId.save .rooms s.mem).2.disk = fun i => (s.mem.stores.rooms i).pack.unpack := h
    rw [hi]
    exact .single (.save (view s))

end Angelic.Proofs
