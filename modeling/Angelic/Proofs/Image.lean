import Angelic.Proofs.Effects

namespace Angelic.Proofs
open CString Model

variable {r : Region} {w : List Byte} {k : StoreId} {t : Stores} (d : Disk)

/-! The image on disk: what was written is read back, entry by entry and region by region. -/

theorem PrivateEntry.enc_length (e : PrivateEntry) : e.enc.length = 1064 := by
  simp [PrivateEntry.enc, Buf.len]

theorem RosterEntry.enc_length (e : RosterEntry) : e.enc.length = 356 := by
  simp [RosterEntry.enc, Buf.len]

theorem OfflineMsg.enc_length (e : OfflineMsg) : e.enc.length = 1252 := by
  simp [OfflineMsg.enc, Buf.len]

theorem PendingSub.enc_length (e : PendingSub) : e.enc.length = 116 := by
  simp [PendingSub.enc, Buf.len]

theorem PersistRoomEntry.enc_length (e : PersistRoomEntry) : e.enc.length = 892 := by
  have hb : (arrayBytes Buf.bytes e.banned_jids).length = 8 * 64 := arrayBytes_length _ (fun b => b.len) _
  simp [PersistRoomEntry.enc, Buf.len, hb]

theorem unle32_word (v : Int32) (t : List Byte) : (unle32 (le32 v.toUInt32 ++ t)).toInt32 = v := by
  rw [unle32_le32]
  rfl

theorem unle32_last (v : Int32) : (unle32 (le32 v.toUInt32)).toInt32 = v := by
  simpa using unle32_word v []

theorem PrivateEntry.dec_enc (e : PrivateEntry) : PrivateEntry.dec e.enc = e := by
  have hn : e.enc.drop 32 = e.ns.bytes ++ (e.xml.bytes ++ le32 e.active.toUInt32) :=
    e.username.drop_bytes _ 0
  have hx : e.enc.drop 160 = e.xml.bytes ++ le32 e.active.toUInt32 :=
    (e.username.drop_bytes _ 128).trans (e.ns.drop_bytes _ 0)
  have ha : e.enc.drop 1060 = le32 e.active.toUInt32 :=
    (e.username.drop_bytes _ 1028).trans ((e.ns.drop_bytes _ 900).trans (e.xml.drop_bytes _ 0))
  rw [PrivateEntry.dec, hn, hx, ha, PrivateEntry.enc, Buf.ofBytes_append, Buf.ofBytes_append,
    Buf.ofBytes_append, unle32_last]

theorem RosterEntry.dec_enc (e : RosterEntry) : RosterEntry.dec e.enc = e := by
  have hj : e.enc.drop 32 = e.jid.bytes ++ (e.item_xml.bytes ++ le32 e.active.toUInt32) :=
    e.username.drop_bytes _ 0
  have hx : e.enc.drop 96 = e.item_xml.bytes ++ le32 e.active.toUInt32 :=
    (e.username.drop_bytes _ 64).trans (e.jid.drop_bytes _ 0)
  have ha : e.enc.drop 352 = le32 e.active.toUInt32 :=
    (e.username.drop_bytes _ 320).trans ((e.jid.drop_bytes _ 256).trans (e.item_xml.drop_bytes _ 0))
  rw [RosterEntry.dec, hj, hx, ha, RosterEntry.enc, Buf.ofBytes_append, Buf.ofBytes_append,
    Buf.ofBytes_append, unle32_last]

theorem OfflineMsg.dec_enc (e : OfflineMsg) : OfflineMsg.dec e.enc = e := by
  have hb : e.enc.drop 64 = e.to_bare.bytes ++ (e.to_user.bytes ++ (e.id.bytes ++
      (e.payload.bytes ++ le32 e.active.toUInt32))) := e.from_.drop_bytes _ 0
  have hu : e.enc.drop 128 = e.to_user.bytes ++ (e.id.bytes ++
      (e.payload.bytes ++ le32 e.active.toUInt32)) :=
    (e.from_.drop_bytes _ 64).trans (e.to_bare.drop_bytes _ 0)
  have hi : e.enc.drop 160 = e.id.bytes ++ (e.payload.bytes ++ le32 e.active.toUInt32) :=
    (e.from_.drop_bytes _ 96).trans ((e.to_bare.drop_bytes _ 32).trans (e.to_user.drop_bytes _ 0))
  have hp : e.enc.drop 224 = e.payload.bytes ++ le32 e.active.toUInt32 :=
    (e.from_.drop_bytes _ 160).trans ((e.to_bare.drop_bytes _ 96).trans
      ((e.to_user.drop_bytes _ 64).trans (e.id.drop_bytes _ 0)))
  have ha : e.enc.drop 1248 = le32 e.active.toUInt32 :=
    (e.from_.drop_bytes _ 1184).trans ((e.to_bare.drop_bytes _ 1120).trans
      ((e.to_user.drop_bytes _ 1088).trans ((e.id.drop_bytes _ 1024).trans (e.payload.drop_bytes _ 0))))
  rw [OfflineMsg.dec, hb, hu, hi, hp, ha, OfflineMsg.enc, Buf.ofBytes_append, Buf.ofBytes_append,
    Buf.ofBytes_append, Buf.ofBytes_append, Buf.ofBytes_append, unle32_last]

theorem PendingSub.dec_enc (e : PendingSub) : PendingSub.dec e.enc = e := by
  have hf : e.enc.drop 16 = e.from_.bytes ++ (e.to_user.bytes ++ le32 e.active.toUInt32) :=
    e.type.drop_bytes _ 0
  have hu : e.enc.drop 80 = e.to_user.bytes ++ le32 e.active.toUInt32 :=
    (e.type.drop_bytes _ 64).trans (e.from_.drop_bytes _ 0)
  have ha : e.enc.drop 112 = le32 e.active.toUInt32 :=
    (e.type.drop_bytes _ 96).trans ((e.from_.drop_bytes _ 32).trans (e.to_user.drop_bytes _ 0))
  rw [PendingSub.dec, hf, hu, ha, PendingSub.enc, Buf.ofBytes_append, Buf.ofBytes_append,
    Buf.ofBytes_append, unle32_last]

/-- The numbers of a room lie one after the other. -/
theorem unle32_words (vs : List Int32) (t : List Byte) (i : Nat) (v : Int32) (h : vs[i]? = some v) :
    (unle32 ((vs.flatMap (fun v => le32 v.toUInt32) ++ t).drop (4 * i))).toInt32 = v := by
  induction vs generalizing i with
  | nil => simp at h
  | cons a vs ih =>
    rw [List.flatMap_cons, List.append_assoc]
    cases i with
    | zero =>
      obtain rfl : a = v := by simpa using h
      exact unle32_word a _
    | succ i =>
      rw [show 4 * (i + 1) = 4 + 4 * i by omega, drop_le32]
      exact ih i (by simpa using h)

theorem PersistRoomEntry.dec_enc (e : PersistRoomEntry) : PersistRoomEntry.dec e.enc = e := by
  let vs := [e.semi_anon, e.locked, e.active, e.persistent, e.moderated, e.members_only, e.banned_count]
  let tail := arrayBytes Buf.bytes e.banned_jids ++ e.subject.bytes
  have hc : e.enc.drop 32 = e.creator_jid.bytes ++ (vs.flatMap (fun v => le32 v.toUInt32) ++ tail) :=
    (e.name.drop_bytes _ 0).trans (by simp [vs, tail])
  have hv : ∀ i, e.enc.drop (96 + 4 * i) = (vs.flatMap (fun v => le32 v.toUInt32) ++ tail).drop (4 * i) := by
    intro i
    rw [show 96 + 4 * i = 32 + (64 + 4 * i) by omega, ← List.drop_drop, hc, Buf.drop_bytes]
  have hb : e.enc.drop 124 = tail := by
    rw [show 124 = 96 + 4 * 7 from rfl, hv]
    have hl : (vs.flatMap (fun v => le32 v.toUInt32)).length = 4 * 7 := rfl
    rw [← hl, List.drop_left]
  have hlen : (arrayBytes Buf.bytes e.banned_jids).length = 8 * 64 := arrayBytes_length _ (fun b => b.len) _
  have hs : e.enc.drop 636 = e.subject.bytes := by
    rw [show 636 = 124 + 8 * 64 from rfl, ← List.drop_drop, hb, ← hlen]
    exact List.drop_left
  have word : ∀ i v, vs[i]? = some v → (unle32 (e.enc.drop (96 + 4 * i))).toInt32 = v := fun i v h => by
    rw [hv]
    exact unle32_words vs tail i v h
  have ban : ∀ bi : Fin MAX_BANNED_PER_ROOM, Buf.ofBytes 64 (arrayAt 64 (e.enc.drop 124) bi) = e.banned_jids bi := fun bi => by
    rw [hb, arrayAt_arrayBytes Buf.bytes (fun b => b.len), Buf.ofBytes_self]
  have name : Buf.ofBytes 32 e.enc = e.name := Buf.ofBytes_append _ _
  unfold PersistRoomEntry.dec
  rw [name, hc, Buf.ofBytes_append, word 0 _ rfl, word 1 _ rfl, word 2 _ rfl, word 3 _ rfl, word 4 _ rfl,
    word 5 _ rfl, word 6 _ rfl, hs, Buf.ofBytes_self]
  simp only [ban]

theorem Room.pack_saved (r : Room) : (Room.saved r).pack = r.pack := by
  simp only [Room.pack, Room.saved]
  congr 1
  funext bi
  split <;> rfl

/-- A room comes back without its occupants. -/
theorem Room.unpack_pack {r : Room} (h : RoomOk r) : r.pack.unpack = Room.saved r := by
  have hc : ¬ r.pack.banned_count.toInt > MAX_BANNED_PER_ROOM := Int.not_lt.mpr h.banned_count
  simp only [PersistRoomEntry.unpack, if_neg hc]
  simp only [Room.pack, Room.saved, Room.zero, Buf.strncpy_zero_str h.name,
    Buf.strncpy_zero_str h.creator_jid, Buf.strncpy_zero_str h.subject]
  congr 1
  funext bi
  split
  · exact Buf.strncpy_zero_str (h.banned_jids bi)
  · rfl

/-- Whatever is on disk, the room it is taken for is one the server can have. -/
theorem RoomOk.unpack (e : PersistRoomEntry) : RoomOk e.unpack := by
  refine ⟨strncpy_holds 31 _, strncpy_holds 63 _, strncpy_holds 255 _, ?_, fun bi => ?_⟩
  · simp only [PersistRoomEntry.unpack]
    split
    · decide
    · exact Int.not_lt.mp ‹_›
  · simp only [PersistRoomEntry.unpack]
    generalize (if e.banned_count.toInt > MAX_BANNED_PER_ROOM then 8 else e.banned_count) = n
    split
    · exact strncpy_holds 63 _
    · exact ⟨Nat.zero_lt_succ _, List.not_mem_nil⟩

theorem Room.saved_eq {r : Room} (hu : r.users = fun _ => .zero)
    (hb : ∀ bi : Fin MAX_BANNED_PER_ROOM, ¬ (bi : Int) < r.banned_count.toInt → r.banned_jids bi = []) :
    Room.saved r = r := by
  have he : (fun bi : Fin MAX_BANNED_PER_ROOM =>
      if (bi : Int) < r.banned_count.toInt then r.banned_jids bi else []) = r.banned_jids := by
    funext bi
    split
    · rfl
    · exact (hb bi ‹_›).symm
  rw [Room.saved, he, ← hu]

theorem Room.saved_unpack (e : PersistRoomEntry) : Room.saved e.unpack = e.unpack :=
  Room.saved_eq rfl fun _ h => if_neg h

/-! Regions. -/

theorem Region.buf_length (h : w.length ≤ r.sectors * 512) : (r.buf w).length = r.sectors * 512 := by
  rw [Region.buf, List.length_append, List.length_replicate]
  omega

/-- The sectors of a buffer, one after the other, are the buffer. -/
theorem flatMap_arrayAt {n size : Nat} (h : w.length = n * size) : (List.range n).flatMap (arrayAt size w) = w := by
  induction n generalizing w with
  | zero => exact (List.length_eq_zero_iff.mp (by omega)).symm
  | succ n ih =>
    have hd : (w.drop size).length = n * size := by
      rw [List.length_drop, h, Nat.succ_mul]
      omega
    have hs : ∀ i, arrayAt size w (i + 1) = arrayAt size (w.drop size) i := fun i => by
      rw [arrayAt, arrayAt, List.drop_drop, Nat.succ_mul, Nat.add_comm]
    rw [List.range_succ_eq_map, List.flatMap_cons, List.flatMap_map]
    simp only [Nat.succ_eq_add_one, hs, ih hd]
    simp [arrayAt]

theorem Disk.get_put (r : Region) (h : w.length = r.sectors * 512) : (d.put r w).get r = w := by
  have hs : ∀ k ∈ List.range r.sectors, d.put r w (r.start + k) = arrayAt 512 w k := by
    intro k hk
    have := List.mem_range.mp hk
    simp only [Disk.put, Nat.add_sub_cancel_left]
    exact if_pos ⟨by omega, by omega⟩
  rw [Disk.get, List.flatMap_congr hs]
  exact flatMap_arrayAt h

/-- Two extents without a common block. -/
def Region.apart (r q : Region) : Prop := r.start + r.sectors ≤ q.start ∨ q.start + q.sectors ≤ r.start

instance (r q : Region) : Decidable (Region.apart r q) := inferInstanceAs (Decidable (_ ∨ _))

theorem Disk.get_put_of_apart {q : Region} (h : Region.apart r q) (w : List Byte) : (d.put r w).get q = d.get q := by
  have hs : ∀ k ∈ List.range q.sectors, d.put r w (q.start + k) = d (q.start + k) := by
    intro k hk
    have := List.mem_range.mp hk
    refine if_neg fun hin => ?_
    rcases h with h | h <;> omega
  rw [Disk.get, Disk.get, List.flatMap_congr hs]

/-! The five stores. -/

/-- One store of `u`, the others of `t`. -/
def StoreId.copy (t u : Stores) : StoreId → Stores
  | private_ => { t with private_store := u.private_store }
  | roster => { t with roster_store := u.roster_store }
  | rooms => { t with rooms := u.rooms }
  | offline => { t with offline_store := u.offline_store }
  | pending_subs => { t with pending_subs := u.pending_subs }

theorem StoreId.OnlyIn.eq_copy {t' : Stores} (h : StoreId.OnlyIn t t' k) : t' = StoreId.copy t t' k := by
  cases k <;> exact h

theorem StoreId.copy_copy (k : StoreId) (t u v : Stores) :
    StoreId.copy (StoreId.copy t u k) v k = StoreId.copy t v k := by
  cases k <;> rfl

theorem StoreId.saved_copy (k : StoreId) (t u : Stores) :
    Stores.saved (StoreId.copy t u k) = StoreId.copy (Stores.saved t) (Stores.saved u) k := by
  cases k <;> rfl

/-- The stores that an image stands for. -/
def diskStores (d : Disk) : Stores :=
  decodeStores (d.get .private_) (d.get .roster) (d.get .rooms) (d.get .offline) (d.get .pending_subs)

theorem StoreId.bytes_fit (k : StoreId) (t : Stores) : (k.bytes t).length ≤ k.region.sectors * 512 := by
  cases k with
  | private_ =>
    change (arrayBytes _ _).length ≤ _
    rw [arrayBytes_length _ PrivateEntry.enc_length]
    decide
  | roster =>
    change (arrayBytes _ _).length ≤ _
    rw [arrayBytes_length _ RosterEntry.enc_length]
    decide
  | rooms =>
    change (arrayBytes _ _).length ≤ _
    rw [arrayBytes_length _ PersistRoomEntry.enc_length]
    decide
  | offline =>
    change (arrayBytes _ _).length ≤ _
    rw [arrayBytes_length _ OfflineMsg.enc_length]
    decide
  | pending_subs =>
    change (arrayBytes _ _).length ≤ _
    rw [arrayBytes_length _ PendingSub.enc_length]
    decide

/-- An element of an array in the buffer of a region. -/
theorem arrayAt_buf {enc : α → List Byte} (hs : ∀ a, (enc a).length = size) (r : Region) (a : Fin m → α)
    (i : Fin m) : arrayAt size (r.buf (arrayBytes enc a)) i = enc (a i) :=
  arrayAt_arrayBytes enc hs a _ i

/-- One store is the same in both. -/
def StoreId.Same (t u : Stores) : StoreId → Prop
  | private_ => u.private_store = t.private_store
  | roster => u.roster_store = t.roster_store
  | rooms => u.rooms = t.rooms
  | offline => u.offline_store = t.offline_store
  | pending_subs => u.pending_subs = t.pending_subs

theorem StoreId.Same.refl (k : StoreId) (t : Stores) : k.Same t t := by
  cases k <;> rfl

theorem StoreId.Same.trans {u v : Stores} (h : k.Same t u) (h' : k.Same u v) : k.Same t v := by
  cases k <;> exact Eq.trans h' h

theorem StoreId.Same.symm {u : Stores} (h : k.Same t u) : k.Same u t := by
  cases k <;> exact Eq.symm h

theorem StoreId.eq_of_same {u : Stores} (h : ∀ k : StoreId, k.Same t u) : u = t := by
  obtain ⟨a, b, c, d, e⟩ := t
  obtain ⟨a', b', c', d', e'⟩ := u
  have hall := And.intro (h .private_) (And.intro (h .roster) (And.intro (h .rooms) (And.intro (h .offline) (h .pending_subs))))
  simpa only [StoreId.Same, Stores.mk.injEq, and_assoc] using hall

theorem StoreId.same_copy (k j : StoreId) (t u : Stores) : k.Same (if k = j then u else t) (StoreId.copy t u j) := by
  cases j <;> cases k <;> rfl

theorem apart_of_ne {j : StoreId} (h : k ≠ j) : Region.apart j.region k.region := by
  revert h
  cases j <;> cases k <;> decide

theorem apart_header (k : StoreId) : Region.apart .header k.region := by
  cases k <;> decide

/-- A region that was written leaves the others. -/
theorem same_put (h : Region.apart r k.region) (w : List Byte) : k.Same (diskStores d) (diskStores (d.put r w)) := by
  have hget := Disk.get_put_of_apart d h w
  cases k <;> simp only [StoreId.Same, StoreId.region, diskStores, decodeStores] at hget ⊢ <;> rw [hget]

/-- The stores as they are written: of a room only a part is. -/
def Stores.packed (t : Stores) : Stores := { t with rooms := fun i => (t.rooms i).pack.unpack }

theorem Stores.packed_of_ok (h : StoresOk t) : Stores.packed t = Stores.saved t := by
  simp only [Stores.packed, Stores.saved, Room.unpack_pack (h _)]

theorem Stores.packed_same (hk : k ≠ .rooms) (t : Stores) : k.Same t (Stores.packed t) := by
  cases k <;> first | rfl | exact absurd rfl hk

/-- A region that was written stands for the store in memory. -/
theorem same_put_own (k : StoreId) (t : Stores) :
    k.Same (Stores.packed t) (diskStores (d.put k.region (k.region.buf (k.bytes t)))) := by
  have hget := Disk.get_put d k.region (Region.buf_length (k.bytes_fit t))
  cases k
  all_goals
    simp only [StoreId.Same, StoreId.region, StoreId.bytes, diskStores, decodeStores] at hget ⊢
    rw [hget]
  · simp only [privateBytes, arrayAt_buf PrivateEntry.enc_length, PrivateEntry.dec_enc]
    rfl
  · simp only [rosterBytes, arrayAt_buf RosterEntry.enc_length, RosterEntry.dec_enc]
    rfl
  · simp only [roomsBytes, arrayAt_buf PersistRoomEntry.enc_length, PersistRoomEntry.dec_enc]
    rfl
  · simp only [offlineBytes, arrayAt_buf OfflineMsg.enc_length, OfflineMsg.dec_enc]
    rfl
  · simp only [pendingSubsBytes, arrayAt_buf PendingSub.enc_length, PendingSub.dec_enc]
    rfl

/-- A region that was written stands for what was in memory, the others for what they did. -/
theorem diskStores_put (k : StoreId) (h : StoresOk t) :
    diskStores (d.put k.region (k.region.buf (k.bytes t))) = StoreId.copy (diskStores d) (Stores.saved t) k := by
  refine (StoreId.eq_of_same fun j => ?_).symm
  have hcopy := StoreId.same_copy j k (diskStores d) (Stores.saved t)
  by_cases hj : j = k
  · subst hj
    rw [if_pos rfl, ← Stores.packed_of_ok h] at hcopy
    rw [← Stores.packed_of_ok h]
    exact (same_put_own d j t).symm.trans hcopy
  · rw [if_neg hj] at hcopy
    exact (same_put d (apart_of_ne hj) _).symm.trans hcopy

theorem diskStores_put_header (w : List Byte) : diskStores (d.put .header w) = diskStores d :=
  StoreId.eq_of_same fun k => same_put d (apart_header k) w

/-- The checksum does not see what is not written. -/
theorem compute_full_crc_saved (t : Stores) : compute_full_crc (Stores.saved t) = compute_full_crc t := by
  have hr : roomsBytes (Stores.saved t) = roomsBytes t := by
    simp only [roomsBytes, Stores.saved, Room.pack_saved]
  have hp : privateBytes (Stores.saved t) = privateBytes t := rfl
  have hs : rosterBytes (Stores.saved t) = rosterBytes t := rfl
  have ho : offlineBytes (Stores.saved t) = offlineBytes t := rfl
  have hq : pendingSubsBytes (Stores.saved t) = pendingSubsBytes t := rfl
  rw [compute_full_crc, compute_full_crc, hp, hs, hr, ho, hq]

theorem storesOk_diskStores : StoresOk (diskStores d) := fun _ => RoomOk.unpack _

theorem saved_diskStores : Stores.saved (diskStores d) = diskStores d := by
  simp only [Stores.saved, diskStores, decodeStores, Room.saved_unpack]

end Angelic.Proofs
