import Angelic.Proofs.ReadErrors

namespace Angelic.Proofs
open CString Model StateRel

/-! What a few changed bytes on the disk do to the checksum. -/

/-- The same bytes but for four in a row. -/
structure Garbled (p : Nat) (v v' : List Byte) : Prop where
  length : v'.length = v.length
  bytes : ∀ i, i < p ∨ p + 4 ≤ i → v'[i]? = v[i]?
  changed : v' ≠ v

theorem Garbled.run_ne {p : Nat} {v v' : List Byte} (h : Garbled p v v') (crc : UInt32) : Crc.run crc v' ≠ Crc.run crc v := by
  have split : ∀ u : List Byte, u = u.take p ++ ((u.drop p).take 4 ++ u.drop (p + 4)) := fun u => by
    rw [← List.drop_drop, List.take_append_drop, List.take_append_drop]
  have hfirst : v'.take p = v.take p := by
    refine List.ext_getElem? fun i => ?_
    rw [List.getElem?_take, List.getElem?_take]
    split
    · exact h.bytes i (.inl ‹_›)
    · rfl
  have hlast : v'.drop (p + 4) = v.drop (p + 4) := by
    refine List.ext_getElem? fun i => ?_
    rw [List.getElem?_drop, List.getElem?_drop]
    exact h.bytes _ (.inr (Nat.le_add_right _ _))
  have hl : ((v'.drop p).take 4).length = ((v.drop p).take 4).length := by
    rw [List.length_take, List.length_drop, h.length, List.length_take, List.length_drop]
  have hne : (v'.drop p).take 4 ≠ (v.drop p).take 4 := fun he => h.changed (by
    rw [split v', split v, hfirst, hlast, he])
  rw [split v', split v, hfirst, hlast]
  exact Crc.run_ne_of_burst crc _ _ hl (List.length_take_le ..) hne

/-- Two states that differ only in such bytes of one store have different checksums. -/
theorem crc_ne {k : StoreId} {t t' : Stores} (ho : ∀ j, j ≠ k → j.bytes t' = j.bytes t) {p : Nat}
    (h : Garbled p (k.bytes t) (k.bytes t')) : compute_full_crc t' ≠ compute_full_crc t := by
  intro he
  have hsum := UInt32.not_inj.mp he
  have hp : k ≠ .private_ → privateBytes t' = privateBytes t := fun h => ho .private_ h.symm
  have hr : k ≠ .roster → rosterBytes t' = rosterBytes t := fun h => ho .roster h.symm
  have hm : k ≠ .rooms → roomsBytes t' = roomsBytes t := fun h => ho .rooms h.symm
  have hoff : k ≠ .offline → offlineBytes t' = offlineBytes t := fun h => ho .offline h.symm
  have hs : k ≠ .pending_subs → pendingSubsBytes t' = pendingSubsBytes t := fun h => ho .pending_subs h.symm
  cases k with
  | private_ =>
    rw [hr nofun, hm nofun, hoff nofun, hs nofun] at hsum
    exact h.run_ne _ (Crc.run_injective _ (Crc.run_injective _ (Crc.run_injective _ (Crc.run_injective _ hsum))))
  | roster =>
    rw [hp nofun, hm nofun, hoff nofun, hs nofun] at hsum
    exact h.run_ne _ (Crc.run_injective _ (Crc.run_injective _ (Crc.run_injective _ hsum)))
  | rooms =>
    rw [hp nofun, hr nofun, hoff nofun, hs nofun] at hsum
    exact h.run_ne _ (Crc.run_injective _ (Crc.run_injective _ hsum))
  | offline =>
    rw [hp nofun, hr nofun, hm nofun, hs nofun] at hsum
    exact h.run_ne _ (Crc.run_injective _ hsum)
  | pending_subs =>
    rw [hp nofun, hr nofun, hm nofun, hoff nofun] at hsum
    exact h.run_ne _ hsum

/-! The records of the stores that are copied from the disk as they are. -/

theorem PrivateEntry.enc_dec (w : List Byte) : (PrivateEntry.dec w).enc = front 1064 w := by
  change _ = front (32 + (128 + (900 + 4))) w
  rw [front_add, front_add, front_add]
  simp only [PrivateEntry.enc, PrivateEntry.dec, Buf.ofBytes_front, UInt32.toUInt32_toInt32, le32_front, List.drop_drop,
    Nat.reduceAdd]

theorem RosterEntry.enc_dec (w : List Byte) : (RosterEntry.dec w).enc = front 356 w := by
  change _ = front (32 + (64 + (256 + 4))) w
  rw [front_add, front_add, front_add]
  simp only [RosterEntry.enc, RosterEntry.dec, Buf.ofBytes_front, UInt32.toUInt32_toInt32, le32_front, List.drop_drop,
    Nat.reduceAdd]

theorem OfflineMsg.enc_dec (w : List Byte) : (OfflineMsg.dec w).enc = front 1252 w := by
  change _ = front (64 + (64 + (32 + (64 + (1024 + 4))))) w
  rw [front_add, front_add, front_add, front_add, front_add]
  simp only [OfflineMsg.enc, OfflineMsg.dec, Buf.ofBytes_front, UInt32.toUInt32_toInt32, le32_front, List.drop_drop,
    Nat.reduceAdd]

theorem PendingSub.enc_dec (w : List Byte) : (PendingSub.dec w).enc = front 116 w := by
  change _ = front (16 + (64 + (32 + 4))) w
  rw [front_add, front_add, front_add]
  simp only [PendingSub.enc, PendingSub.dec, Buf.ofBytes_front, UInt32.toUInt32_toInt32, le32_front, List.drop_drop,
    Nat.reduceAdd]

/-- How many bytes the records of a store are. -/
def StoreId.records : StoreId → Nat
  | .private_ => PRIVATE_STORAGE_SLOTS * 1064
  | .roster => MAX_ROSTER_ENTRIES * 356
  | .rooms => MAX_ROOMS * 892
  | .offline => MAX_OFFLINE_MSGS * 1252
  | .pending_subs => MAX_PENDING_SUBS * 116

theorem bytes_diskStores {k : StoreId} (hk : k ≠ .rooms) (d : Disk) :
    k.bytes (diskStores d) = front k.records (d.get k.region) := by
  cases k with
  | private_ => exact arrayBytes_front PrivateEntry.enc_dec _ _
  | roster => exact arrayBytes_front RosterEntry.enc_dec _ _
  | rooms => exact absurd rfl hk
  | offline => exact arrayBytes_front OfflineMsg.enc_dec _ _
  | pending_subs => exact arrayBytes_front PendingSub.enc_dec _ _

/-- A disk that was changed in four bytes in a row, at most, of the records of one store. -/
structure Burst (k : StoreId) (p : Nat) (d d' : Disk) : Prop where
  within : p + 4 ≤ k.records
  elsewhere : ∀ l, ¬ (k.region.start ≤ l ∧ l < k.region.start + k.region.sectors) → d' l = d l
  garbled : Garbled p (d.get k.region) (d'.get k.region)

section Burst
variable {k : StoreId} {p : Nat} {d d' : Disk}

theorem Burst.get_of_apart (h : Burst k p d d') {r : Region} (hr : Region.apart k.region r) : d'.get r = d.get r := by
  have hs : ∀ i ∈ List.range r.sectors, d' (r.start + i) = d (r.start + i) := by
    intro i hi
    have hlt := List.mem_range.mp hi
    refine h.elsewhere _ fun hin => ?_
    rcases hr with hr | hr <;> omega
  rw [Disk.get, Disk.get, List.flatMap_congr hs]

theorem Burst.others (h : Burst k p d d') {j : StoreId} (hj : j ≠ k) :
    j.bytes (diskStores d') = j.bytes (diskStores d) := by
  have hget : d'.get j.region = d.get j.region := h.get_of_apart (by revert hj; cases j <;> cases k <;> decide)
  by_cases hr : j = .rooms
  · subst hr
    have hrooms : (diskStores d').rooms = (diskStores d).rooms := by
      change (decodeStores _ _ (d'.get .rooms) _ _).rooms = (decodeStores _ _ (d.get .rooms) _ _).rooms
      rw [show d'.get .rooms = d.get .rooms from hget]
      rfl
    change roomsBytes _ = roomsBytes _
    rw [roomsBytes, hrooms, roomsBytes]
  · rw [bytes_diskStores hr, bytes_diskStores hr, hget]

/-- Records that were changed are read changed, and at the same places. -/
theorem Burst.stored (h : Burst k p d d') (hk : k ≠ .rooms) :
    Garbled p (k.bytes (diskStores d)) (k.bytes (diskStores d')) := by
  rw [bytes_diskStores hk, bytes_diskStores hk]
  refine ⟨by rw [front, front, List.length_map, List.length_map], fun i hi => ?_, fun he => h.garbled.changed ?_⟩
  · rw [front_getElem?, front_getElem?, List.getD_eq_getElem?_getD, h.garbled.bytes i hi, List.getD_eq_getElem?_getD]
  · refine List.ext_getElem? fun i => ?_
    by_cases hi : i < p ∨ p + 4 ≤ i
    · exact h.garbled.bytes i hi
    · have hin : i < k.records := by
        have := h.within
        omega
      have hb := congrArg (·[i]?) he
      simp only [front_getElem?, if_pos hin, Option.some.injEq, List.getD_eq_getElem?_getD] at hb
      have hl := h.garbled.length
      by_cases hlt : i < (d.get k.region).length
      · rw [List.getElem?_eq_getElem hlt, List.getElem?_eq_getElem (hl ▸ hlt)] at hb ⊢
        exact congrArg some hb
      · rw [List.getElem?_eq_none (by omega), List.getElem?_eq_none (by omega)]

end Burst

/-- The checksums of two states that differ only in such bytes of one store are different; and an image that was
garbled so, in the records that are copied as they are, is never loaded again. -/
theorem burst_detected :
    (∀ (k : StoreId) (p : Nat) (t t' : Stores), (∀ j, j ≠ k → j.bytes t' = j.bytes t) →
      Garbled p (k.bytes t) (k.bytes t') → compute_full_crc t' ≠ compute_full_crc t) ∧
    ∀ (k : StoreId) (p : Nat) (d d' : Disk), k ≠ .rooms → ValidImage d → Burst k p d d' →
      ∀ m : Mem, m.disk = d' → (try_load m).1 = false := by
  refine ⟨fun k p t t' ho hg => crc_ne ho hg, fun k p d d' hk hd hb m hm => ?_⟩
  have hheader : m.disk.get .header = d.get .header := hm ▸ hb.get_of_apart (by cases k <;> decide)
  have hmagic := hheader ▸ hd.magic
  have hversion := hheader ▸ hd.version
  rcases first_failure (fun n => m.disk_ok (m.transfers + n)) 6 with hall | ⟨n, hn, hok, hf⟩
  · rw [try_load_run hmagic hversion hall, hheader, hd.crc, hm]
    exact beq_eq_false_iff_ne.mpr (crc_ne (fun j hj => hb.others hj) (hb.stored hk)).symm
  · rw [try_load_failed hmagic hversion hn hok hf]

/-- What was saved is an image. -/
theorem OnDisk.valid {m : Mem} (h : OnDisk m) : ValidImage m.disk :=
  ⟨h.magic, h.version, by rw [h.image, compute_full_crc_saved]; exact h.crc⟩

theorem firstBoot_private : firstBoot.disk.get .private_ = List.replicate (42 * 512) 0 := by
  have hd : firstBoot.disk = (wiped fun _ => []).put .header (headerBytes (compute_full_crc .zero)) := by
    rw [firstBoot, fresh_start_run fun _ => rfl]
  have hbuf : (Region.private_.buf []).length = Region.private_.sectors * 512 := Region.buf_length (Nat.zero_le _)
  rw [hd, Disk.get_put_of_apart _ (by decide)]
  simp only [wiped, List.foldl_cons, List.foldl_nil, StoreId.region]
  rw [Disk.get_put_of_apart _ (by decide), Disk.get_put_of_apart _ (by decide), Disk.get_put_of_apart _ (by decide),
    Disk.get_put_of_apart _ (by decide), Disk.get_put _ _ hbuf]
  rfl

/-- The first disk with one byte of the second private record set. -/
def spoilt : Disk := firstBoot.disk.put .private_ ((List.replicate (42 * 512) 0).set 1070 1)

theorem spoilt_refused : ValidImage firstBoot.disk ∧ (try_load ⟨.zero, spoilt, fun _ => true, 0⟩).1 = false := by
  have hv : ValidImage firstBoot.disk := OnDisk.valid (fresh_start_onDisk fun _ => rfl)
  have hget : spoilt.get .private_ = (List.replicate (42 * 512) 0).set 1070 1 :=
    Disk.get_put _ _ (by rw [List.length_set, List.length_replicate]; rfl)
  have hb : Burst .private_ 1070 firstBoot.disk spoilt := by
    refine ⟨by decide, fun l hl => if_neg hl, ?_⟩
    change Garbled 1070 (firstBoot.disk.get .private_) (spoilt.get .private_)
    rw [firstBoot_private, hget]
    refine ⟨List.length_set, fun i hi => List.getElem?_set_ne (by omega), fun he => ?_⟩
    have hlt : 1070 < (List.replicate (42 * 512) (0 : Byte)).length := by
      rw [List.length_replicate]
      decide
    have hbyte : some (1 : Byte) = (List.replicate (42 * 512) (0 : Byte))[1070]? := by rw [← he, List.getElem?_set_self hlt]
    rw [List.getElem?_replicate, if_pos (by decide)] at hbyte
    exact absurd hbyte (by decide)
  exact ⟨hv, burst_detected.2 .private_ 1070 _ spoilt nofun hv hb _ rfl⟩

end Angelic.Proofs
