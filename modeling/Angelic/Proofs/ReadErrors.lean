import Angelic.Proofs.PowerLoss
import Mathlib.Tactic.IntervalCases

namespace Angelic.Proofs
open CString Model StateRel

/-! What a failed read does to a disk that was good. -/

/-- What `try_load` checks, with nothing failing. -/
structure ValidImage (d : Disk) : Prop where
  magic : unle32 (d.get .header) = PERSIST_MAGIC
  version : unle32 ((d.get .header).drop 4) = PERSIST_VERSION
  crc : unle32 ((d.get .header).drop 8) = compute_full_crc (diskStores d)

/-- The region holds these bytes. -/
def Carries (d : Disk) (w : Region × List Byte) : Prop :=
  ∀ l, w.1.start ≤ l → l < w.1.start + w.1.sectors → d l = arrayAt 512 w.2 (l - w.1.start)

theorem put_eq_iff (d : Disk) (w : Region × List Byte) : d.put w.1 w.2 = d ↔ Carries d w := by
  constructor
  · intro h l hl hl'
    rw [← congrFun h l, Disk.put, if_pos ⟨hl, hl'⟩]
  · intro h
    funext l
    rw [Disk.put]
    by_cases hl : w.1.start ≤ l ∧ l < w.1.start + w.1.sectors
    · rw [if_pos hl, h l hl.1 hl.2]
    · rw [if_neg hl]

section Writes
variable {ok : Nat → Bool} {d : Disk} {w : Region × List Byte} {ws : List (Region × List Byte)} {n : Nat}

theorem put_of_apart {r : Region} {l : Nat} (h : Region.apart w.1 r) (hl : r.start ≤ l)
    (hl' : l < r.start + r.sectors) : d.put w.1 w.2 l = d l := by
  rw [Disk.put, if_neg]
  rintro ⟨h₁, h₂⟩
  rcases h with h | h <;> omega

/-- Writes elsewhere leave a region alone. -/
theorem putAll_of_apart {r : Region} {l : Nat} (h : ∀ w ∈ ws, Region.apart w.1 r) (hl : r.start ≤ l)
    (hl' : l < r.start + r.sectors) : putAll ok n ws d l = d l := by
  induction ws generalizing n d with
  | nil => rfl
  | cons w ws ih =>
    rw [putAll, ih fun w' hw' => h w' (.tail _ hw')]
    split
    · exact put_of_apart (h w (.head _)) hl hl'
    · rfl

/-- Nothing has changed exactly when every write that got through wrote what was there. -/
theorem putAll_eq_iff (hp : ws.Pairwise fun w w' => Region.apart w'.1 w.1) :
    putAll ok n ws d = d ↔ ∀ i w, ws[i]? = some w → ok (n + i) → Carries d w := by
  induction ws generalizing n d with
  | nil => simp [putAll]
  | cons w ws ih =>
    obtain ⟨hw, hws⟩ := List.pairwise_cons.mp hp
    have hstep : putAll ok n (w :: ws) d = d ↔
        (ok n → Carries d w) ∧ putAll ok (n + 1) ws d = d := by
      rw [putAll]
      by_cases hn : ok n
      · rw [if_pos hn]
        constructor
        · intro h
          -- the later writes are elsewhere, so the first one has to be in place by itself
          have hput : d.put w.1 w.2 = d := (put_eq_iff d w).mpr fun l hl hl' => by
            have hd := congrFun h l
            rw [putAll_of_apart hw hl hl'] at hd
            rw [← hd, Disk.put, if_pos ⟨hl, hl'⟩]
          rw [hput] at h
          exact ⟨fun _ => (put_eq_iff d w).mp hput, h⟩
        · rintro ⟨hc, h⟩
          rw [(put_eq_iff d w).mpr (hc hn), h]
      · rw [if_neg hn]
        exact ⟨fun h => ⟨fun hn' => absurd hn' hn, h⟩, And.right⟩
    rw [hstep, ih hws]
    constructor
    · rintro ⟨h₀, h⟩ i w' hi hok
      cases i with
      | zero =>
        obtain rfl : w = w' := Option.some.inj hi
        exact h₀ hok
      | succ i => exact h i w' hi (by rwa [show n + 1 + i = n + (i + 1) by omega])
    · intro h
      refine ⟨h 0 w rfl, fun i w' hi hok => h (i + 1) w' hi ?_⟩
      rwa [show n + (i + 1) = n + 1 + i by omega]

end Writes

theorem freshWrites_apart : freshWrites.Pairwise fun w w' => Region.apart w'.1 w.1 := by
  have h : (freshWrites.map Prod.fst).Pairwise fun r r' => Region.apart r' r := by decide
  exact List.pairwise_map.mp h

section Reads
variable {m : Mem} (hm : unle32 (m.disk.get .header) = PERSIST_MAGIC)
  (hv : unle32 ((m.disk.get .header).drop 4) = PERSIST_VERSION)
include hm hv

/-- The first read that fails ends the load, wherever it is. -/
theorem try_load_failed {n : Nat} (hn : n < 6) (hok : ∀ k < n, m.disk_ok (m.transfers + k))
    (hf : m.disk_ok (m.transfers + n) = false) :
    try_load m = (false, { m with transfers := m.transfers + n + 1 }) := by
  obtain ⟨t, d, ok, a⟩ := m
  have read : ∀ r k, k < n → disk_read_sectors r ⟨t, d, ok, a + k⟩ = (some (d.get r), ⟨t, d, ok, a + (k + 1)⟩) :=
    fun r k hk => by rw [disk_read_sectors, if_pos (hok k hk)]; rfl
  have fail : ∀ r, disk_read_sectors r ⟨t, d, ok, a + n⟩ = (none, ⟨t, d, ok, a + n + 1⟩) :=
    fun r => by rw [disk_read_sectors, if_neg (Bool.eq_false_iff.mp hf)]
  have hrun : try_load ⟨t, d, ok, a⟩ = try_load ⟨t, d, ok, a + 0⟩ := rfl
  dsimp only at hm hv
  rw [hrun]
  interval_cases n
  · simp only [try_load, bind_run, fail]
    rfl
  all_goals
    simp only [try_load, bind_run, read _ 0 (by decide), hm, hv, ne_eq, not_true_eq_false, if_false]
  · simp only [fail, Nat.reduceAdd]
    rfl
  · simp only [bind_run, read _ 1 (by decide), fail, Nat.reduceAdd]
    rfl
  · simp only [bind_run, read _ 1 (by decide), read _ 2 (by decide), fail, Nat.reduceAdd]
    rfl
  · simp only [bind_run, read _ 1 (by decide), read _ 2 (by decide), read _ 3 (by decide), fail,
      Nat.reduceAdd]
    rfl
  · simp only [bind_run, read _ 1 (by decide), read _ 2 (by decide), read _ 3 (by decide),
      read _ 4 (by decide), fail, Nat.reduceAdd]
    rfl

end Reads

section Loads
variable {m : Mem} (h : ValidImage m.disk)
include h

/-- The load stops at the first read that fails, and everything is started afresh. -/
theorem load_all_failed {n : Nat} (hn : n < 6) (hok : ∀ k < n, m.disk_ok (m.transfers + k))
    (hf : m.disk_ok (m.transfers + n) = false) :
    (xmpp_persist_load_all m).2.disk = putAll m.disk_ok (m.transfers + n + 1) freshWrites m.disk := by
  have hrun : xmpp_persist_load_all m =
      (if (try_load m).1 then pure () else fresh_start : StateM Mem Unit) (try_load m).2 := rfl
  rw [hrun, try_load_failed h.magic h.version hn hok hf, if_neg (by simp), fresh_start_eq]

theorem load_all_valid (hok : ∀ k < 6, m.disk_ok (m.transfers + k)) : (xmpp_persist_load_all m).2.disk = m.disk := by
  have hrun : xmpp_persist_load_all m =
      (if (try_load m).1 then pure () else fresh_start : StateM Mem Unit) (try_load m).2 := rfl
  rw [hrun, try_load_run h.magic h.version hok, if_pos (beq_iff_eq.mpr h.crc)]
  rfl

end Loads

/-- All the reads succeed, or there is a first one that does not. -/
theorem first_failure (ok : Nat → Bool) (b : Nat) : (∀ k < b, ok k) ∨ ∃ n < b, (∀ k < n, ok k) ∧ ok n = false := by
  induction b with
  | zero => exact .inl fun k hk => absurd hk (Nat.not_lt_zero k)
  | succ b ih =>
    rcases ih with h | ⟨n, hn, h⟩
    · cases hb : ok b with
      | true => exact .inl fun k hk => (Nat.lt_succ_iff_lt_or_eq.mp hk).elim (h k) fun he => he ▸ hb
      | false => exact .inr ⟨b, Nat.lt_succ_self b, h, hb⟩
    · exact .inr ⟨n, Nat.lt_succ_of_lt hn, h⟩

/-- A disk on which the first entry of the private store is in use. -/
def entryDisk : Disk := ((Written.start firstBoot).until_ firstEntry.ops none).mem.disk

theorem entryDisk_image : ValidImage entryDisk ∧ ((diskStores entryDisk).private_store 0).active = 1 := by
  have hb : OnDisk firstBoot := fresh_start_onDisk fun _ => rfl
  have ht : Written.Tracked ((Written.start firstBoot).until_ firstEntry.ops none) :=
    (tracked_start hb).until_ _ _
  have hstart : (Written.start firstBoot).Settled := ⟨rfl, rfl, firstBoot_disk_ok⟩
  have hs : Written.Settled ((Written.start firstBoot).until_ firstEntry.ops none) :=
    hstart.change firstEntry
  have hi : diskStores entryDisk = _ := ht.image
  refine ⟨⟨ht.magic, ht.version, ?_⟩, ?_⟩
  · rw [hi, ← hs.crc]
    exact ht.crc
  · rw [hi]
    rfl

/-- A good disk is left as it was exactly when no read fails, or every write that then gets through
writes what the region holds already. -/
theorem load_keeps_disk_iff {m : Mem} (h : ValidImage m.disk) :
    (xmpp_persist_load_all m).2.disk = m.disk ↔
      ∀ n < 6, (∀ k < n, m.disk_ok (m.transfers + k)) → m.disk_ok (m.transfers + n) = false →
        ∀ i w, freshWrites[i]? = some w → m.disk_ok (m.transfers + n + 1 + i) → Carries m.disk w := by
  rcases first_failure (fun k => m.disk_ok (m.transfers + k)) 6 with hall | ⟨n, hn, hok, hf⟩
  · refine iff_of_true (load_all_valid h hall) fun n hn _ hf => ?_
    rw [hall n hn] at hf
    cases hf
  · -- the load ends at the first read that fails
    rw [load_all_failed h hn hok hf, putAll_eq_iff freshWrites_apart]
    constructor
    · intro hc n' _ hok' hf'
      have he : n' = n := by
        rcases Nat.lt_trichotomy n' n with hlt | heq | hgt
        · rw [hok n' hlt] at hf'
          cases hf'
        · exact heq
        · exact absurd (hok' n hgt) (Bool.eq_false_iff.mp hf)
      exact he ▸ hc
    · intro hc
      exact hc n hn hok hf

/-- A load without errors. -/
theorem load_keeps_entryDisk :
    ValidImage entryDisk ∧ (xmpp_persist_load_all ⟨.zero, entryDisk, fun _ => true, 0⟩).2.disk = entryDisk := by
  have h : ValidImage (Mem.disk ⟨.zero, entryDisk, fun _ => true, 0⟩) := entryDisk_image.1
  exact ⟨h, (load_keeps_disk_iff h).mpr fun _ _ _ hf => Bool.noConfusion hf⟩

/-- Whichever of the six reads fails, once, the entry is gone from the disk. -/
theorem read_error_wipes_disk :
    ValidImage entryDisk ∧ ∀ n < 6,
      (xmpp_persist_load_all ⟨.zero, entryDisk, fun k => k != n, 0⟩).2.disk ≠ entryDisk := by
  obtain ⟨hv, ha⟩ := entryDisk_image
  refine ⟨hv, fun n hn h => ?_⟩
  have hd : ValidImage (Mem.disk ⟨.zero, entryDisk, fun k => k != n, 0⟩) := hv
  rw [load_all_failed hd hn (fun k hk => by simp; omega) (by simp), putAll_eq_iff freshWrites_apart] at h
  have hput := (put_eq_iff entryDisk _).mpr (h 0 _ rfl (by simp))
  have hzero := diskStores_put entryDisk .private_ storesOk_zero
  rw [← StoreId.buf_zero] at hzero
  have he : diskStores entryDisk = StoreId.copy (diskStores entryDisk) (Stores.saved .zero) .private_ := by
    rw [← hzero]
    exact congrArg diskStores hput.symm
  rw [he] at ha
  exact absurd ha (by decide)

end Angelic.Proofs
