import Mathlib.Data.Nat.Bitwise
import Mathlib.Data.Nat.Find
import Angelic.Model.Disk

namespace Angelic.Proofs
open Lib Model Model.Disk disk_backend_t

/-! What the device has taken. -/

/-- A transfer of `data` from sector `start` on carries `sector` to sector `n`. -/
def HoldsSector {β : Type} (size start : Nat) (data : List β) (n : Nat) (sector : List β) : Prop :=
  ∃ k, start + k = n ∧ (data.drop (size * k)).take size = sector

section HoldsSector
variable {β : Type} {size count : Nat}

theorem carries_sector (f : Nat → β) {i : Nat} (start : Nat) (hi : i < count) :
    HoldsSector size start ((List.range (size * count)).map f) (start + i)
      ((List.range size).map fun j => f (size * i + j)) := by
  have hend : size * i + size ≤ size * count := Nat.mul_succ size i ▸ Nat.mul_le_mul_left size hi
  refine ⟨i, rfl, List.ext_getElem? fun j => ?_⟩
  by_cases hj : j < size
  · rw [List.getElem?_take_of_lt hj, List.getElem?_drop, List.getElem?_map, List.getElem?_map,
      List.getElem?_range hj, List.getElem?_range (by omega)]
    rfl
  · rw [List.getElem?_eq_none (by simp; omega), List.getElem?_eq_none (by simp; omega)]

/-- Only the sectors of the transfer are carried. -/
theorem HoldsSector.within {f : Nat → β} {start n : Nat} {sector : List β} (hsize : 0 < size)
    (hsector : sector.length = size) (h : HoldsSector size start ((List.range (size * count)).map f) n sector) :
    ∃ k < count, start + k = n := by
  obtain ⟨k, hk, hdata⟩ := h
  refine ⟨k, ?_, hk⟩
  by_contra hge
  have hlen := congrArg List.length hdata
  have hdrop : size * count ≤ size * k := Nat.mul_le_mul_left size (Nat.not_lt.mp hge)
  rw [hsector, List.drop_eq_nil_of_le (by simpa using hdrop), List.take_nil] at hlen
  exact absurd hlen (Nat.ne_of_lt hsize)

end HoldsSector

/-- The 28 bits of the address in the registers. -/
def ataLba (r : AtaRegs) : Nat :=
  r.drive_head.toNat % 16 * 2 ^ 24 + r.lba_hi.toNat * 2 ^ 16 + r.lba_mid.toNat * 2 ^ 8 + r.lba_lo.toNat

def fisLba (fis : Fis) : Nat :=
  fis.lba5.toNat * 2 ^ 40 + fis.lba4.toNat * 2 ^ 32 + fis.lba3.toNat * 2 ^ 24 + fis.lba2.toNat * 2 ^ 16 +
    fis.lba1.toNat * 2 ^ 8 + fis.lba0.toNat

/-- `v` is the first status with `BSY` clear, and in time. -/
def Ends (status : Nat → UInt8) (v : UInt8) : Prop :=
  ∃ k < 0x10000000, status k = v ∧ v &&& ATA_SR_BSY = 0 ∧ ∀ j < k, status j &&& ATA_SR_BSY ≠ 0

/-- `DRQ` shows up in time, and no error before it. -/
def AsksData (status : Nat → UInt8) : Prop :=
  ∃ k < 0x10000000, status k &&& ATA_SR_DRQ ≠ 0 ∧ ∀ j ≤ k, status j &&& ATA_SR_ERR = 0

/-- Slot 0 is cleared in time, and no task file error shows up before. -/
def Completes (port : Nat → UInt32 × UInt32) : Prop :=
  ∃ k < 0x2000000, (port k).2 &&& 1 = 0 ∧ ∀ j ≤ k, (port j).1 &&& PIS_TFES = 0

def EndsWell (status : Nat → UInt8) : Prop := ∃ v, Ends status v ∧ v &&& ATA_SR_ERR = 0

theorem Ends.unique {status : Nat → UInt8} {v w : UInt8} (hv : Ends status v) (hw : Ends status w) : v = w := by
  obtain ⟨k, -, rfl, hk, hbefore⟩ := hv
  obtain ⟨l, -, rfl, hl, hbefore'⟩ := hw
  rcases Nat.lt_trichotomy k l with hlt | rfl | hgt
  · exact absurd hk (hbefore' k hlt)
  · rfl
  · exact absurd hl (hbefore l hgt)

/-- The drive takes the command and every sector, and then the flush. It asks for each sector, and reports the
command and each sector, in the end of the wait that follows it. -/
structure AtaAccepted (status : AtaWait → Nat → UInt8) (lba : UInt64) (count : UInt8) (buf : Buffer) (a : Ata) :
    Prop where
  sectors : ∀ i < count.toNat, ∃ c ∈ a.commands, c.command = ATA_CMD_WRITE_SECTORS ∧
    HoldsSector 256 (ataLba c.regs) c.data (lba.toNat + i) ((List.range 256).map fun w => word buf (256 * i + w))
  asked : ∀ s < count.toNat, EndsWell (status (.busy s)) ∧ AsksData (status (.drq s))
  last : EndsWell (status .last)
  flush : (∃ c ∈ a.commands, c.command = ATA_CMD_FLUSH_CACHE) ∧ EndsWell (status .flush)

/-- Slot 0 is cleared for the transfer and for the flush, without a task file error. -/
structure HbaAccepted (port : HbaWait → Nat → UInt32 × UInt32) (lba : UInt64) (count : UInt8) (buf : Buffer)
    (h : Hba) : Prop where
  sectors : ∀ i < count.toNat, ∃ c ∈ h.commands, c.fis.command = ATA_WRITE_DMA_EXT ∧
    HoldsSector 512 (fisLba c.fis) (c.data.take (c.dbc.toNat + 1)) (lba.toNat + i)
      ((List.range 512).map fun j => buf (512 * i + j))
  transfer : Completes (port .transfer)
  flush : (∃ c ∈ h.commands, c.fis.command = ATA_FLUSH_EXT) ∧ Completes (port .flush)

def Accepted (shown : Shown) (lba : UInt64) (count : UInt8) (buf : Buffer) (d : Storage) : Prop :=
  match d.g_backend with
  | DISK_NONE => False
  | DISK_ATA_PIO => AtaAccepted shown.status lba count buf d.ata
  | DISK_AHCI => HbaAccepted shown.port lba count buf d.hba

/-! The address that a command is given in. -/

theorem byte32 (x : UInt32) (k : UInt32) (hk : k.toNat < 32) :
    ((x >>> k) &&& 0xFF).toUInt8.toNat = x.toNat / 2 ^ k.toNat % 256 := by
  rw [UInt32.toNat_toUInt8, UInt32.toNat_and, UInt32.toNat_shiftRight, Nat.mod_eq_of_lt hk, Nat.shiftRight_eq_div_pow]
  change (_ &&& (2 ^ 8 - 1)) % _ = _
  rw [Nat.and_two_pow_sub_one_eq_mod]
  exact Nat.mod_mod _ _

theorem byte64 (x : UInt64) (k : UInt64) (hk : k.toNat < 64) :
    ((x >>> k) &&& 0xFF).toUInt8.toNat = x.toNat / 2 ^ k.toNat % 256 := by
  rw [UInt64.toNat_toUInt8, UInt64.toNat_and, UInt64.toNat_shiftRight, Nat.mod_eq_of_lt hk, Nat.shiftRight_eq_div_pow]
  change (_ &&& (2 ^ 8 - 1)) % _ = _
  rw [Nat.and_two_pow_sub_one_eq_mod]
  exact Nat.mod_mod _ _

theorem head_nibble (l : UInt32) :
    ((0xE0 : UInt32) ||| ((ATA_DATA_DRIVE &&& 1) <<< 4) ||| ((l >>> 24) &&& 0x0F)).toUInt8.toNat % 16 =
      l.toNat / 2 ^ 24 % 16 := by
  have hl : ((l >>> 24) &&& 0x0F).toNat = l.toNat / 2 ^ 24 % 16 := by
    rw [UInt32.toNat_and, UInt32.toNat_shiftRight]
    change (_ >>> 24) &&& (2 ^ 4 - 1) = _
    rw [Nat.and_two_pow_sub_one_eq_mod, Nat.shiftRight_eq_div_pow]
  have hdrive : (0xE0 : UInt32) ||| ((ATA_DATA_DRIVE &&& 1) <<< 4) = 0xF0 := by decide
  rw [hdrive, UInt32.toNat_toUInt8, UInt32.toNat_or, hl, Nat.mod_mod_of_dvd _ (by decide)]
  change (0xF0 ||| _) % 2 ^ 4 = _
  rw [Nat.or_mod_two_pow]
  change 0 ||| _ = _
  rw [Nat.zero_or]
  exact Nat.mod_mod _ _
/-- The registers of a write. -/
def writeRegs (lba : UInt32) (count : UInt8) : AtaRegs :=
  ⟨((0xE0 : UInt32) ||| ((ATA_DATA_DRIVE &&& 1) <<< 4) ||| ((lba >>> 24) &&& 0x0F)).toUInt8, count,
    (lba &&& 0xFF).toUInt8, ((lba >>> 8) &&& 0xFF).toUInt8, ((lba >>> 16) &&& 0xFF).toUInt8⟩

theorem ata_lba (lba : UInt64) (count : UInt8) : ataLba (writeRegs lba.toUInt32 count) = lba.toNat % 2 ^ 28 := by
  have hlo := byte32 lba.toUInt32 0 (by decide)
  have hmid := byte32 lba.toUInt32 8 (by decide)
  have hhi := byte32 lba.toUInt32 16 (by decide)
  have h32 : lba.toUInt32.toNat = lba.toNat % 2 ^ 32 := UInt64.toNat_toUInt32 lba
  rw [UInt32.shiftRight_zero] at hlo
  rw [ataLba, writeRegs]
  dsimp only
  rw [head_nibble, hlo, hmid, hhi, h32]
  change _ / 2 ^ 24 % 16 * 2 ^ 24 + _ / 2 ^ 16 % 256 * 2 ^ 16 + _ / 2 ^ 8 % 256 * 2 ^ 8 + _ / 2 ^ 0 % 256 = _
  omega

theorem fis_lba (lba : UInt64) (cl ch : UInt8) : fisLba ⟨FIS_TYPE_H2D, FIS_FLAG_CMD, ATA_WRITE_DMA_EXT, 0x40,
       (lba &&& 0xFF).toUInt8, ((lba >>> 8) &&& 0xFF).toUInt8, ((lba >>> 16) &&& 0xFF).toUInt8,
       ((lba >>> 24) &&& 0xFF).toUInt8, ((lba >>> 32) &&& 0xFF).toUInt8, ((lba >>> 40) &&& 0xFF).toUInt8, cl, ch⟩ =
      lba.toNat % 2 ^ 48 := by
  have h0 := byte64 lba 0 (by decide)
  have h1 := byte64 lba 8 (by decide)
  have h2 := byte64 lba 16 (by decide)
  have h3 := byte64 lba 24 (by decide)
  have h4 := byte64 lba 32 (by decide)
  have h5 := byte64 lba 40 (by decide)
  rw [UInt64.shiftRight_zero] at h0
  rw [fisLba]
  dsimp only
  rw [h0, h1, h2, h3, h4, h5]
  change _ / 2 ^ 40 % 256 * 2 ^ 40 + _ / 2 ^ 32 % 256 * 2 ^ 32 + _ / 2 ^ 24 % 256 * 2 ^ 24 + _ / 2 ^ 16 % 256 * 2 ^ 16 +
    _ / 2 ^ 8 % 256 * 2 ^ 8 + _ / 2 ^ 0 % 256 = _
  omega

/-- A transfer that starts at the address cut to its low bits is the one asked for only if nothing was cut. -/
theorem cut_address {lba m count k i : Nat} (hk : k < count) (hm : count ≤ m) (h : lba % m + k = lba + i) : lba < m := by
  have hpos : 0 < m := by omega
  by_contra hge
  have hle : m * 1 ≤ m * (lba / m) := Nat.mul_le_mul_left m (Nat.div_pos (Nat.not_lt.mp hge) hpos)
  have := Nat.mod_add_div lba m
  omega

/-! The waits. -/

theorem getD_eq_zero_iff (r : Option Int) : r.getD (-1) = 0 ↔ r = some 0 := by
  cases r with
  | none => decide
  | some r => exact ⟨fun h => congrArg some h, fun h => Option.some.inj h⟩

theorem wait_not_busy_iff (status : Nat → UInt8) : ata_wait_not_busy status = 0 ↔ ∃ v, Ends status v := by
  rw [ata_wait_not_busy, getD_eq_zero_iff, poll_eq_some_iff]
  constructor
  · rintro ⟨k, hk, hlook, hbefore⟩
    refine ⟨status k, k, hk, rfl, ?_, fun j hj hclear => ?_⟩
    · by_contra hbusy
      exact absurd (if_neg hbusy ▸ hlook) (Option.some_ne_none _).symm
    · exact absurd (if_pos hclear ▸ hbefore j hj) (Option.some_ne_none _)
  · rintro ⟨v, k, hk, rfl, hclear, hbefore⟩
    exact ⟨k, hk, if_pos hclear, fun j hj => if_neg (hbefore j hj)⟩

/-- The first event of a wait that ends on one event and fails on another: it is the good one iff that happens,
and the bad one not before. -/
theorem first_event_iff {N : Nat} {bad good : Nat → Prop} [DecidablePred bad] [DecidablePred good] :
    (∃ k < N, (if bad k then some (-1) else if good k then some 0 else none : Option Int) = some 0 ∧
      ∀ j < k, (if bad j then some (-1) else if good j then some 0 else none : Option Int) = none) ↔
    ∃ k < N, good k ∧ ∀ j ≤ k, ¬ bad j := by
  constructor
  · rintro ⟨k, hk, hlook, hbefore⟩
    have hbad : ¬ bad k := fun hb => by
      rw [if_pos hb] at hlook
      exact absurd (Option.some.inj hlook) (by decide)
    rw [if_neg hbad] at hlook
    have hgood : good k := by
      by_contra hg
      rw [if_neg hg] at hlook
      exact Option.some_ne_none _ hlook.symm
    refine ⟨k, hk, hgood, fun j hj => ?_⟩
    rcases Nat.lt_or_eq_of_le hj with hlt | rfl
    · intro hb
      have := hbefore j hlt
      rw [if_pos hb] at this
      exact Option.some_ne_none _ this
    · exact hbad
  · rintro ⟨k, hk, hgood, hbad⟩
    -- the first good look is as good
    have hex : ∃ k, good k := ⟨k, hgood⟩
    have hle : Nat.find hex ≤ k := Nat.find_min' hex hgood
    refine ⟨Nat.find hex, Nat.lt_of_le_of_lt hle hk, ?_, fun j hj => ?_⟩
    · rw [if_neg (hbad _ hle), if_pos (Nat.find_spec hex)]
    · rw [if_neg (hbad _ (Nat.le_trans (Nat.le_of_lt hj) hle)), if_neg (Nat.find_min hex hj)]

theorem wait_drq_iff (status : Nat → UInt8) : ata_wait_drq status = 0 ↔ AsksData status := by
  rw [ata_wait_drq, getD_eq_zero_iff, poll_eq_some_iff, AsksData, first_event_iff]
  simp only [ne_eq, not_not]

theorem wait_slot0_iff (port : Nat → UInt32 × UInt32) : port_wait_slot0 port = 0 ↔ Completes port := by
  rw [port_wait_slot0, getD_eq_zero_iff, poll_eq_some_iff, Completes, first_event_iff]
  simp only [ne_eq, not_not]

/-! `ata_write_sectors` -/

theorem outw_foldl (l : List Nat) (f : Nat → UInt16) (regs : AtaRegs) (c : AtaCommand) (cs : List AtaCommand) :
    l.foldl (fun a w => Ata.outw a (f w)) ⟨regs, c :: cs⟩ = ⟨regs, { c with data := c.data ++ l.map f } :: cs⟩ := by
  induction l generalizing c with
  | nil => rw [List.map_nil, List.append_nil]; rfl
  | cons w l ih =>
    change l.foldl (fun a w => Ata.outw a (f w)) ⟨regs, { c with data := c.data ++ [f w] } :: cs⟩ = _
    rw [ih, List.map_cons]
    simp

theorem minus_one {p : Prop} (h : (-1 : Int) = 0) : p := absurd h (by decide)

section Ata
variable (status : AtaWait → Nat → UInt8) (buf : Buffer)

/-- The drive asks for the sector. -/
def Asks (s : Nat) : Prop := ata_wait_not_busy (status (.busy s)) = 0 ∧ ata_wait_drq (status (.drq s)) = 0

theorem sectors_zero_iff (s n : Nat) (a : Ata) :
    (ataSectors status buf s n a).1 = 0 ↔ ∀ k < n, Asks status (s + k) := by
  induction n generalizing s a with
  | zero => exact ⟨fun _ k hk => absurd hk (Nat.not_lt_zero k), fun _ => rfl⟩
  | succ n ih =>
    have hsplit : (∀ k < n + 1, Asks status (s + k)) ↔ Asks status s ∧ ∀ k < n, Asks status (s + 1 + k) := by
      constructor
      · intro h
        refine ⟨h 0 (Nat.succ_pos n), fun k hk => ?_⟩
        rw [Nat.add_assoc, Nat.add_comm 1 k]
        exact h (k + 1) (Nat.succ_lt_succ hk)
      · rintro ⟨h0, h⟩ k hk
        cases k with
        | zero => exact h0
        | succ k =>
          have := h k (Nat.lt_of_succ_lt_succ hk)
          rwa [Nat.add_assoc, Nat.add_comm 1 k] at this
    rw [hsplit, ataSectors]
    split_ifs with hbusy hdrq
    · exact ⟨fun h => minus_one h, fun h => absurd h.1.1 hbusy⟩
    · exact ⟨fun h => minus_one h, fun h => absurd h.1.2 hdrq⟩
    · rw [ih]
      exact ⟨fun h => ⟨⟨not_not.mp hbusy, not_not.mp hdrq⟩, h⟩, fun h => h.2⟩

theorem sectors_data (s n : Nat) (regs : AtaRegs) (c : AtaCommand) (cs : List AtaCommand)
    (h : ∀ k < n, Asks status (s + k)) :
    (ataSectors status buf s n ⟨regs, c :: cs⟩).2 =
      ⟨regs, { c with data := c.data ++ (List.range (256 * n)).map fun w => word buf (256 * s + w) } :: cs⟩ := by
  induction n generalizing s c with
  | zero =>
    rw [Nat.mul_zero, List.range_zero, List.map_nil, List.append_nil]
    rfl
  | succ n ih =>
    have hrest : ∀ k < n, Asks status (s + 1 + k) := by
      intro k hk
      rw [Nat.add_assoc, Nat.add_comm 1 k]
      exact h (k + 1) (Nat.succ_lt_succ hk)
    obtain ⟨hbusy, hdrq⟩ := h 0 (Nat.succ_pos n)
    rw [Nat.add_zero] at hbusy hdrq
    rw [ataSectors, if_neg (not_not.mpr hbusy), if_neg (not_not.mpr hdrq), outw_foldl, ih _ _ hrest]
    -- the first sector and the rest make up the range
    have hrange : List.range (256 * (n + 1)) = List.range 256 ++ (List.range (256 * n)).map (256 + ·) := by
      rw [Nat.mul_succ, Nat.add_comm, List.range_add]
    have hword : ∀ w, word buf (256 * (s + 1) + w) = word buf (256 * s + (256 + w)) := fun w => by
      rw [Nat.mul_succ, Nat.add_assoc]
    simp only [hrange, List.map_append, List.map_map, List.append_assoc, hword, Function.comp_def]

variable (lba : UInt64) (count : UInt8) (a : Ata)

theorem ata_zero_iff : (ata_write_sectors status ATA_DATA_DRIVE lba.toUInt32 count buf a).1 = 0 ↔
      ata_wait_not_busy (status .ready) = 0 ∧ (∀ s < count.toNat, Asks status s) ∧
      ata_wait_not_busy (status .last) = 0 ∧ ata_wait_not_busy (status .flush) = 0 := by
  have hsectors := fun a => sectors_zero_iff status buf 0 count.toNat a
  simp only [Nat.zero_add] at hsectors
  rw [ata_write_sectors]
  dsimp only
  split_ifs with hready hs hlast hflush
  · exact ⟨fun h => minus_one h, fun h => absurd h.1 hready⟩
  · exact ⟨fun h => minus_one h, fun h => absurd ((hsectors _).mpr h.2.1) hs⟩
  · exact ⟨fun h => minus_one h, fun h => absurd h.2.2.1 hlast⟩
  · exact ⟨fun h => minus_one h, fun h => absurd h.2.2.2 hflush⟩
  · exact ⟨fun _ => ⟨not_not.mp hready, (hsectors _).mp (not_not.mp hs), not_not.mp hlast, not_not.mp hflush⟩,
      fun _ => rfl⟩

/-- A call that returns 0 has sent a write and a flush. -/
theorem ata_commands (h : (ata_write_sectors status ATA_DATA_DRIVE lba.toUInt32 count buf a).1 = 0) :
    ∃ regs, (ata_write_sectors status ATA_DATA_DRIVE lba.toUInt32 count buf a).2.commands =
      [⟨ATA_CMD_FLUSH_CACHE, regs, []⟩,
       ⟨ATA_CMD_WRITE_SECTORS, writeRegs lba.toUInt32 count, (List.range (256 * count.toNat)).map (word buf)⟩] := by
  obtain ⟨hready, hs, hlast, hflush⟩ := (ata_zero_iff status buf lba count a).mp h
  have hs' : ∀ k < count.toNat, Asks status (0 + k) := by simpa only [Nat.zero_add] using hs
  have hzero := fun a => not_not.mpr ((sectors_zero_iff status buf 0 count.toNat a).mpr hs')
  have hdata := sectors_data status buf 0 count.toNat (writeRegs lba.toUInt32 count)
    ⟨ATA_CMD_WRITE_SECTORS, writeRegs lba.toUInt32 count, []⟩ [] hs'
  simp only [Nat.mul_zero, Nat.zero_add, List.nil_append] at hdata
  refine ⟨(ata_select_drive ATA_DATA_DRIVE 0 ⟨writeRegs lba.toUInt32 count, []⟩).regs, ?_⟩
  rw [ata_write_sectors]
  dsimp only
  rw [if_neg (not_not.mpr hready), if_neg (hzero _), if_neg (not_not.mpr hlast), if_neg (not_not.mpr hflush)]
  change (Ata.issue (ata_select_drive ATA_DATA_DRIVE 0 (ataSectors status buf 0 count.toNat
    ⟨writeRegs lba.toUInt32 count, [⟨ATA_CMD_WRITE_SECTORS, writeRegs lba.toUInt32 count, []⟩]⟩).2)
    ATA_CMD_FLUSH_CACHE).commands = _
  rw [hdata]
  rfl

end Ata

/-! `ahci_write_sectors` -/

section Hba
variable (port : HbaWait → Nat → UInt32 × UInt32) (buf : Buffer) (lba : UInt64) (count : UInt8) (h : Hba)

theorem ahci_zero_iff : (ahci_write_sectors port lba count.toUInt16 buf h).1 = 0 ↔
      0 ≤ h.g_port ∧ 0 < count.toNat ∧ count.toNat ≤ 128 ∧ port_wait_slot0 (port .transfer) = 0 := by
  have hcount : ¬ (count.toUInt16 = 0 ∨ AHCI_DMA_SECTORS < count.toUInt16) ↔ 0 < count.toNat ∧ count.toNat ≤ 128 := by
    rw [not_or, ← UInt16.toNat_inj, UInt16.lt_iff_toNat_lt, UInt8.toNat_toUInt16, Nat.not_lt]
    exact and_congr_left fun _ => Nat.pos_iff_ne_zero.symm
  rw [ahci_write_sectors, port_transfer]
  dsimp only
  split_ifs with hport hc hwait
  · exact ⟨fun h => minus_one h, fun h => absurd hport (Int.not_lt.mpr h.1)⟩
  · exact ⟨fun h => minus_one h, fun h => absurd hc (hcount.mpr ⟨h.2.1, h.2.2.1⟩)⟩
  · exact ⟨fun h => minus_one h, fun h => absurd h.2.2.2 hwait⟩
  · obtain ⟨hpos, hmax⟩ := hcount.mp hc
    exact ⟨fun _ => ⟨Int.not_lt.mp hport, hpos, hmax, not_not.mp hwait⟩, fun _ => rfl⟩

theorem ahci_commands (hz : (ahci_write_sectors port lba count.toUInt16 buf h).1 = 0) :
    ∃ flush write, (ahci_write_sectors port lba count.toUInt16 buf h).2.commands = [flush, write] ∧
      flush.fis.command = ATA_FLUSH_EXT ∧ write.fis.command = ATA_WRITE_DMA_EXT ∧
      fisLba write.fis = lba.toNat % 2 ^ 48 ∧
      write.data.take (write.dbc.toNat + 1) = (List.range (512 * count.toNat)).map buf := by
  obtain ⟨hport, hpos, hmax, hwait⟩ := (ahci_zero_iff port buf lba count h).mp hz
  have hc : ¬ (count.toUInt16 = 0 ∨ AHCI_DMA_SECTORS < count.toUInt16) := by
    rw [not_or, ← UInt16.toNat_inj, UInt16.lt_iff_toNat_lt, UInt8.toNat_toUInt16, Nat.not_lt]
    exact ⟨Nat.pos_iff_ne_zero.mp hpos, hmax⟩
  have hbytes : (count.toUInt16.toUInt32 * 512).toNat = 512 * count.toNat := by
    rw [UInt32.toNat_mul, UInt16.toNat_toUInt32, UInt8.toNat_toUInt16]
    change count.toNat * 512 % 2 ^ 32 = _
    omega
  have hdbc : (count.toUInt16.toUInt32 * 512 - 1).toNat + 1 = 512 * count.toNat := by
    rw [UInt32.toNat_sub_of_le, hbytes]
    · change 512 * count.toNat - 1 + 1 = _
      omega
    · rw [UInt32.le_iff_toNat_le, hbytes]
      change 1 ≤ _
      omega
  rw [ahci_write_sectors, port_transfer]
  dsimp only
  rw [if_neg (Int.not_lt.mpr hport), if_neg hc, if_neg (not_not.mpr hwait)]
  refine ⟨_, _, rfl, rfl, rfl, fis_lba .., ?_⟩
  dsimp only
  rw [hdbc, hbytes, List.take_append_of_le_length (by simp), List.take_of_length_le (by simp)]

end Hba

/-! When the result can be relied on. -/

/-- The drive keeps one of the looked-for answers back, or shows an error while it is to ask for a sector. -/
def AtaRefuses (status : AtaWait → Nat → UInt8) (count : UInt8) : Prop :=
  (¬ ∃ v, Ends (status .ready) v) ∨
  (∃ s < count.toNat, (¬ ∃ v, Ends (status (.busy s)) v) ∨ ¬ AsksData (status (.drq s))) ∨
  (¬ ∃ v, Ends (status .last) v) ∨ ¬ ∃ v, Ends (status .flush) v

/-- The sectors have an address of 28 bits, and no wait for `BSY` after the command ends with an error. -/
def AtaQuiet (status : AtaWait → Nat → UInt8) (lba : UInt64) (count : UInt8) : Prop :=
  (count.toNat = 0 ∨ lba.toNat < 2 ^ 28) ∧
  (∀ s < count.toNat, ∀ v, Ends (status (.busy s)) v → v &&& ATA_SR_ERR = 0) ∧
  (∀ v, Ends (status .last) v → v &&& ATA_SR_ERR = 0) ∧ ∀ v, Ends (status .flush) v → v &&& ATA_SR_ERR = 0

/-- The transfer is turned down by the driver or not completed by the device. -/
def HbaRefuses (port : HbaWait → Nat → UInt32 × UInt32) (count : UInt8) (h : Hba) : Prop :=
  h.g_port < 0 ∨ count.toNat = 0 ∨ 128 < count.toNat ∨ ¬ Completes (port .transfer)

/-- The sectors have an address of 48 bits, and the device completes the flush. -/
def HbaQuiet (port : HbaWait → Nat → UInt32 × UInt32) (lba : UInt64) : Prop :=
  lba.toNat < 2 ^ 48 ∧ Completes (port .flush)

def Reliable (shown : Shown) (lba : UInt64) (count : UInt8) (d : Storage) : Prop :=
  match d.g_backend with
  | DISK_NONE => True
  | DISK_ATA_PIO => AtaRefuses shown.status count ∨ AtaQuiet shown.status lba count
  | DISK_AHCI => HbaRefuses shown.port count d.hba ∨ HbaQuiet shown.port lba

section Ata
variable (status : AtaWait → Nat → UInt8) (buf : Buffer) (lba : UInt64) (count : UInt8) (a : Ata)

theorem ata_refuses_iff :
    AtaRefuses status count ↔ (ata_write_sectors status ATA_DATA_DRIVE lba.toUInt32 count buf a).1 ≠ 0 := by
  rw [ne_eq, ata_zero_iff]
  simp only [Asks, wait_not_busy_iff, wait_drq_iff, AtaRefuses, not_and_or, not_forall, exists_prop]

theorem ata_accepted_iff (h : (ata_write_sectors status ATA_DATA_DRIVE lba.toUInt32 count buf a).1 = 0) :
    AtaAccepted status lba count buf (ata_write_sectors status ATA_DATA_DRIVE lba.toUInt32 count buf a).2 ↔
      AtaQuiet status lba count := by
  obtain ⟨hready, hasks, hlast, hflush⟩ := (ata_zero_iff status buf lba count a).mp h
  rw [wait_not_busy_iff] at hlast hflush
  obtain ⟨regs, hcommands⟩ := ata_commands status buf lba count a h
  -- a wait has one end
  have well : ∀ {w}, (∃ v, Ends (status w) v) →
      (EndsWell (status w) ↔ ∀ v, Ends (status w) v → v &&& ATA_SR_ERR = 0) := by
    intro w hends
    constructor
    · rintro ⟨v, hv, herr⟩ v' hv'
      rwa [Ends.unique hv' hv]
    · intro hall
      obtain ⟨v, hv⟩ := hends
      exact ⟨v, hv, hall v hv⟩
  constructor
  · intro hacc
    refine ⟨?_, fun s hs => ?_, (well hlast).mp hacc.last, (well hflush).mp hacc.flush.2⟩
    · refine or_iff_not_imp_left.mpr fun hpos => ?_
      obtain ⟨c, hc, hwrite, hcarries⟩ := hacc.sectors 0 (Nat.pos_of_ne_zero hpos)
      rw [hcommands, List.mem_cons, List.mem_singleton] at hc
      rcases hc with rfl | rfl
      · exact absurd hwrite (by change ¬ ATA_CMD_FLUSH_CACHE = ATA_CMD_WRITE_SECTORS; decide)
      · obtain ⟨k, hk, hstart⟩ := hcarries.within (by decide) (by simp)
        rw [ata_lba] at hstart
        have := count.toNat_lt
        exact cut_address hk (by omega) hstart
    · exact (well ((wait_not_busy_iff _).mp (hasks s hs).1)).mp (hacc.asked s hs).1
  · rintro ⟨haddr, hbusy, hl, hf⟩
    refine ⟨fun i hi => ?_, fun s hs => ?_, (well hlast).mpr hl, ⟨?_, (well hflush).mpr hf⟩⟩
    · have hlba : lba.toNat < 2 ^ 28 := haddr.resolve_left (by omega)
      refine ⟨_, by rw [hcommands]; exact List.mem_cons_of_mem _ List.mem_cons_self, rfl, ?_⟩
      rw [ata_lba, Nat.mod_eq_of_lt hlba]
      exact carries_sector _ _ hi
    · exact ⟨(well ((wait_not_busy_iff _).mp (hasks s hs).1)).mpr (hbusy s hs), (wait_drq_iff _).mp (hasks s hs).2⟩
    · exact ⟨_, by rw [hcommands]; exact List.mem_cons_self, rfl⟩

end Ata

section Hba
variable (port : HbaWait → Nat → UInt32 × UInt32) (buf : Buffer) (lba : UInt64) (count : UInt8) (h : Hba)

theorem ahci_refuses_iff : HbaRefuses port count h ↔ (ahci_write_sectors port lba count.toUInt16 buf h).1 ≠ 0 := by
  rw [ne_eq, ahci_zero_iff, wait_slot0_iff]
  simp only [HbaRefuses, not_and_or, Int.not_le, Nat.not_lt, Nat.not_le, Nat.le_zero]

theorem ahci_accepted_iff (hz : (ahci_write_sectors port lba count.toUInt16 buf h).1 = 0) :
    HbaAccepted port lba count buf (ahci_write_sectors port lba count.toUInt16 buf h).2 ↔ HbaQuiet port lba := by
  obtain ⟨-, hpos, hmax, hwait⟩ := (ahci_zero_iff port buf lba count h).mp hz
  obtain ⟨flush, write, hcommands, hflush, hwrite, hlba, hdata⟩ := ahci_commands port buf lba count h hz
  constructor
  · intro hacc
    refine ⟨?_, hacc.flush.2⟩
    obtain ⟨c, hc, hcmd, hcarries⟩ := hacc.sectors 0 hpos
    rw [hcommands, List.mem_cons, List.mem_singleton] at hc
    rcases hc with rfl | rfl
    · exact absurd (hflush.symm.trans hcmd) (by decide)
    · rw [hlba, hdata] at hcarries
      obtain ⟨k, hk, hstart⟩ := hcarries.within (by decide) (by simp)
      exact cut_address hk (by omega) hstart
  · rintro ⟨haddr, hf⟩
    refine ⟨fun i hi => ?_, (wait_slot0_iff _).mp hwait, ⟨flush, ?_, hflush⟩, hf⟩
    · refine ⟨write, by rw [hcommands]; exact List.mem_cons_of_mem _ List.mem_cons_self, hwrite, ?_⟩
      rw [hlba, hdata, Nat.mod_eq_of_lt haddr]
      exact carries_sector _ _ hi
    · rw [hcommands]
      exact List.mem_cons_self

end Hba

theorem reliable_iff {zero accepted refuses quiet : Prop} (hrefuses : refuses ↔ ¬ zero)
    (haccepted : zero → (accepted ↔ quiet)) : (zero → accepted) ↔ refuses ∨ quiet := by
  rw [hrefuses]
  by_cases hz : zero
  · exact ⟨fun h => .inr ((haccepted hz).mp (h hz)), fun h _ => (haccepted hz).mpr (h.resolve_left (not_not.mpr hz))⟩
  · exact ⟨fun _ => .inl hz, fun _ h => absurd h hz⟩

/-- The result 0 of the ATA driver says nothing of the status after the last sector and after the flush, that of
the AHCI driver nothing of the flush. -/
theorem write_accepted_iff (shown : Shown) (lba : UInt64) (count : UInt8) (buf : Buffer) (d : Storage) :
    ((disk_write_sectors shown lba count buf d).1 = 0 →
      Accepted shown lba count buf (disk_write_sectors shown lba count buf d).2) ↔ Reliable shown lba count d := by
  obtain ⟨backend, ata, hba⟩ := d
  cases backend with
  | DISK_NONE => exact ⟨fun _ => trivial, fun _ h => minus_one h⟩
  | DISK_ATA_PIO =>
    exact reliable_iff (ata_refuses_iff shown.status buf lba count ata) (ata_accepted_iff shown.status buf lba count ata)
  | DISK_AHCI =>
    exact reliable_iff (ahci_refuses_iff shown.port buf lba count hba) (ahci_accepted_iff shown.port buf lba count hba)

/-- The drive takes one sector and then reports an error for it, and the flush of the AHCI device never ends. -/
def failing : Shown where
  status
    | .drq _, _ => ATA_SR_DRQ
    | .last, _ => ATA_SR_ERR
    | _, _ => 0
  port
    | .transfer, _ => (0, 0)
    | .flush, _ => (PIS_TFES, 1)

def storage (backend : disk_backend_t) : Storage := ⟨backend, ⟨⟨0, 0, 0, 0, 0⟩, []⟩, ⟨0, [], []⟩⟩

theorem failure_reported_as_success :
    ((disk_write_sectors failing 0 1 (fun _ => 0) (storage DISK_ATA_PIO)).1 = 0 ∧
      ¬ Accepted failing 0 1 (fun _ => 0) (disk_write_sectors failing 0 1 (fun _ => 0) (storage DISK_ATA_PIO)).2) ∧
    (disk_write_sectors failing 0 1 (fun _ => 0) (storage DISK_AHCI)).1 = 0 ∧
      ¬ Accepted failing 0 1 (fun _ => 0) (disk_write_sectors failing 0 1 (fun _ => 0) (storage DISK_AHCI)).2 := by
  have hata : (disk_write_sectors failing 0 1 (fun _ => 0) (storage DISK_ATA_PIO)).1 = 0 := by decide +kernel
  have hahci : (disk_write_sectors failing 0 1 (fun _ => 0) (storage DISK_AHCI)).1 = 0 := by decide +kernel
  refine ⟨⟨hata, fun hacc => ?_⟩, hahci, fun hacc => ?_⟩
  · obtain ⟨v, ⟨k, -, hv, -⟩, herr⟩ := AtaAccepted.last hacc
    rw [← hv] at herr
    exact absurd herr (by change ¬ ATA_SR_ERR &&& ATA_SR_ERR = 0; decide)
  · obtain ⟨k, -, hci, -⟩ := (HbaAccepted.flush hacc).2
    exact absurd hci (by change ¬ (1 : UInt32) &&& 1 = 0; decide)

end Angelic.Proofs
