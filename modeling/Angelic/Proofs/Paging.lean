import Angelic.Lib.Radix
import Angelic.Proofs.Pool

namespace Angelic.Proofs
open Model Radix

variable {s : Phys} {a : List (Fin 512)} {table virt : UInt64} {idx : Fin 512}

/-! Entries, bit by bit. -/

def bitAt (x : UInt64) (i : Fin 64) : Bool := x.toBitVec.getLsbD i

theorem bitAt_ext {x y : UInt64} (h : ∀ i, bitAt x i = bitAt y i) : x = y :=
  UInt64.toBitVec_inj.mp (BitVec.eq_of_getLsbD_eq fun i hi => h ⟨i, hi⟩)

@[simp] theorem bitAt_or (x y : UInt64) (i : Fin 64) : bitAt (x ||| y) i = (bitAt x i || bitAt y i) := by
  rw [bitAt, UInt64.toBitVec_or, BitVec.getLsbD_or]
  rfl

@[simp] theorem bitAt_and (x y : UInt64) (i : Fin 64) : bitAt (x &&& y) i = (bitAt x i && bitAt y i) := by
  rw [bitAt, UInt64.toBitVec_and, BitVec.getLsbD_and]
  rfl

theorem bitAt_zero (i : Fin 64) : bitAt 0 i = false := BitVec.getLsbD_zero

@[simp] theorem bitAt_flags (i : Fin 64) : bitAt (PTE_PRESENT ||| PTE_WRITE ||| PTE_USER) i = decide (i.val < 3) := by
  revert i
  decide

@[simp] theorem bitAt_page (i : Fin 64) : bitAt (~~~0xFFF) i = decide (12 ≤ i.val) := by
  revert i
  decide

@[simp] theorem bitAt_present (i : Fin 64) : bitAt PTE_PRESENT i = decide (i = 0) := by
  revert i
  decide

theorem bitAt_aligned {a : UInt64} (h : a.toNat % 4096 = 0) {i : Fin 64} (hi : i.val < 12) : bitAt a i = false := by
  change Nat.testBit a.toNat i.val = false
  rw [← Nat.div_mul_cancel (Nat.dvd_of_mod_eq_zero h), show 4096 = 2 ^ 12 from rfl, Nat.testBit_mul_two_pow]
  simp only [Bool.and_eq_false_imp, decide_eq_true_eq]
  intro hle
  omega

theorem present_iff (e : UInt64) : e &&& PTE_PRESENT = 0 ↔ bitAt e 0 = false := by
  constructor
  · intro h
    have := congrArg (bitAt · 0) h
    simpa [bitAt_zero] using this
  · intro h
    apply bitAt_ext
    intro i
    rw [bitAt_and, bitAt_present, bitAt_zero]
    by_cases hi : i = 0
    · rw [hi, h]
      rfl
    · simp [hi]

/-- The table that a present entry points to. -/
def entryTable (e : UInt64) : Option UInt64 := if e &&& PTE_PRESENT = 0 then none else some (tableOf e)

theorem entryTable_zero : entryTable 0 = none := by decide

/-- A page with the flags of an inner entry points back to the page. -/
theorem entryTable_link {a : UInt64} (h : a.toNat % 4096 = 0) :
    entryTable (a ||| PTE_PRESENT ||| PTE_WRITE ||| PTE_USER) = some a := by
  rw [UInt64.or_assoc, UInt64.or_assoc, ← UInt64.or_assoc PTE_PRESENT, entryTable, if_neg]
  · refine congrArg some (bitAt_ext fun i => ?_)
    rw [tableOf, bitAt_and, bitAt_or, bitAt_flags, bitAt_page]
    by_cases hi : i.val < 12
    · rw [bitAt_aligned h hi]
      simp only [Bool.and_eq_false_imp, decide_eq_false_iff_not]
      omega
    · have h3 : ¬ i.val < 3 := by omega
      have h12 : 12 ≤ i.val := by omega
      simp [h3, h12]
  · rw [present_iff]
    simp

/-! The indices of an address. -/

/-- The number of the 48-bit page an address lies in. -/
def pageNumber (virt : UInt64) : Nat := virt.toNat / 4096 % 2 ^ 36

/-- The indices of the three inner levels. -/
def path (virt : UInt64) : List (Fin 512) := [PML4_INDEX virt, PDP_INDEX virt, PD_INDEX virt]

theorem tableIndex_val (shift x : UInt64) (h : shift.toNat < 64) :
    (tableIndex shift x).val = x.toNat / 2 ^ shift.toNat % 512 := by
  change ((x >>> shift) &&& 0x1FF).toNat = _
  rw [UInt64.toNat_and, UInt64.toNat_shiftRight, Nat.mod_eq_of_lt h, Nat.shiftRight_eq_div_pow]
  exact Nat.and_two_pow_sub_one_eq_mod _ 9

/-- Two addresses lie in one page when all four indices are the same. -/
theorem samePage_iff (x y : UInt64) : path x = path y ∧ PT_INDEX x = PT_INDEX y ↔ pageNumber x = pageNumber y := by
  simp only [path, List.cons.injEq, and_true, Fin.ext_iff, PML4_INDEX, PDP_INDEX, PD_INDEX, PT_INDEX, pageNumber]
  rw [tableIndex_val 39 x (by decide), tableIndex_val 39 y (by decide), tableIndex_val 30 x (by decide),
    tableIndex_val 30 y (by decide), tableIndex_val 21 x (by decide), tableIndex_val 21 y (by decide),
    tableIndex_val 12 x (by decide), tableIndex_val 12 y (by decide)]
  have h39 : (39 : UInt64).toNat = 39 := rfl
  have h30 : (30 : UInt64).toNat = 30 := rfl
  have h21 : (21 : UInt64).toNat = 21 := rfl
  have h12 : (12 : UInt64).toNat = 12 := rfl
  rw [h39, h30, h21, h12]
  omega

/-! The tables. -/

/-- The table at the end of a path from the root. -/
def Inner (s : Phys) (a : List (Fin 512)) (p : UInt64) : Prop := walk entryTable s.page s.kernel_pml4 a = some p

/-- The entry that the four-level walk ends at, 0 where a table is missing on the way. -/
def pteOf (s : Phys) (virt : UInt64) : UInt64 :=
  lookup entryTable s.page s.kernel_pml4 0 (path virt) (PT_INDEX virt)

/-- The page is no longer in the pool. -/
def Taken (s : Phys) (p : UInt64) : Prop := p.toNat < s.free_memory_start.toNat

/-- The tables form a tree, on pages taken from the pool. -/
structure PagingOk (s : Phys) : Prop where
  pool : PoolOk s
  tree : Tree entryTable s.page s.kernel_pml4 4 (Taken s)

/-- Tables are added and no translation changes. -/
structure Grows (s t : Phys) : Prop where
  ok : PagingOk t
  walks : ∀ b q, b.length < 4 → Inner s b q → Inner t b q
  ptes : ∀ virt, pteOf t virt = pteOf s virt

theorem Grows.refl (h : PagingOk s) : Grows s s := ⟨h, fun _ _ _ hq => hq, fun _ => rfl⟩

theorem Grows.trans {t u : Phys} (h : Grows s t) (h' : Grows t u) : Grows s u :=
  ⟨h'.ok, fun b q hb hq => h'.walks b q hb (h.walks b q hb hq), fun virt => (h'.ptes virt).trans (h.ptes virt)⟩

theorem Inner.snoc {p q : UInt64} {i : Fin 512} (hp : Inner s a p)
    (he : entryTable (s.page p i) = some q) : Inner s (a ++ [i]) q := by
  rw [Inner, walk_append, hp]
  change (entryTable (s.page p i)).bind _ = _
  rw [he]
  rfl

theorem alloc_eq (h : (pmm_alloc_page s).2.out_of_memory = false) :
    ¬ s.free_memory_end ≤ s.free_memory_start + PAGE_SIZE ∧ s.out_of_memory = false ∧
      pmm_alloc_page s = (some s.free_memory_start, { s with
        free_memory_start := s.free_memory_start + PAGE_SIZE
        page := Function.update s.page s.free_memory_start fun _ => 0 }) := by
  unfold pmm_alloc_page at h ⊢
  split at h
  · exact absurd h Bool.noConfusion
  · rename_i hlt
    exact ⟨hlt, h, if_neg hlt⟩

/-- A fresh page is hung in where the entry is not present. -/
def withTable (s : Phys) (table : UInt64) (idx : Fin 512) : Phys :=
  { s with
    free_memory_start := s.free_memory_start + PAGE_SIZE
    page := linked s.page table s.free_memory_start idx
      (s.free_memory_start ||| PTE_PRESENT ||| PTE_WRITE ||| PTE_USER) 0 }

@[simp] theorem withTable_root (s : Phys) (table : UInt64) (idx : Fin 512) :
    (withTable s table idx).kernel_pml4 = s.kernel_pml4 := by
  dsimp only [withTable]

theorem withTable_page (s : Phys) (table : UInt64) (idx : Fin 512) :
    (withTable s table idx).page = linked s.page table s.free_memory_start idx
      (s.free_memory_start ||| PTE_PRESENT ||| PTE_WRITE ||| PTE_USER) 0 := by
  dsimp only [withTable]

theorem grows_withTable (h : PagingOk s)
    (ha : a.length < 3) (hp : Inner s a table) (hnone : entryTable (s.page table idx) = none)
    (hlt : ¬ s.free_memory_end ≤ s.free_memory_start + PAGE_SIZE) :
    Grows s (withTable s table idx) ∧ Inner (withTable s table idx) (a ++ [idx]) s.free_memory_start := by
  have hlink := entryTable_link h.pool.start
  have hfresh : ¬ Taken s s.free_memory_start := Nat.lt_irrefl _
  have hnext := next_start h.pool hlt
  have hpool : PoolOk (withTable s table idx) := by
    have hok := (alloc_pool h.pool).2.1
    rw [pmm_alloc_page, if_neg hlt] at hok
    exact ⟨hok.start, hok.stop, hok.room⟩
  have hlen : a.length + 1 < 4 := Nat.succ_lt_succ ha
  have hlast : s.free_memory_start.toNat < (s.free_memory_start + PAGE_SIZE).toNat := by omega
  refine ⟨⟨⟨hpool, ?_⟩, fun b q hb hq => ?_, fun virt => ?_⟩, ?_⟩
  · rw [withTable_root, withTable_page]
    exact h.tree.link hlen hp hfresh hlink entryTable_zero (fun q hq => Nat.lt_trans hq hlast) hlast
  · rw [Inner, withTable_root, withTable_page]
    exact walk_mono h.tree hlen hp hfresh hnone hb hq
  · rw [pteOf, withTable_root, withTable_page]
    exact lookup_linked h.tree hlen hp hfresh hlink entryTable_zero hnone (b := path virt) rfl (PT_INDEX virt)
  · rw [Inner, withTable_root, withTable_page]
    exact walk_linked h.tree hlen hp hfresh hlink entryTable_zero []

theorem nextTable_takes (h : PoolOk s)
    (hpres : s.page table idx &&& PTE_PRESENT = 0) (hlt : ¬ s.free_memory_end ≤ s.free_memory_start + PAGE_SIZE) :
    nextTable table idx s = (s.free_memory_start, withTable s table idx) := by
  have heq : pmm_alloc_page s = (some s.free_memory_start, { s with
      free_memory_start := s.free_memory_start + PAGE_SIZE
      page := Function.update s.page s.free_memory_start fun _ => 0 }) := if_neg hlt
  have hself : tableOf ((withTable s table idx).page table idx) = s.free_memory_start := by
    have hlink := entryTable_link h.start
    have hput : (withTable s table idx).page table idx =
      s.free_memory_start ||| PTE_PRESENT ||| PTE_WRITE ||| PTE_USER := put_self
    rw [hput]
    rw [entryTable] at hlink
    split at hlink
    · exact absurd hlink (Option.some_ne_none _).symm
    · exact Option.some.inj hlink
  rw [nextTable, if_pos hpres, heq]
  exact Prod.ext hself rfl

theorem nextTable_absent (h : PoolOk s)
    (hpres : s.page table idx &&& PTE_PRESENT = 0) (hmem : (nextTable table idx s).2.out_of_memory = false) :
    ¬ s.free_memory_end ≤ s.free_memory_start + PAGE_SIZE ∧
      nextTable table idx s = (s.free_memory_start, withTable s table idx) := by
  have hlt : ¬ s.free_memory_end ≤ s.free_memory_start + PAGE_SIZE := by
    rw [nextTable, if_pos hpres] at hmem
    exact (alloc_eq (s := s) hmem).1
  exact ⟨hlt, nextTable_takes h hpres hlt⟩

theorem nextTable_memory (h : (nextTable table idx s).2.out_of_memory = false) : s.out_of_memory = false := by
  unfold nextTable at h
  split at h
  · exact (alloc_eq h).2.1
  · exact h

/-- One level of the walk: the table behind the entry is there afterwards. -/
theorem nextTable_grows (h : PagingOk s)
    (ha : a.length < 3) (hp : Inner s a table) (hmem : (nextTable table idx s).2.out_of_memory = false) :
    Grows s (nextTable table idx s).2 ∧ Inner (nextTable table idx s).2 (a ++ [idx]) (nextTable table idx s).1 := by
  by_cases hpres : s.page table idx &&& PTE_PRESENT = 0
  · obtain ⟨hlt, heq⟩ := nextTable_absent h.pool hpres hmem
    rw [heq]
    exact grows_withTable h ha hp (if_pos hpres) hlt
  · unfold nextTable at hmem ⊢
    rw [if_neg hpres] at hmem ⊢
    exact ⟨.refl h, hp.snoc (if_neg hpres)⟩

/-- The entry of one page is written, and every other page's is as it was. -/
structure PutsEntry (s : Phys) (virt e : UInt64) (t : Phys) : Prop where
  ok : PagingOk t
  walks : ∀ b q, b.length < 4 → Inner s b q → Inner t b q
  mapped : ∃ q, Inner t (path virt) q
  ptes : ∀ v, pteOf t v = if pageNumber v = pageNumber virt then e else pteOf s v

theorem set_stores {q : UInt64} (h : PagingOk s) (hq : Inner s (path virt) q) (e : UInt64) :
    PutsEntry s virt e (s.set q (PT_INDEX virt) e) := by
  have hwalks : ∀ b p, b.length < 4 → Inner s b p → Inner (s.set q (PT_INDEX virt) e) b p :=
    fun b p hb hp => (walk_store h.tree rfl hq (PT_INDEX virt) e hb).trans hp
  have hpool : PoolOk (s.set q (PT_INDEX virt) e) := ⟨h.pool.start, h.pool.stop, h.pool.room⟩
  refine ⟨⟨hpool, h.tree.store rfl hq (PT_INDEX virt) e⟩, hwalks, ⟨q, hwalks _ _ (Nat.lt_add_one 3) hq⟩, fun v => ?_⟩
  refine (lookup_store h.tree rfl hq (PT_INDEX virt) e (b := path v) rfl (PT_INDEX v)).trans ?_
  simp only [samePage_iff]
  rfl

theorem Grows.stores {t u : Phys} {e : UInt64} (h : Grows s t) (h' : PutsEntry t virt e u) : PutsEntry s virt e u := by
  refine ⟨h'.ok, fun b q hb hq => h'.walks b q hb (h.walks b q hb hq), h'.mapped, fun v => ?_⟩
  rw [h'.ptes v, h.ptes v]

theorem vmm_map_page_stores {phys flags : UInt64} (h : PagingOk s)
    (hmem : (vmm_map_page virt phys flags s).out_of_memory = false) :
    PutsEntry s virt (phys ||| flags) (vmm_map_page virt phys flags s) ∧ s.out_of_memory = false := by
  let r1 := nextTable s.kernel_pml4 (PML4_INDEX virt) s
  let r2 := nextTable r1.1 (PDP_INDEX virt) r1.2
  let r3 := nextTable r2.1 (PD_INDEX virt) r2.2
  have m3 : r3.2.out_of_memory = false := hmem
  have m2 : r2.2.out_of_memory = false := nextTable_memory m3
  have m1 : r1.2.out_of_memory = false := nextTable_memory m2
  -- each level finds its table behind the one before
  obtain ⟨g1, i1⟩ := nextTable_grows (a := []) h (by decide) rfl m1
  obtain ⟨g2, i2⟩ := nextTable_grows (a := [PML4_INDEX virt]) g1.ok (by simp) i1 m2
  obtain ⟨g3, i3⟩ := nextTable_grows (a := [PML4_INDEX virt, PDP_INDEX virt]) g2.ok (by simp) i2 m3
  exact ⟨((g1.trans g2).trans g3).stores (set_stores g3.ok i3 _), nextTable_memory m1⟩

theorem entryTable_some {e p : UInt64} (h : entryTable e = some p) : tableOf e = p := by
  rw [entryTable] at h
  split at h
  · exact absurd h (Option.some_ne_none p).symm
  · exact Option.some.inj h

/-- What `vmm_set_pkey` finds, which does not look whether an entry is present. -/
theorem Inner.tables {q : UInt64} (h : Inner s (path virt) q) :
    tableOf (s.page (tableOf (s.page (tableOf (s.page s.kernel_pml4 (PML4_INDEX virt))) (PDP_INDEX virt)))
      (PD_INDEX virt)) = q := by
  rw [Inner, path, walk, Option.bind_eq_some_iff] at h
  obtain ⟨p1, h1, h⟩ := h
  rw [walk, Option.bind_eq_some_iff] at h
  obtain ⟨p2, h2, h⟩ := h
  rw [walk, Option.bind_eq_some_iff] at h
  obtain ⟨p3, h3, h⟩ := h
  rw [entryTable_some h1, entryTable_some h2, entryTable_some h3]
  exact Option.some.inj h

theorem Inner.pte {q : UInt64} (h : Inner s (path virt) q) : pteOf s virt = s.page q (PT_INDEX virt) := by
  rw [pteOf, lookup, show walk entryTable s.page s.kernel_pml4 (path virt) = some q from h]
  rfl

theorem vmm_set_pkey_stores (pkey : Int32) (h : PagingOk s) (hm : ∃ q, Inner s (path virt) q) :
    PutsEntry s virt (withPkey pkey (pteOf s virt)) (vmm_set_pkey virt pkey s) := by
  obtain ⟨q, hq⟩ := hm
  have heq : vmm_set_pkey virt pkey s = s.set q (PT_INDEX virt) (withPkey pkey (pteOf s virt)) := by
    simp only [vmm_set_pkey, hq.tables, hq.pte]
  rw [heq]
  exact set_stores h hq _

end Angelic.Proofs
