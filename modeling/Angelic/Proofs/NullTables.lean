import Angelic.Proofs.Paging
import Angelic.Proofs.PoolPages

namespace Angelic.Proofs
open Model Radix

/-! `vmm_map_page` when the pool runs out. The address of a table that could not be had is 0, and with the flags
it makes a present entry. -/

/-- No table hangs at the entry. -/
def Missing (s : Phys) (table : UInt64) (idx : Fin 512) : Prop := s.page table idx &&& PTE_PRESENT = 0

instance (s : Phys) (table : UInt64) (idx : Fin 512) : Decidable (Missing s table idx) :=
  inferInstanceAs (Decidable (_ = _))

section Levels
variable (virt : UInt64) (s : Phys)

/-- The table each of the three inner levels finds or makes, and the state it leaves. -/
def pdpOf : UInt64 × Phys := nextTable s.kernel_pml4 (PML4_INDEX virt) s
def pdOf : UInt64 × Phys := nextTable (pdpOf virt s).1 (PDP_INDEX virt) (pdpOf virt s).2
def ptOf : UInt64 × Phys := nextTable (pdOf virt s).1 (PD_INDEX virt) (pdOf virt s).2

/-- The level asks for a page and gets `NULL`. -/
def GetsNull (table : UInt64) (idx : Fin 512) (s : Phys) : Prop := Missing s table idx ∧ (pmm_alloc_page s).1 = none

def SomeNull : Prop :=
  GetsNull s.kernel_pml4 (PML4_INDEX virt) s ∨ GetsNull (pdpOf virt s).1 (PDP_INDEX virt) (pdpOf virt s).2 ∨
    GetsNull (pdOf virt s).1 (PD_INDEX virt) (pdOf virt s).2

/-- None of the stores of the call makes an entry present, and the pages that were mapped have their entries. -/
def Harmless (phys flags : UInt64) : Prop :=
  (∀ t ∈ [(pdpOf virt s).2, (pdOf virt s).2, (ptOf virt s).2, vmm_map_page virt phys flags s], ∀ table idx,
      Missing s table idx → Missing t table idx) ∧
    ∀ v, pteOf s v &&& PTE_PRESENT ≠ 0 → pteOf (vmm_map_page virt phys flags s) v = pteOf s v

/-- At least `n` more pages can be taken. -/
def Left (n : Nat) : Prop := s.free_memory_start.toNat + n * 4096 < s.free_memory_end.toNat

/-- The pool has a page for each table that is missing. The entry that the next page of the pool is linked at is
found again at the level below if it lies in that page itself, and then no further page is asked for. -/
def Supplied : Prop :=
  let pml4 := s.kernel_pml4
  if Missing s pml4 (PML4_INDEX virt) then
    Left s 3 ∨ pml4 = s.free_memory_start ∧ PDP_INDEX virt = PML4_INDEX virt ∧
      (Left s 2 ∨ PD_INDEX virt = PML4_INDEX virt ∧ Left s 1)
  else
    let pdp := tableOf (s.page pml4 (PML4_INDEX virt))
    if Missing s pdp (PDP_INDEX virt) then
      Left s 2 ∨ pdp = s.free_memory_start ∧ PD_INDEX virt = PDP_INDEX virt ∧ Left s 1
    else
      Missing s (tableOf (s.page pdp (PDP_INDEX virt))) (PD_INDEX virt) → Left s 1

end Levels

section Level
variable {s : Phys} {table : UInt64} {idx : Fin 512}

theorem nextTable_present (h : ¬ Missing s table idx) : nextTable table idx s = (tableOf (s.page table idx), s) :=
  if_neg h

/-- A level that asks for a page leaves a present entry, with or without one. -/
theorem nextTable_links (h : Missing s table idx) : ¬ Missing (nextTable table idx s).2 table idx := by
  have hput : (nextTable table idx s).2.page table idx =
      (pmm_alloc_page s).1.getD 0 ||| PTE_PRESENT ||| PTE_WRITE ||| PTE_USER := by
    refine (congrArg (fun r : UInt64 × Phys => r.2.page table idx) (if_pos h)).trans ?_
    exact put_self
  rw [Missing, hput, present_iff, UInt64.or_assoc, UInt64.or_assoc, ← UInt64.or_assoc PTE_PRESENT, bitAt_or, bitAt_flags]
  simp

theorem alloc_none_iff (h : PoolOk s) : (pmm_alloc_page s).1 = none ↔ ¬ Left s 1 := by
  rw [Left, Nat.one_mul, Option.eq_none_iff_forall_ne_some]
  refine ⟨fun hn hl => hn _ ((alloc_some_iff h).mpr ⟨rfl, hl⟩), fun hl p hp => hl ((alloc_some_iff h).mp hp).2⟩

theorem getsNull_iff (h : PoolOk s) : GetsNull table idx s ↔ Missing s table idx ∧ ¬ Left s 1 := by
  rw [GetsNull, alloc_none_iff h]

theorem Left.mono {m n : Nat} (h : Left s n) (hm : m ≤ n) : Left s m :=
  Nat.lt_of_le_of_lt (Nat.add_le_add_left (Nat.mul_le_mul_right 4096 hm) _) h

theorem not_exhausted (h : PoolOk s) (hl : Left s 1) : ¬ s.free_memory_end ≤ s.free_memory_start + PAGE_SIZE := by
  rw [exhausted_iff h]
  unfold Left at hl
  omega

theorem nextTable_supplied (h : PoolOk s) (hm : Missing s table idx) (hl : Left s 1) :
    nextTable table idx s = (s.free_memory_start, withTable s table idx) := nextTable_takes h hm (not_exhausted h hl)

theorem withTable_ok (h : PoolOk s) (hl : Left s 1) : PoolOk (withTable s table idx) := by
  have hok := (alloc_pool h).2.1
  rw [pmm_alloc_page, if_neg (not_exhausted h hl)] at hok
  exact ⟨hok.start, hok.stop, hok.room⟩

theorem left_withTable (h : PoolOk s) (hl : Left s 1) (n : Nat) : Left (withTable s table idx) n ↔ Left s (n + 1) := by
  have hnext := next_start h (not_exhausted h hl)
  simp only [Left, withTable, hnext]
  omega

/-- The new page is empty, but for the entry it is linked at if that lies in it. -/
theorem missing_withTable (j : Fin 512) :
    Missing (withTable s table idx) s.free_memory_start j ↔ ¬ (table = s.free_memory_start ∧ j = idx) := by
  rw [Missing, withTable_page, linked]
  by_cases hn : s.free_memory_start = table ∧ j = idx
  · rw [hn.1, hn.2, put_self, ← hn.1, present_iff, UInt64.or_assoc, UInt64.or_assoc, ← UInt64.or_assoc PTE_PRESENT, bitAt_or,
      bitAt_flags]
    simp
  · rw [put_other hn, Function.update_self]
    exact iff_of_true (by decide) fun h => hn ⟨h.1.symm, h.2⟩

theorem withTable_start (h : PoolOk s) (hl : Left s 1) : s.free_memory_start ≠ (withTable s table idx).free_memory_start := by
  intro he
  have hnext := next_start h (not_exhausted h hl)
  have := congrArg UInt64.toNat he
  change _ = (s.free_memory_start + PAGE_SIZE).toNat at this
  omega

theorem tableOf_withTable (h : PoolOk s) :
    tableOf ((withTable s table idx).page table idx) = s.free_memory_start := by
  have hput : (withTable s table idx).page table idx =
    s.free_memory_start ||| PTE_PRESENT ||| PTE_WRITE ||| PTE_USER := put_self
  rw [hput]
  exact entryTable_some (entryTable_link h.start)

/-- Two levels, from the table of the upper one on. -/
theorem two_levels_null (h : PoolOk s) (j : Fin 512) :
    GetsNull table idx s ∨ GetsNull (nextTable table idx s).1 j (nextTable table idx s).2 ↔
      if Missing s table idx then ¬ (Left s 2 ∨ table = s.free_memory_start ∧ j = idx ∧ Left s 1)
      else Missing s (tableOf (s.page table idx)) j ∧ ¬ Left s 1 := by
  rw [getsNull_iff h]
  by_cases hm : Missing s table idx
  · rw [if_pos hm]
    by_cases hl : Left s 1
    · rw [nextTable_supplied h hm hl]
      dsimp only
      rw [getsNull_iff (withTable_ok h hl), missing_withTable, left_withTable h hl]
      tauto
    · have hl2 : ¬ Left s 2 := fun h2 => hl (h2.mono (by decide))
      exact iff_of_true (.inl ⟨hm, hl⟩) fun hs => hs.elim hl2 fun hs => hl hs.2.2
  · rw [if_neg hm, nextTable_present hm]
    dsimp only
    rw [getsNull_iff h]
    exact or_iff_right fun hs => hm hs.1

end Level

theorem supplied_iff {virt : UInt64} {s : Phys} (h : PoolOk s) : Supplied virt s ↔ ¬ SomeNull virt s := by
  unfold Supplied
  by_cases h1 : Missing s s.kernel_pml4 (PML4_INDEX virt)
  · rw [if_pos h1]
    by_cases hl : Left s 1
    · have e1 : pdpOf virt s = (s.free_memory_start, withTable s s.kernel_pml4 (PML4_INDEX virt)) :=
        nextTable_supplied h h1 hl
      have hsome : SomeNull virt s ↔ _ := (or_iff_right fun hs => ((getsNull_iff h).mp hs).2 hl).trans
        (two_levels_null (e1 ▸ withTable_ok h hl : PoolOk (pdpOf virt s).2) (PD_INDEX virt))
      rw [hsome, e1]
      dsimp only
      rw [left_withTable h hl, left_withTable h hl]
      have hagain : Missing (withTable s s.kernel_pml4 (PML4_INDEX virt)) s.free_memory_start (PDP_INDEX virt) ↔ _ :=
        missing_withTable (PDP_INDEX virt)
      by_cases hloop : s.kernel_pml4 = s.free_memory_start ∧ PDP_INDEX virt = PML4_INDEX virt
      · -- the entry is found again
        have hself : tableOf ((withTable s s.kernel_pml4 (PML4_INDEX virt)).page s.free_memory_start (PDP_INDEX virt)) =
            s.free_memory_start := by
          have : tableOf ((withTable s s.kernel_pml4 (PML4_INDEX virt)).page s.kernel_pml4 (PML4_INDEX virt)) = _ :=
            tableOf_withTable h
          rw [hloop.1] at this ⊢
          rw [hloop.2]
          exact this
        have hl3 : Left s 3 → Left s 2 := fun h3 => h3.mono (by decide)
        rw [if_neg fun hm => hagain.mp hm hloop, hself, missing_withTable]
        clear hsome e1 hself hagain
        tauto
      · have hnext : s.free_memory_start ≠ (withTable s s.kernel_pml4 (PML4_INDEX virt)).free_memory_start :=
          withTable_start h hl
        rw [if_pos (hagain.mpr hloop), iff_false_intro hnext, false_and, or_false, not_not]
        exact or_iff_left fun hl => hloop ⟨hl.1, hl.2.1⟩
    · have hsome : SomeNull virt s := .inl ((getsNull_iff h).mpr ⟨h1, hl⟩)
      have hl2 : ¬ Left s 2 := fun h2 => hl (h2.mono (by decide))
      have hl3 : ¬ Left s 3 := fun h3 => hl (h3.mono (by decide))
      tauto
  · have e1 : pdpOf virt s = (tableOf (s.page s.kernel_pml4 (PML4_INDEX virt)), s) := nextTable_present h1
    have hsome : SomeNull virt s ↔ _ := (or_iff_right fun hs => h1 ((getsNull_iff h).mp hs).1).trans
      (two_levels_null (e1 ▸ h : PoolOk (pdpOf virt s).2) (PD_INDEX virt))
    rw [if_neg h1, hsome, e1]
    dsimp only
    split <;> tauto

/-- The first level that finds its entry missing makes it present. -/
theorem not_harmless {virt : UInt64} {s : Phys} (h : SomeNull virt s) (phys flags : UInt64) :
    ¬ Harmless virt s phys flags := by
  rintro ⟨hstores, -⟩
  by_cases h1 : Missing s s.kernel_pml4 (PML4_INDEX virt)
  · exact nextTable_links h1 (hstores (pdpOf virt s).2 (by simp) _ _ h1)
  have s1 : (pdpOf virt s).2 = s := congrArg Prod.snd (nextTable_present h1)
  by_cases h2 : Missing s (pdpOf virt s).1 (PDP_INDEX virt)
  · have h2' : Missing (pdpOf virt s).2 (pdpOf virt s).1 (PDP_INDEX virt) := by
      rw [s1]
      exact h2
    exact nextTable_links h2' (hstores (pdOf virt s).2 (by simp) _ _ h2)
  have s2 : (pdOf virt s).2 = s := by
    rw [pdOf, s1]
    exact congrArg Prod.snd (nextTable_present h2)
  -- the two upper levels have their tables, so it is the third that gets `NULL`
  have h3 : Missing (pdOf virt s).2 (pdOf virt s).1 (PD_INDEX virt) := by
    rcases h with h | h | h
    · exact absurd h.1 h1
    · rw [s1] at h
      exact absurd h.1 h2
    · exact h.1
  refine nextTable_links h3 (hstores (ptOf virt s).2 (by simp) _ _ ?_)
  rw [s2] at h3
  exact h3

theorem null_harmless_iff (virt phys flags : UInt64) {s : Phys} (h : PoolOk s) :
    (SomeNull virt s → Harmless virt s phys flags) ↔ Supplied virt s := by
  rw [supplied_iff h]
  exact ⟨fun hh hn => not_harmless hn phys flags (hh hn), fun hn hs => absurd hs hn⟩

/-- An empty root in a fresh pool. -/
def freshTables : Phys := { pmm_init acrossMap (.load fun _ _ => 0) with kernel_pml4 := 0x1000 }

theorem fresh_supplied : PoolOk freshTables ∧ (SomeNull 0 freshTables → Harmless 0 freshTables 0x5000 3) := by
  have hok : PoolOk freshTables := by
    have h := init_ok acrossMap fun _ _ => 0
    exact ⟨h.start, h.stop, h.room⟩
  refine ⟨hok, (null_harmless_iff 0 0x5000 3 hok).mpr ?_⟩
  have hm : Missing freshTables freshTables.kernel_pml4 (PML4_INDEX 0) := by decide +kernel
  have hl : Left freshTables 3 := by
    rw [Left]
    decide +kernel
  rw [Supplied, if_pos hm]
  exact .inl hl

/-- A page is mapped through a table at address 0, as an earlier call has left it, and the pool is empty. -/
def emptyPool : Phys where
  free_memory_start := 0x400000
  free_memory_end := 0x400000
  kernel_pml4 := 0x1000
  page a i :=
    if a = 0x1000 ∧ i = 0 then 0x2007
    else if a = 0x2000 ∧ i = 0 then 0x3007
    else if a = 0x3000 ∧ i = 0 then 7
    else if a = 0 ∧ i = 5 then 0x5003
    else 0
  out_of_memory := true

/-- Mapping a page of the next table gets `NULL`, makes an entry present and moves the page that was mapped. -/
theorem null_table_shared : PoolOk emptyPool ∧ SomeNull 0x205000 emptyPool ∧
    Missing emptyPool 0x3000 1 ∧ ¬ Missing (vmm_map_page 0x205000 0x9000 3 emptyPool) 0x3000 1 ∧
    pteOf emptyPool 0x5000 = 0x5003 ∧ pteOf (vmm_map_page 0x205000 0x9000 3 emptyPool) 0x5000 = 0x9003 := by
  refine ⟨⟨by decide, by decide, .inl (by decide)⟩, .inr (.inr ⟨?_, ?_⟩), ?_⟩
  · decide +kernel
  · decide +kernel
  · decide +kernel

end Angelic.Proofs
