import Angelic.Proofs.Pool

namespace Angelic.Proofs
open Model

/-! What a sequence of calls of `pmm_alloc_page` returns. -/

/-- Pages are asked for, one after the other, and anything is written to memory in between. None is `NULL`. -/
inductive PoolCalls (s : Phys) : List (Option UInt64) → Phys → Prop
  | start : PoolCalls s [] s
  | alloc {results : List (Option UInt64)} {t : Phys} :
      PoolCalls s results t → PoolCalls s (results ++ [(pmm_alloc_page t).1]) (pmm_alloc_page t).2
  | write {results : List (Option UInt64)} {t : Phys} (kernel_pml4 : UInt64) (page : UInt64 → Fin 512 → UInt64) :
      PoolCalls s results t → PoolCalls s results { t with kernel_pml4 := kernel_pml4, page := page }

/-- A page of the pool that has been handed out. -/
structure HandedOut (s t : Phys) (p : UInt64) : Prop where
  aligned : p.toNat % 4096 = 0
  after : s.free_memory_start.toNat ≤ p.toNat
  before : p.toNat + 4096 ≤ t.free_memory_start.toNat
  inside : p.toNat + 4096 < s.free_memory_end.toNat

section Calls
variable {s t : Phys} {results : List (Option UInt64)}

theorem PoolCalls.run (h : PoolCalls s results t) : PoolRun s t := by
  induction h with
  | start => exact .start
  | alloc _ ih => exact ih.alloc
  | write kernel_pml4 page _ ih => exact ih.write kernel_pml4 page

theorem alloc_start_le {s : Phys} (h : PoolOk s) :
    s.free_memory_start.toNat ≤ (pmm_alloc_page s).2.free_memory_start.toNat := by
  rw [(alloc_pool h).2.2]
  exact Nat.le_add_right _ _

theorem PoolCalls.handedOut (hok : PoolOk s) (h : PoolCalls s results t) {p : UInt64} (hp : some p ∈ results) :
    HandedOut s t p := by
  induction h with
  | start => exact absurd hp List.not_mem_nil
  | @alloc results t hcalls ih =>
    obtain ⟨hend, hok', k, hk⟩ := run_pool hok hcalls.run
    rcases List.mem_append.mp hp with hp | hp
    · have h := ih hp
      exact ⟨h.aligned, h.after, Nat.le_trans h.before (alloc_start_le hok'), h.inside⟩
    · have hsome := (List.mem_singleton.mp hp).symm
      obtain ⟨rfl, hlt⟩ := (alloc_some_iff hok').mp hsome
      refine ⟨hok'.start, by omega, ?_, by rw [← hend]; exact hlt⟩
      have he := (alloc_pool hok').2.2
      rw [hsome, if_neg (Option.some_ne_none _)] at he
      exact Nat.le_of_eq he.symm
  | write _ _ _ ih =>
    have h := ih hp
    exact ⟨h.aligned, h.after, h.before, h.inside⟩

/-- Each page lies behind those handed out before it. -/
theorem PoolCalls.ascending (hok : PoolOk s) (h : PoolCalls s results t) :
    (results.filterMap id).Pairwise fun p q => p.toNat + 4096 ≤ q.toNat := by
  induction h with
  | start => exact .nil
  | @alloc results t hcalls ih =>
    obtain ⟨-, hok', -⟩ := run_pool hok hcalls.run
    rw [List.filterMap_append, List.pairwise_append]
    refine ⟨ih, ?_, fun p hp q hq => ?_⟩
    · cases (pmm_alloc_page t).1 with
      | none => exact .nil
      | some q => exact List.pairwise_singleton _ _
    · obtain ⟨r, hr, hrp⟩ := List.mem_filterMap.mp hp
      obtain ⟨r', hr', hrq⟩ := List.mem_filterMap.mp hq
      have hsome : (pmm_alloc_page t).1 = some q := (List.mem_singleton.mp hr').symm.trans hrq
      obtain ⟨rfl, -⟩ := (alloc_some_iff hok').mp hsome
      exact (hcalls.handedOut hok (hrp ▸ hr)).before
  | write _ _ _ ih => exact ih

end Calls

/-- No conventional region has more pages. -/
structure Largest (mem_map : List MemoryDescriptor) (d : MemoryDescriptor) : Prop where
  mem : d ∈ mem_map
  conventional : d.type = EfiConventionalMemory
  most : ∀ e ∈ mem_map, e.type = EfiConventionalMemory → e.NumberOfPages ≤ d.NumberOfPages

/-- The page that starts at `p` is one of the region's. -/
def InRegion (d : MemoryDescriptor) (p : UInt64) : Prop :=
  d.PhysicalStart.toNat ≤ p.toNat ∧ p.toNat + 4096 ≤ d.PhysicalStart.toNat + d.NumberOfPages.toNat * 4096

theorem size_toNat {d : MemoryDescriptor} (h : d.NumberOfPages.toNat * 4096 < 2 ^ 64) :
    d.size.toNat = d.NumberOfPages.toNat * 4096 := by
  have hp : PAGE_SIZE.toNat = 4096 := rfl
  rw [MemoryDescriptor.size, UInt64.toNat_mul, hp]
  exact Nat.mod_eq_of_lt h

theorem Chosen.largest {mem_map : List MemoryDescriptor} {d : MemoryDescriptor} (h : Chosen mem_map d)
    (hw : ∀ e ∈ mem_map, e.type = EfiConventionalMemory → e.NumberOfPages.toNat * 4096 < 2 ^ 64) :
    Largest mem_map d := by
  have hle : ∀ e ∈ mem_map, e.type = EfiConventionalMemory → e.size ≤ d.size := fun e he => h.le he
  obtain ⟨before, after, hmap, htype, -⟩ := h
  have hd : d ∈ mem_map := hmap ▸ List.mem_append_right before List.mem_cons_self
  refine ⟨hd, htype, fun e he het => ?_⟩
  have := hle e he het
  rw [UInt64.le_iff_toNat_le, size_toNat (hw e he het), size_toNat (hw d hd htype)] at this
  rw [UInt64.le_iff_toNat_le]
  omega

/-- The pages that are returned lie apart, on page boundaries, at or above 2 MiB and all in one region that is the
largest. -/
theorem pool_pages (mem_map : List MemoryDescriptor)
    (hw : ∀ e ∈ mem_map, e.type = EfiConventionalMemory → e.NumberOfPages.toNat * 4096 < 2 ^ 64)
    (page : UInt64 → Fin 512 → UInt64) {results : List (Option UInt64)} {t : Phys}
    (h : PoolCalls (pmm_init mem_map (.load page)) results t) :
    ((results.filterMap id).Pairwise fun p q => p.toNat + 4096 ≤ q.toNat) ∧
      (∀ p, some p ∈ results → p.toNat % 4096 = 0 ∧ 0x200000 ≤ p.toNat) ∧
      ((∀ r ∈ results, r = none) ∨ ∃ d, Largest mem_map d ∧ ∀ p, some p ∈ results → InRegion d p) := by
  have hok := init_ok mem_map page
  refine ⟨h.ascending hok, fun p hp => ?_, ?_⟩
  · have hout := h.handedOut hok hp
    have hstart := hout.after
    rw [init_start] at hstart
    exact ⟨hout.aligned, Nat.le_trans (Nat.le_max_right _ _) hstart⟩
  · rcases chosen_or_empty mem_map with ⟨d, hd⟩ | he
    · obtain ⟨hs, he⟩ := init_chosen hd page
      refine .inr ⟨d, hd.largest hw, fun p hp => ?_⟩
      have hout := h.handedOut hok hp
      have hafter := hout.after
      have hinside := hout.inside
      have hend := region_end d
      rw [hs] at hafter
      -- a region that ends at 2^64 has an end of 0, and nothing lies inside
      rw [he, hend] at hinside
      have hmod := Nat.mod_le (d.PhysicalStart.toNat + d.NumberOfPages.toNat * 4096) (2 ^ 64)
      exact ⟨by omega, by omega⟩
    · refine .inl fun r hr => ?_
      cases r with
      | none => rfl
      | some p =>
        have hinside := (h.handedOut hok hr).inside
        rw [init_empty he page] at hinside
        exact absurd hinside (Nat.not_lt_zero _)

/-- Four MiB of free memory, half of it below the line. -/
def acrossMap : List MemoryDescriptor := [⟨EfiConventionalMemory, 0x100000, 0x400, by decide, by decide⟩]

theorem pages_across_line :
    PoolCalls (pmm_init acrossMap (.load fun _ _ => 0)) [some 0x200000, some 0x201000]
        (pmm_alloc_page (pmm_alloc_page (pmm_init acrossMap (.load fun _ _ => 0))).2).2 ∧
      ∃ d, Largest acrossMap d ∧ InRegion d 0x200000 ∧ InRegion d 0x201000 := by
  have hcalls : PoolCalls (pmm_init acrossMap (.load fun _ _ => 0)) [some 0x200000, some 0x201000]
      (pmm_alloc_page (pmm_alloc_page (pmm_init acrossMap (.load fun _ _ => 0))).2).2 := .alloc (.alloc .start)
  refine ⟨hcalls, ?_⟩
  have hw : ∀ e ∈ acrossMap, e.type = EfiConventionalMemory → e.NumberOfPages.toNat * 4096 < 2 ^ 64 := by decide
  rcases (pool_pages acrossMap hw (fun _ _ => 0) hcalls).2.2 with hnone | ⟨d, hd, hin⟩
  · exact absurd (hnone _ List.mem_cons_self) (Option.some_ne_none _)
  · exact ⟨d, hd, hin _ List.mem_cons_self, hin _ (List.mem_cons_of_mem _ List.mem_cons_self)⟩

end Angelic.Proofs
