import Angelic.Model.Vmm
import Mathlib.Data.List.Induction

namespace Angelic.Proofs
open Model

variable {p : Pool} {e d : MemoryDescriptor} {map : List MemoryDescriptor} {s : Phys}

/-! The pool that `pmm_init` picks. -/

/-- The first of the largest conventional regions. -/
def Chosen (mem_map : List MemoryDescriptor) (d : MemoryDescriptor) : Prop :=
  ∃ before after, mem_map = before ++ d :: after ∧ d.type = EfiConventionalMemory ∧ 0 < d.size ∧
    (∀ e ∈ before, e.type = EfiConventionalMemory → e.size < d.size) ∧
    ∀ e ∈ after, e.type = EfiConventionalMemory → e.size ≤ d.size

def poolOf (d : MemoryDescriptor) : Pool := ⟨d.size, d.PhysicalStart, d.PhysicalStart + d.size⟩

theorem consider_bounded {n : UInt64} (hp : p.largest_free_segment < n)
    (he : e.type = EfiConventionalMemory → e.size < n) : (p.consider e).largest_free_segment < n := by
  unfold Pool.consider
  split
  · split
    · exact he ‹_›
    · exact hp
  · exact hp

theorem scan_bounded {n : UInt64} (hp : p.largest_free_segment < n)
    (h : ∀ e ∈ map, e.type = EfiConventionalMemory → e.size < n) :
    (map.foldl Pool.consider p).largest_free_segment < n := by
  induction map generalizing p with
  | nil => exact hp
  | cons e map ih =>
    exact ih (consider_bounded hp (h e List.mem_cons_self)) fun e' he => h e' (List.mem_cons_of_mem e he)

theorem consider_keeps (h : e.type = EfiConventionalMemory → e.size ≤ p.largest_free_segment) : p.consider e = p := by
  unfold Pool.consider
  split
  · rw [if_neg (UInt64.not_lt.mpr (h ‹_›))]
  · rfl

theorem scan_keeps (h : ∀ e ∈ map, e.type = EfiConventionalMemory → e.size ≤ p.largest_free_segment) :
    map.foldl Pool.consider p = p := by
  induction map with
  | nil => rfl
  | cons e map ih =>
    rw [List.foldl_cons, consider_keeps (h e List.mem_cons_self)]
    exact ih fun e' he => h e' (List.mem_cons_of_mem e he)

theorem scan_chosen (h : Chosen map d) (a b : UInt64) : map.foldl Pool.consider ⟨0, a, b⟩ = poolOf d := by
  obtain ⟨before, after, rfl, ht, hd, hb, ha⟩ := h
  have hlt := scan_bounded (p := ⟨0, a, b⟩) hd hb
  have hc : Pool.consider (before.foldl Pool.consider ⟨0, a, b⟩) d = poolOf d := by
    rw [Pool.consider, if_pos ht, if_pos hlt]
    rfl
  rw [List.foldl_append, List.foldl_cons, hc]
  exact scan_keeps ha

theorem Chosen.snoc (h : Chosen map d)
    (he : e.type = EfiConventionalMemory → e.size ≤ d.size) : Chosen (map ++ [e]) d := by
  obtain ⟨before, after, rfl, ht, hd, hb, ha⟩ := h
  refine ⟨before, after ++ [e], by simp, ht, hd, hb, ?_⟩
  intro x hx hxt
  rcases List.mem_append.mp hx with hx | hx
  · exact ha x hx hxt
  · rw [List.mem_singleton.mp hx] at hxt ⊢
    exact he hxt

theorem Chosen.le (h : Chosen map d) (he : e ∈ map) (ht : e.type = EfiConventionalMemory) : e.size ≤ d.size := by
  obtain ⟨before, after, rfl, -, -, hb, ha⟩ := h
  rcases List.mem_append.mp he with he | he
  · exact UInt64.le_of_lt (hb e he ht)
  · rcases List.mem_cons.mp he with rfl | he
    · exact UInt64.le_refl _
    · exact ha e he ht

/-- Some region is the first of the largest, unless every conventional region is empty. -/
theorem chosen_or_empty (map : List MemoryDescriptor) :
    (∃ d, Chosen map d) ∨ ∀ e ∈ map, e.type = EfiConventionalMemory → e.size = 0 := by
  induction map using List.reverseRecOn with
  | nil => exact .inr fun _ he => absurd he List.not_mem_nil
  | append_singleton map e ih =>
    -- the new region is chosen exactly when it is conventional and larger than all before it
    rcases ih with ⟨d, hd⟩ | ih
    · by_cases he : e.type = EfiConventionalMemory ∧ d.size < e.size
      · have hpos : 0 < e.size := UInt64.lt_of_le_of_lt UInt64.zero_le he.2
        exact .inl ⟨e, map, [], rfl, he.1, hpos, fun x hx hxt => UInt64.lt_of_le_of_lt (hd.le hx hxt) he.2, by simp⟩
      · exact .inl ⟨d, hd.snoc fun ht => UInt64.not_lt.mp fun hlt => he ⟨ht, hlt⟩⟩
    · by_cases he : e.type = EfiConventionalMemory ∧ 0 < e.size
      · refine .inl ⟨e, map, [], rfl, he.1, he.2, fun x hx hxt => ?_, by simp⟩
        rw [ih x hx hxt]
        exact he.2
      · refine .inr fun x hx hxt => ?_
        rcases List.mem_append.mp hx with hx | hx
        · exact ih x hx hxt
        · rw [List.mem_singleton.mp hx] at hxt ⊢
          by_contra hne
          exact he ⟨hxt, UInt64.pos_iff_ne_zero.mpr hne⟩

/-! Pages taken from a pool. -/

/-- The pool is made of whole pages and taking one does not wrap around. -/
structure PoolOk (s : Phys) : Prop where
  start : s.free_memory_start.toNat % 4096 = 0
  stop : s.free_memory_end.toNat % 4096 = 0
  room : s.free_memory_start.toNat + 4096 < 2 ^ 64 ∨ s.free_memory_end = 0

/-- Pages are taken, and anything is written to them. -/
inductive PoolRun (s : Phys) : Phys → Prop
  | start : PoolRun s s
  | alloc {t : Phys} : PoolRun s t → PoolRun s (pmm_alloc_page t).2
  | write {t : Phys} (kernel_pml4 : UInt64) (page : UInt64 → Fin 512 → UInt64) :
      PoolRun s t → PoolRun s { t with kernel_pml4 := kernel_pml4, page := page }

/-- A call of `pmm_alloc_page` returns the page. -/
def Returned (s : Phys) (p : UInt64) : Prop := ∃ t, PoolRun s t ∧ (pmm_alloc_page t).1 = some p

theorem next_start (h : PoolOk s) (hlt : ¬ s.free_memory_end ≤ s.free_memory_start + PAGE_SIZE) :
    (s.free_memory_start + PAGE_SIZE).toNat = s.free_memory_start.toNat + 4096 := by
  have hp : PAGE_SIZE.toNat = 4096 := rfl
  have hroom : s.free_memory_start.toNat + 4096 < 2 ^ 64 := by
    rcases h.room with hr | hr
    · exact hr
    · rw [hr] at hlt
      exact absurd UInt64.zero_le hlt
  rw [UInt64.toNat_add, hp]
  exact Nat.mod_eq_of_lt hroom

theorem exhausted_iff (h : PoolOk s) : s.free_memory_end ≤ s.free_memory_start + PAGE_SIZE ↔
      s.free_memory_end.toNat ≤ s.free_memory_start.toNat + 4096 := by
  constructor
  · intro hle
    rw [UInt64.le_iff_toNat_le, UInt64.toNat_add] at hle
    exact Nat.le_trans hle (Nat.mod_le _ _)
  · intro hle
    by_contra hlt
    have hn := next_start h hlt
    rw [UInt64.le_iff_toNat_le, hn] at hlt
    exact hlt hle

theorem alloc_some_iff {p : UInt64} (h : PoolOk s) : (pmm_alloc_page s).1 = some p ↔
      s.free_memory_start = p ∧ s.free_memory_start.toNat + 4096 < s.free_memory_end.toNat := by
  unfold pmm_alloc_page
  split
  · rename_i hle
    have := (exhausted_iff h).mp hle
    simp only [reduceCtorEq, false_iff, not_and, Nat.not_lt]
    exact fun _ => this
  · rename_i hlt
    have := mt (exhausted_iff h).mpr hlt
    simp only [Option.some.injEq, iff_self_and]
    exact fun _ => Nat.lt_of_not_le this

/-- What a call leaves of the pool. -/
theorem alloc_pool (h : PoolOk s) :
    (pmm_alloc_page s).2.free_memory_end = s.free_memory_end ∧ PoolOk (pmm_alloc_page s).2 ∧
      (pmm_alloc_page s).2.free_memory_start.toNat =
        s.free_memory_start.toNat + if (pmm_alloc_page s).1 = none then 0 else 4096 := by
  unfold pmm_alloc_page
  split
  · exact ⟨rfl, ⟨h.start, h.stop, h.room⟩, rfl⟩
  · rename_i hlt
    have hn := next_start h hlt
    have hlt' := mt (exhausted_iff h).mpr hlt
    have h1 := h.start
    have h2 := h.stop
    have h3 := s.free_memory_end.toNat_lt
    exact ⟨rfl, ⟨by change (s.free_memory_start + PAGE_SIZE).toNat % 4096 = 0; omega, h2,
      .inl (by change (s.free_memory_start + PAGE_SIZE).toNat + 4096 < 2 ^ 64; omega)⟩, hn⟩

theorem run_pool {t : Phys} (h : PoolOk s) (hr : PoolRun s t) : t.free_memory_end = s.free_memory_end ∧ PoolOk t ∧
      ∃ k, t.free_memory_start.toNat = s.free_memory_start.toNat + k * 4096 := by
  induction hr with
  | start => exact ⟨rfl, h, 0, by omega⟩
  | @alloc u hr ih =>
    obtain ⟨he, hok, k, hk⟩ := ih
    obtain ⟨he', hok', hs⟩ := alloc_pool hok
    refine ⟨he'.trans he, hok', ?_⟩
    by_cases hn : (pmm_alloc_page u).1 = none
    · exact ⟨k, by rw [hs, if_pos hn, hk]; rfl⟩
    · exact ⟨k + 1, by rw [hs, if_neg hn, hk]; omega⟩
  | write _ _ hr ih =>
    obtain ⟨he, hok, hk⟩ := ih
    exact ⟨he, ⟨hok.start, hok.stop, hok.room⟩, hk⟩

/-- The pool is handed out from its start, page by page. -/
theorem run_to (h : PoolOk s) (k : Nat)
    (hk : s.free_memory_start.toNat + k * 4096 < s.free_memory_end.toNat ∨ k = 0) :
    ∃ t, PoolRun s t ∧ t.free_memory_start.toNat = s.free_memory_start.toNat + k * 4096 := by
  induction k with
  | zero => exact ⟨s, .start, by omega⟩
  | succ k ih =>
    have hlt : s.free_memory_start.toNat + (k + 1) * 4096 < s.free_memory_end.toNat :=
      hk.resolve_right (Nat.succ_ne_zero k)
    have hlt' : s.free_memory_start.toNat + k * 4096 < s.free_memory_end.toNat :=
      Nat.lt_of_le_of_lt (Nat.add_le_add_left (Nat.mul_le_mul_right 4096 (Nat.le_succ k)) _) hlt
    obtain ⟨t, ht, hs⟩ := ih (.inl hlt')
    have hok := (run_pool h ht).2.1
    have he := congrArg UInt64.toNat (run_pool h ht).1
    have hsome : (pmm_alloc_page t).1 = some t.free_memory_start := (alloc_some_iff hok).mpr ⟨rfl, by omega⟩
    refine ⟨_, ht.alloc, ?_⟩
    rw [(alloc_pool hok).2.2, hsome, if_neg (by simp), hs]
    omega

theorem returned_iff (h : PoolOk s) {p : UInt64} :
    Returned s p ↔ ∃ k, p.toNat = s.free_memory_start.toNat + k * 4096 ∧ p.toNat + 4096 < s.free_memory_end.toNat := by
  constructor
  · rintro ⟨t, ht, hp⟩
    obtain ⟨he, hok, k, hk⟩ := run_pool h ht
    obtain ⟨rfl, hlt⟩ := (alloc_some_iff hok).mp hp
    exact ⟨k, hk, by rw [← he]; exact hlt⟩
  · rintro ⟨k, hk, hlt⟩
    obtain ⟨t, ht, hs⟩ := run_to h k (.inl (by omega))
    obtain ⟨he, hok, -⟩ := run_pool h ht
    refine ⟨t, ht, (alloc_some_iff hok).mpr ⟨UInt64.toNat_inj.mp (hs.trans hk.symm), ?_⟩⟩
    rw [he, hs, ← hk]
    exact hlt

theorem mem_vmm_window {p : UInt64} : p ∈ vmm_window ↔ p.toNat % 4096 = 0 ∧ p.toNat < 0x100000000 := by
  unfold vmm_window
  simp only [List.mem_map, List.mem_range]
  constructor
  · rintro ⟨k, hk, rfl⟩
    have hlt : k * 4096 < 2 ^ 64 := by omega
    rw [UInt64.toNat_ofNat_of_lt' hlt]
    omega
  · rintro ⟨ha, hlt⟩
    refine ⟨p.toNat / 4096, by omega, ?_⟩
    rw [Nat.div_mul_cancel (Nat.dvd_of_mod_eq_zero ha)]
    exact UInt64.ofNat_toNat

/-! The pool against the window that `vmm_init` maps. -/

theorem region_end (d : MemoryDescriptor) :
    (d.PhysicalStart + d.size).toNat = (d.PhysicalStart.toNat + d.NumberOfPages.toNat * 4096) % 2 ^ 64 := by
  have hp : PAGE_SIZE.toNat = 4096 := rfl
  rw [UInt64.toNat_add, MemoryDescriptor.size, UInt64.toNat_mul, hp, Nat.add_mod_mod]

theorem init_start (map : List MemoryDescriptor) (s : Phys) : (pmm_init map s).free_memory_start.toNat =
      max (map.foldl Pool.consider ⟨0, s.free_memory_start, s.free_memory_end⟩).free_memory_start.toNat 0x200000 := by
  have h2 : (0x200000 : UInt64).toNat = 0x200000 := rfl
  simp only [pmm_init, UInt64.lt_iff_toNat_lt, h2]
  split
  · rw [h2]
    omega
  · omega

/-- A map without a conventional region leaves nothing to hand out. -/
theorem init_empty (h : ∀ e ∈ map, e.type = EfiConventionalMemory → e.size = 0)
    (page : UInt64 → Fin 512 → UInt64) : (pmm_init map (.load page)).free_memory_end = 0 := by
  have hs := scan_keeps (p := ⟨0, 0, 0⟩) fun e he ht => UInt64.le_of_eq (h e he ht)
  exact congrArg Pool.free_memory_end hs

theorem init_chosen (h : Chosen map d) (page : UInt64 → Fin 512 → UInt64) :
    (pmm_init map (.load page)).free_memory_start.toNat = max d.PhysicalStart.toNat 0x200000 ∧
      (pmm_init map (.load page)).free_memory_end = d.PhysicalStart + d.size := by
  have hs := scan_chosen h 0 0
  refine ⟨?_, congrArg Pool.free_memory_end hs⟩
  rw [init_start]
  exact congrArg (fun p : Pool => max p.free_memory_start.toNat 0x200000) hs

theorem init_ok (map : List MemoryDescriptor) (page : UInt64 → Fin 512 → UInt64) :
    PoolOk (pmm_init map (.load page)) := by
  rcases chosen_or_empty map with ⟨d, hd⟩ | he
  · obtain ⟨hs, he⟩ := init_chosen hd page
    have hend := region_end d
    have hz : ∀ x : UInt64, x.toNat = 0 → x = 0 := fun x hx => UInt64.toNat_inj.mp hx
    obtain ⟨_, _, -, htype, hpos, -, -⟩ := hd
    have ha := d.aligned htype
    have hf := d.fits htype
    -- a region whose first page is the last of all ends at 2^64, which reads 0
    have hsize : 0 < d.NumberOfPages.toNat * 4096 % 2 ^ 64 := by
      have hp : PAGE_SIZE.toNat = 4096 := rfl
      rw [UInt64.lt_iff_toNat_lt, MemoryDescriptor.size, UInt64.toNat_mul, hp] at hpos
      exact hpos
    refine ⟨by rw [hs]; omega, by rw [he, hend]; omega, ?_⟩
    rw [hs, he]
    by_cases hroom : max d.PhysicalStart.toNat 0x200000 + 4096 < 2 ^ 64
    · exact .inl hroom
    · exact .inr (hz _ (by rw [hend]; omega))
  · have hend := init_empty he page
    have hscan := scan_keeps (p := ⟨0, 0, 0⟩) fun e hm ht => UInt64.le_of_eq (he e hm ht)
    have hs := (init_start map (.load page)).trans
      (congrArg (fun p : Pool => max p.free_memory_start.toNat 0x200000) hscan)
    refine ⟨by rw [hs]; rfl, by rw [hend]; rfl, .inr hend⟩

/-- The region ends within a page of 4 GiB, and its last page is never handed out; or it has fewer than two
pages above the first two MiB, and none is. -/
def LowRegion (d : MemoryDescriptor) : Prop :=
  (d.PhysicalStart + d.size).toNat ≤ 0x100000000 + 4096 ∨
    (d.PhysicalStart + d.size).toNat < max d.PhysicalStart.toNat 0x200000 + 2 * 4096

theorem pages_in_window_iff (mem_map : List MemoryDescriptor) (page : UInt64 → Fin 512 → UInt64) :
    (∀ p, Returned (pmm_init mem_map (.load page)) p → p ∈ vmm_window) ↔
      ∀ d, Chosen mem_map d → LowRegion d := by
  have hok := init_ok mem_map page
  constructor
  · intro hin d hd
    obtain ⟨hs, he⟩ := init_chosen hd page
    have ha := hok.start
    have hstop := hok.stop
    by_contra hlow
    obtain ⟨h1, h2⟩ := not_or.mp hlow
    -- the first page of the pool that is not below 4 GiB
    have hlt : max (max d.PhysicalStart.toNat 0x200000) 0x100000000 < 2 ^ 64 := by
      have := d.PhysicalStart.toNat_lt
      omega
    have hp := UInt64.toNat_ofNat_of_lt' hlt
    have hret : Returned (pmm_init mem_map (.load page))
        (UInt64.ofNat (max (max d.PhysicalStart.toNat 0x200000) 0x100000000)) := by
      refine (returned_iff hok).mpr
        ⟨(0x100000000 - (pmm_init mem_map (.load page)).free_memory_start.toNat) / 4096, ?_, ?_⟩
      · rw [hp, hs]
        rw [hs] at ha
        omega
      · rw [hp, he]
        rw [hs] at ha
        rw [he] at hstop
        omega
    have := (mem_vmm_window.mp (hin _ hret)).2
    rw [hp] at this
    omega
  · intro hlow p hp
    obtain ⟨k, hk, hlt⟩ := (returned_iff hok).mp hp
    have ha := hok.start
    have hstop := hok.stop
    rcases chosen_or_empty mem_map with ⟨d, hd⟩ | he
    · obtain ⟨hs, he⟩ := init_chosen hd page
      rw [he] at hlt hstop
      rw [hs] at hk ha
      refine mem_vmm_window.mpr ?_
      rcases hlow d hd with h | h
      · omega
      · omega
    · rw [init_empty he page] at hlt
      exact absurd hlt (Nat.not_lt_zero _)

/-- Sixteen MiB of free memory, all of it at 4 GiB. -/
def highMap : List MemoryDescriptor :=
  [⟨EfiConventionalMemory, 0x100000000, 0x1000, by decide, by decide⟩]

theorem page_above_window :
    Returned (pmm_init highMap (.load fun _ _ => 0)) 0x100000000 ∧ (0x100000000 : UInt64) ∉ vmm_window :=
  ⟨⟨_, .start, by decide⟩, fun h => absurd (mem_vmm_window.mp h).2 (by decide)⟩

end Angelic.Proofs
