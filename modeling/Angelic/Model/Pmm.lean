import Mathlib.Algebra.Group.Nat.Defs
import Mathlib.Logic.Function.Basic

namespace Angelic.Model

def PAGE_SIZE : UInt64 := 4096
def EfiConventionalMemory : UInt32 := 7

/-- A descriptor of the firmware's memory map. UEFI starts a region on a page boundary and lets no page of it
start above `0xfffffffffffff000`; only the conventional ones are read further than their type. -/
structure MemoryDescriptor where
  type : UInt32
  PhysicalStart : UInt64
  NumberOfPages : UInt64
  aligned : type = EfiConventionalMemory → PhysicalStart.toNat % 4096 = 0
  fits : type = EfiConventionalMemory → PhysicalStart.toNat + NumberOfPages.toNat * 4096 ≤ 2 ^ 64

/-- The statics of `pmm.c` and `vmm.c` and what the pages hold. A page is named by its address. -/
structure Phys where
  free_memory_start : UInt64
  free_memory_end : UInt64
  kernel_pml4 : UInt64
  page : UInt64 → Fin 512 → UInt64
  /-- `[pmm] out of memory!` was printed. -/
  out_of_memory : Bool

/-- The statics as the image is loaded. -/
def Phys.load (page : UInt64 → Fin 512 → UInt64) : Phys := ⟨0, 0, 0, page, false⟩

/-- The locals and statics that the loop of `pmm_init` moves. -/
structure Pool where
  largest_free_segment : UInt64
  free_memory_start : UInt64
  free_memory_end : UInt64
  deriving DecidableEq, Repr

def MemoryDescriptor.size (desc : MemoryDescriptor) : UInt64 := desc.NumberOfPages * PAGE_SIZE

def Pool.consider (p : Pool) (desc : MemoryDescriptor) : Pool :=
  if desc.type = EfiConventionalMemory then
    if p.largest_free_segment < desc.size then
      ⟨desc.size, desc.PhysicalStart, desc.PhysicalStart + desc.size⟩
    else p
  else p

/-- `mem_map` is the array that `map_size` and `descriptor_size` delimit. -/
def pmm_init (mem_map : List MemoryDescriptor) (s : Phys) : Phys :=
  let p := mem_map.foldl Pool.consider ⟨0, s.free_memory_start, s.free_memory_end⟩
  { s with
    free_memory_start := if p.free_memory_start < 0x200000 then 0x200000 else p.free_memory_start
    free_memory_end := p.free_memory_end }

/-- None is `NULL`. -/
def pmm_alloc_page (s : Phys) : Option UInt64 × Phys :=
  if s.free_memory_end ≤ s.free_memory_start + PAGE_SIZE then
    (none, { s with out_of_memory := true })
  else
    let alloc := s.free_memory_start
    (some alloc, { s with
      free_memory_start := s.free_memory_start + PAGE_SIZE
      page := Function.update s.page alloc fun _ => 0 })

end Angelic.Model
