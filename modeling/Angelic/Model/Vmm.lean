import Angelic.Model.Pmm

namespace Angelic.Model

def PTE_PRESENT : UInt64 := (1 : UInt64) <<< 0
def PTE_WRITE : UInt64 := (1 : UInt64) <<< 1
def PTE_USER : UInt64 := (1 : UInt64) <<< 2

/-- The key is an `int` and is widened with its sign. -/
def PTE_PKEY (k : Int32) : UInt64 := k.toInt64.toUInt64 <<< 59

/-- Nine bits of an address, from bit `shift` on. -/
def tableIndex (shift x : UInt64) : Fin 512 := ⟨((x >>> shift) &&& 0x1FF).toNat, by
  rw [UInt64.toNat_and]
  exact Nat.lt_of_le_of_lt Nat.and_le_right (by decide)⟩

def PML4_INDEX : UInt64 → Fin 512 := tableIndex 39
def PDP_INDEX : UInt64 → Fin 512 := tableIndex 30
def PD_INDEX : UInt64 → Fin 512 := tableIndex 21
def PT_INDEX : UInt64 → Fin 512 := tableIndex 12

/-- The table an entry points to. -/
def tableOf (entry : UInt64) : UInt64 := entry &&& ~~~0xFFF

def Phys.set (s : Phys) (table : UInt64) (idx : Fin 512) (entry : UInt64) : Phys :=
  { s with page := Function.update s.page table (Function.update (s.page table) idx entry) }

/-- One level of `vmm_map_page`: the entry is filled when it is not present, and the table it points to
is taken. `NULL` is address 0. -/
def nextTable (table : UInt64) (idx : Fin 512) (s : Phys) : UInt64 × Phys :=
  if s.page table idx &&& PTE_PRESENT = 0 then
    let (page, s) := pmm_alloc_page s
    let s := s.set table idx (page.getD 0 ||| PTE_PRESENT ||| PTE_WRITE ||| PTE_USER)
    (tableOf (s.page table idx), s)
  else (tableOf (s.page table idx), s)

def vmm_map_page (virt phys flags : UInt64) (s : Phys) : Phys :=
  let pml4 := s.kernel_pml4
  let (pdp, s) := nextTable pml4 (PML4_INDEX virt) s
  let (pd, s) := nextTable pdp (PDP_INDEX virt) s
  let (pt, s) := nextTable pd (PD_INDEX virt) s
  s.set pt (PT_INDEX virt) (phys ||| flags)

/-- The addresses the loop of `vmm_init` goes over, in its order. -/
def vmm_window : List UInt64 := (List.range 0x100000).map fun k => UInt64.ofNat (k * 4096)

def vmm_init (s : Phys) : Phys :=
  let (page, s) := pmm_alloc_page s
  let s := { s with kernel_pml4 := page.getD 0 }
  vmm_window.foldl (fun s addr => vmm_map_page addr addr (PTE_PRESENT ||| PTE_WRITE ||| PTE_USER) s) s

/-- The entry after the three assignments of `vmm_set_pkey`. -/
def withPkey (pkey : Int32) (pte : UInt64) : UInt64 :=
  pte &&& ~~~((0xF : UInt64) <<< 59) ||| PTE_PKEY pkey ||| PTE_USER

def vmm_set_pkey (virt : UInt64) (pkey : Int32) (s : Phys) : Phys :=
  let pml4 := s.kernel_pml4
  let pdp := tableOf (s.page pml4 (PML4_INDEX virt))
  let pd := tableOf (s.page pdp (PDP_INDEX virt))
  let pt := tableOf (s.page pd (PD_INDEX virt))
  s.set pt (PT_INDEX virt) (withPkey pkey (s.page pt (PT_INDEX virt)))

/-- The addresses `start`, `start + PAGE_SIZE`, … below `stop`: one round of the loop for each page or
part of a page between them. -/
def pagesBetween (start stop : UInt64) : List UInt64 :=
  (List.range ((stop.toNat - start.toNat + 4095) / 4096)).map fun k => start + UInt64.ofNat (k * 4096)

/-- The addresses the linker script gives to the secure sections. -/
structure SecureDriver where
  code_start : UInt64
  code_end : UInt64
  data_start : UInt64
  data_end : UInt64

def vmm_protect_driver (d : SecureDriver) (s : Phys) : Phys :=
  let s := (pagesBetween d.code_start d.code_end).foldl (fun s addr => vmm_set_pkey addr 1 s) s
  (pagesBetween d.data_start d.data_end).foldl (fun s addr => vmm_set_pkey addr 1 s) s

/-- `read_pte_pkey`: the key of the page, none for `-1`. -/
def read_pte_pkey (virt : UInt64) (s : Phys) : Option UInt64 :=
  if s.kernel_pml4 = 0 then none
  else
    let e := s.page s.kernel_pml4 (PML4_INDEX virt)
    if e &&& PTE_PRESENT = 0 then none
    else
      let e := s.page (tableOf e) (PDP_INDEX virt)
      if e &&& PTE_PRESENT = 0 then none
      else
        let e := s.page (tableOf e) (PD_INDEX virt)
        if e &&& PTE_PRESENT = 0 then none
        else
          let pte := s.page (tableOf e) (PT_INDEX virt)
          if pte &&& PTE_PRESENT = 0 then none else some ((pte >>> 59) &&& 0xF)

end Angelic.Model
