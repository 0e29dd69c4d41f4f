import Angelic.Proofs.Paging

namespace Angelic.Proofs
open Model Radix

variable {s : Phys} (k : Fin 16)
variable (i : Fin 64)

/-! Calls, and the map from pages to entries that they are meant to keep. -/

inductive VmmCall where
  | map_page (virt phys flags : UInt64)
  | set_pkey (virt : UInt64) (pkey : Int32)
  deriving DecidableEq

def VmmCall.run : VmmCall → Phys → Phys
  | .map_page virt phys flags => vmm_map_page virt phys flags
  | .set_pkey virt pkey => vmm_set_pkey virt pkey

def runCalls (calls : List VmmCall) (s : Phys) : Phys := calls.foldl (fun s c => c.run s) s

/-- The entry of every 48-bit page. -/
abbrev FlatMap := Nat → UInt64

def VmmCall.onFlat : VmmCall → FlatMap → FlatMap
  | .map_page virt phys flags, m => Function.update m (pageNumber virt) (phys ||| flags)
  | .set_pkey virt pkey, m => Function.update m (pageNumber virt) (withPkey pkey (m (pageNumber virt)))

def flatOf (calls : List VmmCall) : FlatMap := calls.foldl (fun m c => c.onFlat m) fun _ => 0

/-- Keys are set on pages that were mapped before. -/
def OnMapped (calls : List VmmCall) : Prop :=
  ∀ before virt pkey after, calls = before ++ .set_pkey virt pkey :: after →
    ∃ v phys flags, VmmCall.map_page v phys flags ∈ before ∧ pageNumber v = pageNumber virt

/-- The root that `vmm_init` takes before its loop. -/
def newRoot (s : Phys) : Phys :=
  { (pmm_alloc_page s).2 with kernel_pml4 := (pmm_alloc_page s).1.getD 0 }

theorem newRoot_ok (h : PoolOk s) (hmem : (newRoot s).out_of_memory = false) :
    PagingOk (newRoot s) ∧ ∀ virt, pteOf (newRoot s) virt = 0 := by
  have hok := (alloc_pool h).2.1
  obtain ⟨hlt, -, heq⟩ := alloc_eq (s := s) hmem
  have hnext := next_start h hlt
  rw [newRoot, heq]
  rw [heq] at hok
  -- the page is empty, so no path leads anywhere but to it
  have hwalk : ∀ a, walk entryTable (Function.update s.page s.free_memory_start fun _ => 0) s.free_memory_start a =
      if a = [] then some s.free_memory_start else none := by
    intro a
    cases a with
    | nil => rfl
    | cons i a =>
      rw [walk, Function.update_self, entryTable_zero]
      rfl
  have hroot : ∀ a p, walk entryTable (Function.update s.page s.free_memory_start fun _ => 0) s.free_memory_start a =
      some p → a = [] ∧ p = s.free_memory_start := by
    intro a p hp
    rw [hwalk] at hp
    split at hp
    · exact ⟨‹_›, (Option.some.inj hp).symm⟩
    · exact absurd hp (Option.some_ne_none p).symm
  refine ⟨⟨⟨hok.start, hok.stop, hok.room⟩, ⟨fun a b p _ _ ha hb => ?_, fun a p _ ha => ?_⟩⟩, fun virt => ?_⟩
  · exact (hroot a p ha).1.trans (hroot b p hb).1.symm
  · rw [(hroot a p ha).2]
    change s.free_memory_start.toNat < (s.free_memory_start + PAGE_SIZE).toNat
    omega
  · change lookup entryTable (Function.update s.page s.free_memory_start fun _ => 0) s.free_memory_start 0 _ _ = 0
    have hne : path virt ≠ [] := List.cons_ne_nil _ _
    rw [lookup, hwalk, if_neg hne]
    rfl

theorem run_memory {c : VmmCall} (h : (c.run s).out_of_memory = false) : s.out_of_memory = false := by
  cases c with
  | map_page virt phys flags => exact nextTable_memory (nextTable_memory (nextTable_memory h))
  | set_pkey virt pkey => exact h

/-- The tables hold the map, and the tables of every page that was mapped are there. -/
structure Holds48 (calls : List VmmCall) (t : Phys) : Prop where
  ok : PagingOk t
  ptes : ∀ virt, pteOf t virt = flatOf calls (pageNumber virt)
  mapped : ∀ v phys flags, .map_page v phys flags ∈ calls → ∀ virt, pageNumber v = pageNumber virt →
    ∃ q, Inner t (path virt) q

/-- One call: the entry that is written is the one the map gets. -/
theorem Holds48.snoc {calls : List VmmCall} {c : VmmCall} (h : Holds48 calls s)
    (hc : ∀ virt pkey, c = .set_pkey virt pkey →
      ∃ v phys flags, VmmCall.map_page v phys flags ∈ calls ∧ pageNumber v = pageNumber virt)
    (hmem : (c.run s).out_of_memory = false) : Holds48 (calls ++ [c]) (c.run s) := by
  have hflat : flatOf (calls ++ [c]) = c.onFlat (flatOf calls) := List.foldl_concat ..
  have old : ∀ {virt e}, PutsEntry s virt e (c.run s) → ∀ v phys flags, .map_page v phys flags ∈ calls →
      ∀ w, pageNumber v = pageNumber w → ∃ q, Inner (c.run s) (path w) q := by
    intro virt e hst v phys flags hv w hw
    obtain ⟨q, hq⟩ := h.mapped v phys flags hv w hw
    exact ⟨q, hst.walks _ q (Nat.lt_add_one 3) hq⟩
  cases c with
  | map_page virt phys flags =>
    obtain ⟨hst, -⟩ := vmm_map_page_stores h.ok hmem
    refine ⟨hst.ok, fun w => ?_, fun v p f hv w hw => ?_⟩
    · rw [hflat, VmmCall.onFlat, Function.update_apply, ← h.ptes w]
      exact hst.ptes w
    · rcases List.mem_append.mp hv with hv | hv
      · exact old hst v p f hv w hw
      · obtain ⟨rfl, -, -⟩ := VmmCall.map_page.inj (List.mem_singleton.mp hv)
        obtain ⟨q, hq⟩ := hst.mapped
        exact ⟨q, ((samePage_iff v w).mpr hw).1 ▸ hq⟩
  | set_pkey virt pkey =>
    obtain ⟨v, p, f, hv, hvw⟩ := hc virt pkey rfl
    have hst := vmm_set_pkey_stores pkey h.ok (h.mapped v p f hv virt hvw)
    refine ⟨hst.ok, fun w => ?_, fun v p f hv w hw => ?_⟩
    · rw [hflat, VmmCall.onFlat, Function.update_apply, ← h.ptes w, ← h.ptes virt]
      exact hst.ptes w
    · rcases List.mem_append.mp hv with hv | hv
      · exact old hst v p f hv w hw
      · exact absurd (List.mem_singleton.mp hv) (by simp)

/-- The run. -/
theorem run_holds (h : PoolOk s) {calls : List VmmCall} (hc : OnMapped calls)
    (hmem : (runCalls calls (newRoot s)).out_of_memory = false) : Holds48 calls (runCalls calls (newRoot s)) := by
  induction calls using List.reverseRecOn with
  | nil =>
    obtain ⟨hok, hzero⟩ := newRoot_ok h hmem
    exact ⟨hok, hzero, fun _ _ _ hv => absurd hv List.not_mem_nil⟩
  | append_singleton calls c ih =>
    have hrun : runCalls (calls ++ [c]) (newRoot s) = c.run (runCalls calls (newRoot s)) := List.foldl_concat ..
    rw [hrun] at hmem ⊢
    have hprev := ih (fun before virt pkey after he => hc before virt pkey (after ++ [c]) (by rw [he]; simp))
      (run_memory hmem)
    exact hprev.snoc (fun virt pkey he => hc calls virt pkey [] (by rw [he])) hmem

/-! What is in an entry. -/

def pkeyOf (pte : UInt64) : UInt64 := (pte >>> 59) &&& 0xF

theorem bitAt_pkey : bitAt (PTE_PKEY (Int32.ofNat k)) i = (decide (59 ≤ i.val) && k.val.testBit (i.val - 59)) := by
  revert k i
  decide +kernel

theorem bitAt_user : bitAt PTE_USER i = decide (i.val = 2) := by
  revert i
  decide

theorem bitAt_noKey : bitAt (~~~((0xF : UInt64) <<< 59)) i = !decide (59 ≤ i.val ∧ i.val < 63) := by
  revert i
  decide

/-- The key bits and `PTE_USER` are set, and no other bit changes. -/
theorem bitAt_withPkey (e : UInt64) (i : Fin 64) : bitAt (withPkey (Int32.ofNat k) e) i =
      if 59 ≤ i.val ∧ i.val < 63 then k.val.testBit (i.val - 59) else if i.val = 2 then true else bitAt e i := by
  have h63 : k.val.testBit 4 = false := Nat.testBit_lt_two_pow k.isLt
  rw [withPkey, bitAt_or, bitAt_or, bitAt_and, bitAt_pkey, bitAt_user, bitAt_noKey]
  by_cases hk : 59 ≤ i.val ∧ i.val < 63
  · have h2 : i.val ≠ 2 := by omega
    simp [hk, h2]
  · by_cases h2 : i.val = 2
    · simp [h2]
    · by_cases h59 : 59 ≤ i.val
      · have hi : i.val - 59 = 4 := by omega
        simp [hk, h2, hi, h63]
      · simp [h2, h59]

theorem bitAt_shiftRight (x : UInt64) (i : Fin 64) :
    bitAt (x >>> 59) i = if h : i.val + 59 < 64 then bitAt x ⟨i.val + 59, h⟩ else false := by
  have hx : (x >>> 59).toBitVec = x.toBitVec >>> 59 := rfl
  rw [bitAt, hx, BitVec.getLsbD_ushiftRight, Nat.add_comm]
  split
  · rfl
  · rename_i h
    exact BitVec.getLsbD_of_ge _ _ (by omega)

theorem bitAt_nibble : bitAt 0xF i = decide (i.val < 4) := by
  revert i
  decide

theorem bitAt_key : bitAt (UInt64.ofNat k) i = k.val.testBit i.val := by
  revert k i
  decide +kernel

theorem bitAt_pkeyOf (e : UInt64) (i : Fin 64) :
    bitAt (pkeyOf e) i = if h : i.val < 4 then bitAt e ⟨i.val + 59, by omega⟩ else false := by
  rw [pkeyOf, bitAt_and, bitAt_shiftRight, bitAt_nibble]
  by_cases h4 : i.val < 4
  · rw [dif_pos (by omega), dif_pos h4]
    simp [h4]
  · rw [dif_neg h4]
    simp [h4]

theorem pkeyOf_withPkey (e : UInt64) : pkeyOf (withPkey (Int32.ofNat k) e) = UInt64.ofNat k := by
  refine bitAt_ext fun i => ?_
  rw [bitAt_pkeyOf, bitAt_key]
  by_cases h4 : i.val < 4
  · rw [dif_pos h4, bitAt_withPkey, if_pos (by constructor <;> (dsimp only; omega))]
    rfl
  · rw [dif_neg h4]
    exact (Nat.testBit_lt_two_pow (Nat.lt_of_lt_of_le k.isLt (Nat.pow_le_pow_right (show 0 < 2 by decide) (Nat.le_of_not_lt h4)))).symm

theorem withPkey_twice (e : UInt64) :
    withPkey (Int32.ofNat k) (withPkey (Int32.ofNat k) e) = withPkey (Int32.ofNat k) e := by
  refine bitAt_ext fun i => ?_
  rw [bitAt_withPkey, bitAt_withPkey]
  split
  · rfl
  · split
    · rfl
    · rfl

end Angelic.Proofs
