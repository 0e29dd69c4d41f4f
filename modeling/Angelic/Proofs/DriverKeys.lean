import Angelic.Proofs.FlatMap

namespace Angelic.Proofs
open Model Radix

variable {virt : UInt64} {d : SecureDriver} {s : Phys}

/-! What the two loops of the boot do to the map. -/

section Fold
variable {α : Type} {f : α → Nat} {l : List α} {m : FlatMap} {k : Nat}

theorem exists_tail {a : α} (h : ∃ b ∈ a :: l, f b = k) (hk : f a ≠ k) : ∃ b ∈ l, f b = k := by
  obtain ⟨b, hb, hbk⟩ := h
  rcases List.mem_cons.mp hb with rfl | hb
  · exact absurd hbk hk
  · exact ⟨b, hb, hbk⟩

/-- A value is written, more than once perhaps. -/
theorem foldl_store {g : α → UInt64} {v : UInt64} (h : ∀ a ∈ l, f a = k → g a = v) (hex : (∃ a ∈ l, f a = k) ∨ m k = v) :
    l.foldl (fun m a => Function.update m (f a) (g a)) m k = v := by
  induction l generalizing m with
  | nil => exact hex.resolve_left fun ⟨_, ha, _⟩ => absurd ha List.not_mem_nil
  | cons a l ih =>
    rw [List.foldl_cons]
    refine ih (fun b hb => h b (List.mem_cons_of_mem a hb)) ?_
    by_cases hk : f a = k
    · exact .inr (by rw [← hk, Function.update_self]; exact h a List.mem_cons_self hk)
    · rw [Function.update_of_ne (Ne.symm hk)]
      exact hex.imp_left fun he => exists_tail he hk

variable {u : UInt64 → UInt64}

theorem foldl_modify_other (h : ∀ a ∈ l, f a ≠ k) :
    l.foldl (fun m a => Function.update m (f a) (u (m (f a)))) m k = m k := by
  induction l generalizing m with
  | nil => rfl
  | cons a l ih =>
    rw [List.foldl_cons, ih fun b hb => h b (List.mem_cons_of_mem a hb),
      Function.update_of_ne (Ne.symm (h a List.mem_cons_self))]

/-- A value is changed, once or more to the same effect. -/
theorem foldl_modify (hu : ∀ e, u (u e) = u e) (hex : ∃ a ∈ l, f a = k) :
    l.foldl (fun m a => Function.update m (f a) (u (m (f a)))) m k = u (m k) := by
  induction l generalizing m with
  | nil => exact absurd hex fun ⟨_, ha, _⟩ => absurd ha List.not_mem_nil
  | cons a l ih =>
    rw [List.foldl_cons]
    by_cases hk : f a = k
    · have hself : Function.update m (f a) (u (m (f a))) k = u (m k) := by rw [← hk, Function.update_self]
      by_cases htail : ∃ b ∈ l, f b = k
      · rw [ih htail, hself, hu]
      · rw [foldl_modify_other fun b hb hbk => htail ⟨b, hb, hbk⟩, hself]
    · rw [ih (exists_tail hex hk), Function.update_of_ne (Ne.symm hk)]

end Fold

def initCalls : List VmmCall := vmm_window.map fun addr => .map_page addr addr (PTE_PRESENT ||| PTE_WRITE ||| PTE_USER)

def keyCalls (d : SecureDriver) : List VmmCall :=
  (pagesBetween d.code_start d.code_end ++ pagesBetween d.data_start d.data_end).map fun addr => .set_pkey addr 1

theorem vmm_init_eq (s : Phys) : vmm_init s = runCalls initCalls (newRoot s) := by
  rw [runCalls, initCalls, List.foldl_map]
  rfl

theorem vmm_protect_driver_eq (d : SecureDriver) (s : Phys) : vmm_protect_driver d s = runCalls (keyCalls d) s := by
  rw [runCalls, keyCalls, List.foldl_map, List.foldl_append]
  rfl

theorem boot_eq (d : SecureDriver) (s : Phys) :
    vmm_protect_driver d (vmm_init s) = runCalls (initCalls ++ keyCalls d) (newRoot s) := by
  rw [vmm_protect_driver_eq, vmm_init_eq, runCalls, runCalls, ← List.foldl_append, runCalls]

/-- The symbols of the linker script: the sections start and end on page boundaries, in an image that lies
below 4 GiB. -/
structure Linked (d : SecureDriver) : Prop where
  code : d.code_start.toNat % 4096 = 0 ∧ d.code_end.toNat % 4096 = 0 ∧ d.code_end.toNat ≤ 0x100000000
  data : d.data_start.toNat % 4096 = 0 ∧ d.data_end.toNat % 4096 = 0 ∧ d.data_end.toNat ≤ 0x100000000

/-- The address lies in the secure code or the secure data. -/
def InDriver (d : SecureDriver) (virt : UInt64) : Prop :=
  d.code_start ≤ virt ∧ virt < d.code_end ∨ d.data_start ≤ virt ∧ virt < d.data_end

instance (d : SecureDriver) (virt : UInt64) : Decidable (InDriver d virt) := inferInstanceAs (Decidable (_ ∨ _))

theorem mem_pagesBetween {start stop a : UInt64} (hs : start.toNat % 4096 = 0) (hstop : stop.toNat % 4096 = 0) :
    a ∈ pagesBetween start stop ↔ a.toNat % 4096 = 0 ∧ start ≤ a ∧ a < stop := by
  have hlt := stop.toNat_lt
  rw [pagesBetween, UInt64.le_iff_toNat_le, UInt64.lt_iff_toNat_lt]
  simp only [List.mem_map, List.mem_range]
  constructor
  · rintro ⟨k, hk, rfl⟩
    have hnat : (start + UInt64.ofNat (k * 4096)).toNat = start.toNat + k * 4096 := by
      have hsmall : k * 4096 < 2 ^ 64 := by omega
      rw [UInt64.toNat_add, UInt64.toNat_ofNat_of_lt' hsmall]
      exact Nat.mod_eq_of_lt (by omega)
    rw [hnat]
    omega
  · rintro ⟨ha, hle, hlt'⟩
    refine ⟨(a.toNat - start.toNat) / 4096, by omega, UInt64.toNat_inj.mp ?_⟩
    have hsmall : (a.toNat - start.toNat) / 4096 * 4096 < 2 ^ 64 := by omega
    rw [UInt64.toNat_add, UInt64.toNat_ofNat_of_lt' hsmall]
    omega

/-- A page of a range is the page of an address in it. -/
theorem page_between {start stop : UInt64} (hs : start.toNat % 4096 = 0) (hstop : stop.toNat % 4096 = 0)
    (hlow : stop.toNat ≤ 0x100000000) (hv : virt.toNat < 0x100000000) :
    (∃ a ∈ pagesBetween start stop, pageNumber a = pageNumber virt) ↔ start ≤ virt ∧ virt < stop := by
  simp only [mem_pagesBetween hs hstop, UInt64.le_iff_toNat_le, UInt64.lt_iff_toNat_lt, pageNumber]
  constructor
  · rintro ⟨a, ⟨ha, hle, hlt⟩, hp⟩
    omega
  · rintro ⟨hle, hlt⟩
    have hsmall : virt.toNat / 4096 * 4096 < 2 ^ 64 := by omega
    have hnat := UInt64.toNat_ofNat_of_lt' hsmall
    refine ⟨UInt64.ofNat (virt.toNat / 4096 * 4096), ?_, ?_⟩
    · rw [hnat]
      omega
    · rw [hnat]
      omega

/-! The map after the boot. -/

theorem bitAt_ofNat {n : Nat} (h : n < 2 ^ 64) (i : Fin 64) : bitAt (UInt64.ofNat n) i = n.testBit i.val := by
  change (UInt64.ofNat n).toNat.testBit i.val = _
  rw [UInt64.toNat_ofNat_of_lt' h]

/-- The page of an address. -/
theorem tableOf_toNat (x : UInt64) : (tableOf x).toNat = x.toNat / 4096 * 4096 := by
  have hlt : x.toNat / 4096 * 4096 < 2 ^ 64 := Nat.lt_of_le_of_lt (Nat.div_mul_le_self _ _) x.toNat_lt
  have heq : tableOf x = UInt64.ofNat (x.toNat / 4096 * 4096) := by
    refine bitAt_ext fun i => ?_
    rw [tableOf, bitAt_and, bitAt_page, bitAt_ofNat hlt, show 4096 = 2 ^ 12 from rfl, Nat.testBit_mul_two_pow,
      Nat.testBit_div_two_pow]
    by_cases hi : 12 ≤ i.val
    · rw [Nat.sub_add_cancel hi]
      exact Bool.and_comm ..
    · simp [hi]
  rw [heq, UInt64.toNat_ofNat_of_lt' hlt]

/-- The entry that `vmm_init` writes for the page of an address. -/
def identityPte (virt : UInt64) : UInt64 := tableOf virt ||| (PTE_PRESENT ||| PTE_WRITE ||| PTE_USER)

theorem flatOf_init (h : virt.toNat < 0x100000000) : flatOf initCalls (pageNumber virt) = identityPte virt := by
  have hself := tableOf_toNat virt
  rw [flatOf, initCalls, List.foldl_map]
  refine foldl_store (f := pageNumber) (fun a ha hp => ?_) (.inl ⟨tableOf virt, ?_, ?_⟩)
  · obtain ⟨ha, hlt⟩ := mem_vmm_window.mp ha
    have : a = tableOf virt := by
      refine UInt64.toNat_inj.mp ?_
      rw [pageNumber, pageNumber] at hp
      omega
    rw [this, identityPte]
  · exact mem_vmm_window.mpr (by omega)
  · rw [pageNumber, pageNumber]
    omega

theorem flatOf_boot (hd : Linked d) (h : virt.toNat < 0x100000000) :
    flatOf (initCalls ++ keyCalls d) (pageNumber virt) =
      if InDriver d virt then withPkey 1 (identityPte virt) else identityPte virt := by
  obtain ⟨hc1, hc2, hc3⟩ := hd.code
  obtain ⟨hd1, hd2, hd3⟩ := hd.data
  have hin : (∃ a ∈ pagesBetween d.code_start d.code_end ++ pagesBetween d.data_start d.data_end,
      pageNumber a = pageNumber virt) ↔ InDriver d virt := by
    rw [InDriver, ← page_between hc1 hc2 hc3 h, ← page_between hd1 hd2 hd3 h]
    simp only [List.mem_append, or_and_right, exists_or]
  have hflat : flatOf (initCalls ++ keyCalls d) =
      (pagesBetween d.code_start d.code_end ++ pagesBetween d.data_start d.data_end).foldl
        (fun m a => Function.update m (pageNumber a) (withPkey 1 (m (pageNumber a)))) (flatOf initCalls) := by
    rw [flatOf, List.foldl_append, keyCalls, List.foldl_map]
    rfl
  rw [hflat, ← flatOf_init h]
  split
  · rename_i hv
    exact foldl_modify (withPkey_twice 1) (hin.mpr hv)
  · rename_i hv
    exact foldl_modify_other fun a ha hp => hv (hin.mp ⟨a, ha, hp⟩)

theorem mem_initCalls {a : UInt64} (h : a ∈ vmm_window) :
    .map_page a a (PTE_PRESENT ||| PTE_WRITE ||| PTE_USER) ∈ initCalls := by
  unfold initCalls
  exact List.mem_map_of_mem (f := fun addr => VmmCall.map_page addr addr _) h

theorem keyCalls_window (hd : Linked d) {pkey : Int32}
    (h : .set_pkey virt pkey ∈ keyCalls d) : virt ∈ vmm_window := by
  obtain ⟨a, ha, hak⟩ := List.mem_map.mp h
  obtain ⟨rfl, -⟩ := VmmCall.set_pkey.inj hak
  obtain ⟨hc1, hc2, hc3⟩ := hd.code
  obtain ⟨hd1, hd2, hd3⟩ := hd.data
  refine mem_vmm_window.mpr ?_
  rcases List.mem_append.mp ha with ha | ha
  · obtain ⟨h1, -, h3⟩ := (mem_pagesBetween hc1 hc2).mp ha
    rw [UInt64.lt_iff_toNat_lt] at h3
    omega
  · obtain ⟨h1, -, h3⟩ := (mem_pagesBetween hd1 hd2).mp ha
    rw [UInt64.lt_iff_toNat_lt] at h3
    omega

/-- The keys are set on pages of the window, which are all mapped before. -/
theorem boot_onMapped (hd : Linked d) : OnMapped (initCalls ++ keyCalls d) := by
  intro before virt pkey after he
  have hsplit : ∃ mid, before = initCalls ++ mid ∧ keyCalls d = mid ++ .set_pkey virt pkey :: after := by
    rcases List.append_eq_append_iff.mp he with ⟨mid, hb, hk⟩ | ⟨mid, hinit, hk⟩
    · exact ⟨mid, hb, hk⟩
    · cases mid with
      | nil => exact ⟨[], by rw [hinit]; simp, hk.symm⟩
      | cons c mid =>
        -- no key is set while the window is mapped
        have hc : VmmCall.set_pkey virt pkey ∈ initCalls := by
          rw [hinit, (List.cons.inj hk).1]
          simp
        obtain ⟨a, -, ha⟩ := List.mem_map.mp hc
        exact absurd ha (by simp)
  obtain ⟨mid, hb, hk⟩ := hsplit
  have hkey : VmmCall.set_pkey virt pkey ∈ keyCalls d := by
    rw [hk]
    simp
  have hw := keyCalls_window hd hkey
  refine ⟨virt, virt, PTE_PRESENT ||| PTE_WRITE ||| PTE_USER, ?_, rfl⟩
  rw [hb]
  exact List.mem_append_left mid (mem_initCalls hw)

/-! What the processor and `read_pte_pkey` make of an entry. -/

/-- The address that a page walk ends at. -/
def translate (s : Phys) (virt : UInt64) : Option UInt64 :=
  if pteOf s virt &&& PTE_PRESENT = 0 then none
  else some (pteOf s virt &&& 0x000FFFFFFFFFF000 ||| virt &&& 0xFFF)

theorem bitAt_frame (i : Fin 64) : bitAt 0x000FFFFFFFFFF000 i = decide (12 ≤ i.val ∧ i.val < 52) := by
  revert i
  decide

theorem bitAt_offset (i : Fin 64) : bitAt 0xFFF i = decide (i.val < 12) := by
  revert i
  decide

theorem bitAt_low {x : UInt64} (h : x.toNat < 0x100000000) {i : Fin 64} (hi : 32 ≤ i.val) : bitAt x i = false :=
  Nat.testBit_lt_two_pow (Nat.lt_of_lt_of_le h (Nat.pow_le_pow_right (show 0 < 2 by decide) hi))

theorem bitAt_identity (virt : UInt64) (i : Fin 64) :
    bitAt (identityPte virt) i = (bitAt virt i && decide (12 ≤ i.val) || decide (i.val < 3)) := by
  rw [identityPte, bitAt_or, bitAt_flags, tableOf, bitAt_and, bitAt_page]

/-- An entry with the bits of the identity entry below the key bits leads to the address itself. -/
theorem translate_identity (h : virt.toNat < 0x100000000)
    (hbits : ∀ i : Fin 64, i.val < 59 → bitAt (pteOf s virt) i = bitAt (identityPte virt) i) : translate s virt = some virt := by
  rw [translate, if_neg]
  · refine congrArg some (bitAt_ext fun i => ?_)
    rw [bitAt_or, bitAt_and, bitAt_and, bitAt_frame, bitAt_offset]
    by_cases h52 : i.val < 52
    · rw [hbits i (by omega), bitAt_identity]
      by_cases h12 : i.val < 12
      · have hn12 : ¬ 12 ≤ i.val := by omega
        simp [h12, hn12]
      · have h3 : ¬ i.val < 3 := by omega
        simp [h12, h3, h52, Nat.le_of_not_lt h12]
    · have h12 : ¬ i.val < 12 := by omega
      rw [bitAt_low h (by omega)]
      simp [h12, h52]
  · rw [present_iff, hbits 0 (by decide), bitAt_identity]
    simp

theorem pkeyOf_identity (h : virt.toNat < 0x100000000) : pkeyOf (identityPte virt) = 0 := by
  refine bitAt_ext fun i => ?_
  rw [bitAt_pkeyOf, bitAt_zero]
  split
  · rw [bitAt_identity, bitAt_low h (by dsimp only; omega)]
    simp
  · rfl

theorem read_pte_pkey_eq {q : UInt64} (hroot : s.kernel_pml4 ≠ 0) (hq : Inner s (path virt) q)
    (hp : pteOf s virt &&& PTE_PRESENT ≠ 0) : read_pte_pkey virt s = some (pkeyOf (pteOf s virt)) := by
  have hpte := hq.pte
  rw [hpte] at hp ⊢
  rw [Inner, path, walk, Option.bind_eq_some_iff] at hq
  obtain ⟨p1, h1, hq⟩ := hq
  rw [walk, Option.bind_eq_some_iff] at hq
  obtain ⟨p2, h2, hq⟩ := hq
  rw [walk, Option.bind_eq_some_iff] at hq
  obtain ⟨p3, h3, hq⟩ := hq
  have hlast : p3 = q := Option.some.inj hq
  have present : ∀ {e p : UInt64}, entryTable e = some p → e &&& PTE_PRESENT ≠ 0 := by
    intro e p he hz
    rw [entryTable, if_pos hz] at he
    exact absurd he (Option.some_ne_none p).symm
  simp only [read_pte_pkey, if_neg hroot, if_neg (present h1), entryTable_some h1, if_neg (present h2),
    entryTable_some h2, if_neg (present h3), entryTable_some h3, hlast, if_neg hp, pkeyOf]

theorem nextTable_root (table : UInt64) (idx : Fin 512) (s : Phys) :
    (nextTable table idx s).2.kernel_pml4 = s.kernel_pml4 := by
  have halloc : (pmm_alloc_page s).2.kernel_pml4 = s.kernel_pml4 := by
    unfold pmm_alloc_page
    split
    · rfl
    · rfl
  unfold nextTable
  split
  · exact halloc
  · rfl

theorem runCalls_root (calls : List VmmCall) (s : Phys) : (runCalls calls s).kernel_pml4 = s.kernel_pml4 := by
  induction calls generalizing s with
  | nil => rfl
  | cons c calls ih =>
    refine (ih (c.run s)).trans ?_
    cases c with
    | map_page virt phys flags =>
      exact (nextTable_root _ _ _).trans ((nextTable_root _ _ _).trans (nextTable_root _ _ _))
    | set_pkey virt pkey => rfl

/-! The pool lasts when it is large enough. -/

/-- At least `k` more pages can be taken. -/
structure Lasts (s : Phys) (k : Nat) : Prop where
  pool : PoolOk s
  memory : s.out_of_memory = false
  left : s.free_memory_start.toNat + k * 4096 < s.free_memory_end.toNat

theorem Lasts.mono {j k : Nat} (h : Lasts s k) (hj : j ≤ k) : Lasts s j :=
  ⟨h.pool, h.memory, Nat.lt_of_le_of_lt (Nat.add_le_add_left (Nat.mul_le_mul_right 4096 hj) _) h.left⟩

theorem Lasts.alloc {k : Nat} (h : Lasts s (k + 1)) : Lasts (pmm_alloc_page s).2 k := by
  have hleft := h.left
  have hsome := (alloc_some_iff h.pool).mpr ⟨rfl, by omega⟩
  obtain ⟨hend, hok, hstart⟩ := alloc_pool h.pool
  rw [hsome, if_neg (Option.some_ne_none _)] at hstart
  refine ⟨hok, ?_, by rw [hstart, hend]; omega⟩
  have hlt : ¬ s.free_memory_end ≤ s.free_memory_start + PAGE_SIZE := fun hle => by
    rw [pmm_alloc_page, if_pos hle] at hsome
    exact absurd hsome (Option.some_ne_none _).symm
  rw [pmm_alloc_page, if_neg hlt]
  exact h.memory

theorem Lasts.set {k : Nat} (h : Lasts s k) (table : UInt64) (idx : Fin 512) (e : UInt64) :
    Lasts (s.set table idx e) k := ⟨⟨h.pool.start, h.pool.stop, h.pool.room⟩, h.memory, h.left⟩

theorem Lasts.nextTable {k : Nat} (h : Lasts s (k + 1)) (table : UInt64) (idx : Fin 512) :
    Lasts (nextTable table idx s).2 k := by
  unfold Model.nextTable
  split
  · exact h.alloc.set table idx _
  · exact h.mono (Nat.le_succ k)

theorem Lasts.run {calls : List VmmCall} (h : Lasts s (3 * calls.length)) :
    (runCalls calls s).out_of_memory = false := by
  induction calls generalizing s with
  | nil => exact h.memory
  | cons c calls ih =>
    refine ih ?_
    have h3 : Lasts s (3 * calls.length + 1 + 1 + 1) := h
    cases c with
    | map_page virt phys flags => exact (((h3.nextTable _ _).nextTable _ _).nextTable _ _).set _ _ _
    | set_pkey virt pkey => exact (h3.mono (by omega)).set _ _ _

theorem Lasts.newRoot {k : Nat} (h : Lasts s (k + 1)) : Lasts (newRoot s) k :=
  ⟨⟨h.alloc.pool.start, h.alloc.pool.stop, h.alloc.pool.room⟩, h.alloc.memory, h.alloc.left⟩

/-! The tables and the map. -/

theorem booted_root {mem_map : List MemoryDescriptor} {page : UInt64 → Fin 512 → UInt64} (calls : List VmmCall)
    (hmem : (runCalls calls (newRoot (pmm_init mem_map (.load page)))).out_of_memory = false) :
    (runCalls calls (newRoot (pmm_init mem_map (.load page)))).kernel_pml4 ≠ 0 := by
  have hroot : (newRoot (pmm_init mem_map (.load page))).out_of_memory = false := by
    induction calls using List.reverseRecOn with
    | nil => exact hmem
    | append_singleton calls c ih =>
      rw [runCalls, List.foldl_concat] at hmem
      exact ih (run_memory hmem)
  obtain ⟨-, -, heq⟩ := alloc_eq (s := pmm_init mem_map (.load page)) hroot
  rw [runCalls_root, newRoot, heq]
  intro hz
  have hstart := init_start mem_map (.load page)
  change (pmm_init mem_map (.load page)).free_memory_start = 0 at hz
  rw [hz] at hstart
  change 0 = _ at hstart
  omega

theorem tables_refine_flat_map (mem_map : List MemoryDescriptor) (page : UInt64 → Fin 512 → UInt64)
    (calls : List VmmCall) (hcalls : OnMapped calls)
    (hmem : (runCalls calls (newRoot (pmm_init mem_map (.load page)))).out_of_memory = false)
    (d : SecureDriver) (hd : Linked d)
    (hboot : (vmm_protect_driver d (vmm_init (pmm_init mem_map (.load page)))).out_of_memory = false) :
    (∀ virt, pteOf (runCalls calls (newRoot (pmm_init mem_map (.load page)))) virt = flatOf calls (pageNumber virt)) ∧
      (∀ (k : Fin 16) (e : UInt64) (i : Fin 64), bitAt (withPkey (Int32.ofNat k) e) i =
        if 59 ≤ i.val ∧ i.val < 63 then k.val.testBit (i.val - 59) else if i.val = 2 then true else bitAt e i) ∧
      ∀ virt : UInt64, virt.toNat < 0x100000000 →
        translate (vmm_protect_driver d (vmm_init (pmm_init mem_map (.load page)))) virt = some virt ∧
        read_pte_pkey virt (vmm_protect_driver d (vmm_init (pmm_init mem_map (.load page)))) =
          some (if InDriver d virt then 1 else 0) := by
  refine ⟨(run_holds (init_ok mem_map page) hcalls hmem).ptes, bitAt_withPkey, fun virt hv => ?_⟩
  rw [boot_eq] at hboot ⊢
  have hold := run_holds (init_ok mem_map page) (boot_onMapped hd) hboot
  have hpte := (hold.ptes virt).trans (flatOf_boot hd hv)
  have hself : virt.toNat / 4096 * 4096 % 4096 = 0 ∧ virt.toNat / 4096 * 4096 < 0x100000000 := by omega
  have hw : tableOf virt ∈ vmm_window := mem_vmm_window.mpr (by rw [tableOf_toNat]; exact hself)
  have hpage : pageNumber (tableOf virt) = pageNumber virt := by
    rw [pageNumber, pageNumber, tableOf_toNat]
    omega
  obtain ⟨q, hq⟩ := hold.mapped _ _ _ (List.mem_append_left _ (mem_initCalls hw)) virt hpage
  have hbits : ∀ i : Fin 64, i.val < 59 →
      bitAt (if InDriver d virt then withPkey 1 (identityPte virt) else identityPte virt) i = bitAt (identityPte virt) i := by
    intro i hi
    split
    · refine (bitAt_withPkey 1 _ i).trans ?_
      rw [if_neg (by omega), bitAt_identity]
      by_cases h2 : i.val = 2
      · simp [h2]
      · rw [if_neg h2]
    · rfl
  refine ⟨translate_identity hv (by rw [hpte]; exact hbits), ?_⟩
  rw [read_pte_pkey_eq (booted_root _ hboot) hq, hpte]
  · split
    · exact congrArg some (pkeyOf_withPkey 1 _)
    · exact congrArg some (pkeyOf_identity hv)
  · rw [Ne, present_iff, hpte, hbits 0 (by decide), bitAt_identity]
    simp

/-- Thirty-two GiB of free memory from 2 MiB on. -/
def roomyMap : List MemoryDescriptor := [⟨EfiConventionalMemory, 0x200000, 0x800000, by decide, by decide⟩]

/-- Two pages of code and one of data. -/
def smallDriver : SecureDriver := ⟨0x300000, 0x302000, 0x400000, 0x401000⟩

theorem roomy_lasts (k : Nat) (hk : k < 0x7FFFFF) : Lasts (pmm_init roomyMap (.load fun _ _ => 0)) k := by
  have hs : (pmm_init roomyMap (.load fun _ _ => 0)).free_memory_start.toNat = 0x200000 := by decide
  have he : (pmm_init roomyMap (.load fun _ _ => 0)).free_memory_end.toNat = 0x800200000 := by decide
  exact ⟨init_ok _ _, rfl, by rw [hs, he]; omega⟩

/-- A page is mapped and its key is set. -/
def keyedPage : List VmmCall := [.map_page 0x1000 0x2000 PTE_PRESENT, .set_pkey 0x1000 1]

theorem keyedPage_onMapped : OnMapped keyedPage := by
  intro before virt pkey after he
  cases before with
  | nil => exact absurd (List.cons.inj he).1 (by simp)
  | cons c before =>
    obtain ⟨rfl, htail⟩ := List.cons.inj he
    cases before with
    | nil =>
      obtain ⟨rfl, -⟩ := VmmCall.set_pkey.inj (List.cons.inj htail).1
      exact ⟨0x1000, 0x2000, _, List.mem_cons_self, rfl⟩
    | cons c before => exact absurd (List.cons.inj htail).2 (by simp)

theorem small_driver_keyed :
    read_pte_pkey 0x301234 (vmm_protect_driver smallDriver (vmm_init (pmm_init roomyMap (.load fun _ _ => 0)))) = some 1 := by
  have hd : Linked smallDriver := ⟨by decide, by decide⟩
  have hmem := ((roomy_lasts 7 (by decide)).newRoot (k := 3 * keyedPage.length)).run
  have hlen : (initCalls ++ keyCalls smallDriver).length = 0x100003 := by
    have hkeys : (keyCalls smallDriver).length = 3 := by decide
    rw [List.length_append, hkeys, initCalls, List.length_map, vmm_window, List.length_map, List.length_range]
  have hboot : (vmm_protect_driver smallDriver (vmm_init (pmm_init roomyMap (.load fun _ _ => 0)))).out_of_memory = false := by
    rw [boot_eq]
    apply Lasts.run
    rw [hlen]
    exact (roomy_lasts (3 * 0x100003 + 1) (by decide)).newRoot
  have h := (tables_refine_flat_map roomyMap (fun _ _ => 0) keyedPage keyedPage_onMapped hmem smallDriver hd hboot).2.2
  exact (h 0x301234 (by decide)).2.trans (congrArg some (if_pos (by decide)))

end Angelic.Proofs
