import Angelic.Proofs.Reboot

namespace Angelic.Proofs
open CString Model StateRel

/-! What a reboot finds when writes may fail and the power may go between two of them. -/

/-- The stores and their disk, with what was last written to each region and the checksum that was
last written to the header. -/
structure Written where
  mem : Mem
  last : Stores
  sum : UInt32

/-- What the users of the stores do. -/
inductive StoreOp where
  | update (f : Stores → Stores) (ok : ∀ t, StoresOk t → StoresOk (f t))
  | save (k : StoreId)

namespace Written

def update (w : Written) (f : Stores → Stores) : Written :=
  { w with mem := { w.mem with stores := f w.mem.stores } }

/-- The first of the two writes of a save. -/
def region (w : Written) (k : StoreId) : Written :=
  { w with
    mem := (disk_write_sectors k.region (k.region.buf (k.bytes w.mem.stores)) w.mem).2
    last := if w.mem.disk_ok w.mem.transfers then StoreId.copy w.last (Stores.saved w.mem.stores) k
      else w.last }

/-- The second. -/
def header (w : Written) : Written :=
  { w with
    mem := (write_header w.mem).2
    sum := if w.mem.disk_ok w.mem.transfers then compute_full_crc w.mem.stores else w.sum }

def save (w : Written) (k : StoreId) : Written :=
  if w.mem.disk_ok w.mem.transfers then (w.region k).header else w.region k

def op (w : Written) : StoreOp → Written
  | .update f _ => w.update f
  | .save k => w.save k

/-- The power goes after these, or, in a save of `cut`, between the writes. -/
def until_ (w : Written) (ops : List StoreOp) (cut : Option StoreId) : Written :=
  cut.elim (ops.foldl op w) (ops.foldl op w).region

/-- The memory is that of the saves as the server makes them. -/
theorem save_mem (w : Written) (k : StoreId) : (w.save k).mem = (k.save w.mem).2 := by
  have hrun : k.save w.mem = (do
      if ← disk_write_sectors k.region (k.region.buf (k.bytes w.mem.stores)) then write_header :
        StateM Mem Unit) w.mem := rfl
  rw [hrun, bind_run, save, disk_write_sectors]
  split
  · simp only [header, region, disk_write_sectors, if_pos ‹_›, if_true]
  · simp only [region, disk_write_sectors, if_neg ‹_›]
    rfl

/-- The disk holds what was last written to it. -/
structure Tracked (w : Written) : Prop where
  magic : unle32 (w.mem.disk.get .header) = PERSIST_MAGIC
  version : unle32 ((w.mem.disk.get .header).drop 4) = PERSIST_VERSION
  crc : unle32 ((w.mem.disk.get .header).drop 8) = w.sum
  image : diskStores w.mem.disk = w.last
  ok : StoresOk w.mem.stores

variable {w : Written}

theorem Tracked.update (h : w.Tracked) {f : Stores → Stores} (hf : ∀ t, StoresOk t → StoresOk (f t)) :
    (w.update f).Tracked :=
  ⟨h.magic, h.version, h.crc, h.image, hf _ h.ok⟩

theorem Tracked.region (h : w.Tracked) (k : StoreId) : (w.region k).Tracked := by
  obtain ⟨hm, hv, hc, hi, ho⟩ := h
  by_cases hok : w.mem.disk_ok w.mem.transfers
  · have hh : ∀ buf, (w.mem.disk.put k.region buf).get .header = w.mem.disk.get .header := fun buf =>
      Disk.get_put_of_apart _ (by cases k <;> decide) buf
    simp only [Written.region, disk_write_sectors, if_pos hok]
    refine ⟨?_, ?_, ?_, ?_, ho⟩
    · rw [hh, hm]
    · rw [hh, hv]
    · rw [hh, hc]
    · rw [diskStores_put _ _ ho, hi]
  · simp only [Written.region, disk_write_sectors, if_neg hok]
    exact ⟨hm, hv, hc, hi, ho⟩

theorem Tracked.header (h : w.Tracked) : w.header.Tracked := by
  obtain ⟨hm, hv, hc, hi, ho⟩ := h
  have hrun : (write_header w.mem).2 =
      (disk_write_sectors .header (headerBytes (compute_full_crc w.mem.stores)) w.mem).2 := rfl
  simp only [Written.header, hrun, disk_write_sectors]
  by_cases hok : w.mem.disk_ok w.mem.transfers
  · obtain ⟨hm', hv', hc'⟩ := headerBytes_fields (compute_full_crc w.mem.stores)
    have hh := Disk.get_put w.mem.disk .header (headerBytes_length (compute_full_crc w.mem.stores))
    simp only [if_pos hok]
    refine ⟨?_, ?_, ?_, ?_, ho⟩
    · rw [hh, hm']
    · rw [hh, hv']
    · rw [hh, hc']
    · rw [diskStores_put_header, hi]
  · simp only [if_neg hok]
    exact ⟨hm, hv, hc, hi, ho⟩

theorem Tracked.save (h : w.Tracked) (k : StoreId) : (w.save k).Tracked := by
  rw [Written.save]
  split
  · exact (h.region k).header
  · exact h.region k

theorem Tracked.op (h : w.Tracked) (o : StoreOp) : (w.op o).Tracked := by
  cases o with
  | update f ok => exact h.update ok
  | save k => exact h.save k

theorem Tracked.until_ (h : w.Tracked) (ops : List StoreOp) (cut : Option StoreId) : (w.until_ ops cut).Tracked := by
  have hops : (ops.foldl Written.op w).Tracked :=
    foldl_keeps (P := Written.Tracked) (fun _ o hw => hw.op o) ops h
  cases cut with
  | none => exact hops
  | some k => exact hops.region k

/-- The two outcomes of loading such a disk. -/
theorem Tracked.load (h : w.Tracked) {ok : Nat → Bool} (hok : ∀ n, ok n) :
    let m := (xmpp_persist_load_all ⟨.zero, w.mem.disk, ok, 0⟩).2
    (w.sum = compute_full_crc w.last → m.stores = w.last ∧ m.disk = w.mem.disk) ∧
      (w.sum ≠ compute_full_crc w.last → m.stores = .zero) := by
  intro m
  have hload := try_load_run (m := ⟨.zero, w.mem.disk, ok, 0⟩) h.magic h.version fun _ _ => hok _
  have hm : m = ((if (try_load ⟨.zero, w.mem.disk, ok, 0⟩).1 then pure () else fresh_start :
      StateM Mem Unit) (try_load ⟨.zero, w.mem.disk, ok, 0⟩).2).2 := rfl
  rw [hload, h.crc, h.image] at hm
  constructor
  · intro hs
    rw [if_pos (by simpa using hs)] at hm
    rw [hm]
    exact ⟨rfl, rfl⟩
  · intro hs
    rw [if_neg (by simpa using hs)] at hm
    rw [hm, fresh_start_run (by exact hok)]

end Written

/-- A change to one store that is then saved, which is how the server uses them. -/
structure Change where
  store : StoreId
  f : Stores → Stores
  only : ∀ t, store.OnlyIn t (f t)
  ok : ∀ t, StoresOk t → StoresOk (f t)

def Change.ops (c : Change) : List StoreOp := [.update c.f c.ok, .save c.store]

namespace Written

/-- Nothing is unsaved, and no write will fail. -/
structure Settled (w : Written) : Prop where
  last : w.last = Stores.saved w.mem.stores
  sum : w.sum = compute_full_crc w.mem.stores
  disk_ok : ∀ n, w.mem.disk_ok n

variable {w : Written}

theorem Settled.change (h : w.Settled) (c : Change) : (c.ops.foldl op w).Settled := by
  obtain ⟨hl, hs, hok⟩ := h
  have hw : c.ops.foldl op w = ((w.update c.f).region c.store).header := if_pos (hok _)
  have hwrite := disk_write_run (m := (w.update c.f).mem) hok c.store.region
    (c.store.region.buf (c.store.bytes (c.f w.mem.stores)))
  have hr : (w.update c.f).region c.store =
      { w with
        mem := { w.mem with
          stores := c.f w.mem.stores
          disk := w.mem.disk.put c.store.region (c.store.region.buf (c.store.bytes (c.f w.mem.stores)))
          transfers := w.mem.transfers + 1 }
        last := StoreId.copy w.last (Stores.saved (c.f w.mem.stores)) c.store } := by
    simp only [region, update] at hwrite ⊢
    simp only [hwrite, hok, if_true]
  rw [hw, hr, header, write_header_run (by exact hok), if_pos (by exact hok _)]
  refine ⟨?_, rfl, hok⟩
  change StoreId.copy w.last _ _ = _
  rw [hl, ← StoreId.saved_copy, ← (c.only w.mem.stores).eq_copy]

theorem Settled.changes (h : w.Settled) (cs : List Change) : ((cs.flatMap Change.ops).foldl op w).Settled := by
  rw [List.foldl_flatMap]
  exact foldl_keeps (P := Settled) (fun _ c hw => hw.change c) cs h

theorem Settled.crc (h : w.Settled) : w.sum = compute_full_crc w.last := by
  rw [h.sum, h.last, compute_full_crc_saved]

end Written

/-- The server that has loaded its disk, or has just started afresh. -/
def Written.start (m : Mem) : Written := ⟨m, Stores.saved m.stores, compute_full_crc m.stores⟩

theorem tracked_start {m : Mem} (h : OnDisk m) : (Written.start m).Tracked :=
  ⟨h.magic, h.version, h.crc, h.image, h.ok⟩

/-- For any updates and saves, writes that fail, and wherever the power goes, the next load gives every
region as it was last written when the header has the checksum of that, and starts afresh when it has
not. It has it as long as every change is saved before the next, no write fails, and the power does not go
between the two writes of a save. -/
theorem power_loss_recovery {m : Mem} (h : OnDisk m) (ops : List StoreOp) (cut : Option StoreId)
    (disk_ok : Nat → Bool) (hok : ∀ n, disk_ok n) :
    let w := (Written.start m).until_ ops cut
    let load := (xmpp_persist_load_all ⟨.zero, w.mem.disk, disk_ok, 0⟩).2
    (w.sum = compute_full_crc w.last → load.stores = w.last ∧ load.disk = w.mem.disk) ∧
      (w.sum ≠ compute_full_crc w.last → load.stores = .zero) ∧
      ∀ cs : List Change, (ops = cs.flatMap Change.ops ∨
          ∃ c : Change, ops = cs.flatMap Change.ops ++ [.update c.f c.ok]) →
        cut = none → (∀ n, m.disk_ok n) → w.sum = compute_full_crc w.last := by
  intro w load
  have hload := ((tracked_start h).until_ ops cut).load hok
  refine ⟨hload.1, hload.2, ?_⟩
  rintro cs hcs rfl hm
  have hstart : (Written.start m).Settled := ⟨rfl, rfl, hm⟩
  have hw : w = ops.foldl Written.op (Written.start m) := rfl
  rcases hcs with rfl | ⟨c, rfl⟩
  · exact hw ▸ (hstart.changes cs).crc
  · -- the last change has reached the memory only
    rw [hw, List.foldl_append]
    exact (hstart.changes cs).crc

/-- A server that found no image on its disk. -/
def firstBoot : Mem := (fresh_start ⟨.zero, fun _ => [], fun _ => true, 0⟩).2

theorem firstBoot_stores : firstBoot.stores = .zero := by
  rw [firstBoot, fresh_start_run fun _ => rfl]

theorem firstBoot_disk_ok (n : Nat) : firstBoot.disk_ok n := by
  rw [firstBoot, fresh_start_run fun _ => rfl]

/-- The first entry of the private store comes into use. -/
def firstEntry : Change where
  store := .private_
  f t := { t with private_store := Function.update t.private_store 0 { t.private_store 0 with active := 1 } }
  only _ := rfl
  ok _ h := h

/-- The entry is there after a reboot. -/
theorem power_loss_after_save :
    ((xmpp_persist_load_all ⟨.zero, ((Written.start firstBoot).until_ firstEntry.ops none).mem.disk,
      fun _ => true, 0⟩).2.stores.private_store 0).active = 1 := by
  have hb : OnDisk firstBoot := fresh_start_onDisk fun _ => rfl
  obtain ⟨hload, -, hcrc⟩ := power_loss_recovery hb firstEntry.ops none (fun _ => true) fun _ => rfl
  have hw := hcrc [firstEntry] (.inl rfl) rfl firstBoot_disk_ok
  rw [(hload hw).1]
  rfl

/-- One changed byte of the first store makes another checksum. -/
theorem firstEntry_crc : compute_full_crc .zero ≠ compute_full_crc (firstEntry.f .zero) := by
  have bytes : ∀ a : Fin 20 → PrivateEntry, arrayBytes PrivateEntry.enc a =
      PrivateEntry.enc (a 0) ++ arrayBytes PrivateEntry.enc fun i : Fin 19 => a i.succ := fun a => by
    simp only [arrayBytes, List.finRange_succ, List.flatMap_cons, List.flatMap_map]
  let z := PrivateEntry.zero
  let u := z.username.bytes ++ (z.ns.bytes ++ z.xml.bytes)
  let rest := 0 :: 0 :: 0 :: arrayBytes PrivateEntry.enc fun _ : Fin 19 => z
  have h₀ : privateBytes .zero = u ++ 0 :: rest := by
    simp only [privateBytes, bytes, PrivateEntry.enc, u, List.append_assoc]
    rfl
  have h₁ : privateBytes (firstEntry.f .zero) = u ++ 1 :: rest := by
    simp only [privateBytes, bytes, PrivateEntry.enc, u, List.append_assoc]
    rfl
  intro he
  simp only [compute_full_crc, h₀, h₁] at he
  replace he := UInt32.not_inj.mp he
  have hp := Crc.run_injective _ (Crc.run_injective _ (Crc.run_injective _ (Crc.run_injective _ he)))
  exact Crc.run_ne_of_burst _ u rest (a := [0]) (b := [1]) rfl (by decide) (by decide) hp

/-- The power goes between the two writes of a save that makes another checksum. -/
theorem load_after_cut {m : Mem} (h : OnDisk m) (hok : ∀ n, m.disk_ok n) {c : Change}
    (hc : compute_full_crc m.stores ≠ compute_full_crc (c.f m.stores)) {w : Written}
    (hw : w = (Written.start m).until_ [.update c.f c.ok] (some c.store)) : w.last = Stores.saved (c.f m.stores) ∧
      (xmpp_persist_load_all ⟨.zero, w.mem.disk, fun _ => true, 0⟩).2.stores = .zero := by
  have ht : w.Tracked := by
    rw [hw]
    exact (tracked_start h).until_ _ _
  have hlast : w.last = Stores.saved (c.f m.stores) := by
    rw [hw]
    change (if m.disk_ok m.transfers then
      StoreId.copy (Stores.saved m.stores) (Stores.saved (c.f m.stores)) c.store else _) = _
    rw [if_pos (hok _), ← StoreId.saved_copy, ← (c.only m.stores).eq_copy]
  have hsum : w.sum = compute_full_crc m.stores := by
    rw [hw]
    rfl
  have hne : w.sum ≠ compute_full_crc w.last := by
    rw [hlast, compute_full_crc_saved, hsum]
    exact hc
  exact ⟨hlast, (ht.load fun _ => rfl).2 hne⟩

/-- The power goes while the first entry is being saved. -/
def torn : Written :=
  (Written.start firstBoot).until_ [.update firstEntry.f firstEntry.ok] (some firstEntry.store)

/-- The entry was written, and is lost with everything else. -/
theorem power_loss_between_writes :
    (torn.last.private_store 0).active = 1 ∧
      ((xmpp_persist_load_all ⟨.zero, torn.mem.disk, fun _ => true, 0⟩).2.stores.private_store 0).active =
        0 := by
  have hb : OnDisk firstBoot := fresh_start_onDisk fun _ => rfl
  have hc : compute_full_crc firstBoot.stores ≠ compute_full_crc (firstEntry.f firstBoot.stores) := by
    rw [firstBoot_stores]
    exact firstEntry_crc
  have h : torn.last = Stores.saved (firstEntry.f firstBoot.stores) ∧
      (xmpp_persist_load_all ⟨.zero, torn.mem.disk, fun _ => true, 0⟩).2.stores = .zero :=
    load_after_cut hb firstBoot_disk_ok hc torn.eq_1
  rw [h.1, h.2]
  have ha : ∀ t, ((Stores.saved (firstEntry.f t)).private_store 0).active = 1 := fun t => by
    simp [Stores.saved, firstEntry]
  exact ⟨ha _, rfl⟩

end Angelic.Proofs
