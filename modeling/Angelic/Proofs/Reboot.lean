import Angelic.Proofs.Image
import Angelic.Proofs.Negotiation

namespace Angelic.Proofs
open CString Model StateRel Relation

/-! What a reboot finds, when no transfer has failed. -/

/-- The disk holds what is in memory and a header for it. -/
structure OnDisk (m : Mem) : Prop where
  magic : unle32 (m.disk.get .header) = PERSIST_MAGIC
  version : unle32 ((m.disk.get .header).drop 4) = PERSIST_VERSION
  crc : unle32 ((m.disk.get .header).drop 8) = compute_full_crc m.stores
  image : diskStores m.disk = Stores.saved m.stores
  ok : StoresOk m.stores

theorem headerBytes_length (crc : UInt32) : (headerBytes crc).length = Region.header.sectors * 512 := by
  simp only [headerBytes, List.length_append, le32_length, List.length_replicate, Region.header]

theorem headerBytes_fields (crc : UInt32) :
    unle32 (headerBytes crc) = PERSIST_MAGIC ∧ unle32 ((headerBytes crc).drop 4) = PERSIST_VERSION ∧
      unle32 ((headerBytes crc).drop 8) = crc :=
  ⟨unle32_le32 _ _, unle32_le32 _ _, unle32_le32 _ _⟩

/-- A header that was just written for the stores in memory. -/
theorem OnDisk.of_header {m : Mem} {d : Disk} (hd : m.disk = d.put .header (headerBytes (compute_full_crc m.stores)))
    (hi : diskStores d = Stores.saved m.stores) (ho : StoresOk m.stores) : OnDisk m := by
  have hh : m.disk.get .header = headerBytes (compute_full_crc m.stores) := by
    rw [hd, Disk.get_put _ _ (headerBytes_length _)]
  obtain ⟨hm, hv, hc⟩ := headerBytes_fields (compute_full_crc m.stores)
  refine ⟨hh ▸ hm, hh ▸ hv, hh ▸ hc, ?_, ho⟩
  rw [hd, diskStores_put_header, hi]

/-- Starting afresh writes what the five saves of empty stores would. -/
theorem StoreId.buf_zero (k : StoreId) : k.region.buf [] = k.region.buf (k.bytes .zero) := by
  have hz : ∀ b ∈ k.bytes .zero, b = 0 := by
    have array : ∀ {α : Type} {n : Nat} {enc : α → List Byte} {z : α}, (enc z).all (· == 0) = true →
        ∀ b ∈ arrayBytes (m := n) enc (fun _ => z), b = 0 := by
      intro α n enc z h b hb
      obtain ⟨_, _, hb⟩ := List.mem_flatMap.mp hb
      simpa using List.all_eq_true.mp h b hb
    have hprivate : (PrivateEntry.enc .zero).all (· == 0) = true := by decide +kernel
    have hroster : (RosterEntry.enc .zero).all (· == 0) = true := by decide +kernel
    have hrooms : (PersistRoomEntry.enc Room.zero.pack).all (· == 0) = true := by decide +kernel
    have hoffline : (OfflineMsg.enc .zero).all (· == 0) = true := by decide +kernel
    have hpending : (PendingSub.enc .zero).all (· == 0) = true := by decide +kernel
    cases k with
    | private_ => exact array hprivate
    | roster => exact array hroster
    | rooms => exact array hrooms
    | offline => exact array hoffline
    | pending_subs => exact array hpending
  have hl := k.bytes_fit .zero
  rw [Region.buf, Region.buf, List.eq_replicate_of_mem hz, List.nil_append, List.length_nil,
    List.length_replicate, List.replicate_append_replicate]
  congr 1
  omega

theorem storesOk_zero : StoresOk .zero := fun _ => RoomOk.zero

/-- The disk with the five regions cleared. -/
def wiped (d : Disk) : Disk :=
  [StoreId.private_, .roster, .rooms, .offline, .pending_subs].foldl
    (fun d k => d.put k.region (k.region.buf [])) d

theorem diskStores_wiped (d : Disk) : diskStores (wiped d) = Stores.saved .zero := by
  have put : ∀ (k : StoreId) (d : Disk), diskStores (d.put k.region (k.region.buf [])) =
      StoreId.copy (diskStores d) (Stores.saved .zero) k := fun k d => by
    rw [StoreId.buf_zero, diskStores_put d k storesOk_zero]
  simp only [wiped, List.foldl_cons, List.foldl_nil, put, StoreId.copy]

/-- What `fresh_start` writes, in its order. -/
def freshWrites : List (Region × List Byte) :=
  [(.private_, Region.private_.buf []), (.roster, Region.roster.buf []), (.rooms, Region.rooms.buf []),
    (.offline, Region.offline.buf []), (.pending_subs, Region.pending_subs.buf []),
    (.header, headerBytes (compute_full_crc .zero))]

/-- The writes one after the other, those that fail left out. -/
def putAll (ok : Nat → Bool) : Nat → List (Region × List Byte) → Disk → Disk
  | _, [], d => d
  | n, w :: ws, d => putAll ok (n + 1) ws (if ok n then d.put w.1 w.2 else d)

theorem disk_write_disk (r : Region) (b : List Byte) (m : Mem) :
    (disk_write_sectors r b m).2 =
      { m with
        disk := if m.disk_ok m.transfers then m.disk.put r b else m.disk
        transfers := m.transfers + 1 } := by
  rw [disk_write_sectors]
  split <;> rfl

theorem fresh_start_eq (m : Mem) :
    (fresh_start m).2 =
      { m with
        stores := .zero
        disk := putAll m.disk_ok m.transfers freshWrites m.disk
        transfers := m.transfers + 6 } := by
  obtain ⟨t, d, ok, n⟩ := m
  have header : ∀ d n, (write_header ⟨.zero, d, ok, n⟩).2 =
      (disk_write_sectors .header (headerBytes (compute_full_crc .zero)) ⟨.zero, d, ok, n⟩).2 := fun _ _ => rfl
  change (Prod.snd ((do
      let _ ← disk_write_sectors .private_ (Region.private_.buf [])
      let _ ← disk_write_sectors .roster (Region.roster.buf [])
      let _ ← disk_write_sectors .rooms (Region.rooms.buf [])
      let _ ← disk_write_sectors .offline (Region.offline.buf [])
      let _ ← disk_write_sectors .pending_subs (Region.pending_subs.buf [])
      write_header : StateM Mem Unit) ⟨.zero, d, ok, n⟩)) = _
  simp only [bind_run, disk_write_disk, header, freshWrites, putAll]

theorem try_load_run {m : Mem} (hm : unle32 (m.disk.get .header) = PERSIST_MAGIC)
    (hv : unle32 ((m.disk.get .header).drop 4) = PERSIST_VERSION) (hok : ∀ k < 6, m.disk_ok (m.transfers + k)) :
    try_load m =
      (unle32 ((m.disk.get .header).drop 8) == compute_full_crc (diskStores m.disk),
        { m with stores := diskStores m.disk, transfers := m.transfers + 6 }) := by
  obtain ⟨t, d, ok, n⟩ := m
  have read : ∀ r k, k < 6 → disk_read_sectors r ⟨t, d, ok, n + k⟩ = (some (d.get r), ⟨t, d, ok, n + (k + 1)⟩) :=
    fun r k hk => by rw [disk_read_sectors, if_pos (hok k hk)]; rfl
  have hrun : try_load ⟨t, d, ok, n⟩ = try_load ⟨t, d, ok, n + 0⟩ := rfl
  dsimp only at hm hv
  rw [hrun]
  simp only [try_load, bind_run, read _ 0 (by decide), hm, hv, ne_eq, not_true_eq_false, if_false,
    read _ 1 (by decide), read _ 2 (by decide), read _ 3 (by decide), read _ 4 (by decide), read _ 5 (by decide)]
  rfl

section Transfers
variable {m : Mem} (hok : ∀ n, m.disk_ok n)
include hok

theorem disk_write_run (r : Region) (w : List Byte) :
    disk_write_sectors r w m = (true, { m with disk := m.disk.put r w, transfers := m.transfers + 1 }) :=
  if_pos (hok _)

theorem disk_read_run (r : Region) :
    disk_read_sectors r m = (some (m.disk.get r), { m with transfers := m.transfers + 1 }) := by
  simp [disk_read_sectors, hok]

theorem write_header_run :
    (write_header m).2 =
      { m with
        disk := m.disk.put .header (headerBytes (compute_full_crc m.stores))
        transfers := m.transfers + 1 } := by
  change (disk_write_sectors .header (headerBytes (compute_full_crc m.stores)) m).2 = _
  rw [disk_write_run hok]

theorem save_run (k : StoreId) :
    (k.save m).2 =
      { m with
        disk := (m.disk.put k.region (k.region.buf (k.bytes m.stores))).put .header
          (headerBytes (compute_full_crc m.stores))
        transfers := m.transfers + 2 } := by
  have hrun : k.save m = (do
      if ← disk_write_sectors k.region (k.region.buf (k.bytes m.stores)) then write_header :
        StateM Mem Unit) m := rfl
  rw [hrun, bind_run, disk_write_run hok]
  exact write_header_run (m := { m with
    disk := m.disk.put k.region (k.region.buf (k.bytes m.stores)), transfers := m.transfers + 1 }) hok

/-- Saving the one store that differs makes the image right again. -/
theorem OnDisk.save {t : Stores} {k : StoreId} (h : OnDisk { m with stores := t })
    (hk : StoreId.OnlyIn t m.stores k) (ho : StoresOk m.stores) : OnDisk (k.save m).2 := by
  rw [save_run hok]
  refine .of_header rfl ?_ ho
  have hi : diskStores m.disk = Stores.saved t := h.image
  rw [diskStores_put _ _ ho, hi, ← StoreId.saved_copy, ← hk.eq_copy]

/-- A disk that is not what the server would have written is not loaded. -/
theorem try_load_refused (h : ¬ (unle32 (m.disk.get .header) = PERSIST_MAGIC ∧
    unle32 ((m.disk.get .header).drop 4) = PERSIST_VERSION)) :
    (try_load m).1 = false ∧ (try_load m).2.disk = m.disk ∧ (try_load m).2.disk_ok = m.disk_ok := by
  obtain ⟨t, d, ok, n⟩ := m
  have read : ∀ r n, disk_read_sectors r ⟨t, d, ok, n⟩ = (some (d.get r), ⟨t, d, ok, n + 1⟩) :=
    fun r n => disk_read_run (m := ⟨t, d, ok, n⟩) hok r
  simp only [try_load, bind_run, read]
  by_cases hm : unle32 (d.get .header) = PERSIST_MAGIC
  · have hv : unle32 ((d.get .header).drop 4) ≠ PERSIST_VERSION := fun hv => h ⟨hm, hv⟩
    simp only [hm, hv, ne_eq, not_true_eq_false, not_false_eq_true, if_false, if_true]
    exact ⟨rfl, rfl, rfl⟩
  · simp only [hm, ne_eq, not_false_eq_true, if_true]
    exact ⟨rfl, rfl, rfl⟩

theorem fresh_start_run :
    (fresh_start m).2 =
      { m with
        stores := .zero
        disk := (wiped m.disk).put .header (headerBytes (compute_full_crc .zero))
        transfers := m.transfers + 6 } := by
  rw [fresh_start_eq]
  simp only [freshWrites, putAll, hok, if_true]
  rfl

theorem fresh_start_onDisk : OnDisk (fresh_start m).2 := by
  rw [fresh_start_run hok]
  exact .of_header rfl (diskStores_wiped _) storesOk_zero

/-- Either way of starting leaves the disk and the memory in step. -/
theorem load_all_onDisk : OnDisk (xmpp_persist_load_all m).2 ∧ (xmpp_persist_load_all m).2.disk_ok = m.disk_ok := by
  have fresh : ∀ t : Mem, t.disk_ok = m.disk_ok →
      OnDisk (fresh_start t).2 ∧ (fresh_start t).2.disk_ok = m.disk_ok := fun t ht => by
    have hokt : ∀ n, t.disk_ok n := ht ▸ hok
    refine ⟨fresh_start_onDisk hokt, ?_⟩
    rw [fresh_start_run hokt]
    exact ht
  have hrun : xmpp_persist_load_all m =
      (if (try_load m).1 then pure () else fresh_start : StateM Mem Unit) (try_load m).2 := rfl
  rw [hrun]
  by_cases hh : unle32 (m.disk.get .header) = PERSIST_MAGIC ∧
      unle32 ((m.disk.get .header).drop 4) = PERSIST_VERSION
  · rw [try_load_run hh.1 hh.2 fun _ _ => hok _]
    by_cases hc : unle32 ((m.disk.get .header).drop 8) = compute_full_crc (diskStores m.disk)
    · rw [if_pos (by simpa using hc)]
      exact ⟨⟨hh.1, hh.2, hc, (saved_diskStores _).symm, storesOk_diskStores _⟩, rfl⟩
    · rw [if_neg (by simpa using hc)]
      exact fresh _ rfl
  · obtain ⟨hf, -, hdok⟩ := try_load_refused hok hh
    rw [if_neg (by simp [hf])]
    exact fresh _ hdok

end Transfers

section Server
variable {s s' : Server}

/-- Work on one store leaves the disk as it is. -/
structure Worked (k : StoreId) (m m' : Mem) : Prop where
  disk : m'.disk = m.disk
  disk_ok : m'.disk_ok = m.disk_ok
  only : m'.stores = StoreId.copy m.stores m'.stores k
  ok : StoresOk m.stores → StoresOk m'.stores

theorem touches_worked {k : StoreId} (h : ReflTransGen (Touch k) s s') : Worked k s.mem s'.mem := by
  induction h with
  | refl => exact ⟨rfl, rfl, by cases k <;> rfl, id⟩
  | tail _ ht ih =>
    cases ht with
    | send i hf => exact ⟨ih.disk, ih.disk_ok, ih.only, ih.ok⟩
    | change t ho hk =>
      refine ⟨ih.disk, ih.disk_ok, ?_, fun h => hk (ih.ok h)⟩
      exact ho.eq_copy.trans ((congrArg (fun u => StoreId.copy u t k) ih.only).trans
        (StoreId.copy_copy k _ _ t))

/-- The disk and the memory of a server in step, and a disk that does not fail. -/
def InStep (s : Server) : Prop := OnDisk s.mem ∧ ∀ n, s.mem.disk_ok n

theorem effect_inStep {me : Slot} (h : Effect me s s') (hs : InStep s) : InStep s' := by
  cases h with
  | send i hf => exact hs
  | note hf _ => exact hs
  | ready hst => exact hs
  | version => exact hs
  | occupants t hsaved hk =>
    obtain ⟨⟨hm, hv, hc, hi, ho⟩, hok⟩ := hs
    have hcrc : compute_full_crc t = compute_full_crc s.mem.stores := by
      rw [← compute_full_crc_saved t, hsaved]
      exact compute_full_crc_saved _
    exact ⟨⟨hm, hv, hc.trans hcrc.symm, hi.trans hsaved.symm, hk ho⟩, hok⟩
  | saved s₁ k ht =>
    obtain ⟨hd, hdok, honly, hstores⟩ := touches_worked ht
    obtain ⟨hon, hok⟩ := hs
    have hok₁ : ∀ n, s₁.mem.disk_ok n := hdok ▸ hok
    have hbefore : OnDisk { s₁.mem with stores := s.mem.stores } := by
      obtain ⟨hm, hv, hc, hi, ho⟩ := hon
      rw [← hd] at hm hv hc hi
      exact ⟨hm, hv, hc, hi, ho⟩
    refine ⟨OnDisk.save hok₁ hbefore (by cases k <;> exact honly) (hstores hon.ok), ?_⟩
    change ∀ n, (k.save s₁.mem).2.disk_ok n
    rw [save_run hok₁]
    exact hok₁

theorem act_inStep {me : Slot} (h : Act me s s') (hs : InStep s) : InStep s' := by
  cases h with
  | effect h => exact effect_inStep h hs
  | own h =>
    cases h with
    | emit | draw | pool | keep | move => exact hs
  | route | session | bind => exact hs

theorem accept_inStep (pcb : Pcb) (hs : InStep s) : InStep (step s (.accept pcb)) := by
  obtain ⟨o, he⟩ := accept_run pcb s
  rw [he]
  exact hs

end Server

theorem boot_inStep (m : Machine) (hok : ∀ n, m.disk_ok n) : InStep m.boot := by
  obtain ⟨hon, hdok⟩ := load_all_onDisk (m := ⟨.zero, m.disk, m.disk_ok, 0⟩) hok
  refine ⟨hon, ?_⟩
  change ∀ n, (xmpp_persist_load_all ⟨.zero, m.disk, m.disk_ok, 0⟩).2.disk_ok n
  rw [hdok]
  exact hok

theorem run_inStep (m : Machine) (hok : ∀ n, m.disk_ok n) (es : List Event) : InStep (m.run es) :=
  actions_keep act_inStep (fun _ pcb hs => accept_inStep pcb hs) (run_actions m es) (boot_inStep m hok)

/-- What of a room survives a reboot. -/
structure SameRoom (r r' : Room) : Prop where
  name : r'.name = r.name
  creator_jid : r'.creator_jid = r.creator_jid
  subject : r'.subject = r.subject
  semi_anon : r'.semi_anon = r.semi_anon
  locked : r'.locked = r.locked
  active : r'.active = r.active
  persistent : r'.persistent = r.persistent
  moderated : r'.moderated = r.moderated
  members_only : r'.members_only = r.members_only
  banned_count : r'.banned_count = r.banned_count
  banned_jids : ∀ bi : Fin MAX_BANNED_PER_ROOM, (bi : Int) < r.banned_count.toInt →
    r'.banned_jids bi = r.banned_jids bi
  users : ∀ i, r'.users i = .zero

/-- After any events, with no failed transfer since power on and none in the reboot, the disk is
loaded and gives back every store as it was. The disk the machine was started with may have been
anything. -/
theorem reboot_restores (m : Machine) (hok : ∀ n, m.disk_ok n) (es : List Event) (disk_ok : Nat → Bool)
    (hok' : ∀ n, disk_ok n) :
    let s := m.run es
    let load := try_load ⟨.zero, s.mem.disk, disk_ok, 0⟩
    load.1 = true ∧
      load.2.stores.private_store = s.stores.private_store ∧
      load.2.stores.roster_store = s.stores.roster_store ∧
      load.2.stores.offline_store = s.stores.offline_store ∧
      load.2.stores.pending_subs = s.stores.pending_subs ∧
      ∀ i, SameRoom (s.stores.rooms i) (load.2.stores.rooms i) := by
  intro s load
  obtain ⟨hm, hv, hc, hi, ho⟩ := (run_inStep m hok es).1
  have hload : load = _ := try_load_run (m := ⟨.zero, s.mem.disk, disk_ok, 0⟩) hm hv fun _ _ => hok' _
  have hst : load.2.stores = Stores.saved s.mem.stores := by
    rw [hload]
    exact hi
  have hcrc : compute_full_crc (diskStores s.mem.disk) = compute_full_crc s.mem.stores := by
    rw [show diskStores s.mem.disk = _ from hi, compute_full_crc_saved]
  refine ⟨?_, by rw [hst]; rfl, by rw [hst]; rfl, by rw [hst]; rfl, by rw [hst]; rfl, fun i => ?_⟩
  · rw [hload]
    simpa [hcrc] using hc
  · rw [hst]
    exact ⟨rfl, rfl, rfl, rfl, rfl, rfl, rfl, rfl, rfl, rfl, fun bi hb => if_pos hb, fun _ => rfl⟩

def privateSetIq : Str :=
  cat ["<iq type='set' id='p1'>", "<query xmlns='jabber:iq:private'>",
    "<storage xmlns='storage:bookmarks'/>", "</query>", "</iq>"]

def bookmarked : List Event := talk 7 [streamOpen, bindIq, privateSetIq]

/-- The administrator stores bookmarks, which are there after a reboot. -/
theorem reboot_restores_bookmarks :
    (try_load ⟨.zero, (blank.run bookmarked).mem.disk, fun _ => true, 0⟩).1 = true ∧
      ((try_load ⟨.zero, (blank.run bookmarked).mem.disk, fun _ => true, 0⟩).2.stores.private_store 0).active =
        1 := by
  have ha : ((blank.run bookmarked).stores.private_store 0).active = 1 := by decide +kernel
  obtain ⟨hl, hp, -⟩ := reboot_restores blank (fun _ => rfl) bookmarked (fun _ => true) fun _ => rfl
  rw [hp]
  exact ⟨hl, ha⟩

end Angelic.Proofs
