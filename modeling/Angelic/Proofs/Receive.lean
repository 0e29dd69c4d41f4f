import Mathlib.Logic.Function.Iterate
import Angelic.Model.E1000
import Angelic.Proofs.Pool

namespace Angelic.Proofs
open Model

variable {len : UInt16} {buffer : List UInt8}
variable {s : Rx} {c : Nat}

/-! The pages behind the receive ring. -/

/-- They are the next pages of the pool. -/
theorem rxBuffers_pages {n : Nat} {p p' : Phys} {bufs : List UInt64} (h : PoolOk p)
    (hb : rxBuffers n p = some (bufs, p')) :
    bufs.length = n ∧ ∀ i < n, (bufs.getD i 0).toNat = p.free_memory_start.toNat + i * 4096 := by
  induction n generalizing p p' bufs with
  | zero =>
    obtain ⟨rfl, -⟩ := Prod.mk.inj (Option.some.inj hb)
    exact ⟨rfl, fun i hi => absurd hi (Nat.not_lt_zero i)⟩
  | succ n ih =>
    obtain ⟨-, hok, hstart⟩ := alloc_pool h
    cases ha : pmm_alloc_page p with
    | mk page q =>
      rw [rxBuffers, ha] at hb
      rw [ha] at hok hstart
      change PoolOk q at hok
      cases page with
      | none => exact absurd hb (Option.some_ne_none _).symm
      | some buf =>
        obtain ⟨⟨rest, r⟩, hr, he⟩ := Option.map_eq_some_iff.mp hb
        obtain ⟨rfl, -⟩ := Prod.mk.inj he
        obtain ⟨hlen, hrest⟩ := ih hok hr
        have hbuf := ((alloc_some_iff h).mp (congrArg Prod.fst ha)).1
        rw [if_neg (Option.some_ne_none _)] at hstart
        refine ⟨congrArg Nat.succ hlen, fun i hi => ?_⟩
        cases i with
        | zero =>
          change buf.toNat = _
          rw [← hbuf]
          omega
        | succ i =>
          change (rest.getD i 0).toNat = _
          rw [hrest i (Nat.lt_of_succ_lt_succ hi), hstart]
          omega

/-! Runs of the NIC and the driver. -/

/-- A frame the NIC may store: no longer than a descriptor's buffer and than what the caller asks for. -/
abbrev Frame := { f : List UInt8 // 1 ≤ f.length ∧ f.length ≤ 1514 }

inductive RxRun (start : Rx) : Rx → Prop
  | start : RxRun start start
  | arrive {s : Rx} (f : Frame) : RxRun start s → RxRun start (s.arrive f)
  | poll {s : Rx} : RxRun start s → RxRun start (e1000_poll_receive 1514 s)

/-- The frames that the calls have returned: a call that returned 0 has none. -/
def frames (s : Rx) : List (List UInt8) := s.returns.filter fun b => b ≠ []

/-- The descriptor holds the frame. -/
structure HoldsFrame (s : Rx) (i : Fin 32) (f : List UInt8) : Prop where
  done : (s.rx_ring i).status &&& E1000_RXD_STAT_DD ≠ 0
  length : (s.rx_ring i).length.toNat = f.length
  bytes : f <+: s.memory (s.rx_ring i).addr

theorem HoldsFrame.congr {t : Rx} {i : Fin 32} {f : List UInt8} (h : HoldsFrame s i f)
    (hring : t.rx_ring i = s.rx_ring i) (hmem : t.memory (s.rx_ring i).addr = s.memory (s.rx_ring i).addr) :
    HoldsFrame t i f := by
  refine ⟨?_, ?_, ?_⟩
  · rw [hring]
    exact h.done
  · rw [hring]
    exact h.length
  · rw [hring, hmem]
    exact h.bytes

theorem no_status : (0 : UInt8) &&& E1000_RXD_STAT_DD = 0 := by decide

/-- How far the call has got with the frame it returns. -/
def PollOk (f : List UInt8) : PollPc → Prop
  | .idle => True
  | .length => True
  | .copy len buffer => len.toNat = f.length ∧ buffer <+: f
  | .clear _ buffer => buffer = f
  | .tail _ buffer => buffer = f

/-- The call has cleared its descriptor and has not moved the tail. -/
def PollPc.atTail : PollPc → Bool
  | .tail _ _ => true
  | _ => false

/-- `c` frames were returned. The others lie in the ring from `rx_idx` to `RDH`, and `RDT` trails `rx_idx` by
one. -/
structure RxOk (c : Nat) (s : Rx) : Prop where
  apart : Function.Injective fun i => (s.rx_ring i).addr
  idx : s.rx_idx = slotOf c
  head : s.RDH = slotOf s.stored.length
  tail : s.RDT = slotOf (c + 31)
  behind : c ≤ s.stored.length
  ahead : s.stored.length ≤ c + 31
  sizes : ∀ f ∈ s.stored, 1 ≤ f.length ∧ f.length ≤ 1514
  order : frames s = s.stored.take c
  filled : ∀ a f, s.stored[a]? = some f → c ≤ a → (a = c → PollPc.atTail s.pc = false) → HoldsFrame s (slotOf a) f
  empty : ∀ a, s.stored.length ≤ a → a < c + 32 → (s.rx_ring (slotOf a)).status &&& E1000_RXD_STAT_DD = 0
  cleared : PollPc.atTail s.pc = true → (s.rx_ring s.rx_idx).status &&& E1000_RXD_STAT_DD = 0
  call : s.pc ≠ .idle → ∃ f, s.stored[c]? = some f ∧ PollOk f s.pc

theorem slotOf_inj {a b : Nat} (h : slotOf a = slotOf b) (hab : a ≤ b) (hb : b < a + 32) : a = b := by
  have := congrArg Fin.val h
  simp only [slotOf] at this
  omega

theorem slotOf_wrap (a : Nat) : slotOf (a + 32) = slotOf a := Fin.ext (Nat.add_mod_right a 32)

theorem nextSlot_slotOf (a : Nat) : nextSlot (slotOf a) = slotOf (a + 1) := by
  apply Fin.ext
  simp only [nextSlot, slotOf]
  omega

section Ok
variable {c : Nat} {s : Rx} (h : RxOk c s)
include h

/-- The NIC has a descriptor to fill. -/
theorem RxOk.room (hne : s.RDH ≠ s.RDT) : s.stored.length < c + 31 := by
  refine Nat.lt_of_le_of_ne h.ahead fun he => hne ?_
  rw [h.head, h.tail, he]

/-- The descriptor the NIC fills was read, and is not the one being read. -/
theorem RxOk.unread (hne : s.RDH ≠ s.RDT) :
    (s.rx_ring s.RDH).status &&& E1000_RXD_STAT_DD = 0 ∧ (s.pc ≠ .idle → s.RDH ≠ s.rx_idx) := by
  have hroom := h.room hne
  refine ⟨?_, fun hpc he => ?_⟩
  · rw [h.head]
    exact h.empty _ (Nat.le_refl _) (by omega)
  · obtain ⟨f, hf, -⟩ := h.call hpc
    have hlt := (List.getElem?_eq_some_iff.mp hf).1
    rw [h.head, h.idx] at he
    have := slotOf_inj he.symm h.behind (by omega)
    omega

/-- A call that finds nothing has returned every frame. -/
theorem RxOk.drained (hpc : s.pc = .idle) (hdd : (s.rx_ring s.rx_idx).status &&& E1000_RXD_STAT_DD = 0) :
    c = s.stored.length := by
  by_contra hne
  have hlt : c < s.stored.length := Nat.lt_of_le_of_ne h.behind hne
  have hf := h.filled c _ (List.getElem?_eq_getElem hlt) (Nat.le_refl c) fun _ => by rw [hpc]; rfl
  rw [← h.idx] at hf
  exact hf.done hdd

end Ok

/-! The NIC's step. -/

theorem arrive_full (h : s.RDH = s.RDT) (f : List UInt8) : s.arrive f = s := if_pos h

theorem arrive_desc (hne : s.RDH ≠ s.RDT) (f : List UInt8) :
    (s.arrive f).rx_ring s.RDH = { s.rx_ring s.RDH with
      length := f.length.toUInt16, status := E1000_RXD_STAT_DD ||| E1000_RXD_STAT_EOP } := by
  rw [Rx.arrive, if_neg hne]
  exact Function.update_self ..

theorem arrive_holds (hne : s.RDH ≠ s.RDT) (f : Frame) : HoldsFrame (s.arrive f) s.RDH f := by
  refine ⟨?_, ?_, ?_⟩
  · rw [arrive_desc hne]
    change (E1000_RXD_STAT_DD ||| E1000_RXD_STAT_EOP) &&& E1000_RXD_STAT_DD ≠ 0
    decide
  · rw [arrive_desc hne]
    have := f.property.2
    change f.val.length % 2 ^ 16 = f.val.length
    omega
  · rw [arrive_desc hne]
    refine ⟨(s.memory (s.rx_ring s.RDH).addr).drop f.val.length, ?_⟩
    rw [Rx.arrive, if_neg hne]
    exact (Function.update_self (s.rx_ring s.RDH).addr _ s.memory).symm

theorem arrive_other (h : RxOk c s) (hne : s.RDH ≠ s.RDT) (f : Frame) {i : Fin 32} (hi : i ≠ s.RDH) :
    (s.arrive f).rx_ring i = s.rx_ring i ∧ (s.arrive f).memory (s.rx_ring i).addr = s.memory (s.rx_ring i).addr := by
  have haddr : (s.rx_ring i).addr ≠ (s.rx_ring s.RDH).addr := fun he => hi (h.apart he)
  rw [Rx.arrive, if_neg hne]
  exact ⟨Function.update_of_ne hi _ _, Function.update_of_ne haddr _ _⟩

/-- Two slots of the part of the ring that is in play. -/
theorem slotOf_ne {a b : Nat} (hne : a ≠ b) (ha : c ≤ a) (ha' : a < c + 32) (hb : c ≤ b) (hb' : b < c + 32) :
    slotOf a ≠ slotOf b := by
  intro he
  rcases Nat.lt_or_gt_of_ne hne with hlt | hgt
  · exact hne (slotOf_inj he (Nat.le_of_lt hlt) (by omega))
  · exact hne (slotOf_inj he.symm (Nat.le_of_lt hgt) (by omega)).symm

theorem RxOk.arrive (h : RxOk c s) (f : Frame) : RxOk c (s.arrive f) := by
  by_cases hne : s.RDH = s.RDT
  · rw [arrive_full hne]
    exact h
  have hroom := h.room hne
  have hstored : (s.arrive f).stored = s.stored ++ [f.val] := by rw [Rx.arrive, if_neg hne]
  have hlen : (s.arrive f).stored.length = s.stored.length + 1 := by rw [hstored, List.length_append]; rfl
  have hpc : (s.arrive f).pc = s.pc := by rw [Rx.arrive, if_neg hne]
  have hidx : (s.arrive f).rx_idx = s.rx_idx := by rw [Rx.arrive, if_neg hne]
  have hnew := arrive_holds hne f
  have hother : ∀ {a}, c ≤ a → a < c + 32 → a ≠ s.stored.length → slotOf a ≠ s.RDH := fun h1 h2 h3 => by
    rw [h.head]
    exact slotOf_ne h3 h1 h2 h.behind (by omega)
  have haddr : ∀ i, ((s.arrive f).rx_ring i).addr = (s.rx_ring i).addr := by
    intro i
    by_cases hi : i = s.RDH
    · rw [hi, arrive_desc hne]
    · rw [(arrive_other h hne f hi).1]
  have hcall : s.pc ≠ .idle → c < s.stored.length := fun hn => by
    obtain ⟨g, hg, -⟩ := h.call hn
    exact (List.getElem?_eq_some_iff.mp hg).1
  refine ⟨?_, hidx.trans h.idx, ?_, ?_, ?_, ?_, ?_, ?_, ?_, ?_, ?_, ?_⟩
  · simp only [haddr]
    exact h.apart
  · rw [hlen, ← nextSlot_slotOf, ← h.head, Rx.arrive, if_neg hne]
  · rw [← h.tail, Rx.arrive, if_neg hne]
  · have := h.behind
    omega
  · omega
  · intro g hg
    rw [hstored] at hg
    rcases List.mem_append.mp hg with hg | hg
    · exact h.sizes g hg
    · rw [List.mem_singleton.mp hg]
      exact f.property
  · have hframes : frames (s.arrive f) = frames s := by rw [frames, Rx.arrive, if_neg hne]; rfl
    rw [hframes, h.order, hstored, List.take_append_of_le_length h.behind]
  · intro a g hg hca hat
    rw [hpc] at hat
    by_cases ha : a = s.stored.length
    · rw [hstored, ha, List.getElem?_append_right (Nat.le_refl _), Nat.sub_self] at hg
      rw [ha, ← h.head, ← Option.some.inj hg]
      exact hnew
    · have hlt : a < s.stored.length := by
        have := (List.getElem?_eq_some_iff.mp hg).1
        omega
      rw [hstored, List.getElem?_append_left hlt] at hg
      obtain ⟨hring, hmem⟩ := arrive_other h hne f (hother hca (by omega) ha)
      exact (h.filled a g hg hca hat).congr hring hmem
  · intro a ha ha'
    rw [hlen] at ha
    have hb := h.behind
    rw [(arrive_other h hne f (hother (by omega) ha' (by omega))).1]
    exact h.empty a (by omega) ha'
  · intro hat
    rw [hpc] at hat
    have hnidle : s.pc ≠ .idle := fun he => by rw [he] at hat; exact Bool.noConfusion hat
    rw [hidx, (arrive_other h hne f (Ne.symm ((h.unread hne).2 hnidle))).1]
    exact h.cleared hat
  · intro hn
    rw [hpc] at hn ⊢
    obtain ⟨g, hg, hp⟩ := h.call hn
    exact ⟨g, by rw [hstored, List.getElem?_append_left (hcall hn)]; exact hg, hp⟩

/-! The driver's steps. -/

/-- A step that moves no descriptor and ends no call. -/
theorem RxOk.toPc (h : RxOk c s) {pc : PollPc} (hat : PollPc.atTail pc = PollPc.atTail s.pc)
    (hcall : pc ≠ .idle → ∃ f, s.stored[c]? = some f ∧ PollOk f pc) : RxOk c { s with pc := pc } :=
  ⟨h.apart, h.idx, h.head, h.tail, h.behind, h.ahead, h.sizes, h.order,
    fun a f hf ha ht => (h.filled a f hf ha fun he => hat ▸ ht he).congr rfl rfl,
    h.empty, fun ht => h.cleared (hat ▸ ht), hcall⟩

section Poll
variable {c : Nat} {s : Rx} (h : RxOk c s)
include h

theorem poll_idle (hpc : s.pc = .idle) : RxOk c (e1000_poll_receive 1514 s) := by
  by_cases hdd : (s.rx_ring s.rx_idx).status &&& E1000_RXD_STAT_DD = 0
  · have heq : e1000_poll_receive 1514 s = { s with returns := s.returns ++ [[]] } := by
      simp only [e1000_poll_receive, hpc, if_pos hdd]
    rw [heq]
    refine ⟨h.apart, h.idx, h.head, h.tail, h.behind, h.ahead, h.sizes, ?_,
      fun a f hf ha ht => (h.filled a f hf ha ht).congr rfl rfl, h.empty, h.cleared, h.call⟩
    rw [← h.order]
    simp [frames]
  · have heq : e1000_poll_receive 1514 s = { s with pc := .length } := by
      simp only [e1000_poll_receive, hpc, if_neg hdd]
    rw [heq]
    refine h.toPc (by rw [hpc]; rfl) fun _ => ?_
    -- the slot of the next frame is empty when the NIC has stored none
    have hlt : c < s.stored.length := by
      refine Nat.lt_of_le_of_ne h.behind fun he => hdd ?_
      rw [h.idx]
      exact h.empty c (Nat.le_of_eq he.symm) (by omega)
    exact ⟨_, List.getElem?_eq_getElem hlt, trivial⟩

theorem poll_length (hpc : s.pc = .length) : RxOk c (e1000_poll_receive 1514 s) := by
  obtain ⟨f, hf, -⟩ := h.call (by rw [hpc]; exact PollPc.noConfusion)
  have hold := h.filled c f hf (Nat.le_refl c) fun _ => by rw [hpc]; rfl
  rw [← h.idx] at hold
  have hsize := (h.sizes f (List.mem_of_getElem? hf)).2
  have hmin : ¬ 1514 < (s.rx_ring s.rx_idx).length := by
    rw [UInt16.lt_iff_toNat_lt, hold.length]
    exact Nat.not_lt.mpr hsize
  have heq : e1000_poll_receive 1514 s = { s with pc := .copy (s.rx_ring s.rx_idx).length [] } := by
    simp only [e1000_poll_receive, hpc, if_neg hmin]
  rw [heq]
  exact h.toPc (by rw [hpc]; rfl) fun _ => ⟨f, hf, hold.length, List.nil_prefix⟩

theorem poll_copy (hpc : s.pc = .copy len buffer) : RxOk c (e1000_poll_receive 1514 s) := by
  obtain ⟨f, hf, hp⟩ := h.call (by rw [hpc]; exact PollPc.noConfusion)
  rw [hpc] at hp
  obtain ⟨hlen, hbuf⟩ := hp
  have hold := h.filled c f hf (Nat.le_refl c) fun _ => by rw [hpc]; rfl
  rw [← h.idx] at hold
  by_cases hmore : buffer.length < len.toNat
  · have heq : e1000_poll_receive 1514 s =
        { s with pc := .copy len (buffer ++ [(s.memory (s.rx_ring s.rx_idx).addr).getD buffer.length 0]) } := by
      simp only [e1000_poll_receive, hpc, if_pos hmore]
    rw [heq]
    refine h.toPc (by rw [hpc]; rfl) fun _ => ⟨f, hf, hlen, ?_⟩
    -- the next byte in memory is the next byte of the frame
    obtain ⟨rest, hrest⟩ := hold.bytes
    obtain ⟨more, hmore'⟩ := hbuf
    cases more with
    | nil =>
      rw [List.append_nil] at hmore'
      rw [hmore', hlen] at hmore
      exact absurd hmore (Nat.lt_irrefl _)
    | cons x more =>
      refine ⟨more, ?_⟩
      rw [← hrest, ← hmore']
      simp
  · have heq : e1000_poll_receive 1514 s = { s with pc := .clear len buffer } := by
      simp only [e1000_poll_receive, hpc, if_neg hmore]
    rw [heq]
    refine h.toPc (by rw [hpc]; rfl) fun _ => ⟨f, hf, ?_⟩
    exact hbuf.eq_of_length (Nat.le_antisymm hbuf.length_le (by omega))

theorem poll_clear (hpc : s.pc = .clear len buffer) : RxOk c (e1000_poll_receive 1514 s) := by
  obtain ⟨f, hf, hp⟩ := h.call (by rw [hpc]; exact PollPc.noConfusion)
  rw [hpc] at hp
  have hlt := (List.getElem?_eq_some_iff.mp hf).1
  have hahead := h.ahead
  let ring := Function.update s.rx_ring s.rx_idx { s.rx_ring s.rx_idx with status := 0 }
  have heq : e1000_poll_receive 1514 s = { s with rx_ring := ring, pc := .tail len buffer } := by
    simp only [e1000_poll_receive, hpc, ring]
  have hself : ring s.rx_idx = { s.rx_ring s.rx_idx with status := 0 } := Function.update_self ..
  have hother : ∀ {a}, c < a → a < c + 32 → ring (slotOf a) = s.rx_ring (slotOf a) := by
    intro a h1 h2
    refine Function.update_of_ne ?_ _ _
    rw [h.idx]
    exact slotOf_ne (Nat.ne_of_gt h1) (Nat.le_of_lt h1) h2 (Nat.le_refl c) (by omega)
  have haddr : (fun i => (ring i).addr) = fun i => (s.rx_ring i).addr := by
    funext i
    by_cases hi : i = s.rx_idx
    · rw [hi, hself]
    · rw [show ring i = s.rx_ring i from Function.update_of_ne hi _ _]
  rw [heq]
  refine ⟨?_, h.idx, h.head, h.tail, h.behind, hahead, h.sizes, h.order, ?_, ?_, ?_, fun _ => ⟨f, hf, hp⟩⟩
  · rw [haddr]
    exact h.apart
  · intro a g hg hca hat
    have hne : a ≠ c := fun he => Bool.noConfusion (hat he)
    have hroom := (List.getElem?_eq_some_iff.mp hg).1
    change a < s.stored.length at hroom
    exact (h.filled a g hg hca fun he => absurd he hne).congr (hother (by omega) (by omega)) rfl
  · intro a ha ha'
    change s.stored.length ≤ a at ha
    change (ring (slotOf a)).status &&& E1000_RXD_STAT_DD = 0
    rw [hother (by omega) ha']
    exact h.empty a ha ha'
  · intro _
    change (ring s.rx_idx).status &&& E1000_RXD_STAT_DD = 0
    rw [hself]
    exact no_status

theorem poll_tail (hpc : s.pc = .tail len buffer) : RxOk (c + 1) (e1000_poll_receive 1514 s) := by
  obtain ⟨f, hf, hp⟩ := h.call (by rw [hpc]; exact PollPc.noConfusion)
  rw [hpc] at hp
  change buffer = f at hp
  have hlt := (List.getElem?_eq_some_iff.mp hf).1
  have hahead := h.ahead
  have heq : e1000_poll_receive 1514 s = { s with
      rx_idx := nextSlot s.rx_idx, RDT := s.rx_idx, returns := s.returns ++ [buffer], pc := .idle } := by
    simp only [e1000_poll_receive, hpc]
  rw [heq]
  refine ⟨h.apart, ?_, h.head, ?_, hlt, Nat.le_succ_of_le hahead, h.sizes, ?_, ?_, ?_, ?_, ?_⟩
  · rw [h.idx]
    exact nextSlot_slotOf c
  · rw [h.idx, Nat.add_right_comm, Nat.add_assoc]
    exact (slotOf_wrap c).symm
  · have hne : f ≠ [] := fun he => by
      have := (h.sizes f (List.mem_of_getElem? hf)).1
      rw [he] at this
      exact absurd this (by decide)
    have horder := h.order
    rw [frames] at horder ⊢
    rw [List.filter_append, horder, hp, List.take_add_one, hf]
    simp [hne]
  · intro a g hg hca _
    exact (h.filled a g hg (by omega) fun he => absurd he (by omega)).congr rfl rfl
  · intro a ha ha'
    by_cases hw : a = c + 32
    · -- the slot that the call gives back
      rw [hw, slotOf_wrap, ← h.idx]
      exact h.cleared (by rw [hpc]; rfl)
    · exact h.empty a ha (by omega)
  · exact fun ht => Bool.noConfusion ht
  · exact fun hn => absurd rfl hn

theorem RxOk.poll : ∃ c', RxOk c' (e1000_poll_receive 1514 s) := by
  cases hpc : s.pc with
  | idle => exact ⟨c, poll_idle h hpc⟩
  | length => exact ⟨c, poll_length h hpc⟩
  | copy len buffer => exact ⟨c, poll_copy h hpc⟩
  | clear len buffer => exact ⟨c, poll_clear h hpc⟩
  | tail len buffer => exact ⟨c + 1, poll_tail h hpc⟩

end Poll

/-- The polls alone, from `s` on, end a call with `c` frames returned. -/
def HandsOver (c : Nat) (s : Rx) : Prop :=
  ∃ n, RxOk c ((e1000_poll_receive 1514)^[n] s) ∧ ((e1000_poll_receive 1514)^[n] s).pc = .idle ∧
    ((e1000_poll_receive 1514)^[n] s).stored = s.stored

theorem stored_poll (s : Rx) : (e1000_poll_receive 1514 s).stored = s.stored := by
  rw [e1000_poll_receive]
  split
  · split <;> rfl
  · rfl
  · split <;> rfl
  · rfl
  · rfl

theorem HandsOver.step : HandsOver c (e1000_poll_receive 1514 s) → HandsOver c s
  | ⟨n, hok, hpc, hst⟩ => ⟨n + 1, hok, hpc, hst.trans (stored_poll s)⟩

section Deliver
variable {c : Nat} {s : Rx} (h : RxOk c s)
include h

theorem tail_delivers (hpc : s.pc = .tail len buffer) : HandsOver (c + 1) s := by
  refine ⟨1, poll_tail h hpc, ?_, stored_poll s⟩
  simp only [Function.iterate_one, e1000_poll_receive, hpc]

theorem clear_delivers (hpc : s.pc = .clear len buffer) : HandsOver (c + 1) s := by
  have htail : (e1000_poll_receive 1514 s).pc = .tail len buffer := by simp only [e1000_poll_receive, hpc]
  exact (tail_delivers (poll_clear h hpc) htail).step

omit h in
/-- The induction is on the bytes that are still to be copied. -/
theorem copy_delivers (k : Nat) {c : Nat} {s : Rx} (h : RxOk c s)
    (hpc : s.pc = .copy len buffer) (hk : len.toNat ≤ buffer.length + k) : HandsOver (c + 1) s := by
  induction k generalizing s buffer with
  | zero =>
    rw [Nat.add_zero] at hk
    have hclear : (e1000_poll_receive 1514 s).pc = .clear len buffer := by
      simp only [e1000_poll_receive, hpc, if_neg (Nat.not_lt.mpr hk)]
    exact (clear_delivers (poll_copy h hpc) hclear).step
  | succ k ih =>
    by_cases hmore : buffer.length < len.toNat
    · have hnext : (e1000_poll_receive 1514 s).pc =
          .copy len (buffer ++ [(s.memory (s.rx_ring s.rx_idx).addr).getD buffer.length 0]) := by
        simp only [e1000_poll_receive, hpc, if_pos hmore]
      refine (ih (poll_copy h hpc) hnext ?_).step
      rw [List.length_append, List.length_singleton]
      omega
    · exact ih h hpc (by omega)

theorem length_delivers (hpc : s.pc = .length) : HandsOver (c + 1) s := by
  have hcopy : (e1000_poll_receive 1514 s).pc =
      .copy (if 1514 < (s.rx_ring s.rx_idx).length then 1514 else (s.rx_ring s.rx_idx).length) [] := by
    simp only [e1000_poll_receive, hpc]
  exact (copy_delivers _ (poll_length h hpc) hcopy (Nat.le_add_left _ _)).step

theorem idle_delivers (hpc : s.pc = .idle) (hlt : c < s.stored.length) : HandsOver (c + 1) s := by
  have hdd : ¬ (s.rx_ring s.rx_idx).status &&& E1000_RXD_STAT_DD = 0 :=
    fun hdd => Nat.ne_of_lt hlt (h.drained hpc hdd)
  have hlen : (e1000_poll_receive 1514 s).pc = .length := by simp only [e1000_poll_receive, hpc, if_neg hdd]
  exact (length_delivers (poll_idle h hpc) hlen).step

/-- A call that has begun ends with its frame. -/
theorem call_delivers (hpc : s.pc ≠ .idle) : HandsOver (c + 1) s := by
  cases hpc' : s.pc with
  | idle => exact absurd hpc' hpc
  | length => exact length_delivers h hpc'
  | copy len buffer => exact copy_delivers _ h hpc' (Nat.le_add_left _ _)
  | clear len buffer => exact clear_delivers h hpc'
  | tail len buffer => exact tail_delivers h hpc'

omit h in
theorem drain (k : Nat) {c : Nat} {s : Rx} (h : RxOk c s) (hpc : s.pc = .idle) (hk : s.stored.length = c + k) :
    HandsOver s.stored.length s := by
  induction k generalizing c s with
  | zero =>
    rw [hk]
    exact ⟨0, h, hpc, rfl⟩
  | succ k ih =>
    obtain ⟨n, hok, hidle, hst⟩ := idle_delivers h hpc (by omega)
    obtain ⟨m, hok', hidle', hst'⟩ := ih hok hidle (by rw [hst]; omega)
    refine ⟨m + n, ?_⟩
    rw [Function.iterate_add_apply]
    exact ⟨by rw [← hst]; exact hok', hidle', hst'.trans hst⟩

/-- The polls return all that the NIC has stored. -/
theorem RxOk.delivers : ∃ n, frames ((e1000_poll_receive 1514)^[n] s) = s.stored := by
  have all : ∀ {t : Rx} {d}, RxOk d t → t.pc = .idle → ∃ n, frames ((e1000_poll_receive 1514)^[n] t) = t.stored := by
    intro t d ht hidle
    obtain ⟨n, hok, -, hst⟩ := drain _ ht hidle (Nat.add_sub_of_le ht.behind).symm
    refine ⟨n, ?_⟩
    rw [hok.order, hst, List.take_length]
  by_cases hpc : s.pc = .idle
  · exact all h hpc
  · obtain ⟨n, hok, hidle, hst⟩ := call_delivers h hpc
    obtain ⟨m, hm⟩ := all hok hidle
    exact ⟨m + n, by rw [Function.iterate_add_apply, hm, hst]⟩

end Deliver

/-! Runs from `e1000_init`. -/

theorem init_rx {p p' : Phys} {memory : UInt64 → List UInt8} {rx : Rx} {tx : Tx} (hp : PoolOk p)
    (hinit : e1000_init p memory = some (rx, tx, p')) : RxOk 0 rx := by
  obtain ⟨⟨bufs, q⟩, hb, he⟩ := Option.map_eq_some_iff.mp hinit
  obtain ⟨rfl, -⟩ := Prod.mk.inj he
  obtain ⟨-, hpages⟩ := rxBuffers_pages hp hb
  refine ⟨?_, rfl, rfl, rfl, Nat.le_refl 0, Nat.zero_le _, ?_, rfl, ?_, ?_, ?_, ?_⟩
  · intro i j hij
    have hi := hpages i i.isLt
    have hj := hpages j j.isLt
    change bufs.getD i 0 = bufs.getD j 0 at hij
    rw [hij] at hi
    exact Fin.ext (by omega)
  · exact fun f hf => absurd hf List.not_mem_nil
  · exact fun a f hf => absurd hf (Option.some_ne_none f).symm
  · exact fun a _ _ => no_status
  · exact fun _ => no_status
  · exact fun hn => absurd rfl hn

theorem run_rx {rx : Rx} (h : RxOk c rx) (hrun : RxRun rx s) : ∃ c, RxOk c s := by
  induction hrun with
  | start => exact ⟨c, h⟩
  | arrive f _ ih =>
    obtain ⟨d, hd⟩ := ih
    exact ⟨d, hd.arrive f⟩
  | poll _ ih =>
    obtain ⟨d, hd⟩ := ih
    exact hd.poll

/-- The frames returned are the first of those stored. A call that finds no frame has returned them all, and
the polls alone get there from any state. The descriptor that the NIC fills next was read and given back. -/
theorem receive_in_order (mem_map : List MemoryDescriptor) (page : UInt64 → Fin 512 → UInt64) {p p' : Phys}
    (hp : PoolRun (pmm_init mem_map (Phys.load page)) p) {memory : UInt64 → List UInt8} {rx : Rx} {tx : Tx}
    (hinit : e1000_init p memory = some (rx, tx, p')) {s : Rx} (hrun : RxRun rx s) :
    frames s <+: s.stored ∧
    (s.pc = .idle → (s.rx_ring s.rx_idx).status &&& E1000_RXD_STAT_DD = 0 → frames s = s.stored) ∧
    (∃ n, frames ((e1000_poll_receive 1514)^[n] s) = s.stored) ∧
    (s.RDH ≠ s.RDT →
      (s.rx_ring s.RDH).status &&& E1000_RXD_STAT_DD = 0 ∧ (s.pc ≠ .idle → s.RDH ≠ s.rx_idx)) := by
  obtain ⟨c, h⟩ := run_rx (init_rx (run_pool (init_ok mem_map page) hp).2.1 hinit) hrun
  refine ⟨?_, fun hpc hdd => ?_, h.delivers, h.unread⟩
  · rw [h.order]
    exact List.take_prefix c s.stored
  · rw [h.order, h.drained hpc hdd, List.take_length]

def ramMap : List MemoryDescriptor := [⟨EfiConventionalMemory, 0x1000000, 0x100, by decide, by decide⟩]

theorem first_frame_delivered : ∃ rx tx p',
    e1000_init (pmm_init ramMap (Phys.load fun _ _ => 0)) (fun _ => []) = some (rx, tx, p') ∧
    ∃ n, frames ((e1000_poll_receive 1514)^[n] (rx.arrive [8, 0])) = [[8, 0]] := by
  have hsome : (e1000_init (pmm_init ramMap (Phys.load fun _ _ => 0)) fun _ => []).isSome := by decide +kernel
  obtain ⟨⟨rx, tx, p'⟩, hinit⟩ := Option.isSome_iff_exists.mp hsome
  have hstored : (rx.arrive [8, 0]).stored = [[8, 0]] := by
    obtain ⟨⟨bufs, q⟩, -, he⟩ := Option.map_eq_some_iff.mp hinit
    rw [← (Prod.mk.inj he).1]
    rfl
  have hrun : RxRun rx (rx.arrive [8, 0]) := .arrive ⟨[8, 0], by decide⟩ .start
  obtain ⟨-, -, hn, -⟩ := receive_in_order ramMap (fun _ _ => 0) .start hinit hrun
  rw [hstored] at hn
  exact ⟨rx, tx, p', hinit, hn⟩

end Angelic.Proofs
