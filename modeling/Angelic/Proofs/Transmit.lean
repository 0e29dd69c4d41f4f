import Mathlib.Logic.Function.Iterate
import Angelic.Proofs.Receive

namespace Angelic.Proofs
open Model

variable {j t : Nat} {writes : List (Fin 32 × TxField)} {segs : List (UInt64 × UInt16)} {asked : List Segment}

/-! Runs of the NIC and the senders. -/

def Idle (s : Tx) : Prop := ∃ result, s.pc = .idle result

/-- A run of calls and of the NIC. `P` is asked of the state before each access of a call. -/
inductive TxRun (P : Tx → Prop) (start : Tx) : Tx → Prop
  | start : TxRun P start start
  | scatter {s : Tx} (segs : List (UInt64 × UInt16)) :
      TxRun P start s → Idle s → TxRun P start (e1000_send_scatter segs s)
  | raw {s : Tx} (data : UInt64) (len : UInt16) :
      TxRun P start s → Idle s → TxRun P start (e1000_send_raw data len s)
  | step {s : Tx} : TxRun P start s → P s → TxRun P start (sendStep s)
  | consume {s : Tx} : TxRun P start s → TxRun P start s.consume

/-- The NIC still owns the descriptor: the tail was moved over it and the NIC is not done with it. -/
def Outstanding (s : Tx) (i : Fin 32) : Prop :=
  ∃ a, s.sent.length ≤ a ∧ a < s.queued.length ∧ i = slotOf a

structure Safe (s : Tx) : Prop where
  write : ∀ {slot field writes asked}, s.pc = .fill ((slot, field) :: writes) asked → ¬ Outstanding s slot
  full : s.TDH = s.TDT → s.sent.length = s.queued.length
  resumes : (Tx.consume^[s.queued.length - s.sent.length] s).sent = s.queued

/-- When the tail is moved, one descriptor of the ring stays free. -/
def LeavesSlot (s : Tx) : Prop :=
  ∀ {asked}, s.pc = .fill [] asked → s.queued.length + asked.length < s.sent.length + 32

/-! What the writes of a call make of the ring. -/

def applyWrites (ring : Fin 32 → TxDesc) (writes : List (Fin 32 × TxField)) : Fin 32 → TxDesc :=
  writes.foldl (fun ring w => Function.update ring w.1 ((ring w.1).write w.2)) ring

/-- The fields written to one slot. -/
def fieldsAt (i : Fin 32) (writes : List (Fin 32 × TxField)) : List TxField :=
  writes.filterMap fun w => if w.1 = i then some w.2 else none

theorem fieldsAt_cons (i : Fin 32) (w : Fin 32 × TxField) (ws : List (Fin 32 × TxField)) :
    fieldsAt i (w :: ws) = if w.1 = i then w.2 :: fieldsAt i ws else fieldsAt i ws := by
  rw [fieldsAt, List.filterMap_cons]
  split_ifs <;> rfl

theorem applyWrites_at (writes : List (Fin 32 × TxField)) (ring : Fin 32 → TxDesc) (i : Fin 32) :
    applyWrites ring writes i = (fieldsAt i writes).foldl TxDesc.write (ring i) := by
  induction writes generalizing ring with
  | nil => rfl
  | cons w ws ih =>
    change applyWrites (Function.update ring w.1 ((ring w.1).write w.2)) ws i = _
    rw [ih, fieldsAt_cons]
    by_cases hi : w.1 = i
    · rw [if_pos hi, ← hi, Function.update_self]
      rfl
    · rw [if_neg hi, Function.update_of_ne (Ne.symm hi)]

/-- The descriptor holds the segment, and the NIC reports when it is done with it. -/
structure DescReady (d : TxDesc) (seg : Segment) : Prop where
  segment : d.segment = seg
  reports : d.cmd &&& E1000_TXD_CMD_RS ≠ 0
  pending : d.status &&& E1000_TXD_STAT_DD = 0

/-- The blocks of the other slots write nothing to this one. -/
theorem fieldsAt_range {n : Nat} {i : Fin 32} {block : Nat → List (Fin 32 × TxField)} (hj : j < n)
    (hother : ∀ k < n, k ≠ j → fieldsAt i (block k) = []) :
    fieldsAt i ((List.range n).flatMap block) = fieldsAt i (block j) := by
  have hnone : ∀ m ≤ j, fieldsAt i ((List.range m).flatMap block) = [] := by
    intro m
    induction m with
    | zero => exact fun _ => rfl
    | succ m ih =>
      intro hm
      rw [List.range_succ, List.flatMap_append, List.flatMap_singleton, fieldsAt, List.filterMap_append]
      exact List.append_eq_nil_iff.mpr ⟨ih (by omega), hother m (by omega) (by omega)⟩
  induction n with
  | zero => exact absurd hj (Nat.not_lt_zero j)
  | succ n ih =>
    rw [List.range_succ, List.flatMap_append, List.flatMap_singleton, fieldsAt, List.filterMap_append]
    by_cases hjn : j = n
    · rw [hjn] at hnone ⊢
      exact (congrArg (· ++ _) (hnone n (Nat.le_refl n))).trans (List.nil_append _)
    · have hlast : fieldsAt i (block n) = [] := hother n (by omega) (Ne.symm hjn)
      refine (congrArg (_ ++ ·) hlast).trans ((List.append_nil _).trans ?_)
      exact ih (by omega) fun k hk => hother k (by omega)

/-- The block of a slot writes nothing elsewhere. -/
theorem fieldsAt_of_ne {i : Fin 32} (h : ∀ w ∈ writes, w.1 ≠ i) : fieldsAt i writes = [] :=
  List.filterMap_eq_nil_iff.mpr fun w hw => if_neg (h w hw)

theorem slotOf_val_add (a j : Nat) : slotOf ((slotOf a).val + j) = slotOf (a + j) :=
  Fin.ext (Nat.mod_add_mod a 32 j)

def scatterCmd (is_last : Bool) : UInt8 :=
  E1000_TXD_CMD_IFCS ||| E1000_TXD_CMD_RS ||| if is_last then E1000_TXD_CMD_EOP else 0

theorem scatterCmd_bits : ∀ is_last : Bool,
    decide (scatterCmd is_last &&& E1000_TXD_CMD_EOP ≠ 0) = is_last ∧ scatterCmd is_last &&& E1000_TXD_CMD_RS ≠ 0 := by
  decide

/-- The fields of a scatter call's descriptor. -/
def scatterFields (seg : UInt64 × UInt16) (is_last : Bool) : List TxField :=
  [.addr seg.1, .length seg.2, .cso 0, .css 0, .special 0, .cmd (scatterCmd is_last), .status 0]

theorem scatterFields_ready (d : TxDesc) (seg : UInt64 × UInt16) (is_last : Bool) :
    DescReady ((scatterFields seg is_last).foldl TxDesc.write d) ⟨seg.1, seg.2, is_last⟩ :=
  ⟨congrArg (Segment.mk seg.1 seg.2) (scatterCmd_bits is_last).1, (scatterCmd_bits is_last).2, no_status⟩

theorem scatterWrites_eq (n : Nat) (segs : List (UInt64 × UInt16)) :
    scatterWrites (slotOf n) segs = (List.range segs.length).flatMap fun i =>
      (scatterFields (segs.getD i (0, 0)) (i + 1 = segs.length)).map (slotOf (n + i), ·) := by
  rw [scatterWrites]
  congr 1
  funext i
  simp only [slotOf_val_add, scatterFields, scatterCmd, List.map, decide_eq_true_eq]

theorem scatterSegments_at (hj : j < segs.length) : (scatterSegments segs)[j]? =
      some ⟨(segs.getD j (0, 0)).1, (segs.getD j (0, 0)).2, j + 1 = segs.length⟩ := by
  rw [scatterSegments, List.getElem?_map, List.getElem?_range hj]
  rfl

theorem scatter_length (segs : List (UInt64 × UInt16)) : (scatterSegments segs).length = segs.length := by
  rw [scatterSegments, List.length_map, List.length_range]

/-- What is left of a call's writes, the NIC's progress aside: they stay in the `n` slots from `q` on and make them
hold the segments asked for. -/
structure Fills (q : Nat) (ring : Fin 32 → TxDesc) (writes : List (Fin 32 × TxField)) (asked : List Segment) :
    Prop where
  within : ∀ w ∈ writes, ∃ j < asked.length, w.1 = slotOf (q + j)
  ready : ∀ j seg, asked[j]? = some seg → DescReady (applyWrites ring writes (slotOf (q + j))) seg

theorem scatter_fieldsAt (q : Nat) (hn : segs.length ≤ 16) (hj : j < segs.length) :
    fieldsAt (slotOf (q + j)) (scatterWrites (slotOf q) segs) =
      scatterFields (segs.getD j (0, 0)) (j + 1 = segs.length) := by
  rw [scatterWrites_eq, fieldsAt_range hj]
  · simp [fieldsAt, scatterFields]
  · intro k hk hkj
    refine fieldsAt_of_ne fun w hw => ?_
    obtain ⟨field, -, rfl⟩ := List.mem_map.mp hw
    exact slotOf_ne (fun he => hkj (Nat.add_left_cancel he)) (Nat.le_add_right q k) (by omega)
      (Nat.le_add_right q j) (by omega)

theorem scatter_fills (q : Nat) (ring : Fin 32 → TxDesc) (hn : segs.length ≤ 16) :
    Fills q ring (scatterWrites (slotOf q) segs) (scatterSegments segs) := by
  refine ⟨fun w hw => ?_, fun j seg hseg => ?_⟩
  · rw [scatterWrites_eq] at hw
    obtain ⟨i, hi, hw⟩ := List.mem_flatMap.mp hw
    obtain ⟨field, -, rfl⟩ := List.mem_map.mp hw
    refine ⟨i, ?_, rfl⟩
    rw [scatter_length]
    exact List.mem_range.mp hi
  · have hj : j < segs.length := by
      have := (List.getElem?_eq_some_iff.mp hseg).1
      rwa [scatter_length] at this
    rw [scatterSegments_at hj] at hseg
    rw [applyWrites_at, scatter_fieldsAt q hn hj, ← Option.some.inj hseg]
    exact scatterFields_ready ..

theorem rawCmd_bits : decide ((E1000_TXD_CMD_EOP ||| E1000_TXD_CMD_RS) &&& E1000_TXD_CMD_EOP ≠ 0) = true ∧
      (E1000_TXD_CMD_EOP ||| E1000_TXD_CMD_RS) &&& E1000_TXD_CMD_RS ≠ 0 := by
  decide

theorem raw_fills (q : Nat) (ring : Fin 32 → TxDesc) (data : UInt64) (len : UInt16) :
    Fills q ring (rawWrites (slotOf q) data len) [⟨data, len, true⟩] := by
  refine ⟨fun w hw => ⟨0, Nat.one_pos, ?_⟩, fun j seg hseg => ?_⟩
  · simp only [rawWrites, List.mem_cons, List.not_mem_nil, or_false] at hw
    rcases hw with rfl | rfl | rfl | rfl <;> rfl
  · cases j with
    | succ j => exact absurd hseg (Option.some_ne_none seg).symm
    | zero =>
      rw [applyWrites_at, ← Option.some.inj hseg]
      have hself : fieldsAt (slotOf (q + 0)) (rawWrites (slotOf q) data len) =
          [.addr data, .length len, .cmd (E1000_TXD_CMD_EOP ||| E1000_TXD_CMD_RS), .status 0] := by
        simp [fieldsAt, rawWrites]
      rw [hself]
      exact ⟨congrArg (Segment.mk data len) rawCmd_bits.1, rawCmd_bits.2, no_status⟩

/-- Only the slots of the call matter. -/
theorem Fills.congr {q : Nat} {ring ring' : Fin 32 → TxDesc} (h : Fills q ring writes asked)
    (hring : ∀ j < asked.length, ring' (slotOf (q + j)) = ring (slotOf (q + j))) : Fills q ring' writes asked := by
  refine ⟨h.within, fun j seg hseg => ?_⟩
  have hready := h.ready j seg hseg
  rw [applyWrites_at] at hready ⊢
  rwa [hring j (List.getElem?_eq_some_iff.mp hseg).1]

/-! The invariant. -/

/-- A call has looked at free slots only, and its writes stay in them. -/
def CallOk (s : Tx) : SendPc → Prop
  | .idle _ => True
  | .check segs i _ => i < segs.length ∧ segs.length ≤ 16 ∧ s.queued.length + i ≤ s.sent.length + 32
  | .fill writes asked => asked ≠ [] ∧ s.queued.length + asked.length ≤ s.sent.length + 32 ∧
      Fills s.queued.length s.tx_ring writes asked
  | .wait _ _ => True

/-- The segments that were queued and not sent lie in the ring from `TDH` to `TDT`, and the ring is not full. -/
structure TxOk (s : Tx) : Prop where
  tail : s.tx_tail = slotOf s.queued.length
  tdt : s.TDT = s.tx_tail
  head : s.TDH = slotOf s.sent.length
  behind : s.sent.length ≤ s.queued.length
  ahead : s.queued.length ≤ s.sent.length + 31
  order : s.sent = s.queued.take s.sent.length
  owned : ∀ a seg, s.queued[a]? = some seg → s.sent.length ≤ a → DescReady (s.tx_ring (slotOf a)) seg
  call : CallOk s s.pc

/-- An access that only moves the call on. -/
theorem TxOk.toPc {s : Tx} (h : TxOk s) {pc : SendPc} (hcall : CallOk s pc) : TxOk { s with pc := pc } := by
  refine ⟨h.tail, h.tdt, h.head, h.behind, h.ahead, h.order, h.owned, ?_⟩
  cases pc <;> exact hcall

/-- A slot of the call is not one of the NIC's. -/
theorem slot_apart {q p a : Nat} (hroom : q + j < p + 32) (hpa : p ≤ a) (haq : a < q) : slotOf a ≠ slotOf (q + j) :=
  slotOf_ne (by omega) hpa (by omega) (by omega) hroom

section Ok
variable {s : Tx} (h : TxOk s)
include h
variable {i : Nat}

theorem TxOk.scatter (segs : List (UInt64 × UInt16)) : TxOk (e1000_send_scatter segs s) := by
  rw [e1000_send_scatter]
  split_ifs with hn
  · exact h.toPc trivial
  · obtain ⟨hpos, hmax⟩ := not_or.mp hn
    refine h.toPc ⟨Nat.pos_of_ne_zero hpos, Nat.not_lt.mp hmax, ?_⟩
    have := h.ahead
    omega

theorem TxOk.raw (data : UInt64) (len : UInt16) : TxOk (e1000_send_raw data len s) := by
  refine h.toPc ⟨List.cons_ne_nil _ _, Nat.succ_le_succ h.ahead, ?_⟩
  rw [h.tail]
  exact raw_fills ..

/-- The NIC has set `DD` in a slot that a call looks at only if it does not own it. -/
theorem TxOk.free (hi : i < 16) (hroom : s.queued.length + i ≤ s.sent.length + 32)
    (hdone : (s.tx_ring (slotOf (s.tx_tail.val + i))).status &&& E1000_TXD_STAT_DD ≠ 0) :
    s.queued.length + i < s.sent.length + 32 := by
  refine Nat.lt_of_le_of_ne hroom fun he => hdone ?_
  -- otherwise the slot is the one at `TDH`
  have hlt : s.sent.length < s.queued.length := by omega
  rw [h.tail, slotOf_val_add, he, slotOf_wrap]
  exact (h.owned _ _ (List.getElem?_eq_getElem hlt) (Nat.le_refl _)).pending

theorem TxOk.slotFree (hi : i < segs.length) (hn : segs.length ≤ 16)
    (hlt : s.queued.length + i < s.sent.length + 32) : CallOk s (slotFree s segs i) := by
  rw [Model.slotFree]
  split_ifs with hmore
  · exact ⟨hmore, hn, hlt⟩
  · refine ⟨?_, ?_, ?_⟩
    · intro hnil
      have := scatter_length segs
      rw [hnil, List.length_nil] at this
      omega
    · rw [scatter_length]
      omega
    · rw [h.tail]
      exact scatter_fills _ _ hn

theorem TxOk.check (hpc : s.pc = .check segs i t) : TxOk (sendStep s) := by
  have hcall := h.call
  rw [hpc] at hcall
  obtain ⟨hi, hn, hroom⟩ := hcall
  have hfree := fun hdone => h.slotFree hi hn (h.free (Nat.lt_of_lt_of_le hi hn) hroom hdone)
  simp only [sendStep, hpc]
  split_ifs with h0 hdone ht hdone hdone
  · exact h.toPc (hfree hdone)
  · exact h.toPc ⟨hi, hn, hroom⟩
  · exact h.toPc ⟨hi, hn, hroom⟩
  · exact h.toPc ⟨hi, hn, hroom⟩
  · exact h.toPc (hfree hdone)
  · exact h.toPc trivial

theorem TxOk.fill {slot : Fin 32} {field : TxField}
    (hpc : s.pc = .fill ((slot, field) :: writes) asked) : TxOk (sendStep s) := by
  have hcall := h.call
  rw [hpc] at hcall
  obtain ⟨hne, hroom, hfills⟩ := hcall
  obtain ⟨j, hj, hslot⟩ := hfills.within (slot, field) List.mem_cons_self
  change slot = slotOf (s.queued.length + j) at hslot
  have hroomj : s.queued.length + j < s.sent.length + 32 := by omega
  simp only [sendStep, hpc]
  refine ⟨h.tail, h.tdt, h.head, h.behind, h.ahead, h.order, fun a seg hseg ha => ?_, hne, hroom, ?_⟩
  · have haq := (List.getElem?_eq_some_iff.mp hseg).1
    have hapart : slotOf a ≠ slot := by
      rw [hslot]
      exact slot_apart hroomj ha haq
    change DescReady (Function.update s.tx_ring slot _ (slotOf a)) seg
    rw [Function.update_of_ne hapart]
    exact h.owned a seg hseg ha
  · exact ⟨fun w hw => hfills.within w (List.mem_cons_of_mem _ hw), hfills.ready⟩

theorem TxOk.moveTail (hpc : s.pc = .fill [] asked) (hleaves : LeavesSlot s) : TxOk (sendStep s) := by
  have hcall := h.call
  rw [hpc] at hcall
  obtain ⟨-, -, hfills⟩ := hcall
  have hbehind := h.behind
  have hlen : (s.queued ++ asked).length = s.queued.length + asked.length := List.length_append
  simp only [sendStep, hpc]
  refine ⟨?_, rfl, h.head, ?_, ?_, ?_, fun a seg hseg ha => ?_, trivial⟩
  · rw [h.tail, slotOf_val_add, hlen]
  · rw [hlen]
    exact Nat.le_trans hbehind (Nat.le_add_right _ _)
  · rw [hlen]
    exact Nat.le_of_lt_succ (hleaves hpc)
  · rw [List.take_append_of_le_length hbehind]
    exact h.order
  · change (s.queued ++ asked)[a]? = some seg at hseg
    by_cases haq : a < s.queued.length
    · rw [List.getElem?_append_left haq] at hseg
      exact h.owned a seg hseg ha
    · rw [List.getElem?_append_right (Nat.not_lt.mp haq)] at hseg
      have hready := hfills.ready _ seg hseg
      rwa [Nat.add_sub_of_le (Nat.not_lt.mp haq)] at hready

theorem TxOk.wait {last : Fin 32} (hpc : s.pc = .wait last t) : TxOk (sendStep s) := by
  simp only [sendStep, hpc]
  split_ifs
  · exact h.toPc trivial
  · exact h.toPc trivial
  · exact h.toPc trivial

theorem TxOk.step (hleaves : LeavesSlot s) : TxOk (sendStep s) := by
  cases hpc : s.pc with
  | idle result =>
    simp only [sendStep, hpc]
    exact h
  | check segs i t => exact h.check hpc
  | fill writes asked =>
    cases writes with
    | nil => exact h.moveTail hpc hleaves
    | cons w ws => exact h.fill hpc
  | wait last t => exact h.wait hpc

theorem TxOk.outstanding (hne : s.TDH ≠ s.TDT) : s.sent.length < s.queued.length := by
  refine Nat.lt_of_le_of_ne h.behind fun he => hne ?_
  rw [h.head, h.tdt, h.tail, he]

theorem TxOk.nonempty (hlt : s.sent.length < s.queued.length) : s.TDH ≠ s.TDT := by
  intro he
  rw [h.head, h.tdt, h.tail] at he
  have := slotOf_inj he h.behind (Nat.lt_succ_of_le h.ahead)
  omega

theorem TxOk.consume_sent (hlt : s.sent.length < s.queued.length) :
    s.consume.sent = s.queued.take (s.sent.length + 1) := by
  have hseg := List.getElem?_eq_getElem hlt
  have hready := h.owned _ _ hseg (Nat.le_refl _)
  rw [Tx.consume, if_neg (h.nonempty hlt)]
  change s.sent ++ [(s.tx_ring s.TDH).segment] = _
  rw [h.head, hready.segment, List.take_add_one, ← h.order, hseg]
  rfl

theorem TxOk.consume : TxOk s.consume := by
  by_cases hne : s.TDH = s.TDT
  · rw [Tx.consume, if_pos hne]
    exact h
  have hlt := h.outstanding hne
  have hahead := h.ahead
  have hsent := h.consume_sent hlt
  have hlen : s.consume.sent.length = s.sent.length + 1 := by
    rw [hsent, List.length_take]
    omega
  have hqueued : s.consume.queued = s.queued := by rw [Tx.consume, if_neg hne]
  have hpc : s.consume.pc = s.pc := by rw [Tx.consume, if_neg hne]
  have hring : ∀ i, i ≠ s.TDH → s.consume.tx_ring i = s.tx_ring i := by
    intro i hi
    rw [Tx.consume, if_neg hne]
    dsimp only
    split_ifs
    · rfl
    · exact Function.update_of_ne hi _ _
  refine ⟨?_, ?_, ?_, ?_, ?_, ?_, fun a seg hseg ha => ?_, ?_⟩
  · rw [hqueued, ← h.tail, Tx.consume, if_neg hne]
  · rw [Tx.consume, if_neg hne]
    exact h.tdt
  · rw [hlen, ← nextSlot_slotOf, ← h.head, Tx.consume, if_neg hne]
  · rw [hlen, hqueued]
    exact hlt
  · rw [hlen, hqueued]
    omega
  · rw [hlen, hqueued]
    exact hsent
  · rw [hqueued] at hseg
    rw [hlen] at ha
    have haq := (List.getElem?_eq_some_iff.mp hseg).1
    rw [hring]
    · exact h.owned a seg hseg (by omega)
    · rw [h.head]
      exact slotOf_ne (by omega) (by omega : s.sent.length ≤ a) (by omega) (Nat.le_refl _) (by omega)
  · have hcall := h.call
    rw [hpc]
    cases hp : s.pc with
    | idle result => trivial
    | check segs i t =>
      rw [hp] at hcall
      obtain ⟨hi, hn, hroom⟩ := hcall
      refine ⟨hi, hn, ?_⟩
      rw [hqueued, hlen]
      omega
    | fill writes asked =>
      rw [hp] at hcall
      obtain ⟨hnil, hroom, hfills⟩ := hcall
      refine ⟨hnil, ?_, ?_⟩
      · rw [hqueued, hlen]
        omega
      · rw [hqueued]
        refine hfills.congr fun j hj => hring _ ?_
        rw [h.head]
        exact (slot_apart (by omega) (Nat.le_refl _) hlt).symm
    | wait last t => trivial

end Ok

theorem TxOk.resumes (k : Nat) {s : Tx} (h : TxOk s) (hk : s.queued.length - s.sent.length = k) :
    (Tx.consume^[k] s).sent = s.queued := by
  induction k generalizing s with
  | zero =>
    have hbehind := h.behind
    change s.sent = s.queued
    rw [h.order, List.take_of_length_le (by omega)]
  | succ k ih =>
    have hlt : s.sent.length < s.queued.length := by omega
    have hqueued : s.consume.queued = s.queued := by rw [Tx.consume, if_neg (h.nonempty hlt)]
    rw [Function.iterate_succ_apply, ih h.consume, hqueued]
    rw [hqueued, h.consume_sent hlt, List.length_take]
    omega

theorem TxOk.safe {s : Tx} (h : TxOk s) : Safe s := by
  refine ⟨fun {slot field writes asked} hpc => ?_, fun he => ?_, h.resumes _ rfl⟩
  · rintro ⟨a, hpa, haq, hslot⟩
    have hcall := h.call
    rw [hpc] at hcall
    obtain ⟨-, hroom, hfills⟩ := hcall
    obtain ⟨j, hj, hw⟩ := hfills.within (slot, field) List.mem_cons_self
    exact slot_apart (by omega) hpa haq (hslot.symm.trans hw)
  · by_contra hne
    exact h.nonempty (Nat.lt_of_le_of_ne h.behind hne) he

/-- A call that takes the last free descriptor makes the full ring look empty. -/
theorem TxOk.leavesSlot {s : Tx} (h : TxOk s) (hsafe : Safe (sendStep s)) : LeavesSlot s := by
  intro asked hpc
  have hcall := h.call
  rw [hpc] at hcall
  obtain ⟨hnil, hroom, -⟩ := hcall
  refine Nat.lt_of_le_of_ne hroom fun he => ?_
  have hpos : 0 < asked.length := List.length_pos_iff.mpr hnil
  have hfull := hsafe.full
  simp only [sendStep, hpc] at hfull
  have := hfull (by rw [h.tail, slotOf_val_add, he, slotOf_wrap, h.head])
  rw [List.length_append] at this
  have hbehind := h.behind
  omega

theorem init_tx {p p' : Phys} {memory : UInt64 → List UInt8} {rx : Rx} {tx : Tx}
    (hinit : e1000_init p memory = some (rx, tx, p')) : TxOk tx := by
  obtain ⟨⟨bufs, q⟩, hb, he⟩ := Option.map_eq_some_iff.mp hinit
  obtain ⟨rfl, -⟩ := Prod.mk.inj (Prod.mk.inj he).2
  refine ⟨rfl, rfl, rfl, Nat.le_refl 0, Nat.zero_le _, rfl, ?_, trivial⟩
  exact fun a seg hseg => absurd hseg (Option.some_ne_none seg).symm

theorem run_tx {tx s : Tx} (h : TxOk tx) (hrun : TxRun LeavesSlot tx s) : TxOk s := by
  induction hrun with
  | start => exact h
  | scatter segs _ _ ih => exact ih.scatter segs
  | raw data len _ _ ih => exact ih.raw data len
  | step _ hleaves ih => exact ih.step hleaves
  | consume _ ih => exact ih.consume

/-- The one access that may break the ring is the move of the tail over its last free descriptor. -/
theorem sends_safe_iff {p p' : Phys} {memory : UInt64 → List UInt8} {rx : Rx} {tx : Tx}
    (hinit : e1000_init p memory = some (rx, tx, p')) {s : Tx} (hrun : TxRun LeavesSlot tx s) :
    Safe s ∧ (Safe (sendStep s) ↔ LeavesSlot s) := by
  have h := run_tx (init_tx hinit) hrun
  exact ⟨h.safe, h.leavesSlot, fun hleaves => (h.step hleaves).safe⟩

theorem init_ram : ∃ rx tx p', e1000_init (pmm_init ramMap (Phys.load fun _ _ => 0)) (fun _ => []) = some (rx, tx, p') ∧
    tx = ⟨fun _ => ⟨0, 0, 0, 0, E1000_TXD_STAT_DD, 0, 0⟩, 0, 0, 0, .idle none, [], []⟩ := by
  have hsome : (e1000_init (pmm_init ramMap (Phys.load fun _ _ => 0)) fun _ => []).isSome := by decide +kernel
  obtain ⟨⟨rx, tx, p'⟩, hinit⟩ := Option.isSome_iff_exists.mp hsome
  obtain ⟨⟨bufs, q⟩, -, he⟩ := Option.map_eq_some_iff.mp hinit
  exact ⟨rx, tx, p', hinit, (Prod.mk.inj (Prod.mk.inj he).2).1.symm⟩

theorem first_send_safe : ∃ rx tx p',
    e1000_init (pmm_init ramMap (Phys.load fun _ _ => 0)) (fun _ => []) = some (rx, tx, p') ∧
    Safe (e1000_send_raw 0x1000 64 tx) := by
  obtain ⟨rx, tx, p', hinit, htx⟩ := init_ram
  have hidle : Idle tx := ⟨none, by rw [htx]⟩
  exact ⟨rx, tx, p', hinit, (sends_safe_iff hinit (.raw 0x1000 64 .start hidle)).1⟩

/-! A NIC that does nothing for two calls. -/

/-- The wait for the last descriptor ends without it. -/
theorem wait_times_out (k : Nat) {s : Tx} {last : Fin 32} (hpc : s.pc = .wait last t)
    (hdd : (s.tx_ring last).status &&& E1000_TXD_STAT_DD = 0) (hk : t + k = E1000_TX_TIMEOUT) :
    ∃ n, sendStep^[n] s = { s with pc := .idle (some (-1)) } := by
  induction k generalizing s t with
  | zero =>
    refine ⟨1, ?_⟩
    rw [Function.iterate_one]
    simp only [sendStep, hpc]
    rw [if_neg (not_not.mpr hdd), if_neg (by omega)]
  | succ k ih =>
    by_cases hmore : t + 1 < E1000_TX_TIMEOUT
    · have hstep : sendStep s = { s with pc := .wait last (t + 1) } := by
        simp only [sendStep, hpc]
        rw [if_neg (not_not.mpr hdd), if_pos hmore]
      obtain ⟨n, hn⟩ := ih (congrArg Tx.pc hstep) (by rw [hstep]; exact hdd) (by omega)
      refine ⟨n + 1, ?_⟩
      rw [Function.iterate_succ_apply, hn, hstep]
    · refine ⟨1, ?_⟩
      rw [Function.iterate_one]
      simp only [sendStep, hpc]
      rw [if_neg (not_not.mpr hdd), if_neg hmore]

theorem TxRun.iterate {tx s : Tx} (h : TxRun (fun _ => True) tx s) (n : Nat) :
    TxRun (fun _ => True) tx (sendStep^[n] s) := by
  induction n generalizing s with
  | zero => exact h
  | succ n ih => exact ih (.step h trivial)

def halfRing : List (UInt64 × UInt16) := List.replicate 16 (0x1000, 64)

/-- Sixteen looks, sixteen times seven writes and the move of the tail. -/
def sendHalf (s : Tx) : Tx := sendStep^[129] (e1000_send_scatter halfRing s)

/-- All 32 descriptors are outstanding and the NIC sees an empty ring. -/
theorem stalled_ring_lost : ∃ rx tx p' s,
    e1000_init (pmm_init ramMap (Phys.load fun _ _ => 0)) (fun _ => []) = some (rx, tx, p') ∧
    TxRun (fun _ => True) tx s ∧ s.queued.length = 32 ∧ s.sent = [] ∧ s.TDH = s.TDT ∧ s.consume = s ∧ ¬ Safe s := by
  obtain ⟨rx, tx, p', hinit, htx⟩ := init_ram
  have hfirst : (sendHalf tx).pc = .wait 15 0 ∧
      ((sendHalf tx).tx_ring 15).status &&& E1000_TXD_STAT_DD = 0 := by
    rw [htx]
    decide +kernel
  obtain ⟨n, hn⟩ := wait_times_out E1000_TX_TIMEOUT hfirst.1 hfirst.2 (Nat.zero_add _)
  have hrun : TxRun (fun _ => True) tx { sendHalf tx with pc := .idle (some (-1)) } := by
    rw [← hn]
    exact ((TxRun.scatter halfRing .start ⟨none, by rw [htx]⟩).iterate 129).iterate n
  have hboth : (sendHalf { sendHalf tx with pc := .idle (some (-1)) }).queued.length = 32 ∧
      (sendHalf { sendHalf tx with pc := .idle (some (-1)) }).sent = [] ∧
      (sendHalf { sendHalf tx with pc := .idle (some (-1)) }).TDH =
        (sendHalf { sendHalf tx with pc := .idle (some (-1)) }).TDT := by
    rw [htx]
    decide +kernel
  obtain ⟨hqueued, hsent, hfull⟩ := hboth
  refine ⟨rx, tx, p', _, hinit, (hrun.scatter halfRing ⟨_, rfl⟩).iterate 129, hqueued, hsent, hfull, if_pos hfull, ?_⟩
  intro hsafe
  have := hsafe.full hfull
  change (sendHalf _).sent.length = (sendHalf _).queued.length at this
  rw [hqueued, hsent] at this
  exact absurd this (by decide)

end Angelic.Proofs
