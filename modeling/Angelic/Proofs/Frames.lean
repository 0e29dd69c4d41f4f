import Angelic.Model.Netif
import Angelic.Proofs.Transmit

namespace Angelic.Proofs
open Model

/-! The frame that a chain of pbufs becomes. -/

/-- A call of the driver goes on, and the NIC acts in between. -/
inductive Sending (start : Tx) : Tx → Prop
  | start : Sending start start
  | step {t : Tx} : Sending start t → Sending start (sendStep t)
  | consume {t : Tx} : Sending start t → Sending start t.consume

/-- The descriptors that the tail was moved over since a state. -/
def handedOver (s t : Tx) : List TxDesc :=
  (List.range ((t.tx_tail.val + 32 - s.tx_tail.val) % 32)).map fun i => t.tx_ring (slotOf (s.tx_tail.val + i))

/-- The bytes of a chain. -/
def chainBytes (ram : UInt64 → UInt8) (p : List TxPbuf) : List UInt8 :=
  p.flatMap fun q => bytesAt ram q.payload q.len.toNat

/-- Descriptors that make up one frame with these bytes. -/
structure OneFrame (ram : UInt64 → UInt8) (ds : List TxDesc) (bytes : List UInt8) : Prop where
  contents : ds.flatMap (fun d => bytesAt ram d.addr d.length.toNat) = bytes
  last : ∀ i d, ds[i]? = some d → (d.cmd &&& E1000_TXD_CMD_EOP ≠ 0 ↔ i + 1 = ds.length)
  fcs : ∀ d ∈ ds, d.cmd &&& E1000_TXD_CMD_IFCS ≠ 0

/-- In every state the call goes through and in every one after it, either nothing has been handed to the NIC or all
of the chain has, as one frame. -/
def SentWhole (fallback : UInt64) (p : List TxPbuf) (s : Netif) : Prop :=
  ∀ t, Sending (low_level_output_zerocopy fallback p s).tx t →
    t.tx_tail = s.tx.tx_tail ∧ t.TDT = s.tx.TDT ∨
      t.TDT = t.tx_tail ∧
        OneFrame (low_level_output_zerocopy fallback p s).ram (handedOver s.tx t) (chainBytes s.ram p)

/-! What the NIC does not write. -/

/-- A descriptor without its status. -/
def requestOf (d : TxDesc) : UInt64 × UInt16 × UInt8 := (d.addr, d.length, d.cmd)

theorem write_request {d d' : TxDesc} (h : requestOf d = requestOf d') (f : TxField) :
    requestOf (d.write f) = requestOf (d'.write f) := by
  simp only [requestOf, Prod.mk.injEq] at h ⊢
  obtain ⟨h1, h2, h3⟩ := h
  cases f <;> simp [TxDesc.write, h1, h2, h3]

theorem writes_request {d d' : TxDesc} (h : requestOf d = requestOf d') (fs : List TxField) :
    requestOf (fs.foldl TxDesc.write d) = requestOf (fs.foldl TxDesc.write d') := by
  induction fs generalizing d d' with
  | nil => exact h
  | cons f fs ih => exact ih (write_request h f)

theorem consume_request (s : Tx) (i : Fin 32) : requestOf (s.consume.tx_ring i) = requestOf (s.tx_ring i) := by
  unfold Tx.consume
  split
  · rfl
  · dsimp only
    split
    · rfl
    · by_cases hi : i = s.TDH
      · subst hi
        rw [Function.update_self]
        rfl
      · rw [Function.update_of_ne hi]

@[simp] theorem consume_tail (s : Tx) : s.consume.tx_tail = s.tx_tail := by
  unfold Tx.consume
  split <;> rfl

@[simp] theorem consume_TDT (s : Tx) : s.consume.TDT = s.TDT := by
  unfold Tx.consume
  split <;> rfl

@[simp] theorem consume_pc (s : Tx) : s.consume.pc = s.pc := by
  unfold Tx.consume
  split <;> rfl

theorem consume_writes (s : Tx) (writes : List (Fin 32 × TxField)) (i : Fin 32) :
    requestOf (applyWrites s.consume.tx_ring writes i) = requestOf (applyWrites s.tx_ring writes i) := by
  rw [applyWrites_at, applyWrites_at]
  exact writes_request (consume_request s i) _

/-! The scatter call. -/

section Scatter
variable {s t : Tx} {segs : List (UInt64 × UInt16)}

/-- What the descriptor of a segment is to hold. -/
def wanted (segs : List (UInt64 × UInt16)) (j : Nat) : UInt64 × UInt16 × UInt8 :=
  ((segs.getD j (0, 0)).1, (segs.getD j (0, 0)).2, scatterCmd (j + 1 = segs.length))

def Kept (s t : Tx) : Prop := t.tx_tail = s.tx_tail ∧ t.TDT = s.TDT

/-- The tail is behind the descriptors of the segments. -/
structure Carried (s : Tx) (segs : List (UInt64 × UInt16)) (t : Tx) : Prop where
  tail : t.tx_tail = slotOf (s.tx_tail.val + segs.length)
  register : t.TDT = t.tx_tail
  holds : ∀ j < segs.length, requestOf (t.tx_ring (slotOf (s.tx_tail.val + j))) = wanted segs j

/-- Nothing is handed over before all descriptors are written. -/
def ScatterOk (s : Tx) (segs : List (UInt64 × UInt16)) (t : Tx) : SendPc → Prop
  | .idle _ => Kept s t ∨ Carried s segs t
  | .check segs' _ _ => segs' = segs ∧ Kept s t
  | .fill writes asked => Kept s t ∧ asked.length = segs.length ∧
      ∀ j < segs.length, requestOf (applyWrites t.tx_ring writes (slotOf (s.tx_tail.val + j))) = wanted segs j
  | .wait _ _ => Carried s segs t

theorem slotOf_val (i : Fin 32) : slotOf i.val = i := Fin.ext (Nat.mod_eq_of_lt i.isLt)

theorem scatter_wanted (hn : segs.length ≤ 16) (ring : Fin 32 → TxDesc) (tail : Fin 32) {j : Nat} (hj : j < segs.length) :
    requestOf (applyWrites ring (scatterWrites tail segs) (slotOf (tail.val + j))) = wanted segs j := by
  have hfields := scatter_fieldsAt tail.val hn hj
  rw [slotOf_val] at hfields
  rw [applyWrites_at, hfields]
  rfl

theorem ScatterOk.toPc {pc : SendPc} (h : ScatterOk s segs t pc) (pc' : SendPc) : ScatterOk s segs { t with pc := pc' } pc := by
  cases pc with
  | idle r => exact h.imp id fun hm => ⟨hm.tail, hm.register, hm.holds⟩
  | check segs' i k => exact h
  | fill writes asked => exact h
  | wait last k => exact ⟨h.tail, h.register, h.holds⟩

theorem ScatterOk.slotFree (hn : segs.length ≤ 16) (hk : Kept s t) (i : Nat) :
    ScatterOk s segs t (slotFree t segs i) := by
  unfold Model.slotFree
  split
  · exact ⟨rfl, hk⟩
  · refine ⟨hk, scatter_length segs, fun j hj => ?_⟩
    rw [← hk.1]
    exact scatter_wanted hn t.tx_ring t.tx_tail hj

theorem ScatterOk.step (hn : segs.length ≤ 16) (h : ScatterOk s segs t t.pc) :
    ScatterOk s segs (sendStep t) (sendStep t).pc := by
  unfold sendStep
  cases hpc : t.pc with
  | idle r =>
    rw [hpc] at h
    dsimp only
    rw [hpc]
    exact h
  | check segs' i k =>
    rw [hpc] at h
    obtain ⟨rfl, hk⟩ := h
    dsimp only
    split
    · split
      · exact (ScatterOk.slotFree hn hk i).toPc _
      · exact ⟨rfl, hk⟩
    · split
      · exact ⟨rfl, hk⟩
      · dsimp only
        split
        · exact (ScatterOk.slotFree hn hk i).toPc _
        · exact .inl hk
  | fill writes asked =>
    rw [hpc] at h
    obtain ⟨hk, hlen, hwrites⟩ := h
    cases writes with
    | nil =>
      refine ⟨?_, rfl, hwrites⟩
      change slotOf (t.tx_tail.val + asked.length) = _
      rw [hk.1, hlen]
    | cons w writes => exact ⟨hk, hlen, hwrites⟩
  | wait last k =>
    rw [hpc] at h
    dsimp only
    split
    · exact .inr ⟨h.tail, h.register, h.holds⟩
    · split
      · exact ⟨h.tail, h.register, h.holds⟩
      · exact .inr ⟨h.tail, h.register, h.holds⟩

theorem Carried.consume (h : Carried s segs t) : Carried s segs t.consume := by
  refine ⟨by rw [consume_tail, h.tail], by rw [consume_TDT, consume_tail, h.register], fun j hj => ?_⟩
  rw [consume_request]
  exact h.holds j hj

theorem ScatterOk.consume (h : ScatterOk s segs t t.pc) : ScatterOk s segs t.consume t.consume.pc := by
  rw [consume_pc]
  have hkept : Kept s t → Kept s t.consume := fun hk => ⟨by rw [consume_tail, hk.1], by rw [consume_TDT, hk.2]⟩
  cases hpc : t.pc with
  | idle r =>
    rw [hpc] at h
    exact h.imp hkept Carried.consume
  | check segs' i k =>
    rw [hpc] at h
    exact ⟨h.1, hkept h.2⟩
  | fill writes asked =>
    rw [hpc] at h
    refine ⟨hkept h.1, h.2.1, fun j hj => ?_⟩
    rw [consume_writes]
    exact h.2.2 j hj
  | wait last k =>
    rw [hpc] at h
    exact Carried.consume h

theorem sending_scatter (hn : segs.length ≤ 16) (h : Sending (e1000_send_scatter segs s) t) : ScatterOk s segs t t.pc := by
  induction h with
  | start =>
    unfold e1000_send_scatter
    split
    · exact .inl ⟨rfl, rfl⟩
    · exact ⟨rfl, rfl, rfl⟩
  | step _ ih => exact ih.step hn
  | consume _ ih => exact ih.consume

theorem ScatterOk.sent (h : ScatterOk s segs t t.pc) : Kept s t ∨ Carried s segs t := by
  cases hpc : t.pc with
  | idle r =>
    rw [hpc] at h
    exact h
  | check segs' i k =>
    rw [hpc] at h
    exact .inl h.2
  | fill writes asked =>
    rw [hpc] at h
    exact .inl h.1
  | wait last k =>
    rw [hpc] at h
    exact .inr h

end Scatter

/-- The arrays `addrs` and `lens`. -/
def placesOf (p : List TxPbuf) : List (UInt64 × UInt16) := p.map fun q => (q.payload, q.len)

theorem placesOf_length (p : List TxPbuf) : (placesOf p).length = p.length := List.length_map _

theorem handedOver_eq {s t : Tx} {n : Nat} (hn : n ≤ 16) (h : t.tx_tail = slotOf (s.tx_tail.val + n)) :
    handedOver s t = (List.range n).map fun i => t.tx_ring (slotOf (s.tx_tail.val + i)) := by
  have hlt := s.tx_tail.isLt
  have hcount : (t.tx_tail.val + 32 - s.tx_tail.val) % 32 = n := by
    rw [h]
    change ((s.tx_tail.val + n) % 32 + 32 - s.tx_tail.val) % 32 = n
    omega
  rw [handedOver, hcount]

theorem scatterCmd_fcs : ∀ is_last : Bool, scatterCmd is_last &&& E1000_TXD_CMD_IFCS ≠ 0 := by decide

theorem Carried.frame {s t : Tx} {p : List TxPbuf} (h : Carried s (placesOf p) t) (hn : p.length ≤ 16)
    (ram : UInt64 → UInt8) : OneFrame ram (handedOver s t) (chainBytes ram p) := by
  have htail := h.tail
  rw [placesOf_length] at htail
  have hholds : ∀ j < p.length, requestOf (t.tx_ring (slotOf (s.tx_tail.val + j))) = wanted (placesOf p) j := by
    intro j hj
    exact h.holds j (by rw [placesOf_length]; exact hj)
  have hat : ∀ i d, (handedOver s t)[i]? = some d → i < p.length ∧ requestOf d = wanted (placesOf p) i := by
    intro i d hd
    rw [handedOver_eq hn htail, List.getElem?_map] at hd
    obtain ⟨j, hj, rfl⟩ := Option.map_eq_some_iff.mp hd
    obtain ⟨hi, rfl⟩ := List.getElem?_eq_some_iff.mp hj
    rw [List.length_range] at hi
    rw [List.getElem_range]
    exact ⟨hi, hholds i hi⟩
  have hlen : (handedOver s t).length = p.length := by rw [handedOver_eq hn htail, List.length_map, List.length_range]
  refine ⟨?_, fun i d hd => ?_, fun d hd => ?_⟩
  · -- the places the descriptors name are those of the pbufs
    have hplaces : (handedOver s t).map (fun d => (d.addr, d.length)) = placesOf p := by
      refine List.ext_getElem (by rw [List.length_map, placesOf_length, hlen]) fun i hi hi' => ?_
      rw [List.length_map] at hi
      have hr := (hat i _ (List.getElem?_eq_getElem hi)).2
      have hw : (placesOf p).getD i (0, 0) = (placesOf p)[i] :=
        (List.getElem_eq_getD _).symm
      simp only [requestOf, wanted, hw, Prod.mk.injEq] at hr
      rw [List.getElem_map, hr.1, hr.2.1]
    have hbytes := congrArg (List.flatMap fun r : UInt64 × UInt16 => bytesAt ram r.1 r.2.toNat) hplaces
    rw [placesOf, List.flatMap_map, List.flatMap_map] at hbytes
    exact hbytes
  · obtain ⟨hi, hr⟩ := hat i d hd
    have hcmd : d.cmd = scatterCmd (i + 1 = p.length) := by
      have := congrArg (fun r => r.2.2) hr
      rw [wanted, placesOf_length] at this
      exact this
    have hbits := (scatterCmd_bits (i + 1 = p.length)).1
    rw [hcmd, hlen]
    exact decide_eq_decide.mp hbits
  · obtain ⟨i, hi⟩ := List.mem_iff_getElem?.mp hd
    have hcmd : d.cmd = scatterCmd _ := congrArg (fun r => r.2.2) (hat i d hi).2
    rw [hcmd]
    exact scatterCmd_fcs _

/-! The raw call. -/

/-- The state in which `e1000_send_raw` has moved the tail. -/
def rawSent (data : UInt64) (len : UInt16) (s : Tx) : Tx :=
  { s with
    tx_ring := applyWrites s.tx_ring (rawWrites s.tx_tail data len)
    tx_tail := slotOf (s.tx_tail.val + 1)
    TDT := slotOf (s.tx_tail.val + 1)
    queued := s.queued ++ [⟨data, len, true⟩]
    pc := .wait (slotOf (s.tx_tail.val + 1 - 1)) 0 }

theorem sending_raw (data : UInt64) (len : UInt16) (s : Tx) : Sending (e1000_send_raw data len s) (rawSent data len s) :=
  .step (.step (.step (.step (.step .start))))

theorem raw_frame (data : UInt64) (len : UInt16) (s : Tx) (ram : UInt64 → UInt8) (bytes : List UInt8) :
    ¬ OneFrame ram (handedOver s (rawSent data len s)) bytes := by
  intro h
  have hd := handedOver_eq (s := s) (t := rawSent data len s) (n := 1) (by decide) rfl
  have hmem : applyWrites s.tx_ring (rawWrites s.tx_tail data len) s.tx_tail ∈ handedOver s (rawSent data len s) := by
    rw [hd]
    refine List.mem_map.mpr ⟨0, by simp, ?_⟩
    rw [Nat.add_zero, slotOf_val]
    rfl
  have hcmd := h.fcs _ hmem
  rw [applyWrites_at] at hcmd
  have hself : fieldsAt s.tx_tail (rawWrites s.tx_tail data len) =
      [.addr data, .length len, .cmd (E1000_TXD_CMD_EOP ||| E1000_TXD_CMD_RS), .status 0] := by
    simp [fieldsAt, rawWrites]
  rw [hself] at hcmd
  have hnone : (E1000_TXD_CMD_EOP ||| E1000_TXD_CMD_RS) &&& E1000_TXD_CMD_IFCS = 0 := by decide
  exact hcmd hnone

theorem next_ne (i : Fin 32) : slotOf (i.val + 1) ≠ i := by
  intro h
  have := congrArg Fin.val h
  change (i.val + 1) % 32 = i.val at this
  omega

theorem sending_idle {s t : Tx} (h : Idle s) (ht : Sending s t) : Idle t ∧ Kept s t := by
  induction ht with
  | start => exact ⟨h, rfl, rfl⟩
  | @step t _ ih =>
    obtain ⟨⟨r, hr⟩, hkept⟩ := ih
    have hstep : sendStep t = t := by
      unfold sendStep
      rw [hr]
    rw [hstep]
    exact ⟨⟨r, hr⟩, hkept⟩
  | @consume t _ ih =>
    obtain ⟨⟨r, hr⟩, hkept⟩ := ih
    exact ⟨⟨r, by rw [consume_pc, hr]⟩, by rw [consume_tail, hkept.1], by rw [consume_TDT, hkept.2]⟩

theorem long_chain_torn (fallback : UInt64) {p : List TxPbuf} (hn : ¬ p.length ≤ MAX_TX_SEGS) (s : Netif) :
    ¬ SentWhole fallback p s := by
  intro h
  have hn0 : p.length ≠ 0 := fun h0 => hn (h0 ▸ Nat.zero_le _)
  have hrun : (low_level_output_zerocopy fallback p s).tx =
      e1000_send_raw fallback (UInt16.ofNat (flattenChain fallback p 0 s.ram).1) s.tx := by
    simp only [low_level_output_zerocopy, if_neg hn0, if_neg hn]
  -- the raw call moves the tail over a descriptor without the bit for the checksum
  rcases h _ (hrun ▸ sending_raw _ _ s.tx) with hkept | ⟨-, hframe⟩
  · exact next_ne _ hkept.1
  · exact raw_frame _ _ _ _ _ hframe

/-- A chain is sent whole, as one frame with its checksum, exactly when it has at most eight segments. -/
theorem chain_sent_whole_iff (fallback : UInt64) (p : List TxPbuf) {s : Netif} (hidle : Idle s.tx) :
    SentWhole fallback p s ↔ p.length ≤ MAX_TX_SEGS := by
  constructor
  · intro h
    by_contra hn
    exact long_chain_torn fallback hn s h
  · intro hn t ht
    by_cases hn0 : p.length = 0
    · have hrun : low_level_output_zerocopy fallback p s = s := if_pos hn0
      rw [hrun] at ht
      exact .inl (sending_idle hidle ht).2
    · have hrun : low_level_output_zerocopy fallback p s = { s with tx := e1000_send_scatter (placesOf p) s.tx } := by
        simp only [low_level_output_zerocopy, if_neg hn0, if_pos hn, placesOf]
      rw [hrun] at ht ⊢
      have hlen : (placesOf p).length ≤ 16 := by
        rw [placesOf_length]
        exact Nat.le_trans hn (by decide)
      refine (sending_scatter hlen ht).sent.imp id fun hm => ⟨hm.register, hm.frame ?_ s.ram⟩
      exact Nat.le_trans hn (by decide)

/-- The driver after its start, with a memory in which every byte is its address. -/
def readyNetif : Netif where
  ram a := a.toUInt8
  tx := ⟨fun _ => ⟨0, 0, 0, 0, E1000_TXD_STAT_DD, 0, 0⟩, slotOf 0, slotOf 0, slotOf 0, .idle none, [], []⟩

theorem two_segments_whole : Idle readyNetif.tx ∧ SentWhole 0x8000 [⟨0x1000, 14⟩, ⟨0x2000, 46⟩] readyNetif := by
  have hidle : Idle readyNetif.tx := ⟨none, rfl⟩
  exact ⟨hidle, (chain_sent_whole_iff 0x8000 _ hidle).mpr (by decide)⟩

/-- Segments of `len` bytes, one more than fit. -/
def nineSegments (len : UInt16) : List TxPbuf := List.replicate 9 ⟨0x1000, len⟩

/-- Nine segments of ten bytes go out without their checksum, and nine of two hundred without the last two. -/
theorem ninth_segment_lost : Idle readyNetif.tx ∧ ¬ SentWhole 0x8000 (nineSegments 10) readyNetif ∧
    ¬ SentWhole 0x8000 (nineSegments 200) readyNetif ∧
    (chainBytes readyNetif.ram (nineSegments 200)).length = 1800 ∧
    (flattenChain 0x8000 (nineSegments 200) 0 readyNetif.ram).1 = 1400 := by
  have hidle : Idle readyNetif.tx := ⟨none, rfl⟩
  exact ⟨hidle, long_chain_torn 0x8000 (by decide) _, long_chain_torn 0x8000 (by decide) _, by decide +kernel⟩

end Angelic.Proofs
