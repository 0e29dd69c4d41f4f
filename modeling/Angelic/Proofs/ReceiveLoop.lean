import Angelic.Model.RxBuffer
import Angelic.Proofs.ReceiveFrames
import Angelic.Proofs.Scanner

namespace Angelic.Proofs
open CString Model StateRel

/-! The array of the receive loop: the terminator stays behind the bytes, and each round makes them fewer. -/

/-- The array of a context. The terminator is missing only where nothing is to be read. -/
structure ArrayOk (b : RxBuffer) : Prop where
  size : b.rx_buffer.length = RX_BUF_SIZE
  low : 0 ≤ b.rx_pos
  high : b.rx_pos ≤ RX_BUF_SIZE - 2
  nul : 0 < b.rx_pos → b.rx_buffer[b.rx_pos.toNat]? = some 0

namespace ArrayOk
variable {b : RxBuffer} (hb : ArrayOk b)
include hb

theorem text_length : b.text.length = b.rx_pos.toNat := by
  have := hb.size
  have := hb.high
  rw [RxBuffer.text, List.length_take]
  omega

/-- The array, where there is something in it. -/
theorem split (h : 0 < b.rx_pos) : ∃ rest, b.rx_buffer = b.text ++ 0 :: rest := by
  have hn := hb.nul h
  obtain ⟨hlt, hz⟩ := List.getElem?_eq_some_iff.mp hn
  refine ⟨b.rx_buffer.drop (b.rx_pos.toNat + 1), ?_⟩
  rw [RxBuffer.text, ← hz, ← List.drop_eq_getElem_cons hlt, List.take_append_drop]

theorem reset : ArrayOk { b with rx_pos := 0 } :=
  ⟨hb.size, Int.le_refl 0, (by decide : (0 : Int) ≤ RX_BUF_SIZE - 2), fun h => absurd h (Int.lt_irrefl 0)⟩

end ArrayOk

theorem ok_zero : ArrayOk .zero := ⟨List.length_replicate, Int.le_refl 0, by decide, fun h => absurd h (by decide)⟩

/-- The terminator is put behind the bytes. -/
theorem ok_terminate {b : RxBuffer} (hsize : b.rx_buffer.length = RX_BUF_SIZE) (hlow : 0 ≤ b.rx_pos)
    (hhigh : b.rx_pos ≤ RX_BUF_SIZE - 2) : ArrayOk b.terminate := by
  refine ⟨by rw [RxBuffer.terminate, List.length_set, hsize], hlow, hhigh, fun _ => ?_⟩
  change (b.rx_buffer.set b.rx_pos.toNat 0)[b.rx_pos.toNat]? = some 0
  rw [List.getElem?_set_self (by omega)]

theorem text_terminate (b : RxBuffer) : b.terminate.text = b.text := by
  change (b.rx_buffer.set b.rx_pos.toNat 0).take b.rx_pos.toNat = _
  rw [List.take_set_of_le (Nat.le_refl _)]
  rfl

section Moves
variable {b : RxBuffer} (hb : ArrayOk b)
include hb

theorem ok_append {data : List Byte} (hr : b.hasRoom data) : ArrayOk (b.append data) := by
  have h1 := hb.size
  have h2 := hb.low
  unfold RxBuffer.hasRoom at hr
  refine ok_terminate ?_ ?_ ?_
  · simp only [List.length_append, List.length_take, List.length_drop]
    omega
  · change 0 ≤ b.rx_pos + data.length
    omega
  · change b.rx_pos + data.length ≤ RX_BUF_SIZE - 2
    omega

theorem text_append {data : List Byte} (hr : b.hasRoom data) : (b.append data).text = b.text ++ data := by
  have h1 := hb.size
  have h2 := hb.low
  unfold RxBuffer.hasRoom at hr
  rw [RxBuffer.append, text_terminate]
  unfold RxBuffer.text
  dsimp only
  rw [List.take_append_of_le_length, List.take_of_length_le]
  · simp only [List.length_append, List.length_take]
    omega
  · simp only [List.length_append, List.length_take]
    omega

variable {n : Int} (h0 : 0 ≤ n) (hn : n ≤ b.rx_pos)
include h0 hn

theorem ok_shift : ArrayOk (b.shift n) := by
  have h1 := hb.size
  have h2 := hb.high
  refine ok_terminate ?_ ?_ ?_
  · simp only [List.length_append, List.length_take, List.length_drop]
    omega
  · change 0 ≤ b.rx_pos - n
    omega
  · change b.rx_pos - n ≤ RX_BUF_SIZE - 2
    omega

theorem text_shift : (b.shift n).text = b.text.drop n.toNat := by
  have h1 := hb.size
  have h2 := hb.high
  rw [RxBuffer.shift, text_terminate]
  unfold RxBuffer.text
  dsimp only
  rw [List.take_append_of_le_length, List.take_take, Nat.min_self, List.drop_take]
  · congr 1
    omega
  · simp only [List.length_take, List.length_drop]
    omega

end Moves

/-! White space in front. -/

section Trim
variable {b : RxBuffer} (hb : ArrayOk b)
include hb

theorem blanks_le : (b.blanks : Int) ≤ b.rx_pos := by
  have hl := hb.text_length
  have := hb.low
  have := (List.takeWhile_prefix isWs (l := b.text)).length_le
  rw [RxBuffer.blanks]
  omega

omit hb in
theorem trim_pos : b.trim.rx_pos = b.rx_pos - b.blanks := by
  unfold RxBuffer.trim
  split
  · rfl
  · omega

theorem ok_trim : ArrayOk b.trim := by
  unfold RxBuffer.trim
  split
  · exact ok_shift hb (Int.natCast_nonneg _) (blanks_le hb)
  · exact hb

theorem text_trim : b.trim.text = b.text.dropWhile isWs := by
  have hdrop : b.text.drop b.blanks = b.text.dropWhile isWs := by
    have := @List.drop_left _ (b.text.takeWhile isWs) (b.text.dropWhile isWs)
    rwa [List.takeWhile_append_dropWhile] at this
  unfold RxBuffer.trim
  split
  · rw [text_shift hb (Int.natCast_nonneg _) (blanks_le hb), Int.toNat_natCast, hdrop]
  · rename_i h
    rw [← hdrop, show b.blanks = 0 by omega, List.drop_zero]

end Trim

/-! The searches of the loop do not get past the terminator. -/

theorem cstr_terminated (t rest : List Byte) : cstr (t ++ 0 :: rest) = cstr t := by
  induction t with
  | nil => rfl
  | cons c t ih =>
    by_cases hc : c = 0
    · rw [List.cons_append, hc, cstr_cons_zero, cstr_cons_zero]
    · rw [List.cons_append, cstr_cons_of_ne hc, cstr_cons_of_ne hc, ih]

theorem take_terminated {t rest s : List Byte} (hs : (0 : Byte) ∉ s) : (t ++ 0 :: rest).take s.length = s ↔ t.take s.length = s := by
  rcases Nat.lt_or_ge t.length s.length with hl | hl
  · constructor
    · intro h
      have hz : (0 : Byte) ∈ (t ++ 0 :: rest).take s.length := by
        rw [List.mem_take_iff_getElem]
        exact ⟨t.length, by simp; omega, by simp⟩
      exact absurd (h ▸ hz) hs
    · intro h
      have := congrArg List.length h
      rw [List.length_take] at this
      omega
  · rw [List.take_append_of_le_length hl]

section View
variable {b : RxBuffer} (hb : ArrayOk b) (hp : 0 < b.rx_pos)
include hb hp

theorem view_cstr : cstr b.rx_buffer = cstr b.text := by
  obtain ⟨rest, he⟩ := hb.split hp
  rw [he, cstr_terminated]

theorem view_startsWith {s : String} (hs : (0 : Byte) ∉ lit s) : startsWith b.rx_buffer s = startsWith b.text s := by
  obtain ⟨rest, he⟩ := hb.split hp
  rw [startsWith, startsWith, he, Bool.eq_iff_iff, beq_iff_eq, beq_iff_eq]
  exact take_terminated hs

theorem view_mentions (s : Str) : mentions b.rx_buffer s = mentions b.text s := by
  rw [mentions, mentions, view_cstr hb hp]

theorem view_throughGt : throughGt b.rx_buffer = throughGt b.text := by
  rw [throughGt, throughGt, view_cstr hb hp]

theorem view_smElement : smElement b.rx_buffer = smElement b.text := by
  rw [smElement, smElement, view_startsWith hb hp (by decide), view_startsWith hb hp (by decide),
    view_startsWith hb hp (by decide), view_startsWith hb hp (by decide), view_mentions hb hp, view_mentions hb hp]

end View

/-- The bytes up to a `>` are among those there are, and at least one. -/
theorem throughGt_bounds {t : List Byte} {n : Nat} (h : throughGt t = some n) : 1 ≤ n ∧ n ≤ t.length := by
  unfold throughGt at h
  split at h
  · rename_i hc
    cases h
    have hlt : ((cstr t).takeWhile (· != ch '>')).length < (cstr t).length := by
      refine Nat.lt_of_not_le fun hge => ?_
      have hall : (cstr t).all (· != ch '>') :=
        (List.takeWhile_prefix (· != ch '>')).eq_of_length_le hge ▸ List.all_takeWhile
      exact absurd (List.all_eq_true.mp hall _ (List.contains_iff_mem.mp hc)) (by simp)
    have hle : (cstr t).length ≤ t.length := (List.takeWhile_prefix _).length_le
    omega
  · cases h

/-! A stanza that is found ends within the bytes there are. -/

/-- What a scanner may return for a buffer of `n` bytes. -/
def EndsWithin (n : Nat) (r : Int) : Prop := r = -1 ∨ 1 ≤ r ∧ r ≤ n

theorem memchr_bounds {p gt : List Byte} {c : Byte} (h : memchr p c = some gt) : 1 ≤ gt.length ∧ gt.length ≤ p.length := by
  induction p with
  | nil => cases h
  | cons a p ih =>
    rw [memchr] at h
    split at h
    · cases h
      exact ⟨Nat.succ_le_succ (Nat.zero_le _), Nat.le_refl _⟩
    · have := ih h
      rw [List.length_cons]
      omega

theorem endAt_within {n : Nat} {p gt : List Byte} {c : Byte} (h : memchr p c = some gt) (hp : p.length ≤ n) :
    EndsWithin n (endAt n gt) := by
  have := memchr_bounds h
  rw [EndsWithin, endAt]
  omega

theorem scalar_within (xml : List Byte) : EndsWithin xml.length (find_stanza_end_scalar xml) := by
  obtain ⟨r, hr⟩ := Scan.total xml 0
  rw [find_stanza_end_scalar_scan hr]
  cases r with
  | none => exact .inl rfl
  | some r =>
    have hlt := hr.length_lt
    rw [EndsWithin, returned]
    omega

theorem sseLoop_within (n fuel : Nat) (p : List Byte) (d : Int) (hp : p.length ≤ n) : EndsWithin n (sseLoop n fuel p d) := by
  induction fuel generalizing p d with
  | zero => exact .inl rfl
  | succ fuel ih =>
    cases p with
    | nil => exact .inl rfl
    | cons c₀ rest₀ =>
      have hdrop : ∀ k, ((c₀ :: rest₀).drop k).length ≤ n := by
        intro k
        rw [List.length_drop]
        omega
      rw [sseLoop]
      split
      · exact ih _ d (hdrop 16)
      split
      · exact .inl rfl
      rename_i c rest hd
      have hcr : (c :: rest).length ≤ n := hd ▸ hdrop _
      have htail : ∀ {gt : List Byte} {d : Int}, memchr (c :: rest) (ch '>') = some gt → EndsWithin n (sseLoop n fuel gt.tail d) := by
        intro gt d h
        refine ih _ _ ?_
        have := memchr_bounds h
        rw [List.length_tail]
        omega
      split
      · exact ih rest d (Nat.le_of_succ_le hcr)
      split
      · exact .inl rfl
      split
      · split
        · exact .inl rfl
        · exact htail ‹_›
      split
      · split
        · exact .inl rfl
        · split
          · exact endAt_within ‹_› hcr
          · exact htail ‹_›
      split
      · exact .inl rfl
      · split
        · split
          · exact endAt_within ‹_› hcr
          · exact htail ‹_›
        · exact htail ‹_›

theorem dispatch_within (sse42 : Bool) (xml : List Byte) : EndsWithin xml.length (find_stanza_end_dispatch sse42 xml) := by
  unfold find_stanza_end_dispatch
  split
  · exact sseLoop_within _ _ xml 0 (Nat.le_refl _)
  · exact scalar_within xml

/-- What the parser consumes; with a free stanza it never runs out of them. -/
theorem parse_bounds (sse42 : Bool) (t : List Byte) :
    (∀ st n, parse_xml_stream sse42 true t = .stanza st n → 1 ≤ n ∧ n ≤ t.length) ∧
      ∀ n, parse_xml_stream sse42 true t ≠ .null .PARSE_NO_MEMORY n := by
  have hl : (t.dropWhile isSpace).length ≤ t.length := (List.dropWhile_suffix isSpace).length_le
  have hd := dispatch_within sse42 (t.dropWhile isSpace)
  unfold parse_xml_stream
  dsimp only
  split
  · exact ⟨nofun, fun n h => by cases h⟩
  · split
    · exact ⟨nofun, fun n h => by cases h⟩
    · rename_i hneg
      rw [if_neg (not_not.mpr rfl)]
      refine ⟨fun st n h => ?_, nofun⟩
      cases h
      unfold EndsWithin at hd
      omega

/-! A round of the loop. -/

/-- Some stanza of the pool is free. -/
def HasStanza (s : Server) : Prop := ∃ k, s.stanza_pool k = false

theorem HasStanza.firstIdx {s : Server} (h : HasStanza s) : (firstIdx fun k => !s.stanza_pool k).isSome := by
  obtain ⟨k, hk⟩ := h
  exact List.find?_isSome.mpr ⟨k, List.mem_finRange k, by rw [hk]; rfl⟩

/-- What a round may do to the array it is given behind the white space, in a server. -/
structure Sound (s : Server) (b : RxBuffer) (r : RxBuffer × Round) : Prop where
  ok : ArrayOk r.1
  again : ∀ n, r.2 = .again n → 1 ≤ n ∧ n ≤ b.rx_pos ∧ r.1.rx_pos = b.rx_pos - n
  served : HasStanza s → r.2 ≠ .refused

section Round
variable {b : RxBuffer} (hb : ArrayOk b) {s : Server}
include hb

theorem sound_done : Sound s b (b, .done) := ⟨hb, nofun, fun _ => nofun⟩

theorem sound_reset : Sound s b ({ b with rx_pos := 0 }, .done) := ⟨hb.reset, nofun, fun _ => nofun⟩

theorem sound_again {n : Int} (h1 : 1 ≤ n) (hn : n ≤ b.rx_pos) : Sound s b (b.shift n, .again n) := by
  refine ⟨ok_shift hb (by omega) hn, fun k hk => ?_, fun _ => nofun⟩
  cases hk
  exact ⟨h1, hn, rfl⟩

theorem sound_throughGt (hp : 0 < b.rx_pos) {n : Nat} (h : throughGt b.rx_buffer = some n) :
    Sound s b (b.shift n, .again n) := by
  rw [view_throughGt hb hp] at h
  have hn := throughGt_bounds h
  rw [hb.text_length] at hn
  exact sound_again hb (by omega) (by omega)

theorem sound_rxStanza (me : Slot) (pcb : Pcb) (s : Server) : Sound s b (rxStanza me pcb b s).1 := by
  suffices h : Triple (· = s) (rxStanza me pcb b) fun r _ => Sound s b r from h s rfl
  refine .bind (Q := fun a t => t = s ∧ a = s) (fun t ht => ⟨ht, ht⟩) fun a => ?_
  dsimp only
  split
  · rename_i st n k hp hk
    rw [hk] at hp
    have hn := (parse_bounds a.sse42 b.text).1 st n hp
    rw [hb.text_length] at hn
    refine fun t _ => ?_
    change Sound s b (if 0 < n then b.shift n else b, .again n)
    rw [if_pos (Nat.lt_of_succ_le hn.1)]
    exact sound_again hb (by omega) (by omega)
  · rename_i n hp
    rintro t ⟨rfl, rfl⟩
    refine ⟨hb, nofun, fun h => ?_⟩
    rw [h.firstIdx] at hp
    exact absurd hp ((parse_bounds _ _).2 n)
  · exact fun t _ => sound_done hb

theorem sound_rxStep (me : Slot) (pcb : Pcb) (setup : Bool) (s : Server) : Sound s b (rxStep me pcb setup b s).1 := by
  have left {α : Type} {m : M α} {r : RxBuffer × Round} (h : Sound s b r) :
      Triple (· = s) (do let _ ← m; return r) fun r _ => Sound s b r := fun _ _ => h
  have stanza : Triple (· = s) (rxStanza me pcb b) fun r _ => Sound s b r := fun _ ht => ht ▸ sound_rxStanza hb me pcb _
  suffices h : Triple (· = s) (rxStep me pcb setup b) fun r _ => Sound s b r from h s rfl
  refine .bind (Q := fun _ => (· = s)) (fun _ ht => ht) fun c => .ite (fun _ => .pure fun _ _ => sound_done hb) fun h0 => ?_
  have hp : 0 < b.rx_pos := by
    have := hb.low
    omega
  refine .ite (fun _ => .ite (fun _ => left (sound_reset hb)) fun _ => .pure fun _ _ => sound_done hb) fun _ => ?_
  refine .ite (fun _ => left (sound_reset hb)) fun _ => ?_
  refine .ite (fun _ => .ite (fun _ => left (sound_reset hb)) fun _ => .pure fun _ _ => sound_done hb) fun _ => ?_
  refine .ite (fun _ => ?_) fun _ => .ite (fun _ => stanza) fun _ => ?_
  · split
    · exact left (sound_throughGt hb hp ‹_›)
    · exact .pure fun _ _ => sound_done hb
  · split
    · exact left (sound_throughGt hb hp ‹_›)
    · exact stanza

/-- The white space is taken first. -/
theorem sound_rxRound (me : Slot) (pcb : Pcb) (setup : Bool) (s : Server) :
    Sound s b.trim (rxRound me pcb setup b s).1 := by
  have h := sound_rxStep (ok_trim hb) me pcb setup (modCtx me (fun c => { c with rx := b.trim.text }) s).2
  exact ⟨h.ok, h.again, h.served⟩

end Round

/-! The pool is as full behind a round as in front of it. -/

section Pool
variable (me : Slot) (pcb : Pcb) (b : RxBuffer)

theorem pooled_rxStanza : Does (Same Server.stanza_pool) (rxStanza me pcb b) := by
  refine .step fun s => ?_
  suffices h : Triple (· = s) (rxStanza me pcb b) fun _ t => t.stanza_pool = s.stanza_pool from h s rfl
  refine .bind (Q := fun a t => t = s ∧ a = s) (fun t ht => ⟨ht, ht⟩) fun a => ?_
  dsimp only
  split
  · rename_i st n k hp hk
    rintro t ⟨rfl, rfl⟩
    rw [hk] at hp
    exact pool_lent me (parse_xml_stream_ok hp) (free_of_firstIdx hk)
  · rintro t ⟨rfl, rfl⟩
    rfl
  · rintro t ⟨rfl, rfl⟩
    rfl

theorem pooled_rxRound (setup : Bool) : Does (Same Server.stanza_pool) (rxRound me pcb setup b) := by
  refine .bind (pooled_modCtx me _) fun _ => .bind (same_ctxOf me) fun c => .ite (.pure _) ?_
  refine .ite (.ite (.bind ((wire_pooled me).starttls setup) fun _ => .pure _) (.pure _)) ?_
  refine .ite (.bind (wire_pooled me).closeStream fun _ => .pure _) ?_
  refine .ite (.ite (.bind (pooled_streamHeader me) fun _ => .pure _) (.pure _)) (.ite ?_ (.ite (pooled_rxStanza me pcb _) ?_))
  · split
    · exact .bind (Does.pooled (spared_send me me _)) fun _ => .pure _
    · exact .pure _
  · split
    · exact .bind (Does.pooled (spared_smAnswer me _)) fun _ => .pure _
    · exact pooled_rxStanza me pcb _

end Pool

/-! Every array and server the loop can meet. -/

/-- The deeds of the callbacks that are not of the loop. -/
def Deed.outside : Deed → Bool
  | .accept _ | .fin .. | .err _ | .handshake .. | .decrypt .. | .refuse .. | .ack _ => true
  | _ => false

theorem pooled_outside {d : Deed} (hd : d.outside) : Does (Same Server.stanza_pool) d.perform := by
  cases d with
  | accept newpcb =>
    refine .step fun s => ?_
    change (step s (.accept newpcb)).stanza_pool = s.stanza_pool
    rw [accept_eq]
  | fin me pcb =>
    exact (wire_pooled me).fin pcb
  | err me => exact pooled_modCtx me _
  | handshake me data hs => exact (wire_pooled me).handshake data hs
  | decrypt me data reads => exact (wire_pooled me).decrypt data reads
  | refuse me pcb text => exact (wire_pooled me).refuse pcb text
  | ack me =>
    exact .bind (pooled_modCtx me _) fun _ => .bind (same_ctxOf me) fun _ =>
      .ite (Does.pooled (spared_send me me _)) (.pure _)
  | _ => cases hd

/-- What can be in the arrays of the contexts, and the server beside them, while the machine runs: the deeds of the
callbacks come between whatever writes an array. -/
inductive RxReached (m : Machine) : (Slot → RxBuffer) → Server → Prop
  | boot : RxReached m (fun _ => .zero) m.boot
  | deed {d : Deed} (hd : d.outside) {bs : Slot → RxBuffer} {s : Server} (h : RxReached m bs s) : RxReached m bs (after s d)
  | memset (i : Slot) {bs : Slot → RxBuffer} {s : Server} (h : RxReached m bs s) : RxReached m (Function.update bs i .zero) s
  | reset (i : Slot) {bs : Slot → RxBuffer} {s : Server} (h : RxReached m bs s) :
      RxReached m (Function.update bs i { bs i with rx_pos := 0 }) s
  | fill (i : Slot) {data : List Byte} {bs : Slot → RxBuffer} {s : Server} (h : RxReached m bs s) (hr : (bs i).hasRoom data) :
      RxReached m (Function.update bs i ((bs i).append data)) s
  | round (i : Slot) (pcb : Pcb) (setup : Bool) {bs : Slot → RxBuffer} {s : Server} (h : RxReached m bs s)
      (hp : 0 < (bs i).rx_pos) :
      RxReached m (Function.update bs i (rxRound i pcb setup (bs i) s).1.1) (rxRound i pcb setup (bs i) s).2

section Reach
variable {m : Machine} {bs : Slot → RxBuffer} {s : Server} (h : RxReached m bs s)
include h

theorem RxReached.ok (i : Slot) : ArrayOk (bs i) := by
  have put {bs : Slot → RxBuffer} {b : RxBuffer} {j : Slot} (h : ∀ i, ArrayOk (bs i)) (hb : ArrayOk b) (i : Slot) :
      ArrayOk (Function.update bs j b i) :=
    (Function.forall_update_iff bs fun _ => ArrayOk).mpr ⟨hb, fun i _ => h i⟩ i
  induction h generalizing i with
  | boot => exact ok_zero
  | deed _ _ ih => exact ih i
  | memset j _ ih => exact put ih ok_zero i
  | reset j _ ih => exact put ih (ih j).reset i
  | fill j _ hr ih => exact put ih (ok_append (ih j) hr) i
  | round j pcb setup _ _ ih => exact put ih (sound_rxRound (ih j) j pcb setup _).ok i

theorem RxReached.pool : s.stanza_pool = fun _ => false := by
  induction h with
  | boot => rfl
  | deed hd _ ih => exact (same_run (pooled_outside hd) _).trans ih
  | memset _ _ ih => exact ih
  | reset _ _ ih => exact ih
  | fill _ _ _ ih => exact ih
  | round i pcb setup _ _ ih => exact (same_run (pooled_rxRound i pcb _ setup) _).trans ih

theorem RxReached.hasStanza : HasStanza s := ⟨⟨0, by decide⟩, by rw [h.pool]⟩

end Reach

/-- What a round that goes on has taken from the array, white space included. -/
theorem round_shrinks {b : RxBuffer} (hb : ArrayOk b) (me : Slot) (pcb : Pcb) (setup : Bool) (s : Server) {n : Int}
    (hn : (rxRound me pcb setup b s).1.2 = .again n) :
    1 ≤ n ∧ n ≤ b.trim.rx_pos ∧ (rxRound me pcb setup b s).1.1.rx_pos = b.rx_pos - b.blanks - n := by
  have h := (sound_rxRound hb me pcb setup s).again n hn
  exact ⟨h.1, h.2.1, h.2.2.trans (by rw [trim_pos])⟩

/-- The loop needs no more rounds than there are bytes. -/
theorem rxLoop_returns (me : Slot) (pcb : Pcb) (setup : Bool) (rounds : Nat) (b : RxBuffer) (hb : ArrayOk b) (s : Server)
    (hr : b.rx_pos < rounds) : (rxLoop me pcb setup rounds b s).1.isSome := by
  induction rounds generalizing b s with
  | zero =>
    have := hb.low
    omega
  | succ rounds ih =>
    unfold rxLoop
    split
    · rfl
    · rw [bind_run]
      dsimp only
      cases hl : (rxRound me pcb setup b s).1.2 with
      | again n =>
        have hs := round_shrinks hb me pcb setup s hl
        exact ih _ (sound_rxRound hb me pcb setup s).ok _ (by omega)
      | refused => rfl
      | done => rfl

/-- The receive loop at the head of a round: the bytes are fewer than the array and terminated, the round keeps the pool
and finds a stanza free in it, each round that goes on takes at least a byte, and the loop comes to an end. -/
theorem receive_loop_ends {m : Machine} {bs : Slot → RxBuffer} {s : Server} (h : RxReached m bs s) (me : Slot)
    (hp : 0 < (bs me).rx_pos) (pcb : Pcb) (setup : Bool) :
    (1 ≤ (bs me).rx_pos ∧ (bs me).rx_pos ≤ RX_BUF_SIZE - 2 ∧ (bs me).rx_buffer[(bs me).rx_pos.toNat]? = some 0) ∧
      ((bs me).blanks : Int) ≤ (bs me).rx_pos ∧
      (∀ n, (rxRound me pcb setup (bs me) s).1.2 = .again n →
        1 ≤ n ∧ n ≤ (bs me).trim.rx_pos ∧ (rxRound me pcb setup (bs me) s).1.1.rx_pos < (bs me).rx_pos) ∧
      (rxRound me pcb setup (bs me) s).2.stanza_pool = s.stanza_pool ∧
      (rxRound me pcb setup (bs me) s).1.2 ≠ .refused ∧
      (rxLoop me pcb setup ((bs me).rx_pos.toNat + 1) (bs me) s).1.isSome := by
  have hb := h.ok me
  have hround := sound_rxRound hb me pcb setup s
  refine ⟨⟨hp, hb.high, hb.nul hp⟩, blanks_le hb, fun n hn => ?_, ?_, hround.served h.hasStanza, ?_⟩
  · have hs := round_shrinks hb me pcb setup s hn
    exact ⟨hs.1, hs.2.1, by omega⟩
  · exact same_run (pooled_rxRound me pcb (bs me) setup) s
  · exact rxLoop_returns me pcb setup _ (bs me) hb s (by omega)

/-- A first segment of two elements, for a server with an empty disk. -/
theorem segment_taken :
    let m : Machine := ⟨fun _ => [], fun _ => true, fun _ => 0, true⟩
    let bs : Slot → RxBuffer := Function.update (fun _ => .zero) 0 (RxBuffer.zero.append (lit " <abort/><auth"))
    RxReached m bs m.boot ∧ 0 < (bs 0).rx_pos ∧ (rxRound 0 0 true (bs 0) m.boot).1.2 ≠ .refused ∧
      (rxLoop 0 0 true ((bs 0).rx_pos.toNat + 1) (bs 0) m.boot).1.isSome := by
  intro m bs
  have h : RxReached m bs m.boot := .fill 0 .boot (by decide)
  have hp : 0 < (bs 0).rx_pos := by decide
  have hl := receive_loop_ends h 0 hp 0 true
  exact ⟨h, hp, hl.2.2.2.2.1, hl.2.2.2.2.2⟩

end Angelic.Proofs
