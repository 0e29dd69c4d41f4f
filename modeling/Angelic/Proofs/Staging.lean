import Angelic.Lib.LinearQueue
import Angelic.Proofs.Starttls

namespace Angelic.Proofs
open CString Model StateRel LinearQueue

variable {f : Ctx → Ctx} {c : Ctx} {data : List Byte}

/-! The staging buffer between lwIP and mbedTLS is a queue. -/

def Ctx.queue (c : Ctx) : Queue Byte := ⟨c.tls_rx, c.tls_rx_pos⟩

/-- An operation on the buffer, by the function that does it. -/
def Ctx.staged (c : Ctx) : Op Byte → Ctx
  | .push data => { c with tls_rx := c.tls_rx ++ data }
  | .read len => (c.tls_net_recv len).2
  | .compact => c.tls_staging_compact

/-- What the calls of `tls_net_recv` return, one after the other. -/
def Ctx.received (c : Ctx) : List (Op Byte) → List Byte
  | [] => []
  | .read len :: ops => (c.tls_net_recv len).1.getD [] ++ Ctx.received (Ctx.staged c (.read len)) ops
  | op :: ops => Ctx.received (Ctx.staged c op) ops

theorem queue_recv (c : Ctx) (len : Nat) : Ctx.queue (c.tls_net_recv len).2 = (Ctx.queue c).apply (.read len) ∧
      (c.tls_net_recv len).1.getD [] = (Ctx.queue c).reads (.read len) := by
  change _ = Queue.mk c.tls_rx (c.tls_rx_pos + min len (c.tls_rx.length - c.tls_rx_pos)) ∧
    _ = (c.tls_rx.drop c.tls_rx_pos).take len
  unfold Ctx.tls_net_recv
  dsimp only
  split
  · rename_i h
    rw [h, Nat.min_zero, List.drop_of_length_le (by omega), List.take_nil]
    exact ⟨rfl, rfl⟩
  · refine ⟨rfl, ?_⟩
    have hl : c.tls_rx.length - c.tls_rx_pos = (c.tls_rx.drop c.tls_rx_pos).length := List.length_drop.symm
    rw [Option.getD_some, hl, ← List.take_take, List.take_length]

theorem queue_compact (c : Ctx) : Ctx.queue c.tls_staging_compact = (Ctx.queue c).apply .compact := by
  change _ = Queue.mk (c.tls_rx.drop c.tls_rx_pos) 0
  unfold Ctx.tls_staging_compact
  split
  · rename_i h
    rw [List.drop_of_length_le h]
    rfl
  · split
    · rfl
    · rename_i h
      have h0 : c.tls_rx_pos = 0 := by omega
      rw [Ctx.queue, h0, List.drop_zero]

theorem queue_staged (c : Ctx) (op : Op Byte) : Ctx.queue (Ctx.staged c op) = (Ctx.queue c).apply op := by
  cases op with
  | push data => rfl
  | read len => exact (queue_recv c len).1
  | compact => exact queue_compact c

theorem queue_run (ops : List (Op Byte)) (c : Ctx) : Ctx.queue (ops.foldl Ctx.staged c) = (Ctx.queue c).run ops := by
  induction ops generalizing c with
  | nil => rfl
  | cons op ops ih =>
    rw [List.foldl_cons, ih, queue_staged]
    rfl

theorem received_eq (ops : List (Op Byte)) (c : Ctx) : Ctx.received c ops = (Ctx.queue c).output ops := by
  induction ops generalizing c with
  | nil => rfl
  | cons op ops ih =>
    rw [Queue.output, ← queue_staged, ← ih]
    cases op with
    | push data => rfl
    | read len => rw [Ctx.received, (queue_recv c len).2]
    | compact => rfl

theorem queue_bioReads (reads : List Nat) (c : Ctx) : Ctx.queue (c.bioReads reads) = (Ctx.queue c).run (reads.map .read) := by
  rw [← queue_run, Ctx.bioReads, List.foldl_map]
  rfl

/-! The calls that reach the buffer, and what they do to it. -/

inductive TlsCall where
  | handshake (data : List Byte) (hs : SslHandshake)
  | decrypt (data : List Byte) (reads : List SslRead)
  | recv (len : Nat)

def TlsCall.perform (me : Slot) : TlsCall → M Unit
  | .handshake data hs => xmpp_tls_handshake_step me data hs
  | .decrypt data reads => xmpp_tls_decrypt me data reads
  | .recv len => modCtx me fun c => (c.tls_net_recv len).2

/-- The bytes a call brings. -/
def TlsCall.segment : TlsCall → Option (List Byte)
  | .handshake data _ => some data
  | .decrypt data _ => some data
  | .recv _ => none

/-- The segment has its place behind what mbedTLS has not read yet. -/
def HasRoom (c : Ctx) (data : List Byte) : Prop := data.length ≤ TLS_RX_BUF_SIZE - (c.tls_rx.length - c.tls_rx_pos)

instance (c : Ctx) (data : List Byte) : Decidable (HasRoom c data) := inferInstanceAs (Decidable (_ ≤ _))

/-- The reads of `xmpp_tls_decrypt`, with `rx_pos` bytes in the buffer they fill. -/
def decryptOps : Nat → List SslRead → List (Op Byte)
  | _, [] => [.compact]
  | rx_pos, r :: rest => r.reads.map .read ++
    match r.ret with
    | .data [] => []
    | .data dec => if rx_pos + dec.length < RX_BUF_SIZE - 1 then decryptOps (rx_pos + dec.length) rest else []
    | .want => [.compact]
    | .error => []

def TlsCall.ops (c : Ctx) : TlsCall → List (Op Byte)
  | .handshake data hs => .compact :: if HasRoom c data then .push data :: (hs.reads.map .read ++ [.compact]) else []
  | .decrypt data reads => .compact :: if HasRoom c data then .push data :: decryptOps c.rx.length reads else []
  | .recv len => [.read len]

/-- The state of a context's two buffers. -/
def Holding (me : Slot) (q : Queue Byte) (n : Nat) : Server → Prop := On me fun c => Ctx.queue c = q ∧ c.rx.length = n

def Queued (me : Slot) (q : Queue Byte) : Server → Prop := On me fun c => Ctx.queue c = q

section Calls
variable {me : Slot} {q : Queue Byte} {n : Nat}

theorem queued_closePcb : Triple (Queued me q) (closePcb me) fun _ => Queued me q := on_closePcb fun _ h => h

theorem queued_modCtx {q' : Queue Byte} (h : ∀ c, Ctx.queue c = q → Ctx.queue (f c) = q') :
    Triple (Queued me q) (modCtx me f) fun _ => Queued me q' := on_modCtx h

theorem queued_keep (h : ∀ c, Ctx.queue (f c) = Ctx.queue c) : Triple (Queued me q) (modCtx me f) fun _ => Queued me q :=
  on_modCtx fun c hc => (h c).trans hc

theorem holding_compact : Triple (Holding me q n) (modCtx me Ctx.tls_staging_compact) fun _ => Holding me (q.apply .compact) n :=
  on_modCtx fun c hc => ⟨by rw [queue_compact, hc.1], by rw [rx_compact, hc.2]⟩

/-- The lengths as the code reads them. -/
theorem holding_read {k : Ctx → M Unit} {Q : Unit → Server → Prop}
    (h : ∀ c : Ctx, Ctx.queue c = q → c.rx.length = n → Triple (Holding me q n) (k c) Q) :
    Triple (Holding me q n) (ctxOf me >>= k) Q := fun s hs => h (s.client_registry me) hs.1 hs.2 s hs

theorem holding_of_queued {m : M Unit} {q' : Queue Byte} (h : Triple (Queued me q) m fun _ => Queued me q') :
    Triple (Holding me q n) m fun _ => Queued me q' := fun s hs => h s hs.1

theorem queued_decryptLoop (reads : List SslRead) :
    Triple (Holding me q n) (decryptLoop me reads) fun _ => Queued me (q.run (decryptOps n reads)) := by
  induction reads generalizing q n with
  | nil => exact on_modCtx fun c hc => by rw [queue_compact, hc.1]; rfl
  | cons r rest ih =>
    have hreads : Triple (Holding me q n) (modCtx me fun c => c.bioReads r.reads)
        fun _ => Holding me (q.run (r.reads.map .read)) n :=
      on_modCtx fun c hc => ⟨by rw [queue_bioReads, hc.1], by rw [rx_bioReads, hc.2]⟩
    rw [decryptOps, Queue.run_append]
    refine .bind hreads fun _ => holding_read fun c _ hrx => ?_
    cases r.ret with
    | data dec =>
      cases dec with
      | nil => exact holding_of_queued queued_closePcb
      | cons d dec =>
        dsimp only
        rw [hrx]
        refine .ite (fun hfit => ?_) fun hfit => ?_
        · rw [if_pos hfit]
          exact .bind (on_modCtx fun c hc => ⟨hc.1, by rw [List.length_append, hc.2]⟩) fun _ => ih
        · rw [if_neg hfit]
          exact holding_of_queued
            (.ite (fun _ => .bind (fun _ hs => hs) fun _ => queued_closePcb) fun _ => .pure fun _ h => h)
    | want => exact holding_of_queued (on_modCtx fun c hc => by rw [queue_compact, hc]; rfl)
    | error => exact holding_of_queued (.bind queued_closePcb fun _ => queued_keep fun _ => rfl)

theorem room_iff (h : Ctx.queue c = (Ctx.queue d).apply .compact) :
    TLS_RX_BUF_SIZE - c.tls_rx.length < data.length ↔ ¬ HasRoom d data := by
  have hl : c.tls_rx = d.tls_rx.drop d.tls_rx_pos := congrArg Queue.data h
  rw [hl, List.length_drop, HasRoom, Nat.not_le]

/-- What a call does to the queue. -/
theorem queued_perform (call : TlsCall) (c : Ctx) (hq : Ctx.queue c = q) (hn : c.rx.length = n) :
    Triple (Holding me q n) (call.perform me) fun _ => Queued me (q.run (call.ops c)) := by
  subst hq
  cases call with
  | handshake data hs =>
    have reset : ∀ {q : Queue Byte}, Triple (Queued me q) (do
        closePcb me
        modCtx me fun c => { c with state := .CONNECTED, tls_established := false }) fun _ => Queued me q :=
      .bind queued_closePcb fun _ => queued_keep fun _ => rfl
    refine .bind holding_compact fun _ => holding_read fun d hd _ => .ite (fun hr => ?_) fun hr => ?_
    · rw [TlsCall.ops, if_neg ((room_iff hd).mp hr)]
      exact holding_of_queued reset
    · rw [TlsCall.ops, if_pos (not_not.mp (mt (room_iff hd).mpr hr))]
      refine holding_of_queued (.bind (Q := fun _ => Queued me ((Ctx.queue c).run
        (.compact :: .push data :: (hs.reads.map .read ++ [.compact])))) (queued_modCtx fun e he => ?_) fun _ => ?_)
      · have hpush : Ctx.queue { e with tls_rx := e.tls_rx ++ data } = ((Ctx.queue c).apply .compact).apply (.push data) :=
          congrArg (Queue.apply · (.push data)) he
        rw [queue_compact, queue_bioReads, hpush, ← List.cons_append, ← List.cons_append, Queue.run_append]
        rfl
      · cases hs.ret with
        | ok => exact queued_keep fun _ => rfl
        | want_read => exact queued_keep fun _ => rfl
        | want_write => exact queued_keep fun _ => rfl
        | fail => exact .bind (queued_keep fun _ => rfl) fun _ => reset
  | decrypt data reads =>
    refine .bind holding_compact fun _ => holding_read fun d hd _ => .ite (fun hr => ?_) fun hr => ?_
    · rw [TlsCall.ops, if_neg ((room_iff hd).mp hr)]
      exact holding_of_queued queued_closePcb
    · rw [TlsCall.ops, if_pos (not_not.mp (mt (room_iff hd).mpr hr)), hn]
      refine .bind (Q := fun _ => Holding me ((Ctx.queue c).run [.compact, .push data]) n) (on_modCtx fun e he => ⟨?_, he.2⟩)
        fun _ => queued_decryptLoop reads
      exact congrArg (Queue.apply · (.push data)) he.1
  | recv len => exact on_modCtx fun d hd => by rw [(queue_recv d len).1, hd.1]; rfl

end Calls

theorem perform_queue (me : Slot) (call : TlsCall) (s : Server) :
    Ctx.queue ((call.perform me s).2.client_registry me) =
      (Ctx.queue (s.client_registry me)).run (call.ops (s.client_registry me)) :=
  queued_perform call (s.client_registry me) rfl rfl s ⟨rfl, rfl⟩

theorem decryptOps_quiet (reads : List SslRead) (n : Nat) : Queue.Quiet (decryptOps n reads) := by
  have hnil : Queue.Quiet ([] : List (Op Byte)) := fun op hop => absurd hop List.not_mem_nil
  induction reads generalizing n with
  | nil => exact Queue.quiet_compact
  | cons r rest ih =>
    refine (Queue.quiet_reads r.reads).append ?_
    split
    · exact hnil
    · split
      · exact ih _
      · exact hnil
    · exact Queue.quiet_compact
    · exact hnil

variable {call : TlsCall}

/-- A segment with room is pushed whole, and nothing else is. -/
theorem ops_of_room (hseg : call.segment = some data) (hr : HasRoom c data) :
    ∃ rest, call.ops c = .compact :: .push data :: rest ∧ Queue.Quiet rest := by
  cases call with
  | handshake data' hs =>
    cases hseg
    exact ⟨_, congrArg (Op.compact :: ·) (if_pos hr), (Queue.quiet_reads _).append Queue.quiet_compact⟩
  | decrypt data' reads =>
    cases hseg
    exact ⟨_, congrArg (Op.compact :: ·) (if_pos hr), decryptOps_quiet reads _⟩
  | recv len => cases hseg

theorem ops_of_no_room (hseg : call.segment = some data) (hr : ¬ HasRoom c data) : call.ops c = [.compact] := by
  cases call with
  | handshake data' hs =>
    cases hseg
    exact congrArg (Op.compact :: ·) (if_neg hr)
  | decrypt data' reads =>
    cases hseg
    exact congrArg (Op.compact :: ·) (if_neg hr)
  | recv len => cases hseg

/-- A call pushes only what there is room for. -/
theorem fits_ops (call : TlsCall) (h : c.tls_rx.length ≤ TLS_RX_BUF_SIZE) :
    (Ctx.queue c).Fits TLS_RX_BUF_SIZE (call.ops c) := by
  have hcompact : ((Ctx.queue c).apply .compact).data.length = c.tls_rx.length - c.tls_rx_pos := List.length_drop
  cases hseg : call.segment with
  | none =>
    cases call with
    | handshake data hs => cases hseg
    | decrypt data reads => cases hseg
    | recv len => exact ⟨h, trivial⟩
  | some data =>
    by_cases hr : HasRoom c data
    · obtain ⟨rest, hops, hquiet⟩ := ops_of_room hseg hr
      have hpush : (((Ctx.queue c).apply .compact).apply (.push data)).data.length ≤ TLS_RX_BUF_SIZE := by
        change (((Ctx.queue c).apply .compact).data ++ data).length ≤ TLS_RX_BUF_SIZE
        unfold HasRoom at hr
        rw [List.length_append, hcompact]
        omega
      rw [hops]
      exact ⟨by omega, hpush, hquiet.fits hpush⟩
    · rw [ops_of_no_room hseg hr]
      exact Queue.quiet_compact.fits h

/-! A connection from the set-up of its TLS context on. -/

/-- A call, and before it whatever the server does to anything but the buffer. -/
structure TlsTurn (me : Slot) where
  between : Server → Server
  keeps : ∀ s, Ctx.queue ((between s).client_registry me) = Ctx.queue (s.client_registry me)
  call : TlsCall

section Turns
variable {me : Slot}

def runTurns (s : Server) : List (TlsTurn me) → Server
  | [] => s
  | t :: ts => runTurns (t.call.perform me (t.between s)).2 ts

/-- The operations on the buffer, in the order they are done. -/
def turnsOps (s : Server) : List (TlsTurn me) → List (Op Byte)
  | [] => []
  | t :: ts => t.call.ops ((t.between s).client_registry me) ++ turnsOps (t.call.perform me (t.between s)).2 ts

theorem runTurns_queue (ts : List (TlsTurn me)) (s : Server) :
    Ctx.queue ((runTurns s ts).client_registry me) = (Ctx.queue (s.client_registry me)).run (turnsOps s ts) := by
  induction ts generalizing s with
  | nil => rfl
  | cons t ts ih => rw [runTurns, ih, perform_queue, turnsOps, Queue.run_append, t.keeps]

theorem turnsOps_fits (ts : List (TlsTurn me)) {s : Server} (h : (s.client_registry me).tls_rx.length ≤ TLS_RX_BUF_SIZE) :
    (Ctx.queue (s.client_registry me)).Fits TLS_RX_BUF_SIZE (turnsOps s ts) := by
  induction ts generalizing s with
  | nil => trivial
  | cons t ts ih =>
    have hsame : ((t.between s).client_registry me).tls_rx = (s.client_registry me).tls_rx := congrArg Queue.data (t.keeps s)
    have hcall := fits_ops t.call (c := (t.between s).client_registry me) (by rw [hsame]; exact h)
    have hq := perform_queue me t.call (t.between s)
    have hsize : ((t.call.perform me (t.between s)).2.client_registry me).tls_rx.length ≤ TLS_RX_BUF_SIZE := by
      have hfull := Queue.run_fits (b := Ctx.queue ((t.between s).client_registry me)) (by rw [t.keeps]; exact h) hcall
        (t.call.ops ((t.between s).client_registry me)).length
      rw [List.take_length, ← hq] at hfull
      exact hfull
    rw [turnsOps, ← t.keeps]
    refine hcall.append ?_
    rw [← hq]
    exact ih hsize

end Turns

/-! A segment for which there is no room. -/

/-- What lwIP is told when a connection is closed, if there is one. -/
def lastClose (pcb : Option Pcb) : List Out := if pcb.isSome then [.tcp_close pcb] else []

/-- The connection of a context, and what has been sent. -/
def Connected (me : Slot) (pcb : Option Pcb) (out : List Out) (s : Server) : Prop :=
  (s.client_registry me).pcb = pcb ∧ s.out = out

section Refused
variable {me : Slot} {pcb : Option Pcb} {out : List Out}

theorem connected_modCtx (h : ∀ c, (f c).pcb = c.pcb) :
    Triple (Connected me pcb out) (modCtx me f) fun _ => Connected me pcb out := by
  intro s hs
  refine ⟨?_, hs.2⟩
  unfold modCtx
  rw [setCtx_reg_self, h]
  exact hs.1

theorem connected_closePcb : Triple (Connected me pcb out) (closePcb me) fun _ => Connected me none (out ++ lastClose pcb) := by
  rintro s ⟨rfl, rfl⟩
  cases hp : (s.client_registry me).pcb with
  | none =>
    have he : closePcb me s = ((), s) := by
      unfold closePcb
      change (if (s.client_registry me).pcb.isSome then _ else _ : M Unit) s = _
      rw [hp]
      rfl
    rw [he]
    exact ⟨hp, (List.append_nil _).symm⟩
  | some p =>
    have he : closePcb me s = modCtx me (fun c => { c with pcb := none }) (s.emit (.tcp_close (some p))) := by
      unfold closePcb
      change (if (s.client_registry me).pcb.isSome then _ else _ : M Unit) s = _
      rw [hp]
      exact congrFun (if_pos rfl) s
    rw [he]
    refine ⟨?_, rfl⟩
    unfold modCtx
    rw [setCtx_reg_self]

end Refused

theorem refused_closes {me : Slot} {s : Server} (hseg : call.segment = some data)
    (hr : ¬ HasRoom (s.client_registry me) data) :
    Connected me none (s.out ++ lastClose (s.client_registry me).pcb) (call.perform me s).2 := by
  let Compacted (t : Server) : Prop := Connected me (s.client_registry me).pcb s.out t ∧
    Ctx.queue (t.client_registry me) = (Ctx.queue (s.client_registry me)).apply .compact
  have start : Triple (· = s) (modCtx me Ctx.tls_staging_compact) fun _ => Compacted := by
    rintro t rfl
    refine ⟨connected_modCtx (fun c => ?_) t ⟨rfl, rfl⟩, ?_⟩
    · unfold Ctx.tls_staging_compact
      repeat' first | rfl | split
    · unfold modCtx
      rw [setCtx_reg_self, queue_compact]
  have look : ∀ {k : Ctx → M Unit} {Q : Unit → Server → Prop},
      (∀ c, Ctx.queue c = (Ctx.queue (s.client_registry me)).apply .compact →
        Triple (Connected me (s.client_registry me).pcb s.out) (k c) Q) →
      Triple Compacted (ctxOf me >>= k) Q := fun hk t ht => hk _ ht.2 t ht.1
  suffices h : Triple (· = s) (call.perform me) fun _ => Connected me none (s.out ++ lastClose (s.client_registry me).pcb) from
    h s rfl
  cases call with
  | handshake data' hs =>
    cases hseg
    refine .bind start fun _ => look fun c hc => .ite (fun _ => ?_) fun hn => absurd ((room_iff hc).mpr hr) hn
    exact .bind connected_closePcb fun _ => connected_modCtx fun _ => rfl
  | decrypt data' reads =>
    cases hseg
    exact .bind start fun _ => look fun c hc => .ite (fun _ => connected_closePcb) fun hn => absurd ((room_iff hc).mpr hr) hn
  | recv len => cases hseg

/-- A context at a moment: the bounds of the buffer, what mbedTLS has been given and what it will be given. -/
structure IsFifo (c : Ctx) (accepted returned : List Byte) : Prop where
  pos : c.tls_rx_pos ≤ c.tls_rx.length
  size : c.tls_rx.length ≤ TLS_RX_BUF_SIZE
  order : returned <+: accepted
  left : accepted = returned ++ c.tls_rx.drop c.tls_rx_pos

/-- From the set-up of its TLS context on, whatever else the server does: at every moment between two operations on the
buffer mbedTLS has read the accepted segments up to `tls_rx_pos`. A segment without room is refused whole and the
connection closed. -/
theorem staging_fifo (me : Slot) (s : Server) (turns : List (TlsTurn me)) :
    let s₀ := (modCtx me (fun c => c.tls_client_init true) s).2
    let c₀ := s₀.client_registry me
    let ops := turnsOps s₀ turns
    (∀ k, IsFifo ((ops.take k).foldl Ctx.staged c₀) (input (ops.take k)) (Ctx.received c₀ (ops.take k))) ∧
    Ctx.queue ((runTurns s₀ turns).client_registry me) = Ctx.queue (ops.foldl Ctx.staged c₀) ∧
    ∀ (t : Server) (call : TlsCall) (data : List Byte), call.segment = some data →
      (HasRoom (t.client_registry me) data → input (call.ops (t.client_registry me)) = data) ∧
      (¬ HasRoom (t.client_registry me) data → call.ops (t.client_registry me) = [.compact] ∧
        ((call.perform me t).2.client_registry me).pcb = none ∧
        (call.perform me t).2.out = t.out ++ lastClose (t.client_registry me).pcb) := by
  intro s₀ c₀ ops
  have hc₀ : c₀ = (s.client_registry me).tls_client_init true := setCtx_reg_self ..
  have hq₀ : Ctx.queue c₀ = ⟨[], 0⟩ := by rw [hc₀]; rfl
  refine ⟨fun k => ?_, ?_, ?_⟩
  · have hempty : c₀.tls_rx.length ≤ TLS_RX_BUF_SIZE := by rw [hc₀]; exact Nat.zero_le _
    have hfits : (Ctx.queue c₀).Fits TLS_RX_BUF_SIZE ops := turnsOps_fits turns hempty
    have hrun := queue_run (ops.take k) c₀
    have hleft := Queue.run_fifo (b := Ctx.queue c₀) (by rw [hq₀]; exact Nat.le_refl 0) (ops.take k)
    rw [← hrun, ← received_eq, show (Ctx.queue c₀).pending = [] by rw [hq₀]; rfl, List.nil_append] at hleft
    have hpos := Queue.run_pos (b := Ctx.queue c₀) (by rw [hq₀]; exact Nat.le_refl 0) (ops.take k)
    have hsize := Queue.run_fits (b := Ctx.queue c₀) hempty hfits k
    rw [← hrun] at hpos hsize
    exact ⟨hpos, hsize, ⟨_, hleft.symm⟩, hleft⟩
  · rw [queue_run]
    exact runTurns_queue turns s₀
  · intro t call data hseg
    constructor
    · intro hr
      obtain ⟨rest, hops, hquiet⟩ := ops_of_room hseg hr
      rw [hops, input, input, hquiet.input, List.append_nil]
      exact nofun
    · intro hr
      exact ⟨ops_of_no_room hseg hr, refused_closes hseg hr⟩

end Angelic.Proofs
