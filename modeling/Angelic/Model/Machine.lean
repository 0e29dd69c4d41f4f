import Angelic.Model.Stream

namespace Angelic.Model

/-- What lwIP and the main loop of `kernel.c` can do to the server. The answers of mbedTLS
come with the event. -/
inductive Event where
  | accept (newpcb : Pcb)
  | recv (pcb : Pcb) (chain : List Pbuf) (setup : Bool)
  | close (pcb : Pcb)
  | err (pcb : Pcb)
  | handshake (i : Slot) (hs : SslHandshake)
  | ack (i : Slot)

/-- A callback of a pcb runs with the argument `tcp_arg` gave it. -/
def withArg (pcb : Pcb) (k : Slot → M Unit) : M Unit := do
  let s ← get
  match s.tcp_arg pcb with
  | some i => k i
  | none => pure ()

def Event.run : Event → M Unit
  | .accept newpcb => xmpp_accept_callback newpcb
  | .recv pcb chain setup => withArg pcb fun i => xmpp_recv_callback i pcb (some chain) setup
  | .close pcb => withArg pcb fun i => xmpp_recv_callback i pcb none true
  | .err pcb => withArg pcb xmpp_err_callback
  | .handshake i hs => do
    let c ← ctxOf i
    if c.pcb.isSome ∧ c.state = .STARTTLS ∧ c.tls_want_write then xmpp_tls_handshake_step i [] hs
  | .ack i => do
    let c ← ctxOf i
    if c.pcb.isSome ∧ c.sm_want_ack then
      modCtx i fun c => { c with sm_want_ack := false }
      xmpp_sm_request_ack i

def step (s : Server) (e : Event) : Server := (e.run s).2

/-- Power on with a disk and its behaviour, the random source and the processor given. -/
structure Machine where
  disk : Disk
  disk_ok : Nat → Bool
  random : Nat → UInt32
  sse42 : Bool

def Machine.boot (m : Machine) : Server where
  client_registry _ := .zero
  client_idx := 0
  tcp_arg _ := none
  mem := (xmpp_persist_load_all ⟨.zero, m.disk, m.disk_ok, 0⟩).2
  roster_version := 0
  stanza_pool _ := false
  random := m.random
  draws := 0
  sse42 := m.sse42
  out := []
  routed := []

def Machine.run (m : Machine) (es : List Event) : Server := es.foldl step m.boot

end Angelic.Model
