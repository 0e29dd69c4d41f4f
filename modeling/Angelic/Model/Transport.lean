import Angelic.Model.Store

namespace Angelic.Model
open CString

/-! What becomes of a text that is given to `send_raw`. The function returns nothing and the counters do
not depend on it, so the transport is run on its own, over the log of what was sent. -/

/-- The values of `mbedtls_ssl_write`: a number of bytes, `WANT_WRITE` or `WANT_READ`, another error. -/
inductive SslWrite where
  | wrote (n : Nat)
  | want
  | error
  deriving DecidableEq, Repr

/-- The values of `tcp_write`. -/
inductive TcpWrite where
  | ok | mem | error
  deriving DecidableEq, Repr

/-- What can be called behind a context, over some state of its own. -/
structure Transport (α σ : Type) where
  ssl_write : Option Pcb → List α → StateM σ SslWrite
  tcp_write : Option Pcb → List α → StateM σ TcpWrite

variable {α σ : Type}

/-- The loop of `send_raw` under TLS; the value is what is left of the text when it ends. A number that
is not positive ends it, and so does a second `WANT`. The fuel is the length of the text. -/
def tlsLoop (t : Transport α σ) (pcb : Option Pcb) : Nat → List α → StateM σ (List α)
  | 0, p => pure p
  | fuel + 1, p =>
    if p.isEmpty then pure []
    else do
      let first ← t.ssl_write pcb p
      let written ← if first = .want then t.ssl_write pcb p else pure first
      match written with
      | .wrote (n + 1) => tlsLoop t pcb fuel (p.drop (n + 1))
      | _ => pure p

/-- The transport's part of `send_raw`; the value is what it did not take. -/
def transmit (t : Transport α σ) (tls : Bool) (pcb : Option Pcb) (data : List α) : StateM σ (List α) :=
  if tls then tlsLoop t pcb data.length data
  else do
    let ret ← t.tcp_write pcb data
    return if ret = .ok then [] else data

/-- The calls of `send_raw` in a log, one after the other, and what is left of each text. -/
def transmitAll (t : Transport Byte σ) : List Out → StateM σ (List (List Byte))
  | [] => pure []
  | .send _ tls pcb text :: log => do
    let rest ← transmit t tls pcb text
    let rests ← transmitAll t log
    return rest :: rests
  | _ :: log => transmitAll t log

/-- A transport of which only the answers are known, in the order of the calls; without a connection
`tls_net_send` and `tcp_write` fail. -/
structure Answers where
  ssl : Nat → SslWrite
  tcp : Nat → TcpWrite

def Answers.transport (a : Answers) : Transport α Nat where
  ssl_write pcb _ := fun k => (if pcb.isSome then a.ssl k else .error, k + 1)
  tcp_write pcb _ := fun k => (if pcb.isSome then a.tcp k else .error, k + 1)

/-- `tls_net_send`, with what `tcp_write` answers it. -/
def tls_net_send (pcb : Option Pcb) (ret : TcpWrite) : TcpWrite :=
  if pcb.isSome then ret else .error

/-- What of an mbedTLS session matters here: the record that is sealed and not yet sent, the plaintext of
the records that were sent, the number of calls of `tcp_write`. -/
structure SslOut (α : Type) where
  pending : Option (List α)
  received : List α
  calls : Nat
  deriving DecidableEq, Repr

/-- What is assumed of `mbedtls_ssl_write`: it seals up to `max` bytes in a record and sends it. A record
that could not be sent is kept, and the next call sends it and nothing else, whatever it is given, and
answers as if it had taken its own bytes. -/
def mbedtls_ssl_write (max : Nat) (tcp : Nat → TcpWrite) (pcb : Option Pcb) (buf : List α) :
    StateM (SslOut α) SslWrite := fun s =>
  let record := s.pending.getD (buf.take max)
  match tls_net_send pcb (tcp s.calls) with
  | .ok => (.wrote (min buf.length max), ⟨none, s.received ++ record, s.calls + 1⟩)
  | .mem => (.want, ⟨some record, s.received, s.calls + 1⟩)
  | .error => (.error, ⟨some record, s.received, s.calls + 1⟩)

def sslTransport (max : Nat) (tcp : Nat → TcpWrite) : Transport α (SslOut α) where
  ssl_write := mbedtls_ssl_write max tcp
  tcp_write pcb _ := fun s => (tls_net_send pcb (tcp s.calls), { s with calls := s.calls + 1 })

end Angelic.Model
