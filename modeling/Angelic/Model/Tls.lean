import Angelic.Model.Session

namespace Angelic.Model
open CString

/-! `xmpp_tls.c`. What mbedTLS does is an input: each call asks the BIO for some lengths and then
answers. -/

inductive HandshakeRet where
  | ok | want_read | want_write | fail
  deriving DecidableEq, Repr

structure SslHandshake where
  reads : List Nat
  ret : HandshakeRet

/-- `data` with no bytes is the return value 0, a closed session. -/
inductive ReadRet where
  | data (dec : List Byte)
  | want
  | error
  deriving DecidableEq, Repr

structure SslRead where
  reads : List Nat
  ret : ReadRet

namespace Ctx

/-- The bytes handed over, `none` for `WANT_READ`. mbedTLS asks for no more than its input buffer holds, so that
`(int)len` is `len`. -/
def tls_net_recv (c : Ctx) (len : Nat) : Option (List Byte) × Ctx :=
  let avail := c.tls_rx.length - c.tls_rx_pos
  if avail = 0 then (none, c)
  else
    let n := min len avail
    (some ((c.tls_rx.drop c.tls_rx_pos).take n), { c with tls_rx_pos := c.tls_rx_pos + n })

def bioReads (c : Ctx) (reads : List Nat) : Ctx := reads.foldl (fun c n => (c.tls_net_recv n).2) c

def tls_staging_compact (c : Ctx) : Ctx :=
  if c.tls_rx.length ≤ c.tls_rx_pos then { c with tls_rx := [], tls_rx_pos := 0 }
  else if 0 < c.tls_rx_pos then { c with tls_rx := c.tls_rx.drop c.tls_rx_pos, tls_rx_pos := 0 }
  else c

/-- A failed set-up leaves everything but `tls_want_write`. -/
def tls_client_init (c : Ctx) (setup : Bool) : Ctx :=
  if setup then
    { c with tls_want_write := false, tls_rx := [], tls_rx_pos := 0, tls_established := false,
             tls_initialised := true }
  else { c with tls_want_write := false }

end Ctx

/-- `tcp_close` on the pcb of a context, if it has one, which it then loses. -/
def closePcb (me : Slot) : M Unit := do
  let c ← ctxOf me
  if c.pcb.isSome then
    emit (.tcp_close c.pcb)
    modCtx me fun c => { c with pcb := none }

def xmpp_tls_handshake_step (me : Slot) (data : List Byte) (hs : SslHandshake) : M Unit := do
  modCtx me Ctx.tls_staging_compact
  let c ← ctxOf me
  if TLS_RX_BUF_SIZE - c.tls_rx.length < data.length then
    closePcb me
    modCtx me fun c => { c with state := .CONNECTED, tls_established := false }
  else
    modCtx me fun c =>
      (({ c with tls_rx := c.tls_rx ++ data } : Ctx).bioReads hs.reads).tls_staging_compact
    match hs.ret with
    | .ok =>
      modCtx me fun c =>
        { c with tls_established := true, tls_want_write := false, state := .CONNECTED, rx := [] }
    | .want_read => modCtx me fun c => { c with tls_want_write := false }
    | .want_write => modCtx me fun c => { c with tls_want_write := true }
    | .fail =>
      modCtx me fun c => { c with tls_want_write := false }
      closePcb me
      modCtx me fun c => { c with state := .CONNECTED, tls_established := false }

/-- The `do … while` of `xmpp_tls_decrypt`: one `mbedtls_ssl_read` after the other. A list that
runs out is a last `WANT_READ`. -/
def decryptLoop (me : Slot) : List SslRead → M Unit
  | [] => modCtx me Ctx.tls_staging_compact
  | r :: rest => do
    modCtx me fun c => c.bioReads r.reads
    let c ← ctxOf me
    match r.ret with
    | .data [] => closePcb me
    | .data dec =>
      if c.rx.length + dec.length < RX_BUF_SIZE - 1 then
        modCtx me fun c => { c with rx := c.rx ++ dec }
        decryptLoop me rest
      else if c.pcb.isSome then
        emit (.tls_write me c.pcb POLICY_VIOLATION)
        closePcb me
    | .want => modCtx me Ctx.tls_staging_compact
    | .error =>
      closePcb me
      modCtx me fun c => { c with tls_established := false }

def xmpp_tls_decrypt (me : Slot) (data : List Byte) (reads : List SslRead) : M Unit := do
  modCtx me Ctx.tls_staging_compact
  let c ← ctxOf me
  if TLS_RX_BUF_SIZE - c.tls_rx.length < data.length then closePcb me
  else
    modCtx me fun c => { c with tls_rx := c.tls_rx ++ data }
    decryptLoop me reads

end Angelic.Model
