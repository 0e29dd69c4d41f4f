import Angelic.Lib.Layout
import Angelic.Model.Parser

namespace Angelic.Model
open CString

abbrev MAX_ROOMS : Nat := 4
abbrev MAX_USERS_PER_ROOM : Nat := 8
abbrev MAX_USERS : Nat := 20
abbrev MAX_BANNED_PER_ROOM : Nat := 8
abbrev MAX_OFFLINE_MSGS : Nat := 32
abbrev MAX_PENDING_SUBS : Nat := 32
abbrev PRIVATE_STORAGE_SLOTS : Nat := 20
abbrev MAX_ROSTER_ENTRIES : Nat := 80
abbrev TLS_RX_BUF_SIZE : Nat := 32768
abbrev RX_BUF_SIZE : Nat := 32768
abbrev SASL_MAX_FAILURES : Nat := 5
abbrev MAX_POOL_STANZAS : Nat := 16

instance : NeZero MAX_USERS := ⟨by decide⟩

def XMPP_DOMAIN : Str := lit "angelic.local"

inductive ClientState where
  | CONNECTED | STARTTLS | SASL | AUTHENTICATED | BIND | SESSION | READY
  deriving DecidableEq, Repr

namespace ClientState

def rank : ClientState → Nat
  | CONNECTED => 0 | STARTTLS => 1 | SASL => 2 | AUTHENTICATED => 3
  | BIND => 4 | SESSION => 5 | READY => 6

instance : LE ClientState := ⟨fun a b => a.rank ≤ b.rank⟩
instance : LT ClientState := ⟨fun a b => a.rank < b.rank⟩
instance (a b : ClientState) : Decidable (a ≤ b) := inferInstanceAs (Decidable (a.rank ≤ b.rank))
instance (a b : ClientState) : Decidable (a < b) := inferInstanceAs (Decidable (a.rank < b.rank))

theorem le_def (a b : ClientState) : a ≤ b ↔ a.rank ≤ b.rank := Iff.rfl
theorem lt_def (a b : ClientState) : a < b ↔ a.rank < b.rank := Iff.rfl

end ClientState

/-- The address of a `tcp_pcb`. -/
abbrev Pcb := Nat

/-- A client context. `rx` is `rx_buffer[0 .. rx_pos]` and `tls_rx` is
`tls_rx_buf[0 .. tls_rx_len]`; the mbedTLS context is not modelled, its answers come
with each event. -/
structure Ctx where
  pcb : Option Pcb
  state : ClientState
  full_jid : Str
  username : Str
  authenticated : Bool
  rx : List Byte
  client_from : Str
  presence_payload : Str
  sasl_failures : Nat
  tls_rx : List Byte
  tls_rx_pos : Nat
  tls_established : Bool
  tls_initialised : Bool
  tls_want_write : Bool
  initial_presence_sent : Bool
  sm_enabled : Bool
  sm_want_ack : Bool
  sm_inbound_h : UInt32
  sm_outbound_count : UInt32
  deriving DecidableEq, Repr

/-- `memset(ctx, 0, sizeof(*ctx))`. -/
def Ctx.zero : Ctx :=
  { pcb := none, state := .CONNECTED, full_jid := [], username := [], authenticated := false,
    rx := [], client_from := [], presence_payload := [], sasl_failures := 0, tls_rx := [],
    tls_rx_pos := 0, tls_established := false, tls_initialised := false,
    tls_want_write := false, initial_presence_sent := false, sm_enabled := false,
    sm_want_ack := false, sm_inbound_h := 0, sm_outbound_count := 0 }

structure Participant where
  pcb : Option Pcb
  nick : Str
  jid : Str
  active : Bool
  deriving DecidableEq, Repr

def Participant.zero : Participant := ⟨none, [], [], false⟩

structure Room where
  name : Str
  users : Fin MAX_USERS_PER_ROOM → Participant
  creator_jid : Str
  semi_anon : Int32
  locked : Int32
  active : Int32
  persistent : Int32
  moderated : Int32
  members_only : Int32
  banned_jids : Fin MAX_BANNED_PER_ROOM → Str
  banned_count : Int32
  subject : Str

def Room.zero : Room :=
  { name := [], users := fun _ => .zero, creator_jid := [], semi_anon := 0, locked := 0,
    active := 0, persistent := 0, moderated := 0, members_only := 0,
    banned_jids := fun _ => [], banned_count := 0, subject := [] }

/-! The other stores are written to disk as they lie in memory, so their arrays keep
every byte. -/

structure PrivateEntry where
  username : Buf 32
  ns : Buf 128
  xml : Buf 900
  active : Int32
  deriving DecidableEq

structure RosterEntry where
  username : Buf 32
  jid : Buf 64
  item_xml : Buf 256
  active : Int32
  deriving DecidableEq

structure OfflineMsg where
  from_ : Buf 64
  to_bare : Buf 64
  to_user : Buf 32
  id : Buf 64
  payload : Buf 1024
  active : Int32
  deriving DecidableEq

structure PendingSub where
  type : Buf 16
  from_ : Buf 64
  to_user : Buf 32
  active : Int32
  deriving DecidableEq

def PrivateEntry.zero : PrivateEntry := ⟨.zero 32, .zero 128, .zero 900, 0⟩
def RosterEntry.zero : RosterEntry := ⟨.zero 32, .zero 64, .zero 256, 0⟩
def OfflineMsg.zero : OfflineMsg := ⟨.zero 64, .zero 64, .zero 32, .zero 64, .zero 1024, 0⟩
def PendingSub.zero : PendingSub := ⟨.zero 16, .zero 64, .zero 32, 0⟩

/-- The five stores that persistence covers. -/
structure Stores where
  private_store : Fin PRIVATE_STORAGE_SLOTS → PrivateEntry
  roster_store : Fin MAX_ROSTER_ENTRIES → RosterEntry
  rooms : Fin MAX_ROOMS → Room
  offline_store : Fin MAX_OFFLINE_MSGS → OfflineMsg
  pending_subs : Fin MAX_PENDING_SUBS → PendingSub

def Stores.zero : Stores :=
  { private_store := fun _ => .zero, roster_store := fun _ => .zero, rooms := fun _ => .zero,
    offline_store := fun _ => .zero, pending_subs := fun _ => .zero }

/-- A sector for each block address. -/
abbrev Disk := Nat → List Byte

/-- Stores, disk, and what the disk will answer: the `n`-th transfer succeeds when
`disk_ok n` holds. -/
structure Mem where
  stores : Stores
  disk : Disk
  disk_ok : Nat → Bool
  transfers : Nat

end Angelic.Model
