import Angelic.Lib.Crc
import Angelic.Model.Core

namespace Angelic.Model
open CString

def PERSIST_MAGIC : UInt32 := 0xA6E71C3D
def PERSIST_VERSION : UInt32 := 5

/-- A fixed extent of the disk. -/
structure Region where
  start : Nat
  sectors : Nat
  deriving DecidableEq, Repr

def Region.header : Region := ⟨0, 1⟩
def Region.private_ : Region := ⟨1, 42⟩
def Region.roster : Region := ⟨43, 56⟩
def Region.rooms : Region := ⟨99, 8⟩
def Region.offline : Region := ⟨107, 79⟩
def Region.pending_subs : Region := ⟨186, 8⟩

/-! The disk. A transfer is atomic and one that fails moves nothing. -/

def Disk.put (d : Disk) (r : Region) (buf : List Byte) : Disk :=
  fun l => if r.start ≤ l ∧ l < r.start + r.sectors
    then arrayAt 512 buf (l - r.start) else d l

def Disk.get (d : Disk) (r : Region) : List Byte :=
  (List.range r.sectors).flatMap (fun k => d (r.start + k))

/-- True is the return value 0. -/
def disk_write_sectors (r : Region) (buf : List Byte) : StateM Mem Bool := fun m =>
  if m.disk_ok m.transfers
  then (true, { m with disk := m.disk.put r buf, transfers := m.transfers + 1 })
  else (false, { m with transfers := m.transfers + 1 })

def disk_read_sectors (r : Region) : StateM Mem (Option (List Byte)) := fun m =>
  (if m.disk_ok m.transfers then some (m.disk.get r) else none,
    { m with transfers := m.transfers + 1 })

/-! Layouts. -/

def PrivateEntry.enc (e : PrivateEntry) : List Byte :=
  e.username.bytes ++ (e.ns.bytes ++ (e.xml.bytes ++ le32 e.active.toUInt32))

def PrivateEntry.dec (w : List Byte) : PrivateEntry :=
  ⟨.ofBytes 32 w, .ofBytes 128 (w.drop 32), .ofBytes 900 (w.drop 160), (unle32 (w.drop 1060)).toInt32⟩

def RosterEntry.enc (e : RosterEntry) : List Byte :=
  e.username.bytes ++ (e.jid.bytes ++ (e.item_xml.bytes ++ le32 e.active.toUInt32))

def RosterEntry.dec (w : List Byte) : RosterEntry :=
  ⟨.ofBytes 32 w, .ofBytes 64 (w.drop 32), .ofBytes 256 (w.drop 96), (unle32 (w.drop 352)).toInt32⟩

def OfflineMsg.enc (e : OfflineMsg) : List Byte :=
  e.from_.bytes ++ (e.to_bare.bytes ++ (e.to_user.bytes ++ (e.id.bytes ++
    (e.payload.bytes ++ le32 e.active.toUInt32))))

def OfflineMsg.dec (w : List Byte) : OfflineMsg :=
  ⟨.ofBytes 64 w, .ofBytes 64 (w.drop 64), .ofBytes 32 (w.drop 128), .ofBytes 64 (w.drop 160),
    .ofBytes 1024 (w.drop 224), (unle32 (w.drop 1248)).toInt32⟩

def PendingSub.enc (e : PendingSub) : List Byte :=
  e.type.bytes ++ (e.from_.bytes ++ (e.to_user.bytes ++ le32 e.active.toUInt32))

def PendingSub.dec (w : List Byte) : PendingSub :=
  ⟨.ofBytes 16 w, .ofBytes 64 (w.drop 16), .ofBytes 32 (w.drop 80), (unle32 (w.drop 112)).toInt32⟩

/-- `persist_room_entry_t`. -/
structure PersistRoomEntry where
  name : Buf 32
  creator_jid : Buf 64
  semi_anon : Int32
  locked : Int32
  active : Int32
  persistent : Int32
  moderated : Int32
  members_only : Int32
  banned_count : Int32
  banned_jids : Fin MAX_BANNED_PER_ROOM → Buf 64
  subject : Buf 256

/-- The packing of a room, the same text in `compute_full_crc` and in
`xmpp_persist_save_rooms`. -/
def Room.pack (r : Room) : PersistRoomEntry :=
  { name := (Buf.zero 32).strncpy 31 r.name
    creator_jid := (Buf.zero 64).strncpy 63 r.creator_jid
    semi_anon := r.semi_anon, locked := r.locked, active := r.active
    persistent := r.persistent, moderated := r.moderated
    members_only := r.members_only, banned_count := r.banned_count
    banned_jids := fun bi => if (bi : Int) < r.banned_count.toInt
      then (Buf.zero 64).strncpy 63 (r.banned_jids bi) else .zero 64
    subject := (Buf.zero 256).strncpy 255 r.subject }

def PersistRoomEntry.enc (e : PersistRoomEntry) : List Byte :=
  e.name.bytes ++ (e.creator_jid.bytes ++ (le32 e.semi_anon.toUInt32 ++
    (le32 e.locked.toUInt32 ++ (le32 e.active.toUInt32 ++ (le32 e.persistent.toUInt32 ++
    (le32 e.moderated.toUInt32 ++ (le32 e.members_only.toUInt32 ++ (le32 e.banned_count.toUInt32 ++
    (arrayBytes Buf.bytes e.banned_jids ++ e.subject.bytes)))))))))

def PersistRoomEntry.dec (w : List Byte) : PersistRoomEntry :=
  { name := .ofBytes 32 w
    creator_jid := .ofBytes 64 (w.drop 32)
    semi_anon := (unle32 (w.drop 96)).toInt32, locked := (unle32 (w.drop 100)).toInt32
    active := (unle32 (w.drop 104)).toInt32, persistent := (unle32 (w.drop 108)).toInt32
    moderated := (unle32 (w.drop 112)).toInt32, members_only := (unle32 (w.drop 116)).toInt32
    banned_count := (unle32 (w.drop 120)).toInt32
    banned_jids := fun bi => .ofBytes 64 (arrayAt 64 (w.drop 124) bi)
    subject := .ofBytes 256 (w.drop 636) }

/-- The loop body of `try_load` for a room. -/
def PersistRoomEntry.unpack (e : PersistRoomEntry) : Room :=
  let banned_count := if e.banned_count.toInt > MAX_BANNED_PER_ROOM then 8 else e.banned_count
  { Room.zero with
    name := strncpy 31 e.name.bytes
    creator_jid := strncpy 63 e.creator_jid.bytes
    subject := strncpy 255 e.subject.bytes
    semi_anon := e.semi_anon, locked := e.locked, active := e.active
    persistent := e.persistent, moderated := e.moderated
    members_only := e.members_only, banned_count := banned_count
    banned_jids := fun bi => if (bi : Int) < banned_count.toInt
      then strncpy 63 (e.banned_jids bi).bytes else [] }

/-! What each store contributes to the checksum, which is also what is saved of it. -/

def privateBytes (s : Stores) : List Byte := arrayBytes PrivateEntry.enc s.private_store
def rosterBytes (s : Stores) : List Byte := arrayBytes RosterEntry.enc s.roster_store
def roomsBytes (s : Stores) : List Byte :=
  arrayBytes PersistRoomEntry.enc (fun i => (s.rooms i).pack)
def offlineBytes (s : Stores) : List Byte := arrayBytes OfflineMsg.enc s.offline_store
def pendingSubsBytes (s : Stores) : List Byte := arrayBytes PendingSub.enc s.pending_subs

def compute_full_crc (s : Stores) : UInt32 :=
  ~~~ Crc.run (Crc.run (Crc.run (Crc.run (Crc.run 0xFFFFFFFF (privateBytes s)) (rosterBytes s))
    (roomsBytes s)) (offlineBytes s)) (pendingSubsBytes s)

/-- A cleared buffer of the region's size with the bytes copied to its front. -/
def Region.buf (r : Region) (w : List Byte) : List Byte :=
  w ++ List.replicate (r.sectors * 512 - w.length) 0

def headerBytes (crc : UInt32) : List Byte :=
  le32 PERSIST_MAGIC ++ (le32 PERSIST_VERSION ++ (le32 crc ++ (le32 0 ++ List.replicate 496 0)))

def write_header : StateM Mem Unit := do
  let m ← get
  let _ ← disk_write_sectors .header (headerBytes (compute_full_crc m.stores))

/-- The five `xmpp_persist_save_*`: one region, then the header if that succeeded. -/
def saveRegion (r : Region) (bytes : Stores → List Byte) : StateM Mem Unit := do
  let m ← get
  if ← disk_write_sectors r (r.buf (bytes m.stores)) then write_header

def xmpp_persist_save_private : StateM Mem Unit := saveRegion .private_ privateBytes
def xmpp_persist_save_roster : StateM Mem Unit := saveRegion .roster rosterBytes
def xmpp_persist_save_rooms : StateM Mem Unit := saveRegion .rooms roomsBytes
def xmpp_persist_save_offline : StateM Mem Unit := saveRegion .offline offlineBytes
def xmpp_persist_save_pending_subs : StateM Mem Unit :=
  saveRegion .pending_subs pendingSubsBytes

def fresh_start : StateM Mem Unit := do
  modify fun m => { m with stores := .zero }
  let _ ← disk_write_sectors .private_ (Region.private_.buf [])
  let _ ← disk_write_sectors .roster (Region.roster.buf [])
  let _ ← disk_write_sectors .rooms (Region.rooms.buf [])
  let _ ← disk_write_sectors .offline (Region.offline.buf [])
  let _ ← disk_write_sectors .pending_subs (Region.pending_subs.buf [])
  write_header

/-- The stores that the five region buffers stand for. -/
def decodeStores (priv roster rooms offline pending : List Byte) : Stores :=
  { private_store := fun i => .dec (arrayAt 1064 priv i)
    roster_store := fun i => .dec (arrayAt 356 roster i)
    rooms := fun i => (PersistRoomEntry.dec (arrayAt 892 rooms i)).unpack
    offline_store := fun i => .dec (arrayAt 1252 offline i)
    pending_subs := fun i => .dec (arrayAt 116 pending i) }

/-- The stores are overwritten before the checksum is compared. -/
def try_load : StateM Mem Bool := do
  let some hdr ← disk_read_sectors .header | return false
  if unle32 hdr ≠ PERSIST_MAGIC then return false
  if unle32 (hdr.drop 4) ≠ PERSIST_VERSION then return false
  let some priv ← disk_read_sectors .private_ | return false
  let some roster ← disk_read_sectors .roster | return false
  let some rooms ← disk_read_sectors .rooms | return false
  let some offline ← disk_read_sectors .offline | return false
  let some pending ← disk_read_sectors .pending_subs | return false
  modify fun m => { m with stores := decodeStores priv roster rooms offline pending }
  let m ← get
  return unle32 (hdr.drop 8) == compute_full_crc m.stores

def xmpp_persist_load_all : StateM Mem Unit := do
  if ← try_load then pure () else fresh_start

end Angelic.Model
