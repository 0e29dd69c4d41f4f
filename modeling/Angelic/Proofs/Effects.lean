import Angelic.Lib.StateRel
import Angelic.Model.Router

namespace Angelic.Proofs
open CString Model StateRel Relation

/-! What the handlers of stanzas can do to the server, once for all properties. -/

/-- Every format a handler hands to `send_raw` once there is a session, with its number of
arguments. -/
def handlerFormats : List (Str × Nat) :=
  [(fmtOfflineId, 4), (fmtOffline, 3), (fmtResult, 2), (fmtPresenceSub, 3), (fmtRosterPush, 2),
   (fmtRosterVer, 4), (fmtRoster, 3), (fmtInitialBody, 3), (fmtInitial, 2), (fmtPresenceBody, 3),
   (fmtPresence, 2), (fmtNotAcceptable, 2), (fmtResourceConstraint, 2), (fmtPrivate, 3),
   (fmtBlocklist, 2), (fmtVersion, 2), (fmtLast, 2), (fmtUnexpectedId, 3), (fmtUnexpected, 2),
   (fmtSession, 1), (fmtKickReason, 6), (fmtKick, 5), (fmtKickedReason, 6), (fmtKicked, 5),
   (fmtOwner, 3), (fmtAdminEmpty, 2), (fmtDestroyReason, 5), (fmtDestroyJid, 4), (fmtDestroy, 3),
   (fmtConfigured, 3), (fmtRoomForm, 10), (fmtItemNotFound, 3), (fmtRoomInfo, 8),
   (fmtServiceInfo, 3), (fmtCapsForward, 4), (fmtUnavailableFwd, 3), (fmtAccountInfo, 3),
   (fmtServerInfo, 3), (fmtItems, 4), (fmtServiceItem, 3), (fmtLockedErr, 3), (fmtLeft, 3),
   (fmtLeftSelf, 3), (fmtAvailSelf, 6), (fmtAvail, 6), (fmtNickConflict, 4), (fmtNickGoneSelf, 4),
   (fmtNickGone, 4), (fmtMemberSelf, 3), (fmtMember, 3), (fmtForbidden, 3), (fmtJoinConflict, 3),
   (fmtMemberJid, 4), (fmtNewRoom, 3), (fmtSubject, 3), (fmtBadRequest, 4), (fmtNoOccupant, 3),
   (fmtPmWrapped, 5), (fmtPm, 5), (fmtGroupWrapped, 5), (fmtGroup, 5), (fmtChatWrapped, 3),
   (fmtChat, 3), (fmtNotDelivered, 2), (fmtWentOffline, 2), (fmtPresenceIdBody, 4),
   (fmtPresenceId, 3), (fmtTooEarlyId, 3), (fmtTooEarly, 2), (fmtUnavailableId, 3),
   (fmtUnavailable, 2), (fmtBadIq, 3)]

/-- A text made by `snprintf` from one of these formats, in a buffer that holds at least its first tag's
name. -/
def Formatted (text : Str) : Prop :=
  ∃ size fmt args, (fmt, args.length) ∈ handlerFormats ∧ 16 ≤ size ∧ text = snprintf size fmt args

theorem Formatted.of {size : Nat} {fmt : Str} {args : List Arg}
    (h : (fmt, args.length) ∈ handlerFormats ∧ 16 ≤ size) : Formatted (snprintf size fmt args) :=
  ⟨size, fmt, args, h.1, h.2, rfl⟩

inductive StoreId where
  | private_ | roster | rooms | offline | pending_subs
  deriving DecidableEq, Repr

namespace StoreId

def region : StoreId → Region
  | private_ => .private_ | roster => .roster | rooms => .rooms | offline => .offline
  | pending_subs => .pending_subs

def bytes : StoreId → Stores → List Byte
  | private_ => privateBytes | roster => rosterBytes | rooms => roomsBytes
  | offline => offlineBytes | pending_subs => pendingSubsBytes

def save (k : StoreId) : StateM Mem Unit := saveRegion k.region k.bytes

/-- The other four stores are the same. -/
def OnlyIn (t t' : Stores) : StoreId → Prop
  | private_ => t' = { t with private_store := t'.private_store }
  | roster => t' = { t with roster_store := t'.roster_store }
  | rooms => t' = { t with rooms := t'.rooms }
  | offline => t' = { t with offline_store := t'.offline_store }
  | pending_subs => t' = { t with pending_subs := t'.pending_subs }

end StoreId

structure RoomOk (r : Room) : Prop where
  name : Holds 32 r.name
  creator_jid : Holds 64 r.creator_jid
  subject : Holds 256 r.subject
  banned_count : r.banned_count.toInt ≤ MAX_BANNED_PER_ROOM
  banned_jids : ∀ bi, Holds 64 (r.banned_jids bi)

def StoresOk (t : Stores) : Prop := ∀ i, RoomOk (t.rooms i)

/-- What of a room is written to disk: no occupants, and the bans that are counted. -/
def Room.saved (r : Room) : Room :=
  { r with
    users := fun _ => .zero
    banned_jids := fun bi => if (bi : Int) < r.banned_count.toInt then r.banned_jids bi else [] }

def Stores.saved (t : Stores) : Stores := { t with rooms := fun i => Room.saved (t.rooms i) }

/-- The fields of a context that the handlers of stanzas leave as they are. -/
def Ctx.core (c : Ctx) : Ctx :=
  { c with
    presence_payload := [], initial_presence_sent := false, sm_want_ack := false,
    sm_outbound_count := 0 }

/-- Work on one store between reading it and saving it. -/
inductive Touch (k : StoreId) : Server → Server → Prop where
  | send (s i) {text} (h : Formatted text) : Touch k s (send_raw i text s).2
  | change (s t) (ho : k.OnlyIn s.stores t) (hk : StoresOk s.stores → StoresOk t) :
      Touch k s (s.setStores t)

/-- The steps of a handler for the stanza of one context: it sends, makes a note in that context,
counts a roster version, moves occupants about, or changes one store and saves it. -/
inductive Effect (me : Slot) : Server → Server → Prop where
  | send (s i) {text} (h : Formatted text) : Effect me s (send_raw i text s).2
  | note (s) {f : Ctx → Ctx} (h : ∀ c, Ctx.core (f c) = Ctx.core c)
      (hn : ∀ c, (f c).sm_outbound_count = c.sm_outbound_count) : Effect me s (modCtx me f s).2
  | ready (s) (h : (s.client_registry me).state = .SESSION) :
      Effect me s (modCtx me (fun c => { c with state := .READY }) s).2
  | version (s) : Effect me s { s with roster_version := s.roster_version + 1 }
  | occupants (s t) (h : Stores.saved t = Stores.saved s.stores)
      (hk : StoresOk s.stores → StoresOk t) : Effect me s (s.setStores t)
  | saved (s s') (k : StoreId) (h : ReflTransGen (Touch k) s s') :
      Effect me s (persist k.save s').2

end Angelic.Proofs
