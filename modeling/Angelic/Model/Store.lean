import Angelic.Model.State

namespace Angelic.Model
open CString

/-! `xmpp_store.c`. -/

def offlineEntry (e : OfflineMsg) (to_bare to_user from_jid msg_id payload : Str) : OfflineMsg :=
  { from_ := (e.from_.strncpy 63 from_jid).set0 63
    to_bare := (e.to_bare.strncpy 63 to_bare).set0 63
    to_user := (e.to_user.strncpy 31 to_user).set0 31
    id := (e.id.strncpy 63 msg_id).set0 63
    payload := (e.payload.strncpy 1023 payload).set0 1023
    active := 1 }

/-- True when the message was stored. -/
def offline_msg_enqueue (to_bare from_jid msg_id payload : Str) : M Bool := do
  let s ← getStores
  match firstIdx (fun i => (s.offline_store i).active == 0) with
  | none => return false
  | some i =>
    let e := offlineEntry (s.offline_store i) to_bare (localPart to_bare) from_jid msg_id payload
    modStores fun s => { s with offline_store := Function.update s.offline_store i e }
    persist xmpp_persist_save_offline
    return true

def DELAY : List String :=
  ["<delay xmlns='urn:xmpp:delay'", " from='angelic.local'", " stamp='2024-01-01T00:00:00Z'>",
    "Offline Storage", "</delay>", "</message>"]

def fmtOfflineId : Str := cat (["<message from='%s' to='%s' type='chat' id='%s'>", "%s"] ++ DELAY)
def fmtOffline : Str := cat (["<message from='%s' to='%s' type='chat'>", "%s"] ++ DELAY)

/-- The body of the loop for an entry that is the user's: sent only when it fits (the
length returned never says otherwise), marked free in any case. -/
def drainOne (me : Slot) (i : Fin MAX_OFFLINE_MSGS) : M Unit := do
  let s ← getStores
  let c ← ctxOf me
  let e := s.offline_store i
  if e.active ≠ 0 ∧ e.to_user.str = c.username then
    let out := if e.id.str ≠ []
      then snprintf 1400 fmtOfflineId [.s e.from_.str, .s c.full_jid, .s e.id.str, .s e.payload.str]
      else snprintf 1400 fmtOffline [.s e.from_.str, .s c.full_jid, .s e.payload.str]
    if out.length > 0 ∧ out.length < 1400 then send_raw me out
    modStores fun s => { s with
      offline_store := Function.update s.offline_store i { s.offline_store i with active := 0 } }

def offline_msg_drain (me : Slot) : M Unit := do
  forAll MAX_OFFLINE_MSGS (drainOne me)
  persist xmpp_persist_save_offline

def offline_msg_is_full (s : Stores) (to_user : Str) : Bool :=
  decide (MAX_OFFLINE_MSGS / 2 ≤ ((List.finRange MAX_OFFLINE_MSGS).filter
    (fun i => (s.offline_store i).active != 0 && (s.offline_store i).to_user.str == to_user)).length)

/-- The value of a quoted attribute at a pointer to its opening quote. -/
def quoted (p : Str) (max : Nat) : Option Str :=
  match p with
  | q :: rest =>
    if q = apos ∨ q = dquote then
      match strchr rest q with
      | some e => some ((upto rest e).take (max - 1))
      | none => none
    else none
  | [] => none

def roster_extract_jid (item_xml : Str) : Option Str :=
  match strstr item_xml (lit "jid=") with
  | some p => quoted (p.drop 4) 64
  | none => none

/-- `strncmp` over the whole array against a string. -/
def bufIs (b : Buf n) (t : Str) : Bool := strncmp n b.bytes t == 0

def rosterSlot (s : Stores) (username jid : Str) : Option (Fin MAX_ROSTER_ENTRIES) :=
  firstIdx fun i =>
    let e := s.roster_store i
    e.active != 0 && bufIs e.username username && bufIs e.jid jid

def freeRosterSlot (s : Stores) : Option (Fin MAX_ROSTER_ENTRIES) :=
  firstIdx fun i => (s.roster_store i).active == 0

def hasAttr (xml : Str) (single double : String) : Bool :=
  (strstr xml (lit single)).isSome || (strstr xml (lit double)).isSome

def Stores.setRoster (s : Stores) (i : Fin MAX_ROSTER_ENTRIES) (e : RosterEntry) : Stores :=
  { s with roster_store := Function.update s.roster_store i e }

def rosterEntry (e : RosterEntry) (username jid item_xml : Str) : RosterEntry :=
  let xml_len := min (strlen item_xml) 255
  { username := (e.username.strncpy 31 username).set0 31
    jid := (e.jid.strncpy 63 jid).set0 63
    item_xml := (e.item_xml.strncpy xml_len item_xml).set0 xml_len
    active := 1 }

def roster_store_upsert_item (username item_xml : Str) (s : Stores) : Stores :=
  match roster_extract_jid item_xml with
  | none => s
  | some contact_jid =>
    let slot := rosterSlot s username contact_jid
    if hasAttr item_xml "subscription='remove'" "subscription=\"remove\"" then
      match slot with
      | some i => s.setRoster i { s.roster_store i with active := 0 }
      | none => s
    else
      match slot.or (freeRosterSlot s) with
      | some i => s.setRoster i (rosterEntry (s.roster_store i) username contact_jid item_xml)
      | none => s

/-- The item at `p` up to `end`, in 256 bytes and closed with a slash when there is room. -/
def itemText (p e : Str) : Str :=
  let full := upto p e ++ e.take 1
  let len := if full.length ≥ 256 then 255 else full.length
  let item := full.take len
  if len ≥ 2 ∧ item[len - 2]? ≠ some (ch '/') ∧ len < 255
  then item.take (len - 1) ++ [ch '/', ch '>'] else item

/-- The `while` over the items of a payload. Fuel is its length: every item is longer
than nothing. -/
def rosterItems : Nat → Str → List Str
  | 0, _ => []
  | fuel + 1, p =>
    match strstr p (lit "<item ") with
    | none => []
    | some p =>
      match strchr p (ch '>') with
      | none => []
      | some e => itemText p e :: rosterItems fuel e.tail

def roster_store_set_from_payload (username payload : Str) (s : Stores) : Stores :=
  (rosterItems payload.length payload).foldl (fun s item => roster_store_upsert_item username item s) s

/-- The loop over the entries: the text collected so far, and whether it has stopped. -/
def collectItem (s : Stores) (username : Str) (buf_len : Nat) (acc : Str × Bool)
    (i : Fin MAX_ROSTER_ENTRIES) : Str × Bool :=
  let e := s.roster_store i
  if acc.2 ∨ e.active = 0 ∨ ¬ bufIs e.username username then acc
  else if acc.1.length + e.item_xml.str.length ≥ buf_len - 1 then (acc.1, true)
  else (acc.1 ++ e.item_xml.str, false)

def roster_store_get_items (s : Stores) (username : Str) (buf_len : Nat) : Str :=
  ((List.finRange MAX_ROSTER_ENTRIES).foldl (collectItem s username buf_len) ([], false)).1

end Angelic.Model
