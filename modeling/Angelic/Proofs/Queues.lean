import Angelic.Proofs.Texts

namespace Angelic.Proofs
open CString Model

/-! The two queues for users who are away, and what a stanza makes of them. -/

abbrev RosterArray := Fin MAX_ROSTER_ENTRIES → RosterEntry
abbrev Messages := Fin MAX_OFFLINE_MSGS → OfflineMsg
abbrev Subscriptions := Fin MAX_PENDING_SUBS → PendingSub

/-- The stores that are kept by user. -/
structure Lists where
  rosters : RosterArray
  messages : Messages
  subscriptions : Subscriptions

def lists (t : Stores) : Lists := ⟨t.roster_store, t.offline_store, t.pending_subs⟩

/-- A message that a login of the user takes. -/
def waits (u : Str) (e : OfflineMsg) : Prop := e.active ≠ 0 ∧ e.to_user.str = u

/-- A subscription that a login of the user takes. -/
def pends (u : Str) (e : PendingSub) : Prop := e.active ≠ 0 ∧ e.to_user.str = u

instance (u : Str) (e : OfflineMsg) : Decidable (waits u e) := inferInstanceAs (Decidable (_ ∧ _))
instance (u : Str) (e : PendingSub) : Decidable (pends u e) := inferInstanceAs (Decidable (_ ∧ _))

def drainedOne (u : Str) (e : OfflineMsg) : OfflineMsg := if waits u e then { e with active := 0 } else e

def answeredOne (u : Str) (e : PendingSub) : PendingSub := if pends u e then { e with active := 0 } else e

/-- The messages after `offline_msg_drain`. -/
def drained (u : Str) (q : Messages) : Messages := fun i => drainedOne u (q i)

/-- The subscriptions after `pending_sub_drain`. -/
def answered (u : Str) (q : Subscriptions) : Subscriptions := fun i => answeredOne u (q i)

/-- The stanza a login is sent for a message. -/
def mailText (c : Ctx) (e : OfflineMsg) : Text :=
  if e.id.str ≠ [] then ⟨1400, fmtOfflineId, [.s e.from_.str, .s c.full_jid, .s e.id.str, .s e.payload.str]⟩
  else ⟨1400, fmtOffline, [.s e.from_.str, .s c.full_jid, .s e.payload.str]⟩

def subText (c : Ctx) (e : PendingSub) : Text := ⟨256, fmtPresenceSub, [.s e.type.str, .s e.from_.str, .s c.full_jid]⟩

/-- The messages a login of `me` takes, in the order of the array. -/
def mailOf (v : Server) (me : Slot) : List (Fin MAX_OFFLINE_MSGS) :=
  (List.finRange MAX_OFFLINE_MSGS).filter fun i => waits (v.client_registry me).username (v.stores.offline_store i)

/-- The subscriptions a login of `me` takes. -/
def requestsOf (v : Server) (me : Slot) : List (Fin MAX_PENDING_SUBS) :=
  (List.finRange MAX_PENDING_SUBS).filter fun i => pends (v.client_registry me).username (v.stores.pending_subs i)

theorem flatMap_if (l : List α) (p : α → Bool) (f : α → β) :
    (l.flatMap fun a => if p a then [f a] else []) = (l.filter p).map f := by
  induction l with
  | nil => rfl
  | cons a l ih =>
    rw [List.flatMap_cons, ih, List.filter_cons]
    split <;> simp

theorem each_offline (v : Server) (me : Slot) :
    (each MAX_OFFLINE_MSGS fun i => Texts.offline v me (v.stores.offline_store i)) =
      (mailOf v me).map fun i => (me, mailText (v.client_registry me) (v.stores.offline_store i)) := by
  rw [mailOf, ← flatMap_if]
  simp only [decide_eq_true_eq]
  rfl

theorem each_pending (v : Server) (me : Slot) :
    (each MAX_PENDING_SUBS fun i => Texts.pending v me (v.stores.pending_subs i)) =
      (requestsOf v me).map fun i => (me, subText (v.client_registry me) (v.stores.pending_subs i)) := by
  rw [requestsOf, ← flatMap_if]
  simp only [decide_eq_true_eq]
  rfl

def freeMail (q : Messages) : Option (Fin MAX_OFFLINE_MSGS) := firstIdx fun i => (q i).active == 0

/-- A message to a user that the router gives to `handle_chat_message`. -/
def mails (c : Ctx) (st : Stanza) : Prop :=
  ¬ restarts st ∧ Service.of st.xmlns = none ∧ .SESSION ≤ c.state ∧ ¬ (strstr st.to_ CONFERENCE).isSome ∧
    st.type = .MESSAGE

/-- The first presence of a session. -/
def logsIn (c : Ctx) (st : Stanza) : Prop :=
  ¬ restarts st ∧ Service.of st.xmlns = none ∧ .SESSION ≤ c.state ∧ ¬ (strstr st.to_ CONFERENCE).isSome ∧
    st.type = .PRESENCE ∧ ¬ c.initial_presence_sent

/-- A presence about a subscription. -/
def subscribes (c : Ctx) (st : Stanza) : Prop :=
  ¬ restarts st ∧ Service.of st.xmlns = none ∧ .SESSION ≤ c.state ∧ ¬ (strstr st.to_ CONFERENCE).isSome ∧
    (subscriptionWord st.type).isSome

instance (c : Ctx) (st : Stanza) : Decidable (mails c st) := inferInstanceAs (Decidable (_ ∧ _))
instance (c : Ctx) (st : Stanza) : Decidable (logsIn c st) := inferInstanceAs (Decidable (_ ∧ _))
instance (c : Ctx) (st : Stanza) : Decidable (subscribes c st) := inferInstanceAs (Decidable (_ ∧ _))

section Slots
variable (v : Server) (me : Slot) (st : Stanza)

/-- A session of the addressee is there to take the stanza. -/
def present : Bool := (List.finRange MAX_USERS).any (Texts.at_ v (bare st.to_))

/-- The slot `offline_msg_enqueue` gives a message, once nobody took it. -/
def directSlot : Option (Fin MAX_OFFLINE_MSGS) :=
  if present v st ∨ offline_msg_is_full v.stores (localPart (bare st.to_)) then none
  else freeMail v.stores.offline_store

/-- The slot a stanza is put in among the messages. -/
def mailSlot : Option (Fin MAX_OFFLINE_MSGS) :=
  if mails (v.client_registry me) st then directSlot v st else none

def letter (i : Fin MAX_OFFLINE_MSGS) : OfflineMsg :=
  offlineEntry (v.stores.offline_store i) (bare st.to_) (localPart (bare st.to_)) (v.client_registry me).full_jid
    st.id st.payload

def posted : Option (Fin MAX_OFFLINE_MSGS) → Messages
  | some i => Function.update v.stores.offline_store i (letter v me st i)
  | none => v.stores.offline_store

def known (type from_ to_user : Str) : Bool :=
  (firstIdx fun i =>
    let e := v.stores.pending_subs i
    e.active != 0 && e.type.str == type && e.from_.str == from_ && e.to_user.str == to_user).isSome

/-- The slot `pending_sub_enqueue` gives a subscription; one that waits already is not kept twice. -/
def requestSlot (type : Str) : Option (Fin MAX_PENDING_SUBS) :=
  if present v st ∨
      known v type (bare (v.client_registry me).full_jid) (localPart (bare st.to_)) then none
  else some (pendingSlot v.stores (localPart (bare st.to_)))

/-- The word of a presence about a subscription. -/
def wordOf (st : Stanza) : Str := lit ((subscriptionWord st.type).getD "")

/-- The slot a stanza is put in among the subscriptions. -/
def subSlot : Option (Fin MAX_PENDING_SUBS) :=
  if subscribes (v.client_registry me) st then requestSlot v me st (wordOf st) else none

def request (type : Str) (i : Fin MAX_PENDING_SUBS) : PendingSub :=
  pendingEntry (v.stores.pending_subs i) type (bare (v.client_registry me).full_jid) (localPart (bare st.to_))

def requested (type : Str) : Option (Fin MAX_PENDING_SUBS) → Subscriptions
  | some i => Function.update v.stores.pending_subs i (request v me st type i)
  | none => v.stores.pending_subs

/-- The messages once a stanza has been handled. -/
def messagesAfter : Messages :=
  if logsIn (v.client_registry me) st then drained (v.client_registry me).username v.stores.offline_store
  else posted v me st (mailSlot v me st)

/-- The subscriptions once a stanza has been handled. -/
def subscriptionsAfter : Subscriptions :=
  if logsIn (v.client_registry me) st then answered (v.client_registry me).username v.stores.pending_subs
  else requested v me st (wordOf st) (subSlot v me st)

end Slots

end Angelic.Proofs
