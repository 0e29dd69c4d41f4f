import Angelic.Proofs.Reboot

namespace Angelic.Proofs
open CString Model StateRel Relation Spec

variable {s s' : Server} {T : RoomTable} {st : Stanza} {me : Slot}

/-! The rooms over whole runs: the table is what the routed stanzas made of it, one after the other. -/

theorem view_of_mem (h : s'.mem = s.mem) : view s' = view s := by
  simp only [view, Server.stores, h]

theorem handle_stamped (T : RoomTable) (c d : Ctx) (st : Stanza) : T.handle c (stamped d st) = T.handle c st := by
  unfold stamped
  split <;> rfl

theorem byName_other {c : Ctx} {ns : Str} (hx : st.xmlns = ns)
    (h1 : ns ≠ RoomTable.NS_MUC) (h2 : ns ≠ RoomTable.NS_OWNER) (h3 : ns ≠ RoomTable.NS_ADMIN) :
    T.byName c st = T := by
  rw [RoomTable.byName, hx, if_neg h1, if_neg h2, if_neg h3]

theorem moved_view (h : ReflTransGen (Moved me) s s') : ReflTransGen Rooms.Step (view s) (view s') := by
  induction h with
  | refl => exact .refl
  | tail _ hm ih => exact ih.trans hm.2

theorem moved_routed (h : ReflTransGen (Moved me) s s') : s'.routed = s.routed := by
  induction h with
  | refl => rfl
  | tail _ hm ih => exact (quiet_effect hm.1).routed.trans ih

/-- A run of the room machine that ends with the table `T`, and logs nothing. -/
structure Dispatched (T : RoomTable) (s s' : Server) : Prop where
  steps : ReflTransGen Rooms.Step (view s) (view s')
  rooms : s'.stores.rooms = T
  routed : s'.routed = s.routed

theorem Dispatched.of_mem (h : s'.mem = s.mem) (hr : s'.routed = s.routed)
    (hT : s.stores.rooms = T) : Dispatched T s s' := by
  refine ⟨?_, ?_, hr⟩
  · rw [view_of_mem h]
  · rw [Server.stores, h]
    exact hT

theorem Dispatched.of_moved {c : Ctx} (h : ReflTransGen (Moved me) s s') (hat : At me T c s') : Dispatched T s s' :=
  ⟨moved_view h, hat.rooms, moved_routed h⟩

/-- The two handlers of the negotiation leave the stores alone. -/
theorem bind_dispatched (me : Slot) (st : Stanza) (hs : .AUTHENTICATED ≤ (s.client_registry me).state) :
    Dispatched s.stores.rooms s (handle_core_bind me st s).2 := by
  by_cases hb : (s.client_registry me).state = .BIND
  · obtain ⟨n, -, o, he⟩ := handle_core_bind_run me st hb
    rw [he]
    exact .of_mem rfl rfl rfl
  · obtain ⟨hm, hr⟩ := local_frame (tr_bind_refused me st s ⟨inLoop_of_le hs, hb⟩).1
    exact .of_mem hm hr rfl

/-- Dispatching makes of the table what `handle` says. -/
theorem dispatch_rooms (me : Slot) (h : StanzaOk st) (hs : .AUTHENTICATED ≤ (s.client_registry me).state) :
    Dispatched (RoomTable.handle s.stores.rooms (s.client_registry me) st) s
      (dispatch me (s.client_registry me) st s).2 := by
  unfold dispatch
  by_cases hx : st.xmlns ≠ [] ∧ (strstr st.xmlns (lit "stream")).isSome
  · have hh : RoomTable.handle s.stores.rooms (s.client_registry me) st = s.stores.rooms := if_pos hx
    obtain ⟨hm, hr⟩ := local_frame (tr_handle_handshake_logic me s (inLoop_of_le hs)).1
    rw [if_pos hx, hh]
    exact .of_mem hm hr rfl
  · rw [if_neg hx]
    cases he : router.find? (·.xmlns == st.xmlns) with
    | none =>
      have hh : RoomTable.handle s.stores.rooms (s.client_registry me) st =
          RoomTable.byKind s.stores.rooms (s.client_registry me) st := by
        rw [RoomTable.handle, if_neg hx, he]
        rfl
      obtain ⟨hc, hat⟩ := routeByKind_leads me h s
      exact hh ▸ .of_moved hc hat
    | some e =>
      have hns : e.xmlns = st.xmlns := by simpa using List.find?_some he
      have hh : RoomTable.handle s.stores.rooms (s.client_registry me) st =
          if (s.client_registry me).state < .SESSION then s.stores.rooms
          else RoomTable.byName s.stores.rooms (s.client_registry me) st := by
        rw [RoomTable.handle, if_neg hx, he]
        rfl
      have entry := router_leads (List.mem_of_find?_eq_some he)
      by_cases hm : (s.client_registry me).state < e.min_state
      · -- every entry asks for a session at most
        have hlt : (s.client_registry me).state < .SESSION := by
          refine Nat.lt_of_lt_of_le hm ?_
          rcases entry with rfl | rfl | ⟨hmin, -⟩
          · decide
          · decide
          · exact Nat.le_of_eq (congrArg ClientState.rank hmin)
        simp only [if_pos hm, hh, if_pos hlt]
        obtain ⟨hc, hat⟩ := leads_plain ((allows_plain me).tooEarly st) s (at_here me s)
        exact .of_moved hc hat
      · simp only [if_neg hm, hh]
        rcases entry with rfl | rfl | ⟨hmin, hd⟩
        · rw [byName_other hns.symm (by decide) (by decide) (by decide), ite_self]
          exact bind_dispatched me st hs
        · rw [byName_other hns.symm (by decide) (by decide) (by decide), ite_self]
          exact .of_mem rfl rfl rfl
        · rw [hmin] at hm
          rw [if_neg hm]
          obtain ⟨hc, hat⟩ := hd me st s.stores.rooms (s.client_registry me) h hns.symm s (at_here me s)
          exact .of_moved hc hat

theorem route_rooms (h : StanzaOk st) (hs : .AUTHENTICATED ≤ (s.client_registry me).state) :
    ReflTransGen Rooms.Step (view s) (view (xmpp_route_stanza me st s).2) ∧
      (xmpp_route_stanza me st s).2.stores.rooms = RoomTable.handle s.stores.rooms (s.client_registry me) st ∧
      (xmpp_route_stanza me st s).2.routed = s.routed ++ [(s.client_registry me, st)] := by
  have hd := dispatch_rooms me (stamped_ok (c := s.client_registry me) h)
    (s := { s with routed := s.routed ++ [(s.client_registry me, st)] }) hs
  rw [handle_stamped] at hd
  exact ⟨hd.steps, hd.rooms, hd.routed⟩

/-! Runs. -/

/-- The table after the stanzas of a log. -/
def RoomTable.after (T : RoomTable) (log : List (Ctx × Stanza)) : RoomTable :=
  log.foldl (fun T p => T.handle p.1 p.2) T

/-- More stanzas were handled, and nothing else was done to the rooms. -/
structure Handled (s s' : Server) (log : List (Ctx × Stanza)) : Prop where
  steps : ReflTransGen Rooms.Step (view s) (view s')
  rooms : s'.stores.rooms = RoomTable.after s.stores.rooms log
  routed : s'.routed = s.routed ++ log

theorem Handled.of_frame (hm : s'.mem = s.mem) (hr : s'.routed = s.routed) : Handled s s' [] := by
  refine ⟨?_, ?_, ?_⟩
  · rw [view_of_mem hm]
  · rw [Server.stores, hm]
    rfl
  · rw [hr, List.append_nil]

theorem Handled.trans {a b c : Server} {l l' : List (Ctx × Stanza)} (h : Handled a b l) (h' : Handled b c l') :
    Handled a c (l ++ l') := by
  refine ⟨h.steps.trans h'.steps, ?_, ?_⟩
  · rw [h'.rooms, h.rooms, RoomTable.after, RoomTable.after, RoomTable.after, List.foldl_append]
  · rw [h'.routed, h.routed, List.append_assoc]

/-- An action handles one stanza at most. -/
theorem action_handled (h : Action s s') : ∃ o : Option (Ctx × Stanza), Handled s s' o.toList := by
  cases h with
  | turn me h =>
    cases h with
    | own h =>
      obtain ⟨hm, hr⟩ := local_frame (.single h)
      exact ⟨none, .of_frame hm hr⟩
    | stanza ok h =>
      obtain ⟨hc, hT, hr⟩ := route_rooms ok h
      exact ⟨some (s.client_registry me, _), hc, hT, hr⟩
  | accept pcb =>
    obtain ⟨o, he⟩ := accept_run pcb s
    rw [he]
    exact ⟨none, .of_frame rfl rfl⟩

/-- The rooms after some actions are those before, after all the stanzas that were routed. -/
theorem actions_handled (h : ReflTransGen Action s s') : ∃ log, Handled s s' log := by
  induction h with
  | refl => exact ⟨[], .of_frame rfl rfl⟩
  | tail _ ha ih =>
    obtain ⟨l, hl⟩ := ih
    obtain ⟨o, ho⟩ := action_handled ha
    exact ⟨_, hl.trans ho⟩

theorem run_handled (m : Machine) (es : List Event) : Handled m.boot (m.run es) (m.run es).routed := by
  obtain ⟨log, hl⟩ := actions_handled (run_actions m es)
  have hr : (m.run es).routed = log := hl.routed
  rw [hr]
  exact hl

/-! Power on: the rooms are those of the disk, or none. The transfers may fail. -/

theorem triple_read (d : Disk) (r : Region) : Triple (fun m : Mem => m.disk = d) (disk_read_sectors r)
      fun o m => m.disk = d ∧ ∀ w, o = some w → w = d.get r := by
  rintro m rfl
  refine ⟨rfl, fun w hw => ?_⟩
  simp only [disk_read_sectors] at hw
  split at hw
  · exact (Option.some.inj hw).symm
  · cases hw

/-- A region is read, or the load has failed. -/
theorem triple_region (d : Disk) (r : Region) {k : List Byte → StateM Mem Bool} {Q : Bool → Mem → Prop}
    (h : Triple (fun m : Mem => m.disk = d) (k (d.get r)) Q) (hf : ∀ m : Mem, m.disk = d → Q false m) :
    Triple (fun m : Mem => m.disk = d) (do
      let some w ← disk_read_sectors r | return false
      k w) Q := by
  refine .bind (triple_read d r) fun o m hm => ?_
  cases o with
  | none => exact hf m hm.1
  | some w =>
    rw [hm.2 w rfl]
    exact h m hm.1

theorem try_load_triple (d : Disk) : Triple (fun m : Mem => m.disk = d) try_load
      fun b m => m.disk = d ∧ (b = true → m.stores = diskStores d) := by
  have fail : ∀ m : Mem, m.disk = d → m.disk = d ∧ (false = true → m.stores = diskStores d) :=
    fun _ hm => ⟨hm, nofun⟩
  have stop : Triple (fun m : Mem => m.disk = d) (pure false : StateM Mem Bool)
      fun b m => m.disk = d ∧ (b = true → m.stores = diskStores d) := .pure fail
  refine triple_region d .header (.ite (fun _ => stop) fun _ => .ite (fun _ => stop) fun _ => ?_) fail
  refine triple_region d .private_ (triple_region d .roster (triple_region d .rooms
    (triple_region d .offline (triple_region d .pending_subs ?_ fail) fail) fail) fail) fail
  rintro m rfl
  exact ⟨rfl, fun _ => rfl⟩

/-- What a fresh start writes keeps a property of the disk. -/
structure KeptByClearing (P : Disk → Prop) : Prop where
  region : ∀ (k : StoreId) (d : Disk), P d → P (d.put k.region (k.region.buf []))
  header : ∀ (w : List Byte) (d : Disk), P d → P (d.put .header w)

/-- Nothing in memory, and on the disk what was so before. -/
def Cleared (P : Disk → Prop) (p : Prop) (m : Mem) : Prop := m.stores = .zero ∧ (p → P m.disk)

theorem cleared_write {P : Disk → Prop} {p : Prop} {r : Region} {w : List Byte} (h : ∀ d, P d → P (d.put r w)) :
    Triple (Cleared P p) (disk_write_sectors r w) fun _ => Cleared P p := by
  intro m hm
  rw [disk_write_sectors]
  split
  · exact ⟨hm.1, fun hp => h _ (hm.2 hp)⟩
  · exact hm

theorem cleared_fresh_start {P : Disk → Prop} (hP : KeptByClearing P) (d : Disk) :
    Triple (fun m : Mem => m.disk = d) fresh_start fun _ => Cleared P (P d) := by
  have clear : ∀ k : StoreId, Triple (Cleared P (P d)) (disk_write_sectors k.region (k.region.buf [])) fun _ =>
      Cleared P (P d) := fun k => cleared_write (hP.region k)
  have start : ∀ m : Mem, m.disk = d → Cleared P (P d) { m with stores := .zero } := by
    rintro m rfl
    exact ⟨rfl, fun h => h⟩
  refine .bind (Q := fun _ => Cleared P (P d)) start fun _ =>
    .bind (clear .private_) fun _ => .bind (clear .roster) fun _ => .bind (clear .rooms) fun _ =>
    .bind (clear .offline) fun _ => .bind (clear .pending_subs) fun _ => ?_
  refine .bind (Q := fun _ => Cleared P (P d)) (fun _ h => h) fun m =>
    .bind (cleared_write (hP.header _)) fun _ => .pure fun _ h => h

/-- At power on the stores are those of the disk, or the start is a fresh one. -/
theorem boot_mem {P : Disk → Prop} (hP : KeptByClearing P) (m : Machine) :
    m.boot.stores = diskStores m.disk ∧ m.boot.mem.disk = m.disk ∨
      m.boot.stores = .zero ∧ (P m.disk → P m.boot.mem.disk) := by
  have hload := try_load_triple m.disk ⟨.zero, m.disk, m.disk_ok, 0⟩ rfl
  have hmem : m.boot.mem = ((if (try_load ⟨.zero, m.disk, m.disk_ok, 0⟩).1 then pure () else fresh_start :
      StateM Mem Unit) (try_load ⟨.zero, m.disk, m.disk_ok, 0⟩).2).2 := rfl
  generalize try_load ⟨.zero, m.disk, m.disk_ok, 0⟩ = r at hload hmem
  obtain ⟨hd, hst⟩ := hload
  rw [Server.stores]
  by_cases hb : r.1 = true
  · rw [if_pos hb] at hmem
    rw [hmem]
    exact .inl ⟨hst hb, hd⟩
  · rw [if_neg hb] at hmem
    rw [hmem]
    exact .inr (cleared_fresh_start hP m.disk r.2 hd)

/-- Clearing leaves a store of the disk as it is, or empty. -/
theorem image_keeps {k : StoreId} {Q : Stores → Prop} (hpart : ∀ t u, k.Same t u → Q t → Q u)
    (hzero : Q (Stores.packed .zero)) : KeptByClearing fun d => Q (diskStores d) := by
  refine ⟨fun j d hd => ?_, fun w d hd => hpart _ _ (same_put d (apart_header k) w) hd⟩
  by_cases hj : k = j
  · subst hj
    rw [StoreId.buf_zero]
    exact hpart _ _ (same_put_own d k .zero) hzero
  · exact hpart _ _ (same_put d (apart_of_ne hj) _) hd

theorem roomImage_cleared : KeptByClearing fun d => Tidy (roomImage d) := by
  refine image_keeps (k := .rooms) (Q := fun t => Tidy t.rooms) (fun t u (h : u.rooms = t.rooms) ht => h ▸ ht) ?_
  rw [Stores.packed_of_ok storesOk_zero]
  exact Tidy.zero.saved

/-- The rooms of the disk, or none. -/
theorem boot_cases (m : Machine) : view m.boot = ⟨roomImage m.disk, roomImage m.disk⟩ ∨
      m.boot.stores.rooms = (fun _ => .zero) ∧ (Tidy (roomImage m.disk) → Tidy (roomImage m.boot.mem.disk)) := by
  rcases boot_mem roomImage_cleared m with ⟨hs, hd⟩ | ⟨hz, hi⟩
  · left
    rw [view, hs, hd]
    rfl
  · right
    rw [hz]
    exact ⟨rfl, hi⟩

theorem boot_ok (m : Machine) (h : Tidy (roomImage m.disk)) : (view m.boot).Ok := by
  rcases boot_cases m with hv | ⟨hz, hi⟩
  · rw [hv]
    exact ⟨h, h⟩
  · refine ⟨?_, hi h⟩
    rw [view, hz]
    exact Tidy.zero

/-- Nobody is in a room after power on. -/
theorem boot_empty (m : Machine) (i : Fin MAX_ROOMS) (j : Fin MAX_USERS_PER_ROOM) :
    ((m.boot.stores.rooms i).users j).active = false := by
  rcases boot_cases m with hv | ⟨hz, -⟩
  · have hr : m.boot.stores.rooms = roomImage m.disk := congrArg Rooms.table hv
    rw [hr]
    rfl
  · rw [hz]
    rfl

/-- One time the machine is switched on: how the disk behaves, the random source, the processor, and
what happens until it is switched off. -/
structure Life where
  disk_ok : Nat → Bool
  random : Nat → UInt32
  sse42 : Bool
  events : List Event

def Life.on (l : Life) (d : Disk) : Machine := ⟨d, l.disk_ok, l.random, l.sse42⟩

def Life.run (l : Life) (d : Disk) : Server := (l.on d).run l.events

/-- The disk after some lives. -/
def reboots (d : Disk) (ls : List Life) : Disk := ls.foldl (fun d l => (l.run d).mem.disk) d

theorem life_ok (l : Life) {d : Disk} (h : Tidy (roomImage d)) : (view (l.run d)).Ok :=
  Rooms.steps_ok (run_handled _ l.events).steps (boot_ok (l.on d) h)

theorem reboots_ok (ls : List Life) {d : Disk} (h : Tidy (roomImage d)) : Tidy (roomImage (reboots d ls)) :=
  foldl_keeps (P := fun d => Tidy (roomImage d)) (fun _ l hd => (life_ok l hd).image) ls h

theorem banned_none {r : Room} (h : r.banned_count = 0) (jid : Str) : r.banned jid = false := by
  have hn : ∀ bi : Fin MAX_BANNED_PER_ROOM, ¬ ((bi : Int) < r.banned_count.toInt) := by
    intro bi
    rw [h]
    exact Int.not_lt.mpr (Int.natCast_nonneg bi)
  have hf : (firstIdx fun bi : Fin MAX_BANNED_PER_ROOM =>
      decide ((bi : Int) < r.banned_count.toInt) && r.banned_jids bi == jid) = none :=
    List.find?_eq_none.mpr fun bi _ => by simp [hn bi]
  rw [Room.banned, hf]
  rfl

/-! New disks, and rooms on them. -/

/-- A new disk has no rooms. -/
theorem roomImage_blank : roomImage (fun _ => []) = fun _ => .zero := by
  have hdec : (PersistRoomEntry.dec []).unpack = .zero := by
    have hb : ∀ bi : Fin MAX_BANNED_PER_ROOM, (PersistRoomEntry.dec []).unpack.banned_jids bi = [] := by
      decide +kernel
    simp only [PersistRoomEntry.unpack, Room.zero, Room.mk.injEq, true_and]
    refine ⟨by decide +kernel, by decide +kernel, by decide +kernel, by decide +kernel, by decide +kernel,
      by decide +kernel, by decide +kernel, by decide +kernel, funext hb, by decide +kernel, by decide +kernel⟩
  funext i
  have hget : Disk.get (fun _ => []) .rooms = [] := by decide +kernel
  simp only [roomImage, diskStores, decodeStores, hget, arrayAt, List.drop_nil, List.take_nil]
  exact hdec

theorem tidy_blank : Tidy (roomImage fun _ => []) := roomImage_blank ▸ Tidy.zero

/-- A life on a disk that works. -/
def lifeOf (es : List Event) : Life := ⟨fun _ => true, fun _ => 0, true, es⟩

/-- A presence in the room `hall`. -/
def inHall (nick type : String) : Str :=
  cat ["<presence to='hall@conference.angelic.local/", nick, "'", type,
    "><x xmlns='http://jabber.org/protocol/muc'/></presence>"]

/-- The administrator opens the room and the other user joins it. -/
def gathering : Life := lifeOf (visit 7 authAdmin [inHall "ada" ""] ++ visit 8 authUser1 [inHall "bob" ""])

/-! Every name, nick and address belongs to one, and free slots are empty. -/

/-- After any lives and any events of the last one, rooms in use have names of their own, and their
occupants nicks and addresses of their own. The first life may find any disk whose rooms are tidy. -/
theorem rooms_distinct (d : Disk) (hd : Tidy (roomImage d)) (ls : List Life) (l : Life) :
    let T := (l.run (reboots d ls)).stores.rooms
    (∀ i j, i ≠ j → (T i).active ≠ 0 → (T j).active ≠ 0 → (T i).name ≠ (T j).name) ∧
      ∀ i, (T i).active ≠ 0 → ∀ j k, j ≠ k → ((T i).users j).active → ((T i).users k).active →
        ((T i).users j).nick ≠ ((T i).users k).nick ∧ ((T i).users j).jid ≠ ((T i).users k).jid := by
  intro T
  have ht : Tidy T := (life_ok l (reboots_ok ls hd)).table
  refine ⟨ht.names, fun i _ j k hjk hj hk => ?_⟩
  exact ⟨(ht.room i).users.nick j k hjk hj hk, (ht.room i).users.jid j k hjk hj hk⟩

/-- Two users in the room of a new disk, in the first life. -/
theorem rooms_distinct_gathering :
    let r := (gathering.run (reboots (fun _ => []) [])).stores.rooms 0
    r.active ≠ 0 ∧ (r.users 0).active ∧ (r.users 1).active ∧ (r.users 0).nick ≠ (r.users 1).nick ∧
      (r.users 0).jid ≠ (r.users 1).jid := by
  have ha : ((gathering.run (reboots (fun _ => []) [])).stores.rooms 0).active ≠ 0 := by decide +kernel
  have h0 : (((gathering.run (reboots (fun _ => []) [])).stores.rooms 0).users 0).active := by decide +kernel
  have h1 : (((gathering.run (reboots (fun _ => []) [])).stores.rooms 0).users 1).active := by decide +kernel
  obtain ⟨-, hu⟩ := rooms_distinct (fun _ => []) tidy_blank [] gathering
  obtain ⟨hn, hj⟩ := hu 0 ha 0 1 (by decide) h0 h1
  exact ⟨ha, h0, h1, hn, hj⟩

/-- After any lives and any events of the last one, a slot that is not in use is empty, in memory and
on the disk. A room that is created in it has the name and creator it is given and nothing of the room
that was there before. -/
theorem free_slots_vacant (d : Disk) (hd : Tidy (roomImage d)) (ls : List Life) (l : Life) (i : Fin MAX_ROOMS) :
    let s := l.run (reboots d ls)
    ((s.stores.rooms i).active = 0 → Vacant (s.stores.rooms i) ∧
      ∀ name full_jid, let r := (s.stores.rooms i).create name full_jid
        r.banned_count = 0 ∧ r.subject = [] ∧ r.persistent = 0 ∧ r.moderated = 0 ∧ r.members_only = 0 ∧
          (∀ jid, r.banned jid = false) ∧ ∀ j, (r.users j).active = false) ∧
      ((roomImage s.mem.disk i).active = 0 → Vacant (roomImage s.mem.disk i)) := by
  intro s
  have hok : (view s).Ok := life_ok l (reboots_ok ls hd)
  refine ⟨fun hi => ?_, (hok.image.room i).vacant⟩
  have hv : Vacant (s.stores.rooms i) := (hok.table.room i).vacant hi
  refine ⟨hv, fun name full_jid => ?_⟩
  refine ⟨hv.banned_count, hv.subject, hv.persistent, hv.moderated, hv.members_only, fun jid => ?_, hv.users⟩
  exact banned_none hv.banned_count jid

/-- The room is left by both, and its slot is empty again. -/
def parting : Life :=
  lifeOf (gathering.events ++ [.recv 8 [passed (inHall "bob" " type='unavailable'")] true,
    .recv 7 [passed (inHall "ada" " type='unavailable'")] true])

theorem free_slots_vacant_parting :
    ((parting.run (reboots (fun _ => []) [])).stores.rooms 0).active = 0 ∧
      Vacant ((parting.run (reboots (fun _ => []) [])).stores.rooms 0) := by
  have h0 : ((parting.run (reboots (fun _ => []) [])).stores.rooms 0).active = 0 := by decide +kernel
  exact ⟨h0, ((free_slots_vacant (fun _ => []) tidy_blank [] parting 0).1 h0).1⟩

end Angelic.Proofs
