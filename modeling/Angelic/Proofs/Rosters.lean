import Angelic.Proofs.RosterTable
import Angelic.Proofs.Rooms

namespace Angelic.Proofs
open CString Model StateRel Relation Spec

variable {s : Server} {me : Slot} {st : Stanza} {user : Str}
variable {s' : Server}

/-! The rosters over whole lives: they are what the stanzas in the log make of them. -/

namespace Roster

variable {T : Roster}

/-- What handling a stanza for a context does to the rosters. -/
def handle (T : Roster) (c : Ctx) (st : Stanza) : Roster :=
  let from_ := bare c.full_jid
  let target := bare st.to_
  let subscribed : Bool := st.type = .PRESENCE_SUBSCRIBED
  if setsRoster c st then T.setItems c.username (rosterItems st.payload.length st.payload)
  else if tellsRosters c st then
    (T.subscribe (localPart from_) target false subscribed).subscribe (localPart target) from_ true subscribed
  else T

def after (T : Roster) (log : List (Ctx × Stanza)) : Roster := log.foldl (fun T p => T.handle p.1 p.2) T

theorem upsert_distinct (h : T.Distinct) (user item : Str) : (T.upsert user item).Distinct := by
  unfold upsert
  split
  · exact h
  · split
    · exact h.drop _
    · exact h.put _ _

theorem setItems_distinct (h : T.Distinct) (user : Str) (items : List Str) : (T.setItems user items).Distinct :=
  foldl_keeps (P := SlotTable.Distinct) (fun _ item h => upsert_distinct h user item) items h

theorem subscribe_distinct (h : T.Distinct) (user jid : Str) (inbound subscribed : Bool) :
    (T.subscribe user jid inbound subscribed).Distinct := by
  unfold subscribe
  dsimp only
  split
  · exact h
  · exact h.put _ _

theorem handle_distinct (h : T.Distinct) (c : Ctx) (st : Stanza) : (T.handle c st).Distinct := by
  unfold handle
  dsimp only
  split
  · exact setItems_distinct h _ _
  · split
    · exact subscribe_distinct (subscribe_distinct h _ _ _ _) _ _ _ _
    · exact h

end Roster

/-- The two changes of a subscription, on the table. -/
theorem rosterUpdates_view (s : Server) (me : Slot) (st : Stanza) :
    let c := s.client_registry me
    let subscribed : Bool := st.type = .PRESENCE_SUBSCRIBED
    let T := (rosterView s.stores.roster_store).subscribe (localPart (bare c.full_jid)) (bare st.to_) false subscribed
    rosterView (Texts.rosterUpdate s s.stores (localPart (bare c.full_jid)) (bare st.to_) false
        subscribed).1.roster_store = T ∧
      rosterView (Texts.rosterUpdates s me st).1.roster_store =
        T.subscribe (localPart (bare st.to_)) (bare c.full_jid) true subscribed := by
  intro c subscribed T
  have first : rosterView (Texts.rosterUpdate s s.stores (localPart (bare c.full_jid)) (bare st.to_) false
      subscribed).1.roster_store = T :=
    subscription_view (localPart_holds (bare_holds c.full_jid).2) (bare_holds st.to_) s
  refine ⟨first, ?_⟩
  rw [← first]
  exact subscription_view (localPart_holds (bare_holds st.to_).2) (bare_holds c.full_jid) s

theorem rostersAfter_view (hu : Holds 32 (s.client_registry me).username) (hp : 0 ∉ st.payload) :
    rosterView (rostersAfter s me st) = (rosterView s.stores.roster_store).handle (s.client_registry me) st := by
  unfold rostersAfter Roster.handle
  dsimp only
  split
  · exact set_from_payload_view hu hp
  · split
    · exact (rosterUpdates_view s me st).2
    · rfl

/-- No contact is twice on a roster, in memory and on the disk. -/
structure RosterOk (s : Server) : Prop where
  rosters : (rosterView s.stores.roster_store).Distinct
  image : (rosterView (rosterImage s.mem.disk)).Distinct

theorem RosterOk.of_mem (h : RosterOk s) (hm : s'.mem = s.mem) : RosterOk s' := by
  refine ⟨?_, ?_⟩
  · rw [Server.stores, hm]
    exact h.rosters
  · rw [hm]
    exact h.image

/-- Every array of rosters that a stanza brings to the disk is without doubles. -/
theorem good_distinct (h : (rosterView s.stores.roster_store).Distinct)
    (hu : Holds 32 (s.client_registry me).username) (hp : 0 ∉ st.payload) :
    GoodChanges (fun R => (rosterView R).Distinct) s me st := by
  refine ⟨fun _ => ?_, fun _ => ⟨?_, ?_⟩⟩
  · rw [set_from_payload_view hu hp]
    exact Roster.setItems_distinct h _ _
  · have hv := (rosterUpdates_view s me st).1
    simp only [hv]
    exact Roster.subscribe_distinct h _ _ _ _
  · have hv := (rosterUpdates_view s me st).2
    simp only [hv]
    exact Roster.subscribe_distinct (Roster.subscribe_distinct h _ _ _ _) _ _ _ _

theorem route_rosterOk (h : RosterOk s) (hu : Holds 32 (s.client_registry me).username) (hp : 0 ∉ st.payload) :
    RosterOk (xmpp_route_stanza me st s).2 := by
  have good := good_distinct h.rosters hu hp
  obtain ⟨-, hs⟩ := route_served good h.image
  refine ⟨?_, hs.image⟩
  rw [hs.rosters]
  unfold rostersAfter
  split
  · exact good.sets ‹_›
  · split
    · exact (good.tells ‹_›).2
    · exact h.rosters

/-! Runs. -/

/-- The rosters, the counter and the log after some actions, from the stanzas that were routed. -/
structure Entered (s s' : Server) (log : List (Ctx × Stanza)) : Prop where
  rosters : rosterView s'.stores.roster_store = (rosterView s.stores.roster_store).after log
  version : s'.roster_version = s.roster_version + log.countP fun p => setsRoster p.1 p.2
  routed : s'.routed = s.routed ++ log
  stanzas : ∀ p ∈ log, StanzaOk p.2

theorem Entered.of_frame (hm : s'.mem = s.mem) (hv : s'.roster_version = s.roster_version)
    (hr : s'.routed = s.routed) : Entered s s' [] := by
  refine ⟨?_, ?_, ?_, fun _ hp => absurd hp List.not_mem_nil⟩
  · rw [Server.stores, hm]
    rfl
  · rw [hv, List.countP_nil, Int.natCast_zero, Int.add_zero]
  · rw [hr, List.append_nil]

theorem Entered.trans {a b c : Server} {l l' : List (Ctx × Stanza)} (h : Entered a b l) (h' : Entered b c l') :
    Entered a c (l ++ l') := by
  refine ⟨?_, ?_, ?_, fun p hp => ?_⟩
  · rw [h'.rosters, h.rosters, Roster.after, Roster.after, Roster.after, List.foldl_append]
  · rw [h'.version, h.version, List.countP_append]
    omega
  · rw [h'.routed, h.routed, List.append_assoc]
  · rcases List.mem_append.mp hp with hp | hp
    · exact h.stanzas p hp
    · exact h'.stanzas p hp

theorem route_entered (ok : StanzaOk st)
    (hu : Holds 32 (s.client_registry me).username) (ha : .AUTHENTICATED ≤ (s.client_registry me).state) :
    Entered s (xmpp_route_stanza me st s).2 [(s.client_registry me, st)] := by
  obtain ⟨-, hs⟩ := route_sends s me st
  refine ⟨?_, ?_, (route_rooms ok ha).2.2, fun p hp => ?_⟩
  · rw [hs.rosters]
    exact rostersAfter_view hu ok.2
  · rw [hs.version, versionAfter, List.countP_singleton]
    by_cases hset : setsRoster (s.client_registry me) st
    · simp [hset]
    · simp [hset]
  · rw [List.mem_singleton.mp hp]
    exact ok

theorem local_version (h : Local me s s') : s'.roster_version = s.roster_version := by
  cases h <;> rfl

theorem action_entered (h : Action s s') (hn : (abs s).Named) :
    (∃ o : Option (Ctx × Stanza), Entered s s' o.toList) ∧ (RosterOk s → RosterOk s') := by
  cases h with
  | turn me h =>
    cases h with
    | own h =>
      obtain ⟨hm, hr⟩ := local_frame (.single h)
      exact ⟨⟨none, .of_frame hm (local_version h) hr⟩, fun ok => ok.of_mem hm⟩
    | stanza ok h =>
      have hu := (hn.session me).username
      exact ⟨⟨some _, route_entered ok hu h⟩, fun hok => route_rosterOk hok hu ok.2⟩
  | accept pcb =>
    obtain ⟨o, he⟩ := accept_run pcb s
    rw [he]
    exact ⟨⟨none, .of_frame rfl rfl rfl⟩, fun ok => ⟨ok.rosters, ok.image⟩⟩

theorem actions_entered (h : ReflTransGen Action s s') (hn : (abs s).Named) :
    (abs s').Named ∧ (∃ log, Entered s s' log) ∧ (RosterOk s → RosterOk s') := by
  induction h with
  | refl => exact ⟨hn, ⟨[], .of_frame rfl rfl rfl⟩, id⟩
  | tail _ ha ih =>
    obtain ⟨hb, ⟨l, hl⟩, ok⟩ := ih
    obtain ⟨⟨o, ho⟩, ok'⟩ := action_entered ha hb
    refine ⟨?_, ⟨_, hl.trans ho⟩, fun h => ok' (ok h)⟩
    exact Registry.reach_keeps (fun _ _ hs => hs.names) (actions_refines (.single ha)) hb

theorem boot_named (m : Machine) : (abs m.boot).Named := Registry.Named.empty

theorem run_entered (m : Machine) (es : List Event) : Entered m.boot (m.run es) (m.run es).routed := by
  obtain ⟨-, ⟨log, hl⟩, -⟩ := actions_entered (run_actions m es) (boot_named m)
  have hr : (m.run es).routed = log := hl.routed
  rw [hr]
  exact hl

theorem run_names (m : Machine) (es : List Event) : (abs (m.run es)).Named :=
  run_keeps .empty (fun _ _ hs => hs.names) m es

/-! Lives. -/

theorem distinct_none : SlotTable.Distinct (fun _ => none : Roster) := fun _ _ _ h => by
  cases h

theorem rosterImage_cleared : KeptByClearing fun d => (rosterView (rosterImage d)).Distinct :=
  image_keeps (k := .roster) (Q := fun t => (rosterView t.roster_store).Distinct)
    (fun t u (h : u.roster_store = t.roster_store) ht => h ▸ ht) distinct_none

theorem boot_rosterOk (m : Machine) (h : (rosterView (rosterImage m.disk)).Distinct) : RosterOk m.boot := by
  rcases boot_mem rosterImage_cleared m with ⟨hs, hd⟩ | ⟨hz, hi⟩
  · refine ⟨?_, ?_⟩
    · rw [hs]
      exact h
    · rwa [hd]
  · refine ⟨?_, hi h⟩
    rw [hz]
    exact distinct_none

theorem life_rosterOk (l : Life) {d : Disk} (h : (rosterView (rosterImage d)).Distinct) : RosterOk (l.run d) :=
  (actions_entered (run_actions (l.on d) l.events) (boot_named _)).2.2 (boot_rosterOk (l.on d) h)

theorem reboots_rosterOk (ls : List Life) {d : Disk} (h : (rosterView (rosterImage d)).Distinct) :
    (rosterView (rosterImage (reboots d ls))).Distinct :=
  foldl_keeps (P := fun d => (rosterView (rosterImage d)).Distinct) (fun _ l hd => (life_rosterOk l hd).image) ls h

/-! Whose entries change. -/

/-- Only entries of the user and slots that were free are other than before. -/
def ChangesOnly (user : Str) (R R' : RosterArray) : Prop :=
  ∀ i, R' i ≠ R i → (R i).active = 0 ∨ (R i).username.str = user

theorem ChangesOnly.refl (user : Str) (R : RosterArray) : ChangesOnly user R R := fun _ h => absurd rfl h

theorem ChangesOnly.trans {R R' R'' : RosterArray} (h : ChangesOnly user R R')
    (h' : ChangesOnly user R' R'') : ChangesOnly user R R'' := by
  intro i hi
  by_cases hr : R' i = R i
  · rw [← hr] at hi ⊢
    exact h' i hi
  · exact h i hr

/-- A slot is written that was found for the user, or was free. -/
theorem ChangesOnly.setRoster {t : Stores} {jid : Str} (hu : Holds 32 user) {i : Fin MAX_ROSTER_ENTRIES}
    (hi : rosterSlot t user jid = some i ∨ freeRosterSlot t = some i) (e : RosterEntry) :
    ChangesOnly user t.roster_store (t.setRoster i e).roster_store := by
  intro j hj
  have hji : j = i := by
    by_contra hne
    exact hj (Function.update_of_ne hne ..)
  subst hji
  rcases hi with hs | hf
  · have h := SlotTable.first_some hs
    simp only [Bool.and_eq_true, bufIs_iff _ hu] at h
    exact .inr h.1.2
  · have h := SlotTable.first_some hf
    exact .inl (beq_iff_eq.mp h)

theorem upsert_changesOnly (hu : Holds 32 user) (item : Str) (t : Stores) :
    ChangesOnly user t.roster_store (roster_store_upsert_item user item t).roster_store := by
  unfold roster_store_upsert_item
  cases roster_extract_jid item with
  | none => exact .refl user _
  | some jid =>
    dsimp only
    split
    · cases hs : rosterSlot t user jid with
      | none => exact .refl user _
      | some i => exact .setRoster hu (.inl hs) _
    · cases hs : rosterSlot t user jid with
      | some i => exact .setRoster hu (.inl hs) _
      | none =>
        cases hf : freeRosterSlot t with
        | none => exact .refl user _
        | some i =>
          have hi : rosterSlot t user jid = some i ∨ freeRosterSlot t = some i := .inr hf
          exact .setRoster hu hi _

theorem set_changesOnly (hu : Holds 32 user) (payload : Str) (t : Stores) :
    ChangesOnly user t.roster_store (roster_store_set_from_payload user payload t).roster_store := by
  refine foldl_keeps (P := fun t' : Stores => ChangesOnly user t.roster_store t'.roster_store) (fun t' item h => ?_) _
    (.refl user _)
  exact h.trans (upsert_changesOnly hu item t')

/-- The entry that is rewritten was found for the user, or was free. -/
theorem subscriptionChange_slot {t : Stores} {jid xml : Str} {inbound subscribed : Bool}
    {i : Fin MAX_ROSTER_ENTRIES} {e : RosterEntry}
    (h : subscriptionChange t user jid inbound subscribed = some (i, e, xml)) :
    rosterSlot t user jid = some i ∨ freeRosterSlot t = some i := by
  unfold subscriptionChange at h
  cases hs : rosterSlot t user jid with
  | some k =>
    simp only [hs, Option.map_eq_some_iff] at h
    obtain ⟨⟨k', e'⟩, h, he⟩ := h
    split at h
    · cases h
    · cases h
      cases he
      exact .inl rfl
  | none =>
    simp only [hs, Option.map_eq_some_iff] at h
    obtain ⟨⟨k', e'⟩, h, he⟩ := h
    split at h
    · cases h
    · obtain ⟨k, hf, hk⟩ := Option.map_eq_some_iff.mp h
      cases hk
      cases he
      exact .inr hf

theorem update_changesOnly (hu : Holds 32 user) (jid : Str) (inbound subscribed : Bool) (s : Server) (t : Stores) :
    ChangesOnly user t.roster_store (Texts.rosterUpdate s t user jid inbound subscribed).1.roster_store := by
  unfold Texts.rosterUpdate
  cases h : subscriptionChange t user jid inbound subscribed with
  | none => exact .refl user _
  | some c => exact .setRoster hu (subscriptionChange_slot h) c.2.1

theorem subscription_update_run (user jid : Str) (inbound subscribed : Bool) (s : Server) :
    (subscription_update_roster user jid inbound subscribed s).2.stores =
      (Texts.rosterUpdate s s.stores user jid inbound subscribed).1 :=
  (sends_subscription_update_roster (G := fun _ => True) user jid inbound subscribed trivial s
    (Now.refl trivial)).2.stores

/-- After any lives and any events of the last one no contact is twice on a roster. A roster set then
changes entries of its user alone, or takes free slots, and so does each of the two changes that a
subscription makes, for the user it is made for; nothing else changes rosters. The first life may find
any disk on which no contact is twice on a roster. -/
theorem rosters_apart (d : Disk) (hd : (rosterView (rosterImage d)).Distinct) (ls : List Life) (l : Life) :
    let s := l.run (reboots d ls)
    let R := s.stores.roster_store
    (∀ i j, (R i).active ≠ 0 → (R j).active ≠ 0 → (R i).username.str = (R j).username.str →
        (R i).jid.str = (R j).jid.str → i = j) ∧
      ∀ me st,
        let c := s.client_registry me
        let s₁ := (subscription_update_roster (localPart (bare c.full_jid)) (bare st.to_) false
          (decide (st.type = .PRESENCE_SUBSCRIBED)) s).2
        let R' := (xmpp_route_stanza me st s).2.stores.roster_store
        (setsRoster c st → ChangesOnly c.username R R') ∧
          (tellsRosters c st → ChangesOnly (localPart (bare c.full_jid)) R s₁.stores.roster_store ∧
            ChangesOnly (localPart (bare st.to_)) s₁.stores.roster_store R') ∧
          (¬ setsRoster c st → ¬ tellsRosters c st → R' = R) := by
  intro s R
  have hok : RosterOk s := life_rosterOk l (reboots_rosterOk ls hd)
  refine ⟨fun i j hi hj hu hjid => ?_, fun me st => ?_⟩
  · refine hok.rosters ((R i).username.str, (R i).jid.str) i j (SlotTable.holds_iff.mpr ⟨(R i).item_xml.str, ?_⟩)
      (SlotTable.holds_iff.mpr ⟨(R j).item_xml.str, ?_⟩)
    · exact if_pos hi
    · rw [hu, hjid]
      exact if_pos hj
  · intro c s₁ R'
    have hR' : R' = rostersAfter s me st := (route_sends s me st).2.rosters
    have hs₁ : s₁.stores = _ := subscription_update_run _ _ _ _ s
    have hlp : ∀ jid, Holds 32 (localPart (bare jid)) := fun jid => localPart_holds (bare_holds jid).2
    rw [hR', rostersAfter, hs₁]
    refine ⟨fun hset => ?_, fun htell => ⟨?_, ?_⟩, fun hset htell => ?_⟩
    · rw [if_pos hset]
      exact set_changesOnly ((run_names _ _).session me).username _ _
    · exact update_changesOnly (hlp _) _ _ _ s s.stores
    · have hset : ¬ setsRoster c st := fun h => absurd (h.2.1.symm.trans htell.2.1) (by decide)
      rw [if_neg hset, if_pos htell]
      exact update_changesOnly (hlp _) _ _ _ s _
    · rw [if_neg hset, if_neg htell]

theorem rosterImage_blank : rosterImage (fun _ => []) = fun _ => .zero := by
  funext i
  have hget : Disk.get (fun _ => []) .roster = [] := by decide +kernel
  simp only [rosterImage, diskStores, decodeStores, hget, arrayAt, List.drop_nil, List.take_nil]
  decide +kernel

theorem distinct_blank : (rosterView (rosterImage fun _ => [])).Distinct := by
  rw [rosterImage_blank]
  exact distinct_none

/-- A roster set with two contacts. -/
def befriend : Str :=
  cat ["<iq type='set' id='r1'><query xmlns='jabber:iq:roster'><item jid='user1@angelic.local'/>",
    "<item jid='user2@angelic.local' name='Two'/></query></iq>"]

/-- A contact is approved. -/
def approval : Str := cat ["<presence type='subscribed' to='user1@angelic.local'/>"]

def befriended : Life := lifeOf (visit 7 authAdmin [befriend])

theorem rosters_apart_befriended :
    let R := (befriended.run (reboots (fun _ => []) [])).stores.roster_store
    (R 0).active ≠ 0 ∧ (R 1).active ≠ 0 ∧ (R 0).username.str = (R 1).username.str ∧
      (R 0).jid.str ≠ (R 1).jid.str := by
  have h0 : ((befriended.run (reboots (fun _ => []) [])).stores.roster_store 0).active ≠ 0 := by decide +kernel
  have h1 : ((befriended.run (reboots (fun _ => []) [])).stores.roster_store 1).active ≠ 0 := by decide +kernel
  have hu : ((befriended.run (reboots (fun _ => []) [])).stores.roster_store 0).username.str =
      ((befriended.run (reboots (fun _ => []) [])).stores.roster_store 1).username.str := by decide +kernel
  refine ⟨h0, h1, hu, fun hj => ?_⟩
  exact absurd ((rosters_apart (fun _ => []) distinct_blank [] befriended).1 0 1 h0 h1 hu hj) (by decide)

end Angelic.Proofs
