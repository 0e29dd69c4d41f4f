import Angelic.Proofs.Rosters

namespace Angelic.Proofs
open CString Model Spec

/-! What a roster set does to the subscriptions: they are part of the items, and so they are written with
them. -/

/-- The item asks for the removal of its contact. -/
def Removes (item : Str) : Bool := hasAttr item "subscription='remove'" "subscription=\"remove\""

/-- The items that name a contact, each under its key. -/
def keyed (user : Str) (items : List Str) : List ((Str × Str) × Str) :=
  items.filterMap fun item => (roster_extract_jid item).map fun jid => ((user, jid), item)

namespace Roster

theorem setItems_putAll {items : List Str} (h : ∀ item ∈ items, Removes item = false) (T : Roster) (user : Str) :
    T.setItems user items = T.putAll (keyed user items) := by
  induction items generalizing T with
  | nil => rfl
  | cons item items ih =>
    have hi : hasAttr item "subscription='remove'" "subscription=\"remove\"" = false := h item List.mem_cons_self
    have rest := ih fun x hx => h x (List.mem_cons_of_mem _ hx)
    cases hj : roster_extract_jid item with
    | none =>
      have hu : T.upsert user item = T := by rw [upsert, hj]
      have hk : keyed user (item :: items) = keyed user items := List.filterMap_cons_none (by rw [hj]; rfl)
      rw [hk, ← rest, setItems, List.foldl_cons, hu, setItems]
    | some jid =>
      have hu : T.upsert user item = T.put (user, jid) item := by
        rw [upsert, hj]
        exact if_neg (by simp [hi])
      have hk : keyed user (item :: items) = ((user, jid), item) :: keyed user items :=
        List.filterMap_cons_some (by rw [hj]; rfl)
      rw [hk, setItems, List.foldl_cons, hu]
      exact rest _

theorem setItems_subscription {T : Roster} (h : T.Distinct) {items : List Str}
    (hr : ∀ item ∈ items, Removes item = false) (user jid : Str) :
    (T.setItems user items).subscription user jid = T.subscription user jid ↔
      ∀ item, SlotTable.lastOf (user, jid) (keyed user items) = some item → T.Takes (keyed user items) (user, jid) →
        subscriptionOf item = T.subscription user jid := by
  rw [setItems_putAll hr, subscription, h.get_putAll]
  by_cases hs : T.Takes (keyed user items) (user, jid)
  · rw [if_pos hs]
    cases SlotTable.lastOf (user, jid) (keyed user items) with
    | none => simp [subscription]
    | some item => simp [hs]
  · rw [if_neg hs]
    have hn : T.get (user, jid) = none := by
      by_contra hg
      exact hs (.inl (Option.isSome_iff_ne_none.mpr hg))
    have hsub : T.subscription user jid = .none_ := by rw [subscription, hn, Option.elim_none]
    exact iff_of_true hsub.symm fun _ _ h => absurd h hs

end Roster

/-- A roster set writes its items on the roster of its user. -/
theorem route_sets_items {s : Server} {me : Slot} {st : Stanza} (hn : (abs s).Named) (ok : StanzaOk st)
    (hset : setsRoster (s.client_registry me) st) :
    rosterView (xmpp_route_stanza me st s).2.stores.roster_store = (rosterView s.stores.roster_store).setItems
      (s.client_registry me).username (rosterItems st.payload.length st.payload) := by
  have hu : Holds 32 (s.client_registry me).username := (hn.session me).username
  have hv := rostersAfter_view hu ok.2
  rw [← (route_sends s me st).2.rosters, Roster.handle] at hv
  exact hv.trans (if_pos hset)

/-- A roster set that removes nobody leaves the subscriptions of its user alone exactly if every item that
is stored shows the subscription its contact has. Of several items for a contact the last counts. -/
theorem set_keeps_subscriptions_iff (d : Disk) (hd : (rosterView (rosterImage d)).Distinct) (ls : List Life)
    (l : Life) (me : Slot) (st : Stanza) (ok : StanzaOk st) :
    let s := l.run (reboots d ls)
    let c := s.client_registry me
    let items := rosterItems st.payload.length st.payload
    let T := rosterView s.stores.roster_store
    let T' := rosterView (xmpp_route_stanza me st s).2.stores.roster_store
    setsRoster c st → (∀ item ∈ items, Removes item = false) →
      ((∀ jid, T'.subscription c.username jid = T.subscription c.username jid) ↔
        ∀ jid item, SlotTable.lastOf (c.username, jid) (keyed c.username items) = some item →
          T.Takes (keyed c.username items) (c.username, jid) → subscriptionOf item = T.subscription c.username jid) := by
  intro s c items T T' hset hr
  have hok : RosterOk s := life_rosterOk l (reboots_rosterOk ls hd)
  have hT : T' = T.setItems c.username items := route_sets_items (run_names _ _) ok hset
  rw [hT]
  exact forall_congr' fun jid => Roster.setItems_subscription hok.rosters hr c.username jid

def rosterSet (attrs : String) : Str :=
  cat ["<iq type='set' id='r2'><query xmlns='jabber:iq:roster'><item jid='user1@angelic.local'", attrs, "/></query></iq>"]

def approved : Life := lifeOf (visit 7 authAdmin [approval])

/-- The same contact with the subscription it has. -/
def sameItem : Stanza := parseStanza (rosterSet " name='One' subscription='from'")

theorem set_keeps_subscriptions_iff_same :
    let s := approved.run (reboots (fun _ => []) [])
    (s.client_registry 0).username = lit "admin" ∧
      ∀ jid, (rosterView (xmpp_route_stanza 0 sameItem s).2.stores.roster_store).subscription (lit "admin") jid =
        (rosterView s.stores.roster_store).subscription (lit "admin") jid := by
  have hu : ((approved.run (reboots (fun _ => []) [])).client_registry 0).username = lit "admin" := by decide +kernel
  have hset : setsRoster ((approved.run (reboots (fun _ => []) [])).client_registry 0) sameItem := by decide +kernel
  have hr : (rosterItems sameItem.payload.length sameItem.payload).all (fun item => !Removes item) = true := by
    decide +kernel
  have hk : keyed (lit "admin") (rosterItems sameItem.payload.length sameItem.payload) =
      [((lit "admin", lit "user1@angelic.local"),
        lit "<item jid='user1@angelic.local' name='One' subscription='from'/>")] := by decide +kernel
  have hsub : subscriptionOf (lit "<item jid='user1@angelic.local' name='One' subscription='from'/>") =
      (rosterView (approved.run (reboots (fun _ => []) [])).stores.roster_store).subscription (lit "admin")
        (lit "user1@angelic.local") := by decide +kernel
  have h := set_keeps_subscriptions_iff (fun _ => []) distinct_blank [] approved 0 sameItem (parseStanza_ok _) hset
    fun item hi => by simpa using List.all_eq_true.mp hr item hi
  rw [hu] at h
  refine ⟨hu, h.mpr fun jid item hl _ => ?_⟩
  rw [hk] at hl
  by_cases hj : lit "user1@angelic.local" = jid
  · subst hj
    rw [SlotTable.lastOf_cons_self] at hl
    rw [← Option.some.inj hl]
    exact hsub
  · rw [SlotTable.lastOf_cons_of_ne (by simp [hj])] at hl
    cases hl

/-- Another name for a contact ends its subscription. -/
theorem rename_ends_subscription :
    let sub := fun texts => (rosterView ((lifeOf (visit 7 authAdmin texts)).run fun _ => []).stores.roster_store).subscription
      (lit "admin") (lit "user1@angelic.local")
    sub [approval] = .from_ ∧ sub [approval, rosterSet " name='One'"] = .none_ := by
  decide +kernel

end Angelic.Proofs
