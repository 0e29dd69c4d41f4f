import Angelic.Lib.Search
import Angelic.Lib.Xml
import Angelic.Proofs.RoomRights

namespace Angelic.Proofs
open CString Model

/-! Whom a kick or ban removes. -/

/-- The occupant whom an item names: by its nick, or for a ban without a nick by its address. Values are compared
as they are written. -/
def namedIn (r : Room) (item : Option Xml.Tag) (want_ban : Bool) : Option (Fin MAX_USERS_PER_ROOM) :=
  match item.bind (·.attr (lit "nick")), item.bind (·.attr (lit "jid")) with
  | some nick, _ => r.firstUser (·.nick == nick)
  | none, some jid => if want_ban then r.firstUser (·.jid == bare jid) else none
  | none, none => none

/-- The room and the occupant that a request names with its first item. -/
def named (T : RoomTable) (st : Stanza) (c : Xml.Content) : Option (Fin MAX_ROOMS × Fin MAX_USERS_PER_ROOM) :=
  (T.find (roomName st.to_)).bind fun i =>
    (namedIn (T i) (c.first (lit "item")) (RoomTable.wantBan st)).map fun j => (i, j)

/-- The occupant named is removed and no other. Where none is named, no one is banned. -/
structure RemovesNamed (T T' : RoomTable) (who : Option (Fin MAX_ROOMS × Fin MAX_USERS_PER_ROOM)) : Prop where
  users : ∀ i j, (T' i).users j = if who = some (i, j) then .zero else (T i).users j
  bans : who = none → ∀ i, (T' i).banned_count = (T i).banned_count ∧ (T' i).banned_jids = (T i).banned_jids

/-! The nick that the handler looks for. -/

/-- Where the payload gives a nick: at its first `nick='`, or at its first `nick="` if it has no `nick='`. -/
inductive NickAt (p : Str) : Byte → Str → Prop
  | single {after : Str} (h : FirstAt (lit "nick='") p after) : NickAt p apos after
  | double {after : Str} (hs : ¬ lit "nick='" <:+: p) (h : FirstAt (lit "nick=\"") p after) : NickAt p dquote after

/-- What stands there up to the quote that closes it, and 31 bytes of it. -/
inductive NickText (p : Str) : Str → Prop
  | quoted {q : Byte} {n after : Str} (h : NickAt p q (n ++ q :: after)) (hq : q ∉ n) : NickText p (n.take 31)
  | unclosed {q : Byte} {after : Str} (h : NickAt p q after) (hq : q ∉ after) : NickText p []
  | absent (h : ∀ q after, ¬ NickAt p q after) : NickText p []

/-- Whom such a text picks: an empty one picks the first occupant. -/
def picked (r : Room) (t : Str) : Option (Fin MAX_USERS_PER_ROOM) :=
  r.firstUser fun p => t == [] || p.nick == t

section Text
variable {p : Str} (h0 : 0 ∉ p)
include h0

theorem nickAt_iff {t : Str} : (strstr p (lit "nick='")).or (strstr p (lit "nick=\"")) = some t ↔
      ∃ q after, t = lit "nick=" ++ q :: after ∧ NickAt p q after := by
  have hs := fun t => strstr_eq_some_iff (t := t) (show 0 ∉ lit "nick='" by decide) (by decide) h0
  have hd := fun t => strstr_eq_some_iff (t := t) (show 0 ∉ lit "nick=\"" by decide) (by decide) h0
  have hnone := strstr_eq_none (show 0 ∉ lit "nick='" by decide) (by decide) h0
  constructor
  · intro h
    rcases Option.or_eq_some_iff.mp h with h | ⟨hn, h⟩
    · obtain ⟨after, rfl, hf⟩ := (hs t).mp h
      exact ⟨apos, after, rfl, .single hf⟩
    · obtain ⟨after, rfl, hf⟩ := (hd t).mp h
      exact ⟨dquote, after, rfl, .double (hnone.mp hn) hf⟩
  · rintro ⟨q, after, rfl, hat⟩
    rw [Option.or_eq_some_iff]
    cases hat with
    | single hf => exact .inl ((hs _).mpr ⟨after, rfl, hf⟩)
    | double hn hf => exact .inr ⟨hnone.mpr hn, (hd _).mpr ⟨after, rfl, hf⟩⟩

theorem NickAt.clean {q : Byte} {after : Str} (h : NickAt p q after) : q ≠ 0 ∧ 0 ∉ after := by
  have part : ∀ {key after : Str}, FirstAt key p after → 0 ∉ after := by
    rintro key after ⟨before, hp, -⟩ hm
    refine h0 ?_
    rw [hp]
    exact List.mem_append_right _ (List.mem_append_right _ hm)
  cases h with
  | single hf => exact ⟨by decide, part hf⟩
  | double hn hf => exact ⟨by decide, part hf⟩

theorem targetNick_at {q : Byte} {after : Str} (h : NickAt p q after) :
    targetNick p = match strchr after q with
      | some e => (upto after e).take 31
      | none => [] := by
  rw [targetNick, (nickAt_iff h0).mpr ⟨q, after, rfl, h⟩]
  rfl

/-- The handler looks for this text. -/
theorem NickText.target {t : Str} (h : NickText p t) : targetNick p = t := by
  cases h with
  | quoted hat hq =>
    rename_i q n after
    have hn : 0 ∉ n := fun hm => (hat.clean h0).2 (List.mem_append_left _ hm)
    rw [targetNick_at h0 hat, strchr_over hn hq]
    dsimp only
    rw [upto_append]
  | unclosed hat hq =>
    rename_i q after
    rw [targetNick_at h0 hat]
    cases he : strchr after q with
    | none => rfl
    | some e =>
      obtain ⟨a, b, rfl, -, -⟩ := strchr_split (hat.clean h0).1 he
      exact absurd (List.mem_append_right a List.mem_cons_self) hq
  | absent hno =>
    have hnone : (strstr p (lit "nick='")).or (strstr p (lit "nick=\"")) = none := by
      cases he : (strstr p (lit "nick='")).or (strstr p (lit "nick=\"")) with
      | none => rfl
      | some t =>
        obtain ⟨q, after, -, hat⟩ := (nickAt_iff h0).mp he
        exact absurd hat (hno q after)
    rw [targetNick, hnone]

end Text

theorem nickText_exists (p : Str) : ∃ t, NickText p t := by
  by_cases h : ∃ q after, NickAt p q after
  · obtain ⟨q, after, hat⟩ := h
    by_cases hq : q ∈ after
    · obtain ⟨n, rest, rfl, hn⟩ := List.eq_append_cons_of_mem hq
      exact ⟨_, .quoted hat hn⟩
    · exact ⟨_, .unclosed hat hq⟩
  · exact ⟨[], .absent fun q after hat => h ⟨q, after, hat⟩⟩

/-! What the request does. -/

theorem admin_rooms (s : Server) (me : Slot) (st : Stanza) :
    (handle_muc_admin me st s).2.stores.rooms = RoomTable.admin s.stores.rooms st :=
  (stirs_handle_muc_admin s ⟨rfl, rfl, rfl⟩ : _ ∧ At me _ (s.client_registry me) _).2.rooms

/-- The one occupant that is not left as it was, if any, is the one that was picked. -/
theorem removesNamed_iff {T : RoomTable} {st : Stanza} {i : Fin MAX_ROOMS} (hi : T.find (roomName st.to_) = some i)
    {who : Option (Fin MAX_USERS_PER_ROOM)} (hwho : ∀ j, who = some j → ((T i).users j).active) :
    RemovesNamed T (T.kick st (RoomTable.wantBan st)) (who.map fun j => (i, j)) ↔ kicked (T i) st = who := by
  rw [kick_eq hi]
  cases hk : kicked (T i) st with
  | none =>
    dsimp only
    constructor
    · intro h
      cases who with
      | none => rfl
      | some j =>
        have hu := h.users i j
        rw [Option.map_some, if_pos rfl] at hu
        have ha := hwho j rfl
        rw [hu] at ha
        exact absurd ha (by decide)
    · rintro rfl
      exact ⟨fun k j => by rw [Option.map_none, if_neg (Option.some_ne_none _).symm], fun _ k => ⟨rfl, rfl⟩⟩
  | some j =>
    have hj := (firstUser_some hk).1
    have husers : ∀ r : Room, ((if RoomTable.wantBan st then r.ban (bare (r.users j).jid) else r).setUser j .zero).users =
        Function.update r.users j .zero := by
      intro r
      have hb : ∀ x, (r.ban x).users = r.users := fun x => by
        rw [Room.ban]
        split <;> rfl
      rw [Room.setUser]
      split
      · exact congrArg (fun u => Function.update u j _) (hb _)
      · rfl
    dsimp only
    constructor
    · intro h
      by_contra hne
      have hu := h.users i j
      rw [RoomTable.mod, Function.update_self, husers, Function.update_self, if_neg] at hu
      · rw [← hu] at hj
        exact absurd hj (by decide)
      · intro he
        obtain ⟨j', hw, he⟩ := Option.map_eq_some_iff.mp he
        rw [hw, (Prod.mk.inj he).2] at hne
        exact hne rfl
    · rintro rfl
      refine ⟨fun k l => ?_, fun hn => absurd hn (Option.some_ne_none _)⟩
      rw [RoomTable.mod]
      by_cases hki : k = i
      · subst hki
        rw [Function.update_self, husers]
        by_cases hl : l = j
        · rw [hl, Function.update_self, Option.map_some, if_pos rfl]
        · rw [Function.update_of_ne hl, if_neg]
          rintro he
          exact hl (Prod.mk.inj (Option.some.inj he)).2.symm
      · rw [Function.update_of_ne hki, if_neg]
        rintro he
        exact hki (Prod.mk.inj (Option.some.inj he)).1.symm

theorem namedIn_active {r : Room} {item : Option Xml.Tag} {want_ban : Bool} {j : Fin MAX_USERS_PER_ROOM}
    (h : namedIn r item want_ban = some j) : (r.users j).active := by
  unfold namedIn at h
  split at h
  · exact (firstUser_some h).1
  · split at h
    · exact (firstUser_some h).1
    · cases h
  · cases h

/-- A kick or ban removes the occupant its item names exactly if the text behind the first `nick=` of the payload
picks that occupant, or no one where no one is named. -/
theorem kick_removes_named_iff (s : Server) (me : Slot) {st : Stanza} (hset : st.type = .IQ_SET)
    (hwant : RoomTable.wantKick st ∨ RoomTable.wantBan st) (c : Xml.Content) (hp : st.payload = c.text) :
    RemovesNamed s.stores.rooms (handle_muc_admin me st s).2.stores.rooms (named s.stores.rooms st c) ↔
      ∀ i t, RoomTable.find s.stores.rooms (roomName st.to_) = some i → NickText st.payload t →
        picked (s.stores.rooms i) t = namedIn (s.stores.rooms i) (c.first (lit "item")) (RoomTable.wantBan st) := by
  have h0 : 0 ∉ st.payload := hp ▸ c.zero_not_mem
  obtain ⟨t, ht⟩ := nickText_exists st.payload
  have hpicked : ∀ r, kicked r st = picked r t := fun r => by rw [kicked, picked, ht.target h0]
  rw [admin_rooms, RoomTable.admin, if_pos ⟨hset, hwant⟩, named]
  cases hi : RoomTable.find s.stores.rooms (roomName st.to_) with
  | none =>
    have hkick : RoomTable.kick s.stores.rooms st (RoomTable.wantBan st) = s.stores.rooms := by
      rw [RoomTable.kick, RoomTable.target, hi]
    rw [hkick]
    refine iff_of_true ⟨fun k j => ?_, fun _ k => ⟨rfl, rfl⟩⟩ fun i t h => absurd h (Option.some_ne_none i).symm
    exact (if_neg (Option.some_ne_none _).symm).symm
  | some i =>
    rw [Option.bind_some, removesNamed_iff hi fun j hj => namedIn_active hj, hpicked]
    constructor
    · intro h i' t' hi' ht'
      rw [← Option.some.inj hi', ← ht'.target h0, ht.target h0]
      exact h
    · intro h
      exact h i t rfl ht

/-! The administrator's room, with both users in it. -/

/-- An attribute in single quotes behind one blank. -/
def plainAttr (name : Xml.Name) (value : Str) (ok : apos ∉ value ∧ ch '<' ∉ value ∧ 0 ∉ value) : Xml.Attr :=
  .single name value ok

def ITEM : Xml.Name := .of 'i' "tem" (by decide)
def NICK : Xml.Name := .of 'n' "ick" (by decide)
def ROLE : Xml.Name := .of 'r' "ole" (by decide)
def JID : Xml.Name := .of 'j' "id" (by decide)
def AFFILIATION : Xml.Name := .of 'a' "ffiliation" (by decide)

def adminSet (c : Xml.Content) : Stanza :=
  { Stanza.zero with type := .IQ_SET, to_ := lit HALL, xmlns := RoomTable.NS_ADMIN, payload := c.text }

def kickBob : Xml.Content :=
  .empty ⟨ITEM, [plainAttr NICK (lit "bob") (by decide), plainAttr ROLE (lit "none") (by decide)], .none⟩ .done

theorem bob_kicked :
    named gathered.stores.rooms (adminSet kickBob) kickBob = some (0, 1) ∧
    RemovesNamed gathered.stores.rooms (handle_muc_admin 0 (adminSet kickBob) gathered).2.stores.rooms (some (0, 1)) := by
  have heval : named gathered.stores.rooms (adminSet kickBob) kickBob = some (0, 1) ∧
      (RoomTable.wantKick (adminSet kickBob) ∨ RoomTable.wantBan (adminSet kickBob)) ∧
      targetNick kickBob.text = lit "bob" ∧
      ∀ i, RoomTable.find gathered.stores.rooms (roomName (adminSet kickBob).to_) = some i →
        picked (gathered.stores.rooms i) (lit "bob") = namedIn (gathered.stores.rooms i) (kickBob.first (lit "item"))
          (RoomTable.wantBan (adminSet kickBob)) := by
    decide +kernel
  obtain ⟨hnamed, hwant, htext, hpicked⟩ := heval
  have h := kick_removes_named_iff gathered 0 (rfl : (adminSet kickBob).type = _) hwant kickBob rfl
  rw [hnamed] at h
  refine ⟨hnamed, h.mpr fun i t hi ht => ?_⟩
  rw [← ht.target kickBob.zero_not_mem, htext]
  exact hpicked i hi

/-- A ban that names the other user by its address. -/
def banBobsJid : Xml.Content :=
  .empty ⟨ITEM, [plainAttr AFFILIATION (lit "outcast") (by decide),
    plainAttr JID (lit "user1@angelic.local") (by decide)], .none⟩ .done

/-- The administrator is removed and banned in its place. -/
theorem ban_by_jid_hits_first :
    named gathered.stores.rooms (adminSet banBobsJid) banBobsJid = some (0, 1) ∧
    (((handle_muc_admin 0 (adminSet banBobsJid) gathered).2.stores.rooms 0).users 0).active = false ∧
    ((handle_muc_admin 0 (adminSet banBobsJid) gathered).2.stores.rooms 0).users 1 = (gathered.stores.rooms 0).users 1 ∧
    ((gathered.stores.rooms 0).users 0).active ∧ ((gathered.stores.rooms 0).users 1).active ∧
    ((handle_muc_admin 0 (adminSet banBobsJid) gathered).2.stores.rooms 0).banned (lit "admin@angelic.local") := by
  decide +kernel

end Angelic.Proofs
