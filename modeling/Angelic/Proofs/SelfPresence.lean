import Angelic.Proofs.Formats
import Angelic.Proofs.RoomRights
import Angelic.Proofs.RoomTexts
import Angelic.Proofs.TextSizes

namespace Angelic.Proofs
open CString Model

/-! Whether a presence to a room is answered with the occupant's own presence. -/

def Occupant (r : Room) (jid nick : Str) : Prop :=
  ∃ j, (r.users j).active ∧ (r.users j).jid = jid ∧ (r.users j).nick = nick

/-- The nick in an address, however long it is. -/
def nickIn (to_ : Str) : Str := ((strchr to_ (ch '/')).map List.tail).getD []

/-- The available presences with status 110. -/
def selfFormats : List Str := [fmtAvailSelf, fmtMemberSelf, fmtNewRoom]

/-- Those that tell of a nick which was not there before. -/
def newFormats : List Str := [fmtMember, fmtMemberJid, fmtMemberSelf]

/-- The sender is in the room that the address names, under the nick it names. -/
def Inside (T : RoomTable) (c : Ctx) (t : MucTarget) (nick : Str) : Prop :=
  ∃ i, T.find t.room_name = some i ∧ Occupant (T i) (bare c.full_jid) nick

/-- The sender gets a presence with status 110, all of it. -/
def ToldSelf (me : Slot) (l : List Sent) : Prop := ∃ t, (me, t) ∈ l ∧ t.fmt ∈ selfFormats ∧ t.str = t.full

def ToldOthers (me : Slot) (l : List Sent) : Prop := ∃ x ∈ l, x.1 ≠ me ∧ x.2.fmt ∈ newFormats

structure Honest (me : Slot) (l : List Sent) (inside : Prop) : Prop where
  self : ToldSelf me l ↔ inside
  others : ToldOthers me l → inside

/-! When it is. -/

/-- An occupant has an address without a resource for its own, and the first session of that address is the
sender's. -/
def Seen (s : Server) (me : Slot) (r : Room) : Prop :=
  find_client_by_jid s (s.client_registry me).full_jid = some me ∧
    ∃ j, (r.users j).active ∧ (r.users j).jid = (s.client_registry me).full_jid

/-- The presence that is passed on to the occupant itself. -/
def ownAvail (s : Server) (me : Slot) (st : Stanza) (r : Room) (t : MucTarget) (k : Fin MAX_USERS_PER_ROOM) : Text :=
  let full_jid := (s.client_registry me).full_jid
  Texts.avail t full_jid st.payload ((r.users k).jid == r.creator_jid) { r.users k with jid := full_jid }

/-- A room answers as it should, by what becomes of the presence: the room is locked, the sender is in it under
this nick or another one, or it joins. -/
def RoomAnswers (s : Server) (me : Slot) (st : Stanza) (r : Room) (t : MucTarget) (nick : Str) : Prop :=
  let c := s.client_registry me
  if RoomTable.shut r c then ¬ Occupant r (bare c.full_jid) nick
  else
    match r.firstUser (·.jid == bare c.full_jid) with
    | some k =>
      if (r.users k).nick = t.nick then (Seen s me r ∧ (ownAvail s me st r t k).Fits) ↔ nick.length ≤ 31
      else if RoomTable.taken r k t.nick then ¬ Occupant r (bare c.full_jid) nick
      else if nick.length ≤ 31 then Seen s me r
      else ∀ j x, (r.users j).active → find_client_by_jid s (r.users j).jid = some x →
        x = me ∧ (r.users j).jid ≠ c.full_jid
    | none =>
      r.banned (bare c.full_jid) ∨ (r.firstUser (·.nick == t.nick)).isSome ∨
        (nick.length ≤ 31 ∧ ∃ j, ¬ (r.users j).active)

/-! The room afterwards. -/

section Room
variable {c : Ctx} {r : Room} {t : MucTarget} {nick : Str}

theorem setUser_at (r : Room) (j : Fin MAX_USERS_PER_ROOM) (p : Participant) : (r.setUser j p).users j = p :=
  Function.update_self ..

theorem setUser_of_ne {j k : Fin MAX_USERS_PER_ROOM} (h : k ≠ j) (p : Participant) :
    (r.setUser j p).users k = r.users k := Function.update_of_ne h ..

theorem cut_nick (h : t.nick = nick.take 31) : t.nick = nick ↔ nick.length ≤ 31 := by
  rw [h]
  exact ⟨fun he => by rw [← he]; exact List.length_take_le 31 nick, List.take_of_length_le⟩

theorem join_occupant (ht : t.nick = nick.take 31) (hs : strncpy 31 t.nick = t.nick)
    (habsent : r.firstUser (·.jid == bare c.full_jid) = none) :
    Occupant (r.join c t.nick) (bare c.full_jid) nick ↔ nick.length ≤ 31 ∧ ∃ j, ¬ (r.users j).active := by
  have hno : ∀ j, (r.users j).active → (r.users j).jid ≠ bare c.full_jid := fun j hj =>
    beq_eq_false_iff_ne.mp (firstUser_none habsent j hj)
  rw [Room.join]
  cases hf : firstIdx (fun j => !(r.users j).active) with
  | none =>
    have hfull : ∀ j, (r.users j).active := fun j => by simpa using firstIdx_none hf j
    constructor
    · rintro ⟨j, hj, hjid, -⟩
      exact absurd hjid (hno j hj)
    · rintro ⟨-, j, hj⟩
      exact absurd (hfull j) hj
  | some j₀ =>
    have hfree : ¬ (r.users j₀).active := by simpa using firstIdx_some hf
    dsimp only
    rw [← cut_nick ht, hs]
    constructor
    · rintro ⟨j, hj, hjid, hnick⟩
      refine ⟨?_, j₀, hfree⟩
      by_cases he : j = j₀
      · rw [he, setUser_at] at hnick
        exact hnick
      · rw [setUser_of_ne he] at hj hjid
        exact absurd hjid (hno j hj)
    · rintro ⟨hn, -⟩
      refine ⟨j₀, ?_⟩
      rw [setUser_at]
      exact ⟨rfl, rfl, hn⟩

section Occupied
variable {k : Fin MAX_USERS_PER_ROOM} (hk : (r.users k).active) (hjid : (r.users k).jid = bare c.full_jid)
  (hnicks : ∀ j, (r.users j).active → (r.users j).nick.length < 32)
include hk hjid hnicks

theorem same_occupant (ht : t.nick = nick.take 31) (hsame : (r.users k).nick = t.nick) :
    Occupant r (bare c.full_jid) nick ↔ nick.length ≤ 31 := by
  constructor
  · rintro ⟨j, hj, -, rfl⟩
    exact Nat.le_of_lt_succ (hnicks j hj)
  · intro hlen
    exact ⟨k, hk, hjid, hsame.trans ((cut_nick ht).mpr hlen)⟩

theorem rename_occupant (ht : t.nick = nick.take 31) (hs : strncpy 31 t.nick = t.nick) :
    Occupant (r.setUser k { r.users k with nick := strncpy 31 t.nick }) (bare c.full_jid) nick ↔
      nick.length ≤ 31 := by
  rw [hs]
  constructor
  · rintro ⟨j, hj, -, hnick⟩
    by_cases he : j = k
    · rw [he, setUser_at] at hnick
      exact (cut_nick ht).mp hnick
    · rw [setUser_of_ne he] at hj hnick
      rw [← hnick]
      exact Nat.le_of_lt_succ (hnicks j hj)
  · intro hlen
    refine ⟨k, ?_⟩
    rw [setUser_at]
    exact ⟨hk, hjid, (cut_nick ht).mpr hlen⟩

end Occupied

end Room

/-! The texts. -/

theorem Text.str_eq_full_iff {t : Text} (h : 0 < t.size) : t.str = t.full ↔ t.Fits := by
  refine ⟨fun he => ?_, Text.Fits.str⟩
  rw [t.str_eq] at he
  have := List.length_take_le (t.size - 1) t.full
  rw [he] at this
  exact Nat.lt_of_le_sub_one h this

section Texts
variable {s : Server} {me : Slot} {st : Stanza} {r : Room} {t : MucTarget} {inside : Prop}

theorem honest_iff {l : List Sent} {a b : Prop} (hself : ToldSelf me l ↔ a) (hothers : ToldOthers me l ↔ b) :
    Honest me l inside ↔ (a ↔ inside) ∧ (b → inside) :=
  ⟨fun h => ⟨hself.symm.trans h.self, fun ho => h.others (hothers.mpr ho)⟩,
    fun h => ⟨hself.trans h.1, fun ho => h.2 (hothers.mp ho)⟩⟩

/-- An answer to the sender only. -/
theorem honest_single {size : Nat} {fmt : Str} {args : List Arg} (hf : fmt ∉ selfFormats) :
    Honest me [(me, ⟨size, fmt, args⟩)] inside ↔ ¬ inside := by
  have hself : ¬ ToldSelf me [(me, ⟨size, fmt, args⟩)] := by
    rintro ⟨y, hy, hin, -⟩
    rw [(Prod.mk.inj (List.mem_singleton.mp hy)).2] at hin
    exact hf hin
  have hothers : ¬ ToldOthers me [(me, ⟨size, fmt, args⟩)] := by
    rintro ⟨y, hy, hne, -⟩
    rw [List.mem_singleton.mp hy] at hne
    exact hne rfl
  exact ⟨fun h hi => hself (h.self.mpr hi), fun h => ⟨iff_of_false hself h, fun ho => absurd ho hothers⟩⟩

theorem honest_avail (k : Fin MAX_USERS_PER_ROOM) :
    Honest me (Texts.occupants s r nobody (Texts.avail t (s.client_registry me).full_jid st.payload
      ((r.users k).jid == r.creator_jid))) inside ↔ (Seen s me r ∧ (ownAvail s me st r t k).Fits ↔ inside) := by
  have hown : ∀ {p : Participant}, p.jid = (s.client_registry me).full_jid →
      Texts.avail t (s.client_registry me).full_jid st.payload ((r.users k).jid == r.creator_jid) p =
        ownAvail s me st r t k := fun hp => by
    rw [ownAvail, Texts.avail, Texts.avail, hp]
  refine (honest_iff ⟨?_, ?_⟩ (iff_false_intro ?_)).trans (and_iff_left False.elim)
  · rintro ⟨x, hx, hf, hstr⟩
    obtain ⟨j, ⟨hj, -⟩, hfind, rfl⟩ := mem_occupants.mp hx
    have hjid : (r.users j).jid = (s.client_registry me).full_jid := by
      by_contra hne
      rw [Texts.avail, if_neg hne] at hf
      exact absurd hf (by change fmtAvail ∉ selfFormats; decide)
    rw [hown hjid] at hstr
    exact ⟨⟨hjid ▸ hfind, j, hj, hjid⟩, (Text.str_eq_full_iff (Nat.succ_pos 2399)).mp hstr⟩
  · rintro ⟨⟨hfind, j, hj, hjid⟩, hfits⟩
    refine ⟨ownAvail s me st r t k, mem_occupants.mpr ⟨j, ⟨hj, rfl⟩, hjid ▸ hfind, (hown hjid).symm⟩, ?_, hfits.str⟩
    rw [ownAvail, Texts.avail, if_pos rfl]
    exact List.mem_cons_self
  · rintro ⟨x, hx, -, hf⟩
    obtain ⟨j, -, -, he⟩ := mem_occupants.mp hx
    rw [he, Texts.avail] at hf
    dsimp only at hf
    split at hf
    · exact absurd hf (by decide)
    · exact absurd hf (by decide)

/-- The sizes of what an address and a context give. -/
structure Sized (c : Ctx) (t : MucTarget) : Prop where
  bare_jid : t.bare_jid.length < 64
  nick : t.nick.length < 32
  full_jid : c.full_jid.length < 64

theorem Sized.fits {c : Ctx} (h : Sized c t) {size : Nat} (hsize : 512 ≤ size) {fmt : Str}
    (hf : literal fmt < 300) : (⟨size, fmt, [.s t.bare_jid, .s t.nick, .s c.full_jid]⟩ : Text).Fits := by
  refine Text.fits_of_le ?_
  have h1 := text_s_length h.bare_jid
  have h2 := text_s_length h.nick
  have h3 := text_s_length h.full_jid
  simp only [List.map_cons, List.map_nil, List.sum_cons, List.sum_nil]
  omega

theorem honest_rename (hsized : Sized (s.client_registry me) t) (k : Fin MAX_USERS_PER_ROOM) (old : Str) :
    Honest me (Texts.occupants s r nobody (Texts.nickGone t (s.client_registry me).full_jid old) ++
      Texts.occupants s (r.setUser k { r.users k with nick := strncpy 31 t.nick }) nobody
        (Texts.nickTaken t (s.client_registry me).full_jid)) inside ↔
      (Seen s me r ↔ inside) ∧
        ((∃ j x, (r.users j).active ∧ find_client_by_jid s (r.users j).jid = some x ∧ x ≠ me) → inside) := by
  -- a new nick changes neither who is there nor where to send to
  have hkept : ∀ j, ((r.setUser k { r.users k with nick := strncpy 31 t.nick }).users j).active = (r.users j).active ∧
      ((r.setUser k { r.users k with nick := strncpy 31 t.nick }).users j).jid = (r.users j).jid := by
    intro j
    by_cases hj : j = k
    · rw [hj, setUser_at]
      exact ⟨rfl, rfl⟩
    · rw [setUser_of_ne hj]
      exact ⟨rfl, rfl⟩
  have hgone : ∀ {x : Sent}, x ∈ Texts.occupants s r nobody (Texts.nickGone t (s.client_registry me).full_jid old) →
      x.2.fmt ∉ selfFormats ∧ x.2.fmt ∉ newFormats := by
    intro x hx
    obtain ⟨j, -, -, he⟩ := mem_occupants.mp hx
    rw [he, Texts.nickGone]
    dsimp only
    split
    · decide
    · decide
  have htaken : ∀ {x : Sent}, x ∈ Texts.occupants s (r.setUser k { r.users k with nick := strncpy 31 t.nick }) nobody
      (Texts.nickTaken t (s.client_registry me).full_jid) ↔ ∃ j, (r.users j).active ∧
        find_client_by_jid s (r.users j).jid = some x.1 ∧
        x.2 = ⟨512, if (r.users j).jid = (s.client_registry me).full_jid then fmtMemberSelf else fmtMember,
          [.s t.bare_jid, .s t.nick, .s (r.users j).jid]⟩ := by
    intro x
    rw [mem_occupants]
    refine exists_congr fun j => ?_
    rw [Texts.nickTaken, (hkept j).1, (hkept j).2]
    exact ⟨fun h => ⟨h.1.1, h.2⟩, fun h => ⟨⟨h.1, rfl⟩, h.2⟩⟩
  refine honest_iff ⟨?_, ?_⟩ ⟨?_, ?_⟩
  · rintro ⟨x, hx, hf, -⟩
    rcases List.mem_append.mp hx with hx | hx
    · exact absurd hf (hgone hx).1
    · obtain ⟨j, hj, hfind, he⟩ := htaken.mp hx
      have hjid : (r.users j).jid = (s.client_registry me).full_jid := by
        by_contra hne
        rw [if_neg hne] at he
        change x = _ at he
        rw [he] at hf
        exact absurd hf (by change fmtMember ∉ selfFormats; decide)
      exact ⟨hjid ▸ hfind, j, hj, hjid⟩
  · rintro ⟨hfind, j, hj, hjid⟩
    refine ⟨⟨512, fmtMemberSelf, [.s t.bare_jid, .s t.nick, .s (s.client_registry me).full_jid]⟩,
      List.mem_append_right _ (htaken.mpr ⟨j, hj, hjid ▸ hfind, ?_⟩), ?_, (hsized.fits (by decide) ?_).str⟩
    · rw [if_pos hjid, hjid]
    · exact List.mem_cons_of_mem _ List.mem_cons_self
    · decide +kernel
  · rintro ⟨x, hx, hne, hf⟩
    rcases List.mem_append.mp hx with hx | hx
    · exact absurd hf (hgone hx).2
    · obtain ⟨j, hj, hfind, -⟩ := htaken.mp hx
      exact ⟨j, x.1, hj, hfind, hne⟩
  · rintro ⟨j, x, hj, hfind, hne⟩
    refine ⟨(x, _), List.mem_append_right _ (htaken.mpr ⟨j, hj, hfind, rfl⟩), hne, ?_⟩
    dsimp only
    split
    · decide
    · decide

theorem honest_welcome (hsized : Sized (s.client_registry me) t) (is_new : Bool) :
    Honest me (Texts.welcome s me r t is_new) inside ↔ inside := by
  have hself : ToldSelf me (Texts.welcome s me r t is_new) := by
    refine ⟨⟨1024, if is_new then fmtNewRoom else fmtMemberSelf,
      [.s t.bare_jid, .s t.nick, .s (s.client_registry me).full_jid]⟩, ?_, ?_, (hsized.fits (by decide) ?_).str⟩
    · exact List.mem_append_right _ List.mem_cons_self
    · change (if is_new then fmtNewRoom else fmtMemberSelf) ∈ selfFormats
      cases is_new <;> decide
    · cases is_new <;> decide +kernel
  exact ⟨fun h => h.self.mp hself, fun h => ⟨iff_of_true hself h, fun _ => h⟩⟩

end Texts

/-! A presence to a room. -/

section Presence
variable {s : Server} {me : Slot} {st : Stanza} {T : RoomTable} {i : Fin MAX_ROOMS} {t : MucTarget} {nick : Str}

theorem honest_attend (hav : st.type ≠ .PRESENCE_UNAVAILABLE) (hsized : Sized (s.client_registry me) t)
    (ht : t.nick = nick.take 31) (hs : strncpy 31 t.nick = t.nick)
    (hnicks : ∀ j, ((T i).users j).active → ((T i).users j).nick.length < 32) (is_new : Bool) :
    Honest me (Texts.attend s me st (T i) t is_new)
        (Occupant (T.attend i (s.client_registry me) st t.nick i) (bare (s.client_registry me).full_jid) nick) ↔
      RoomAnswers s me st (T i) t nick := by
  unfold Texts.attend RoomTable.attend RoomAnswers
  dsimp only
  by_cases hshut : RoomTable.shut (T i) (s.client_registry me)
  · rw [if_pos hshut, if_pos hshut, if_pos hshut]
    exact honest_single (by decide)
  rw [if_neg hshut, if_neg hshut, if_neg hshut, if_neg hav, if_neg hav, RoomTable.arrive]
  cases hk : (T i).firstUser (·.jid == bare (s.client_registry me).full_jid) with
  | some k =>
    dsimp only
    have hactive := (firstUser_some hk).1
    have hjid : ((T i).users k).jid = bare (s.client_registry me).full_jid := beq_iff_eq.mp (firstUser_some hk).2
    unfold Texts.occupant RoomTable.rename
    dsimp only
    by_cases hsame : ((T i).users k).nick = t.nick
    · rw [if_pos hsame, if_pos (Or.inl hsame), if_pos hsame, honest_avail,
        same_occupant hactive hjid hnicks ht hsame]
    rw [if_neg hsame, if_neg hsame]
    by_cases htaken : RoomTable.taken (T i) k t.nick
    · rw [if_pos htaken, if_pos (Or.inr htaken), if_pos htaken]
      exact honest_single (by decide)
    rw [if_neg htaken, if_neg (not_or.mpr ⟨hsame, htaken⟩), if_neg htaken, honest_rename hsized, RoomTable.mod,
      Function.update_self, rename_occupant hactive hjid hnicks ht hs]
    by_cases hlen : nick.length ≤ 31
    · rw [if_pos hlen]
      exact ⟨fun h => h.1.mpr hlen, fun h => ⟨iff_of_true h hlen, fun _ => hlen⟩⟩
    · rw [if_neg hlen]
      constructor
      · intro h j x hj hfind
        have hx : x = me := by
          by_contra hne
          exact hlen (h.2 ⟨j, x, hj, hfind, hne⟩)
        refine ⟨hx, fun he => hlen (h.1.mp ⟨?_, j, hj, he⟩)⟩
        rw [← he, ← hx]
        exact hfind
      · intro h
        refine ⟨iff_of_false ?_ hlen, ?_⟩
        · rintro ⟨hfind, j, hj, hjid⟩
          exact (h j me hj (hjid ▸ hfind)).2 hjid
        · rintro ⟨j, x, hj, hfind, hne⟩
          exact absurd (h j x hj hfind).1 hne
  | none =>
    dsimp only
    have hno : ¬ Occupant (T i) (bare (s.client_registry me).full_jid) nick := by
      rintro ⟨j, hj, hjid, -⟩
      exact beq_eq_false_iff_ne.mp (firstUser_none hk j hj) hjid
    unfold Texts.join RoomTable.join
    dsimp only
    by_cases hban : (T i).banned (bare (s.client_registry me).full_jid)
    · rw [if_pos hban, if_pos (Or.inl hban)]
      exact (honest_single (by decide)).trans (iff_of_true hno (.inl hban))
    rw [if_neg hban]
    by_cases hnick : ((T i).firstUser (·.nick == t.nick)).isSome
    · rw [if_pos hnick, if_pos (Or.inr hnick)]
      exact (honest_single (by decide)).trans (iff_of_true hno (.inr (.inl hnick)))
    rw [if_neg hnick, if_neg (not_or.mpr ⟨hban, hnick⟩), honest_welcome hsized, RoomTable.mod, Function.update_self,
      join_occupant ht hs hk]
    exact ⟨fun h => .inr (.inr h), fun h => (h.resolve_left hban).resolve_left hnick⟩

theorem find_congr {T T' : RoomTable} (h : ∀ k, (T' k).active = (T k).active ∧ (T' k).name = (T k).name) (name : Str) :
    T'.find name = T.find name := by
  unfold RoomTable.find
  congr 1
  funext k
  rw [(h k).1, (h k).2]

theorem mod_find {f : Room → Room} (hf : ∀ r, (f r).active = r.active ∧ (f r).name = r.name) (name : Str) :
    (T.mod i f).find name = T.find name := by
  refine find_congr (fun k => ?_) name
  by_cases hk : k = i
  · rw [hk, T.mod_self]
    exact hf _
  · rw [T.mod_of_ne hk]
    exact ⟨rfl, rfl⟩

theorem attend_find (hav : st.type ≠ .PRESENCE_UNAVAILABLE) (c : Ctx) (nick name : Str) :
    (T.attend i c st nick).find name = T.find name := by
  have hjoin : ∀ r : Room, (r.join c nick).active = r.active ∧ (r.join c nick).name = r.name := by
    intro r
    rw [Room.join]
    split
    · exact ⟨rfl, rfl⟩
    · exact ⟨rfl, rfl⟩
  unfold RoomTable.attend RoomTable.arrive RoomTable.rename RoomTable.join
  rw [if_neg hav]
  split
  · rfl
  · split
    · split
      · rfl
      · exact mod_find (fun r => ⟨by rfl, by rfl⟩) name
    · split
      · rfl
      · exact mod_find hjoin name

/-- The room that is entered is the one of the name. -/
theorem enter_find {T' : RoomTable} {c : Ctx} {name : Str} (h : T.enter c name = some (i, T')) :
    T'.find name = some i := by
  unfold RoomTable.enter at h
  cases hf : T.find name with
  | some k =>
    rw [hf] at h
    obtain ⟨rfl, rfl⟩ := Prod.mk.inj (Option.some.inj h)
    exact hf
  | none =>
    rw [hf] at h
    dsimp only at h
    split at h
    · rename_i k hk
      obtain ⟨rfl, rfl⟩ := Prod.mk.inj (Option.some.inj h)
      have hhit : (T.mod k (fun r => r.create name c.full_jid) k).active ≠ 0 ∧
          (T.mod k (fun r => r.create name c.full_jid) k).name = name := by
        rw [T.mod_self]
        exact ⟨by change (1 : Int32) ≠ 0; decide, rfl⟩
      cases hf' : (T.mod k fun r => r.create name c.full_jid).find name with
      | none => exact absurd hhit.2 (RoomTable.find_none hf' k hhit.1)
      | some j =>
        by_cases hj : j = k
        · rw [hj]
        · obtain ⟨ha, hn⟩ := RoomTable.find_some hf'
          rw [T.mod_of_ne hj] at ha hn
          exact absurd hn (RoomTable.find_none hf j ha)
    · cases h

end Presence

theorem mucTarget_nick {to_ : Str} {t : MucTarget} (h0 : 0 ∉ to_) (h : mucTarget to_ = some t) :
    t.nick = (nickIn to_).take 31 ∧ t.bare_jid.length < 64 := by
  unfold mucTarget at h
  cases hs : strchr to_ (ch '/') with
  | none => rw [hs] at h; cases h
  | some slash =>
    rw [hs] at h
    dsimp only at h
    split at h
    · cases h
      have hclean : 0 ∉ slash.tail := fun hm => h0 ((strchr_suffix hs).subset (List.mem_of_mem_tail hm))
      refine ⟨?_, Nat.lt_succ_of_le (List.length_take_le 63 _)⟩
      rw [nickIn, hs, strncpy, cstr_of_clean hclean]
      rfl
    · cases h

/-- In any room and for any available presence the sender is told of itself exactly if it is in the room under the
nick afterwards, and the others of a new nick only then, exactly if the room answers so. -/
theorem self_presence_iff (s : Server) (me : Slot) {st : Stanza} (h0 : 0 ∉ st.to_)
    (hav : st.type ≠ .PRESENCE_UNAVAILABLE) {t : MucTarget} (ht : mucTarget st.to_ = some t)
    (hjid : (s.client_registry me).full_jid.length < 64)
    (hnicks : ∀ i j, ((s.stores.rooms i).users j).nick.length < 32) :
    sends (handle_muc_presence me st s).2 = sends s ++ (Texts.mucPresence s me st).map rendered ∧
    (Honest me (Texts.mucPresence s me st)
        (Inside (handle_muc_presence me st s).2.stores.rooms (s.client_registry me) t (nickIn st.to_)) ↔
      ∀ i T, RoomTable.enter s.stores.rooms (s.client_registry me) t.room_name = some (i, T) →
        RoomAnswers s me st (T i) t (nickIn st.to_)) := by
  refine ⟨(sends_handle_muc_presence me st s (Now.refl (G := fun _ => True) trivial)).1, ?_⟩
  have hrooms : (handle_muc_presence me st s).2.stores.rooms =
      RoomTable.presence s.stores.rooms (s.client_registry me) st :=
    (stirs_handle_muc_presence h0 s (at_here me s)).2.rooms
  obtain ⟨hnick, hbare⟩ := mucTarget_nick h0 ht
  have hs := (mucTarget_spec ht).2
  rw [hrooms, RoomTable.presence, ht, Texts.mucPresence, ht]
  dsimp only
  cases he : RoomTable.enter s.stores.rooms (s.client_registry me) t.room_name with
  | none =>
    refine iff_of_true ⟨?_, ?_⟩ fun i T h => absurd h (Option.some_ne_none _).symm
    · refine iff_of_false ?_ ?_
      · rintro ⟨x, hx, -⟩
        exact List.not_mem_nil hx
      · rintro ⟨i, hi, -⟩
        rw [enter_found hi] at he
        cases he
    · rintro ⟨x, hx, -⟩
      exact absurd hx List.not_mem_nil
  | some p =>
    obtain ⟨i, T⟩ := p
    dsimp only
    have hfind : (T.attend i (s.client_registry me) st t.nick).find t.room_name = some i :=
      (attend_find hav _ _ _).trans (enter_find he)
    have hinside : Inside (T.attend i (s.client_registry me) st t.nick) (s.client_registry me) t (nickIn st.to_) ↔
        Occupant (T.attend i (s.client_registry me) st t.nick i) (bare (s.client_registry me).full_jid)
          (nickIn st.to_) := by
      rw [Inside, hfind]
      exact ⟨fun ⟨k, hk, ho⟩ => Option.some.inj hk ▸ ho, fun ho => ⟨i, rfl, ho⟩⟩
    have hsame : ∀ j, ((T i).users j).nick.length < 32 := by
      intro j
      rw [(enter_same he i).1]
      exact hnicks i j
    have hsized : Sized (s.client_registry me) t := by
      refine ⟨hbare, ?_, hjid⟩
      rw [hnick]
      exact Nat.lt_succ_of_le (List.length_take_le 31 _)
    rw [hinside, honest_attend hav hsized hnick hs (fun j _ => hsame j)]
    constructor
    · intro h i' T' he'
      obtain ⟨rfl, rfl⟩ := Prod.mk.inj (Option.some.inj he')
      exact h
    · exact fun h => h i T rfl

/-- The other user opens a room of its own. -/
def bobElsewhere : Stanza :=
  { Stanza.zero with type := .PRESENCE, to_ := lit "den@conference.angelic.local/bob", xmlns := RoomTable.NS_MUC }

def den : MucTarget := ⟨lit "bob", lit "den@conference.angelic.local", lit "den"⟩

theorem den_entered :
    Inside (handle_muc_presence 1 bobElsewhere gathered).2.stores.rooms (gathered.client_registry 1) den (lit "bob") ∧
      ToldSelf 1 (Texts.mucPresence gathered 1 bobElsewhere) := by
  have hstate : 0 ∉ bobElsewhere.to_ ∧ mucTarget bobElsewhere.to_ = some den ∧ nickIn bobElsewhere.to_ = lit "bob" ∧
      (gathered.client_registry 1).full_jid.length < 64 ∧
      (∀ i j, ((gathered.stores.rooms i).users j).nick.length < 32) ∧
      (∃ i, RoomTable.find (handle_muc_presence 1 bobElsewhere gathered).2.stores.rooms den.room_name = some i ∧
        ∃ j, (((handle_muc_presence 1 bobElsewhere gathered).2.stores.rooms i).users j).active ∧
          (((handle_muc_presence 1 bobElsewhere gathered).2.stores.rooms i).users j).jid =
            bare (gathered.client_registry 1).full_jid ∧
          (((handle_muc_presence 1 bobElsewhere gathered).2.stores.rooms i).users j).nick = lit "bob") ∧
      ((RoomTable.enter gathered.stores.rooms (gathered.client_registry 1) den.room_name).all fun p =>
        !decide (RoomTable.shut (p.2 p.1) (gathered.client_registry 1)) &&
          ((p.2 p.1).firstUser (·.jid == bare (gathered.client_registry 1).full_jid)).isNone &&
          decide (∃ j, ¬ ((p.2 p.1).users j).active)) = true := by decide +kernel
  obtain ⟨h0, ht, hn, hjid, hnicks, hin, hall⟩ := hstate
  have h := (self_presence_iff gathered 1 h0 (by decide) ht hjid hnicks).2.mpr fun i T he => by
    rw [he] at hall
    simp only [Option.all_some, Bool.and_eq_true, Bool.not_eq_true', decide_eq_false_iff_not, Option.isNone_iff_eq_none,
      decide_eq_true_eq] at hall
    rw [RoomAnswers, if_neg hall.1.1, hall.1.2, hn]
    exact .inr (.inr ⟨by decide, hall.2⟩)
  rw [hn] at h
  exact ⟨hin, h.self.mpr hin⟩

/-- The other user shows up in the hall again, under the nick it has there. -/
def bobReturns : Stanza := { bobElsewhere with to_ := cat [HALL, "/bob"] }

/-- It is in the room, and no text that it gets has the status. -/
theorem returning_not_told :
    let s := (handle_muc_presence 1 bobReturns gathered).2
    mucTarget bobReturns.to_ = some ⟨lit "bob", lit HALL, lit "hall"⟩ ∧
      Inside s.stores.rooms (gathered.client_registry 1) ⟨lit "bob", lit HALL, lit "hall"⟩ (nickIn bobReturns.to_) ∧
      (sends s).length = (sends gathered).length + 2 ∧
      (∀ x ∈ (sends s).drop (sends gathered).length, strstr x.2 (lit "110") = none) ∧
      ¬ ToldSelf 1 (Texts.mucPresence gathered 1 bobReturns) := by
  have hfacts : mucTarget bobReturns.to_ = some ⟨lit "bob", lit HALL, lit "hall"⟩ ∧
      (∃ i, RoomTable.find (handle_muc_presence 1 bobReturns gathered).2.stores.rooms (lit "hall") = some i ∧
        ∃ j, (((handle_muc_presence 1 bobReturns gathered).2.stores.rooms i).users j).active ∧
          (((handle_muc_presence 1 bobReturns gathered).2.stores.rooms i).users j).jid =
            bare (gathered.client_registry 1).full_jid ∧
          (((handle_muc_presence 1 bobReturns gathered).2.stores.rooms i).users j).nick = nickIn bobReturns.to_) ∧
      (sends (handle_muc_presence 1 bobReturns gathered).2).length = (sends gathered).length + 2 ∧
      (∀ x ∈ (sends (handle_muc_presence 1 bobReturns gathered).2).drop (sends gathered).length,
        strstr x.2 (lit "110") = none) ∧
      (∀ x ∈ Texts.mucPresence gathered 1 bobReturns, x.2.fmt ∉ selfFormats) := by decide +kernel
  obtain ⟨ht, hin, hlen, hno, hfmt⟩ := hfacts
  exact ⟨ht, hin, hlen, hno, fun ⟨x, hx, hf, _⟩ => hfmt _ hx hf⟩

end Angelic.Proofs
