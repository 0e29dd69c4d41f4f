import Angelic.Proofs.Quiet
import Angelic.Proofs.RoomTable

namespace Angelic.Proofs
open CString Model StateRel Relation

variable {c : Ctx} {m : M α} {i : Fin MAX_ROOMS}

/-! The handlers of stanzas refine the room machine, and leave the table they should. -/

/-- An effect, and the steps of the room machine it stands for. -/
def Moved (me : Slot) (s s' : Server) : Prop :=
  Effect me s s' ∧ ReflTransGen Rooms.Step (view s) (view s')

/-- The rooms, and what the handlers of rooms look at in the context they work for. -/
structure At (me : Slot) (T : RoomTable) (c : Ctx) (s : Server) : Prop where
  rooms : s.stores.rooms = T
  full_jid : (s.client_registry me).full_jid = c.full_jid
  pcb : (s.client_registry me).pcb = c.pcb

/-- A handler as a chain of such effects, from one table to another. -/
abbrev Leads (me : Slot) (T : RoomTable) (c : Ctx) (m : M α) (T' : RoomTable) : Prop :=
  Trace (Moved me) (At me T c) m fun _ => At me T' c

/-- A step that leaves all stores but the rooms alone. -/
def OthersKept (s s' : Server) : Prop := ∀ k, k ≠ .rooms → Untouched k s s'

/-- A text that is sent. -/
def Texted (me : Slot) (s s' : Server) : Prop := Plain me s s' ∧ OthersKept s s'

/-- What is done to a room. -/
def Stirred (me : Slot) (s s' : Server) : Prop := Moved me s s' ∧ OthersKept s s'

/-- A handler of rooms: such a chain which leaves the other stores alone. -/
abbrev Stirs (me : Slot) (T : RoomTable) (c : Ctx) (m : M α) (T' : RoomTable) : Prop :=
  Trace (Stirred me) (At me T c) m fun _ => At me T' c

theorem Stirs.leads {me : Slot} {T T' : RoomTable} (h : Stirs me T c m T') : Leads me T c m T' :=
  h.mono fun _ _ hs => .single hs.1

section Rules
variable {me : Slot} {T T' : RoomTable} {c : Ctx} {R : Server → Server → Prop}
variable {f : Room → Room}

theorem Calm.jid {c' : Ctx} (h : Calm c c') : c'.full_jid = c.full_jid ∧ c'.pcb = c.pcb := by
  have hj : ∀ d d' : Ctx, Ctx.core d' = Ctx.core d → d'.full_jid = d.full_jid ∧ d'.pcb = d.pcb := by
    intro d d' h
    simp only [Ctx.core, Ctx.mk.injEq] at h
    exact ⟨h.2.2.1, h.1⟩
  rcases h with h | ⟨-, h⟩
  · exact hj _ _ h
  · exact hj { c with state := .READY } c' h

theorem leads_plain (h : Does (Plain me) m) : Leads me T c m T := by
  refine fun s hs => ⟨(h.mono fun _ _ hp => .single ⟨hp.1, hp.2 ▸ .refl⟩) s, ?_⟩
  obtain ⟨hj, hp⟩ := (does_quiet (Plain.effects h) s).own.jid
  have hv : view (m s).2 = view s := 
    h.rel (Q := fun s s' => view s' = view s) (fun _ => rfl) (fun _ _ _ h h' => h'.trans h) (fun _ _ h => h.2) s
  exact ⟨(congrArg Rooms.table hv).trans hs.rooms, hj.trans hs.full_jid, hp.trans hs.pcb⟩

/-- Texts only. -/
theorem allows_texts (me : Slot) : Allows (fun _ => False) me (Texted me) where
  sent s i _ h := ⟨(allows_plain me).sent s i h, fun k _ => (allows_untouched k me).sent s i h⟩
  noted s _ h hn := ⟨(allows_plain me).noted s h hn, fun k _ => (allows_untouched k me).noted s h hn⟩
  readied s h := ⟨(allows_plain me).readied s h, fun k _ => (allows_untouched k me).readied s h⟩
  counted s := ⟨(allows_plain me).counted s, fun k _ => (allows_untouched k me).counted s⟩
  saves _ h := h.elim

theorem stirs_texts (h : Does (Texted me) m) : Stirs me T c m T := fun s hs =>
  ⟨(h.mono fun _ _ hp => .single ⟨⟨hp.1.1, hp.1.2 ▸ .refl⟩, hp.2⟩) s, (leads_plain (h.mono fun _ _ hp => .single hp.1) s hs).2⟩

theorem leads_printed (i : Slot) {size : Nat} {fmt : Str} {args : List Arg}
    (h : (fmt, args.length) ∈ handlerFormats ∧ 16 ≤ size) : Leads me T c (send_raw i (snprintf size fmt args)) T :=
  leads_plain ((allows_plain me).printed i h)

theorem stirs_printed (i : Slot) {size : Nat} {fmt : Str} {args : List Arg}
    (h : (fmt, args.length) ∈ handlerFormats ∧ 16 ≤ size) : Stirs me T c (send_raw i (snprintf size fmt args)) T :=
  stirs_texts ((allows_texts me).printed i h)

theorem leads_pure (a : α) : Trace R (At me T c) (pure a : M α) fun _ => At me T c := .pure fun _ h => h

theorem stirs_then {k : α → M β} (hm : Does (Texted me) m)
    (hk : ∀ a, Stirs me T c (k a) T') : Stirs me T c (m >>= k) T' := .bind (stirs_texts hm) hk

/-- The own context is read: its address is known. -/
theorem leads_ctx {U : RoomTable} {k : Ctx → M β}
    (h : ∀ d : Ctx, d.full_jid = c.full_jid → d.pcb = c.pcb → Trace R (At me T c) (k d) fun _ => At me U c) :
    Trace R (At me T c) (ctxOf me >>= k) fun _ => At me U c := fun s hs => h _ hs.full_jid hs.pcb s hs

/-- The stores are read: the rooms are known. -/
theorem leads_stores {k : Stores → M β}
    (h : ∀ t : Stores, t.rooms = T → Trace R (At me T c) (k t) fun _ => At me T' c) :
    Trace R (At me T c) (getStores >>= k) fun _ => At me T' c := fun s hs => h _ hs.rooms s hs

theorem storesOk_modRoom {t : Stores}
    (hf : RoomOk (t.rooms i) → RoomOk (f (t.rooms i))) (h : StoresOk t) : StoresOk (t.modRoom i f) := by
  intro j
  by_cases hj : j = i
  · subst hj
    simpa [Stores.modRoom] using hf (h j)
  · simpa [Stores.modRoom, hj] using h j

theorem view_modRoom (i : Fin MAX_ROOMS) (f : Room → Room) {s : Server} (h : s.stores.rooms = T) :
    view s = ⟨T, roomImage s.mem.disk⟩ ∧ view (modRoom i f s).2 = ⟨T.mod i f, roomImage s.mem.disk⟩ := by
  subst h
  exact ⟨rfl, rfl⟩

theorem spares_modRoom (i : Fin MAX_ROOMS) (f : Room → Room) (s : Server) : OthersKept s (modRoom i f s).2 := fun _ hk =>
  spares_of_does (spares_change (j := .rooms) (f := fun t => t.modRoom i f) hk fun _ => rfl) s

/-- Moving occupants of a room about needs no save. -/
theorem stirs_occupants (i : Fin MAX_ROOMS) (hf : ∃ users, f (T i) = { T i with users := users })
    (hstep : ∀ im, ReflTransGen Rooms.Step ⟨T, im⟩ ⟨T.mod i f, im⟩) : Stirs me T c (modRoom i f) (T.mod i f) := by
  refine .step fun s hs => ?_
  have hsT : s.stores.rooms = T := hs.rooms
  obtain ⟨users, hu⟩ := hf
  rw [← hsT] at hu
  refine ⟨⟨⟨.occupants s _ ?_ (storesOk_modRoom fun h => ?_), ?_⟩,
    spares_modRoom i f s⟩, ⟨?_, hs.full_jid, hs.pcb⟩⟩
  · simp only [Stores.saved, Stores.modRoom, Stores.mk.injEq, true_and, and_true]
    funext j
    by_cases hj : j = i
    · subst hj
      simp [Room.saved, hu]
    · simp [hj]
  · rw [hu]
    exact ⟨h.name, h.creator_jid, h.subject, h.banned_count, h.banned_jids⟩
  · rw [(view_modRoom i f hsT).1, (view_modRoom i f hsT).2]
    exact hstep _
  · exact congrArg (fun T : RoomTable => T.mod i f) hsT

/-- A change of a room and the save that ends it. -/
theorem stirs_saved (i : Fin MAX_ROOMS) {k : Unit → M α}
    (hok : RoomOk (T i) → RoomOk (f (T i))) (hstep : ∀ im, ReflTransGen Rooms.Step ⟨T, im⟩ ⟨T.mod i f, im⟩)
    (hr : ∀ a, Stirs me (T.mod i f) c (k a) T') :
    Stirs me T c (modRoom i f >>= fun _ => persist xmpp_persist_save_rooms >>= k) T' := by
  intro s hs
  have hsT : s.stores.rooms = T := hs.rooms
  let s₁ := (modRoom i f s).2
  have hchange : Touch .rooms s s₁ := .change s _ rfl (storesOk_modRoom (hsT ▸ hok))
  have heffect : Effect me s (persist (StoreId.save .rooms) s₁).2 := .saved s s₁ .rooms (.single hchange)
  obtain ⟨hsave, hstores⟩ := view_persist_rooms s₁
  have hview : ReflTransGen Rooms.Step (view s) (view s₁) := by
    rw [(view_modRoom i f hsT).1, (view_modRoom i f hsT).2]
    exact hstep _
  have hat : At me (T.mod i f) c (persist xmpp_persist_save_rooms s₁).2 := by
    refine ⟨?_, hs.full_jid, hs.pcb⟩
    rw [hstores]
    exact congrArg (fun T : RoomTable => T.mod i f) hsT
  obtain ⟨hc, hq⟩ := hr () _ hat
  have hspares : OthersKept s (persist xmpp_persist_save_rooms s₁).2 := fun k hk =>
    (spares_modRoom i f s k hk).trans (spares_of_does (spares_save (j := .rooms) hk) s₁)
  exact ⟨.trans (.single ⟨⟨heffect, hview.trans hsave⟩, hspares⟩) hc, hq⟩

theorem stirs_saved_last (i : Fin MAX_ROOMS)
    (hok : RoomOk (T i) → RoomOk (f (T i))) (hstep : ∀ im, ReflTransGen Rooms.Step ⟨T, im⟩ ⟨T.mod i f, im⟩) :
    Stirs me T c (modRoom i f >>= fun _ => persist xmpp_persist_save_rooms) (T.mod i f) :=
  stirs_saved (k := pure) i hok hstep fun _ => leads_pure _

end Rules

/-! Administration and configuration. -/

section Muc
variable {me : Slot} {T : RoomTable} {c : Ctx} {st : Stanza}
variable {t : MucTarget}

theorem stirs_kickOne (hi : (T i).active ≠ 0) (j : Fin MAX_USERS_PER_ROOM) (room reason : Str) (want_ban : Bool) :
    Stirs me T c (kickOne i j room reason want_ban)
      ((if want_ban then T.banned i (bare ((T i).users j).jid) else T).mod i fun r => r.setUser j .zero) := by
  have go : ∀ T' : RoomTable, Stirs me T' c (modRoom i fun r => r.setUser j .zero)
      (T'.mod i fun r => r.setUser j .zero) := fun T' =>
    stirs_occupants i ⟨_, rfl⟩ fun im => .single (.remove ⟨T', im⟩ i j)
  refine leads_stores fun s hs => stirs_then ((allows_texts me).tellOccupants _ _ fun p => ?_) fun _ =>
    stirs_then ((allows_texts me).sendTo _ ?_) fun _ => ?_
  · exact formatted_kickText (by simp [handlerFormats]) (by simp [handlerFormats])
  · exact formatted_kickText (by simp [handlerFormats]) (by simp [handlerFormats])
  · rw [hs]
    refine .ite (fun hb => ?_) fun hb => ?_
    · rw [if_pos hb.1, RoomTable.banned, if_pos hb.2]
      exact stirs_saved i (fun h => h.ban _) (fun im => .single (.ban ⟨T, im⟩ i _ hi)) fun _ => go _
    · have ht : (if want_ban then T.banned i (bare ((T i).users j).jid) else T) = T := by
        by_cases hw : want_ban = true
        · rw [if_pos hw, RoomTable.banned, if_neg fun h => hb ⟨hw, h⟩]
        · rw [if_neg hw]
      rw [ht]
      exact go _

theorem stirs_mucKick (want_ban : Bool) : Stirs me T c (mucKick st want_ban) (T.kick st want_ban) := by
  refine leads_stores fun s hs => ?_
  have htarget : kickTarget s st = T.target st := hs ▸ rfl
  rw [htarget, RoomTable.kick]
  cases h : T.target st with
  | none => exact leads_pure _
  | some ij =>
    obtain ⟨i, j⟩ := ij
    refine stirs_kickOne ?_ j _ _ _
    unfold RoomTable.target at h
    split at h
    · rename_i i' hf
      obtain ⟨j', _, he⟩ := Option.map_eq_some_iff.mp h
      cases he
      exact (RoomTable.find_some hf).1
    · cases h

theorem stirs_handle_muc_admin : Stirs me T c (handle_muc_admin me st) (T.admin st) := by
  have hadmin : st.type = .IQ_SET ∧ (RoomTable.wantKick st ∨ RoomTable.wantBan st) →
      T.admin st = T.kick st (RoomTable.wantBan st) := fun h => if_pos h
  have hnone : ¬ (st.type = .IQ_SET ∧ (RoomTable.wantKick st ∨ RoomTable.wantBan st)) → T.admin st = T :=
    fun h => if_neg h
  refine leads_ctx fun d _ _ => leads_stores fun s _ => .ite (fun hset => .ite (fun hw => ?_) fun hw => ?_)
    fun hset => ?_
  · rw [hadmin ⟨hset, hw⟩]
    exact .bind (stirs_mucKick _) fun _ => stirs_texts ((allows_texts me).replyResult 1024 st (by decide))
  · rw [hnone fun h => hw h.2]
    exact stirs_texts ((allows_texts me).replyResult 1024 st (by decide))
  · rw [hnone fun h => hset h.1]
    refine .ite (fun _ => ?_) fun _ => ?_
    · exact stirs_printed _ (by simp [handlerFormats])
    · exact stirs_printed _ (by simp [handlerFormats])

theorem stirs_mucDestroy : Stirs me T c (mucDestroy st) (T.owned st fun _ => .zero) := by
  refine leads_stores fun s hs => ?_
  have hfind : findRoom s (roomName st.to_) = T.find (roomName st.to_) := hs ▸ rfl
  simp only [hfind, RoomTable.owned]
  cases T.find (roomName st.to_) with
  | none => exact leads_pure _
  | some i =>
    refine stirs_then ((allows_texts me).tellOccupants _ _ fun p => formatted_destroyText _ _ _ p) fun _ => ?_
    exact stirs_saved_last i (fun _ => .zero) fun im => .single (.destroy ⟨T, im⟩ i)

theorem stirs_mucConfigure : Stirs me T c (mucConfigure st) (T.owned st fun r => r.configure st.payload) := by
  refine leads_stores fun s hs => ?_
  have hfind : findRoom s (roomName st.to_) = T.find (roomName st.to_) := hs ▸ rfl
  simp only [hfind, RoomTable.owned]
  cases hf : T.find (roomName st.to_) with
  | none => exact leads_pure _
  | some i =>
    exact stirs_saved_last i (fun h => h.configure _) fun im =>
      .single (.configure ⟨T, im⟩ i _ (RoomTable.find_some hf).1)

theorem stirs_handle_muc_owner : Stirs me T c (handle_muc_owner me st) (T.owner st) := by
  refine leads_ctx fun d _ _ => leads_stores fun s _ => .ite (fun hd => ?_) fun hd => .ite (fun hc => ?_)
    fun hc => ?_
  · have he : T.owner st = T.owned st fun _ => .zero := if_pos hd
    rw [he]
    exact .bind stirs_mucDestroy fun _ => stirs_texts ((allows_texts me).replyResult 256 st (by decide))
  · have he : T.owner st = T.owned st fun r => r.configure st.payload := (if_neg hd).trans (if_pos hc)
    rw [he]
    exact .bind stirs_mucConfigure fun _ => stirs_printed _ (by simp [handlerFormats])
  · have he : T.owner st = T := (if_neg hd).trans (if_neg hc)
    rw [he]
    exact stirs_printed _ (by simp [handlerFormats])

/-! Presence. -/

theorem strncpy_strncpy (n : Nat) (s : Str) : strncpy n (strncpy n s) = strncpy n s := by
  have h : 0 ∉ strncpy n s := fun hm => zero_not_mem_cstr s (List.mem_of_mem_take hm)
  unfold strncpy at h ⊢
  rw [cstr_of_clean h, List.take_take, Nat.min_self]

theorem mucTarget_spec {to_ : Str} (ht : mucTarget to_ = some t) :
    (0 ∉ to_ → Holds 32 t.room_name) ∧ strncpy 31 t.nick = t.nick := by
  unfold mucTarget at ht
  split at ht
  · cases ht
  · split at ht
    · cases ht
      exact ⟨localPart_holds, strncpy_strncpy 31 _⟩
    · cases ht

theorem stirs_leaveRoom (t : MucTarget) : Stirs me T c (leaveRoom me i t) (T.leave i t.nick) := by
  refine leads_ctx fun d _ _ => leads_stores fun s hs => ?_
  rw [hs, RoomTable.leave]
  dsimp only
  cases hj : (T i).firstUser (·.nick == t.nick) with
  | none => exact leads_pure _
  | some j =>
    refine stirs_then ((allows_texts me).tellOccupants _ _ fun p => .of (by simp [handlerFormats])) fun _ =>
      stirs_then ((allows_texts me).printed _ (by simp [handlerFormats])) fun _ =>
      .bind (stirs_occupants i ⟨_, rfl⟩ fun im => .single (.remove ⟨T, im⟩ i j)) fun _ => ?_
    have hself : (T.mod i fun r => r.setUser j .zero) i = (T i).setUser j .zero := RoomTable.mod_self _ _ _
    change Stirs me _ c _ (RoomTable.released (T.mod i fun r => r.setUser j .zero) i)
    rw [RoomTable.released, hself]
    refine .ite (fun ho => ?_) fun ho => ?_
    · rw [if_neg ho]
      have hempty := occupied_eq_false.mp (by simpa using ho)
      rw [← hself] at hempty
      generalize (T.mod i fun r => r.setUser j .zero) = T' at hempty
      refine stirs_saved_last i (fun h => ?_) fun im => ?_
      · split
        · exact h.release
        · exact h
      · by_cases hp : (T' i).persistent = 0
        · have he : (T'.mod i fun r => if r.persistent = 0 then r.release else r) = T'.mod i Room.release := by
            simp [RoomTable.mod, hp]
          rw [he]
          exact .single (.release ⟨T', im⟩ i hempty)
        · have he : (T'.mod i fun r => if r.persistent = 0 then r.release else r) = T' := by
            simp [RoomTable.mod, hp]
          rw [he]
    · rw [if_pos (by simpa using ho)]
      exact leads_pure _

theorem taken_eq_false {r : Room} {k : Fin MAX_USERS_PER_ROOM} {nick : Str} (h : ¬ RoomTable.taken r k nick)
    (j : Fin MAX_USERS_PER_ROOM) (hj : j ≠ k) (ha : (r.users j).active) : (r.users j).nick ≠ nick := by
  have hn := firstIdx_none (by simpa [RoomTable.taken] using h) j
  simpa [ha, hj] using hn

theorem stirs_occupantPresence (ht : strncpy 31 t.nick = t.nick)
    {k : Fin MAX_USERS_PER_ROOM} (hk : ((T i).users k).active) :
    Stirs me T c (occupantPresence me st i t k) (T.rename i k t.nick) := by
  refine leads_ctx fun d _ _ => leads_stores fun s hs => ?_
  rw [hs]
  refine .ite (fun hn => ?_) fun hn => .ite (fun htaken => ?_) fun htaken => ?_
  · have he : T.rename i k t.nick = T := if_pos (.inl hn)
    rw [he]
    exact stirs_texts ((allows_texts me).tellOccupants _ _ fun p =>
      formatted_if (by simp [handlerFormats]) (by simp [handlerFormats]))
  · have he : T.rename i k t.nick = T := if_pos (.inr htaken)
    rw [he]
    exact stirs_printed _ (by simp [handlerFormats])
  · have he : T.rename i k t.nick = T.mod i fun r => r.setUser k { r.users k with nick := strncpy 31 t.nick } :=
      if_neg (not_or.mpr ⟨hn, htaken⟩)
    have hfree : ∀ j, j ≠ k → ((T i).users j).active → ((T i).users j).nick ≠ strncpy 31 t.nick := by
      rw [ht]
      exact taken_eq_false htaken
    rw [he]
    refine stirs_then ((allows_texts me).tellOccupants _ _ fun p => ?_) fun _ =>
      .bind (stirs_occupants i ⟨_, rfl⟩ fun im => .single (.rename ⟨T, im⟩ i k hk hfree)) fun _ =>
      leads_stores fun s' _ => stirs_texts ((allows_texts me).tellOccupants _ _ fun p => ?_)
    · exact formatted_if (by simp [handlerFormats]) (by simp [handlerFormats])
    · exact formatted_if (by simp [handlerFormats]) (by simp [handlerFormats])

theorem join_users (r : Room) (c : Ctx) (nick : Str) :
    ∃ users, r.join c nick = { r with users := users } := by
  unfold Room.join
  split
  · exact ⟨_, rfl⟩
  · exact ⟨_, rfl⟩

/-- Joining is a step, or finds the room full. -/
theorem join_step (hi : (T i).active ≠ 0) {nick : Str} (ht : strncpy 31 nick = nick)
    (hnick : ∀ k, ((T i).users k).active → ((T i).users k).nick ≠ nick)
    (hjid : ∀ k, ((T i).users k).active → ((T i).users k).jid ≠ bare c.full_jid) (im : RoomTable) :
    ReflTransGen Rooms.Step ⟨T, im⟩ ⟨T.mod i fun r => r.join c nick, im⟩ := by
  cases hj : firstIdx (fun j => !((T i).users j).active) with
  | none =>
    have he : (T.mod i fun r => r.join c nick) = T := by
      simp [RoomTable.mod, Room.join, hj]
    rw [he]
  | some j =>
    have he : (T.mod i fun r => r.join c nick) =
        T.mod i fun r => r.setUser j ⟨c.pcb, strncpy 31 nick, bare c.full_jid, true⟩ := by
      simp [RoomTable.mod, Room.join, hj]
    rw [he, ht]
    exact .single (.join ⟨T, im⟩ i j hi (by simpa using firstIdx_some hj) hnick hjid)

theorem stirs_joinRoom (hi : (T i).active ≠ 0) (is_new_room : Bool) (ht : strncpy 31 t.nick = t.nick)
    (hjid : ∀ k, ((T i).users k).active → ((T i).users k).jid ≠ bare c.full_jid) :
    Stirs me T c (joinRoom me i is_new_room t) (T.join i c t.nick) := by
  refine leads_ctx fun d hd hp => leads_stores fun s hs => ?_
  rw [hs]
  refine .ite (fun hb => ?_) fun hb => .ite (fun hn => ?_) fun hn => ?_
  · have he : T.join i c t.nick = T := if_pos (.inl (hd ▸ hb))
    rw [he]
    exact stirs_printed _ (by simp [handlerFormats])
  · have he : T.join i c t.nick = T := if_pos (.inr hn)
    rw [he]
    exact stirs_printed _ (by simp [handlerFormats])
  · have he : T.join i c t.nick = T.mod i fun r => r.join c t.nick := if_neg (not_or.mpr ⟨hd ▸ hb, hn⟩)
    have hjoin : (fun r : Room => r.join d t.nick) = fun r => r.join c t.nick := by
      funext r
      simp only [Room.join, hd, hp]
    have hfree : ∀ k, ((T i).users k).active → ((T i).users k).nick ≠ t.nick := fun k hk =>
      beq_eq_false_iff_ne.mp (firstUser_none (by simpa using hn) k hk)
    rw [he, hjoin]
    refine .bind (stirs_occupants i (join_users _ c t.nick) (join_step hi ht hfree hjid)) fun _ =>
      leads_stores fun s' _ => stirs_then (does_forAll ((allows_texts me).showOne _ t)) fun _ =>
      stirs_then ((allows_texts me).tellOccupants _ _ fun p => formatted_joinedText _ _ _ p) fun _ =>
      stirs_then ((allows_texts me).text _ (formatted_if ?_ ?_)) fun _ => stirs_texts ((allows_texts me).printed _ ?_)
    all_goals simp [handlerFormats]

/-- The room of a presence, found or made. -/
theorem trace_enterRoom {name : Str} (h : Holds 32 name) :
    Trace (Stirred me) (At me T c) (enterRoom me name) fun e s => (e = none ∧ T.enter c name = none ∧ At me T c s) ∨
        ∃ i b T', e = some (i, b) ∧ T.enter c name = some (i, T') ∧ (T' i).active ≠ 0 ∧ At me T' c s := by
  intro s hs
  have hc : (s.client_registry me).full_jid = c.full_jid := hs.full_jid
  have hfind : findRoom s.stores name = T.find name := hs.rooms ▸ rfl
  have hfree : firstIdx (fun i => (s.stores.rooms i).active == 0) = firstIdx (fun i => (T i).active == 0) := by
    rw [hs.rooms]
  unfold RoomTable.enter
  cases hf : T.find name with
  | some i =>
    have he : enterRoom me name s = (some (i, false), s) := by
      simp only [enterRoom, bind_run, ctxOf, getStores, hfind, hf]
      rfl
    rw [he]
    exact ⟨.refl, .inr ⟨i, false, T, rfl, rfl, (RoomTable.find_some hf).1, hs⟩⟩
  | none =>
    cases hi : firstIdx (fun i => (T i).active == 0) with
    | none =>
      have he : enterRoom me name s = (none, s) := by
        simp only [enterRoom, bind_run, ctxOf, getStores, hfind, hf, hfree, hi]
        rfl
      rw [he]
      exact ⟨.refl, .inl ⟨rfl, rfl, hs⟩⟩
    | some i =>
      have he : enterRoom me name s = (modRoom i (fun r => r.create name c.full_jid) >>= fun _ =>
          persist xmpp_persist_save_rooms >>= fun _ => pure (some (i, true))) s := by
        simp only [enterRoom, bind_run, ctxOf, getStores, hfind, hf, hfree, hi, hc]
      have hz : (T i).active = 0 := by simpa using firstIdx_some hi
      have hl := stirs_saved (T := T) (c := c) (k := fun _ => pure (some (i, true))) i
        (fun hok => hok.create h c.full_jid)
        (fun im => .single (.create ⟨T, im⟩ i h hz fun j hj => RoomTable.find_none hf j hj))
        (fun _ => leads_pure (some (i, true))) s hs
      rw [he]
      refine ⟨hl.1, .inr ⟨i, true, _, rfl, rfl, ?_, hl.2⟩⟩
      rw [RoomTable.mod_self]
      exact (by decide : (1 : Int32) ≠ 0)

theorem stirs_handle_muc_presence (h : 0 ∉ st.to_) : Stirs me T c (handle_muc_presence me st) (T.presence c st) := by
  unfold handle_muc_presence RoomTable.presence
  cases ht : mucTarget st.to_ with
  | none => exact leads_pure _
  | some t =>
    obtain ⟨hname, hnick⟩ := mucTarget_spec ht
    refine .bind (trace_enterRoom (hname h)) fun e s hs => ?_
    rcases hs with ⟨rfl, he, hat⟩ | ⟨i, b, T', rfl, he, hi, hat⟩
    · simp only [he]
      exact leads_pure () s hat
    · simp only [he]
      refine leads_ctx (U := T'.attend i c st t.nick) (fun d hd _ => leads_stores fun u hu => ?_) s hat
      rw [hu, hd]
      refine .ite (fun hl => ?_) fun hl => .ite (fun hun => ?_) fun hun => ?_
      · have hat : T'.attend i c st t.nick = T' := if_pos hl
        rw [hat]
        exact stirs_printed _ (by simp [handlerFormats])
      · have hat : T'.attend i c st t.nick = T'.leave i t.nick := (if_neg hl).trans (if_pos hun)
        rw [hat]
        exact stirs_leaveRoom t
      · have hat : T'.attend i c st t.nick = T'.arrive i c t.nick := (if_neg hl).trans (if_neg hun)
        rw [hat, RoomTable.arrive]
        cases hk : (T' i).firstUser (·.jid == bare c.full_jid) with
        | some k => exact stirs_occupantPresence hnick (firstUser_some hk).1
        | none =>
          exact stirs_joinRoom hi b hnick fun k hka => beq_eq_false_iff_ne.mp (firstUser_none hk k hka)

/-! Messages and the router. -/

theorem stirs_groupMessage (hi : (T i).active ≠ 0) (h : 0 ∉ st.payload) :
    Stirs me T c (groupMessage me st i) (match newSubject st.payload with
      | some subj => T.mod i fun r => { r with subject := subj }
      | none => T) := by
  have hsend : Does (Texted me) (do
      let c ← ctxOf me
      let s ← getStores
      let r := s.rooms i
      forAll MAX_USERS_PER_ROOM (groupSendOne r st (nickOf r (bare c.full_jid)))) :=
    .bind (does_ctxOf me) fun c => .bind does_getStores fun s => does_forAll ((allows_texts me).groupSendOne _ _ _)
  unfold groupMessage
  dsimp only
  cases hs : newSubject st.payload with
  | some subj =>
    have hh := newSubject_holds h hs
    exact stirs_saved i (fun hok => hok.withSubject hh) (fun im => .single (.subject ⟨T, im⟩ i hi hh))
      fun _ => stirs_texts hsend
  | none => exact stirs_texts hsend

theorem stirs_messages (h : 0 ∉ st.payload) (hc : (strstr st.to_ CONFERENCE).isSome) :
    Stirs me T c (handle_chat_message me st) (T.message st) := by
  rw [handle_chat_message, if_pos hc]
  refine leads_stores fun s hs => ?_
  have hfind : findRoom s (localPart st.to_) = T.find (localPart st.to_) := hs ▸ rfl
  rw [hfind]
  dsimp only
  by_cases hat : st.to_.contains (ch '@')
  · simp only [if_pos hat]
    cases hf : T.find (localPart st.to_) with
    | none =>
      have he : T.message st = T := by simp [RoomTable.message, hf]
      rw [he]
      exact leads_pure _
    | some i =>
      cases hr : roomSlash st.to_ with
      | some to_slash =>
        have he : T.message st = T := if_neg fun h => by simp [hr] at h
        rw [he]
        exact stirs_texts ((allows_texts me).privateMessage _ _ _)
      | none =>
        have he : T.message st = match newSubject st.payload with
            | some subj => T.mod i fun r => { r with subject := subj }
            | none => T := by
          rw [RoomTable.message, if_pos ⟨hc, hat, by simp [hr]⟩, hf]
          cases newSubject st.payload <;> rfl
        rw [he]
        exact stirs_groupMessage (RoomTable.find_some hf).1 h
  · simp only [if_neg hat]
    have he : T.message st = T := if_neg fun h => hat h.2.1
    rw [he]
    exact leads_pure _

theorem leads_handle_chat_message (h : 0 ∉ st.payload) : Leads me T c (handle_chat_message me st) (T.message st) := by
  by_cases hc : (strstr st.to_ CONFERENCE).isSome
  · exact (stirs_messages h hc).leads
  · have he : T.message st = T := if_neg fun h => hc h.1
    rw [he, handle_chat_message, if_neg hc]
    exact leads_plain ((allows_plain me).directMessage (by decide) st)

theorem leads_routePresence (h : StanzaOk st) :
    Leads me T c (routePresence me st)
      (if (strstr st.to_ CONFERENCE).isSome then T.presence c st else T) := by
  refine leads_ctx fun d _ _ => .ite (fun hc => ?_) fun hc => ?_
  · rw [if_pos hc]
    exact (stirs_handle_muc_presence h.to_).leads
  · rw [if_neg hc]
    exact .ite (fun _ => leads_plain (.bind ((allows_plain me).note (fun _ => rfl) fun _ => rfl) fun _ => (allows_plain me).handle_initial_presence (by decide) (by decide) st))
      fun _ => leads_plain ((allows_plain me).handle_broadcast_presence (by decide) (by decide) st)

theorem leads_unknownRequest :
    Leads me T c (unknownRequest me st)
      (if (strstr st.payload RoomTable.NS_OWNER).isSome then T.owner st else T) := by
  unfold RoomTable.NS_OWNER
  refine leads_ctx fun d _ _ => .ite (fun hc => ?_) fun hc => ?_
  · rw [if_pos hc]
    exact stirs_handle_muc_owner.leads
  · rw [if_neg hc]
    refine .ite (fun _ => ?_) fun _ => ?_
    · exact leads_printed _ (by simp [handlerFormats])
    · exact leads_printed _ (by simp [handlerFormats])

end Muc

section Router
variable {me : Slot} {st : Stanza}

theorem at_here (me : Slot) (s : Server) : At me s.stores.rooms (s.client_registry me) s := ⟨rfl, rfl, rfl⟩

/-- A handler that leads somewhere from every table has effects only. -/
theorem Leads.effects {f : RoomTable → Ctx → RoomTable} (h : ∀ T c, Leads me T c m (f T c)) : Does (Effect me) m :=
  fun s => ((h _ _).mono (S := Effect me) (fun _ _ hm => .single hm.1) s (at_here me s)).1

theorem Stirs.spares {k : StoreId} (hk : k ≠ .rooms) {f : RoomTable → Ctx → RoomTable}
    (h : ∀ T c, Stirs me T c m (f T c)) : Does (Untouched k) m := fun s =>
  ((h _ _).mono (S := Untouched k) (fun _ _ hs => .single (hs.2 k hk)) s (at_here me s)).1

theorem routeByKind_leads (me : Slot) (h : StanzaOk st) (s : Server) :
    ReflTransGen (Moved me) s (routeByKind me st s).2 ∧
      At me (RoomTable.byKind s.stores.rooms (s.client_registry me) st) (s.client_registry me)
        (routeByKind me st s).2 := by
  have hc := at_here me s
  generalize s.stores.rooms = T at hc
  generalize hctx : s.client_registry me = c at hc
  have hrun : routeByKind me st s = (if ClientState.SESSION ≤ c.state ∧ st.type = .MESSAGE then
        handle_chat_message me st
      else if ClientState.SESSION ≤ c.state ∧ st.type.isPresence then routePresence me st
      else if ClientState.SESSION ≤ c.state ∧ st.type.isRequest then unknownRequest me st
      else if st.type = .UNKNOWN ∧ st.id ≠ [] ∧ ClientState.AUTHENTICATED ≤ c.state then
        send_raw me (snprintf 512 fmtBadIq [.s (fromJid st), .s (toJid c), .s st.id])
      else pure ()) s := by rw [← hctx]; rfl
  have rest : Does (Plain me) (if st.type = .UNKNOWN ∧ st.id ≠ [] ∧ ClientState.AUTHENTICATED ≤ c.state then
      send_raw me (snprintf 512 fmtBadIq [.s (fromJid st), .s (toJid c), .s st.id]) else pure ()) :=
    .ite ((allows_plain me).printed _ (by simp [handlerFormats])) (.pure _)
  rw [hrun]
  unfold RoomTable.byKind
  by_cases hs : c.state < .SESSION
  · have hn : ∀ p : Prop, ¬ (ClientState.SESSION ≤ c.state ∧ p) := fun p h => Nat.not_le.mpr hs h.1
    rw [if_neg (hn _), if_neg (hn _), if_neg (hn _), if_pos hs]
    exact leads_plain rest s hc
  · have hle : ClientState.SESSION ≤ c.state := Nat.not_lt.mp hs
    simp only [hle, true_and, if_neg hs]
    by_cases hm : st.type = .MESSAGE
    · rw [if_pos hm, if_pos hm]
      exact leads_handle_chat_message h.payload s hc
    rw [if_neg hm, if_neg hm]
    by_cases hp : st.type.isPresence
    · rw [if_pos hp, if_pos hp]
      exact leads_routePresence h s hc
    rw [if_neg hp, if_neg hp]
    by_cases hr : st.type.isRequest
    · rw [if_pos hr]
      simp only [hr, true_and]
      exact leads_unknownRequest s hc
    · have hn : ¬ (st.type.isRequest ∧ (strstr st.payload RoomTable.NS_OWNER).isSome) := fun h => hr h.1
      rw [if_neg hr, if_neg hn]
      exact leads_plain rest s hc

theorem does_routeByKind (me : Slot) (st : Stanza) (h : StanzaOk st) : Does (Effect me) (routeByKind me st) :=
  fun s => by
    have hc := (routeByKind_leads me h s).1
    generalize (routeByKind me st s).2 = t at hc
    induction hc with
    | refl => exact .refl
    | tail _ hm ih => exact ih.tail hm.1

/-- An entry of the table is one of the two of the negotiation, or its handler needs a session and
leads to the table it should. -/
theorem router_leads {e : RouteEntry} (he : e ∈ router) :
    e = ⟨NS_BIND, handle_core_bind, .BIND⟩ ∨ e = ⟨NS_SESSION, handle_core_session, .AUTHENTICATED⟩ ∨
      e.min_state = .SESSION ∧ ∀ me st T c, StanzaOk st → st.xmlns = e.xmlns →
        Leads me T c (e.handler me st) (T.byName c st) := by
  have none : ∀ {me : Slot} {st : Stanza} {T : RoomTable} {c : Ctx} {m : M Unit} {ns : Str}, st.xmlns = ns →
      ns ≠ RoomTable.NS_MUC → ns ≠ RoomTable.NS_OWNER → ns ≠ RoomTable.NS_ADMIN → Does (Plain me) m →
      Leads me T c m (T.byName c st) := fun hx h1 h2 h3 hm => by
    rw [RoomTable.byName, hx, if_neg h1, if_neg h2, if_neg h3]
    exact leads_plain hm
  simp only [router, List.mem_cons, List.not_mem_nil, or_false] at he
  rcases he with rfl | rfl | rfl | rfl | rfl | rfl | rfl | rfl | rfl | rfl | rfl | rfl | rfl | rfl
  · exact .inl rfl
  · exact .inr (.inl rfl)
  all_goals refine .inr (.inr ⟨rfl, fun me st T c h hx => ?_⟩)
  · exact none hx (by decide) (by decide) (by decide) ((allows_plain me).handle_roster_request (by decide) st)
  · exact none hx (by decide) (by decide) (by decide) ((allows_plain me).handle_disco_info st)
  · exact none hx (by decide) (by decide) (by decide) ((allows_plain me).handle_disco_items st)
  · have he : T.byName c st = T.presence c st := if_pos hx
    rw [he]
    exact (stirs_handle_muc_presence h.to_).leads
  · have he : T.byName c st = T.owner st := by
      have hn : lit "http://jabber.org/protocol/muc#owner" ≠ RoomTable.NS_MUC := by decide
      rw [RoomTable.byName, hx, if_neg hn]
      exact if_pos rfl
    rw [he]
    exact stirs_handle_muc_owner.leads
  · exact none hx (by decide) (by decide) (by decide) ((allows_plain me).handle_private_storage (by decide) st)
  · have he : T.byName c st = T.admin st := by
      have hn : lit "http://jabber.org/protocol/muc#admin" ≠ RoomTable.NS_MUC := by decide
      have ho : lit "http://jabber.org/protocol/muc#admin" ≠ RoomTable.NS_OWNER := by decide
      rw [RoomTable.byName, hx, if_neg hn, if_neg ho]
      exact if_pos rfl
    rw [he]
    exact stirs_handle_muc_admin.leads
  · exact none hx (by decide) (by decide) (by decide) ((allows_plain me).handle_blocklist st)
  · exact none hx (by decide) (by decide) (by decide) ((allows_plain me).replyResult _ st (by decide))
  · exact none hx (by decide) (by decide) (by decide) ((allows_plain me).handle_version st)
  · exact none hx (by decide) (by decide) (by decide) ((allows_plain me).handle_last st)
  · exact none hx (by decide) (by decide) (by decide) ((allows_plain me).replyResult _ st (by decide))

end Router

/-- What is true of the handlers of the negotiation and of all that is made of effects is true of the handling of a
stanza. -/
theorem dispatch_all {X : M Unit → Prop} {me : Slot} {st : Stanza} (h : StanzaOk st)
    (hs : st.xmlns ≠ [] ∧ (strstr st.xmlns (lit "stream")).isSome → X (handle_handshake_logic me))
    (hb : st.xmlns = NS_BIND → X (handle_core_bind me st)) (hr : st.xmlns = NS_SESSION → X (handle_core_session me st))
    (he : ∀ m : M Unit, Does (Effect me) m → X m) : X (dispatch me c st) := by
  by_cases hst : st.xmlns ≠ [] ∧ (strstr st.xmlns (lit "stream")).isSome
  · rw [dispatch, if_pos hst]
    exact hs hst
  rw [dispatch, if_neg hst]
  split
  · rename_i e hfind
    have hx : e.xmlns = st.xmlns := by simpa using List.find?_some hfind
    split
    · exact he _ (Plain.effects ((allows_plain me).tooEarly st))
    · rcases router_leads (List.mem_of_find?_eq_some hfind) with rfl | rfl | ⟨-, hd⟩
      · exact hb hx.symm
      · exact hr hx.symm
      · exact he _ (Leads.effects fun T d => hd me st T d h hx.symm)
  · exact he _ (does_routeByKind me st h)

end Angelic.Proofs
