import Angelic.Proofs.HandlerTexts

namespace Angelic.Proofs
open CString Model StateRel

/-! What the handlers of rooms send. They change no other store. -/

/-- The server with other rooms. -/
def inRooms (v : Server) (T : Fin MAX_ROOMS → Room) : Server := v.setStores { v.stores with rooms := T }

theorem inRooms_rooms (v : Server) (T : Fin MAX_ROOMS → Room) : (inRooms v T).stores.rooms = T := rfl

theorem inRooms_update (v : Server) (i : Fin MAX_ROOMS) (r : Room) :
    (inRooms v (Function.update v.stores.rooms i r)).stores.rooms i = r := by
  rw [inRooms_rooms, Function.update_self]

/-- The server is `v` with some rooms. -/
def RoomsOnly (G : RosterArray → Prop) (v s : Server) : Prop := ∃ T, Now G (inRooms v T) s

theorem Now.roomsOnly {G : RosterArray → Prop} {v s : Server} (h : Now G v s) : RoomsOnly G v s := ⟨v.stores.rooms, h⟩

theorem RoomsOnly.sameLists {G : RosterArray → Prop} {v s : Server} (h : RoomsOnly G v s) : SameLists G v s := by
  obtain ⟨T, hT⟩ := h
  exact ⟨hT.sameLists.lists, hT.version, hT.image⟩

section Rooms
variable {G : RosterArray → Prop} {v : Server} (me : Slot) (st : Stanza)
variable (i : Fin MAX_ROOMS)

theorem sends_modRoom (f : Room → Room) :
    Sends (Now G v) (modRoom i f) [] fun _ => Now G (inRooms v (Function.update v.stores.rooms i (f (v.stores.rooms i)))) :=
  sends_modStores _

theorem sends_sendTo (jid : Str) (t : Text) :
    Sends (Now G v) (sendTo jid t.str) (Texts.toJid v jid t) fun _ => Now G v := by
  refine sends_get (fun s hs => ?_) ?_
  · rw [hs.find_client]
  · unfold Texts.toJid
    cases find_client_by_jid v jid with
    | none => exact .pure fun _ h => h
    | some i => exact sends_send i t

theorem sends_tellOccupants (r : Room) (skip : Fin MAX_USERS_PER_ROOM → Bool) (text : Participant → Text) :
    Sends (Now G v) (tellOccupants r skip fun p => (text p).str) (Texts.occupants v r skip text) fun _ => Now G v :=
  .each fun _ => .when_ (fun _ => sends_sendTo _ _) fun _ h => h

/-! Administration. -/

theorem kickText_eq (size : Nat) (fmtR fmt room nick jid reason : Str) (want_ban : Bool) :
    kickText size fmtR fmt room nick jid reason want_ban =
      (Texts.kick size fmtR fmt room nick jid reason want_ban).str := by
  dsimp only [kickText, Texts.kick]
  by_cases h : reason ≠ []
  · rw [if_pos h, if_pos h]
    rfl
  · rw [if_neg h, if_neg h]
    rfl

theorem sends_kickOne (j : Fin MAX_USERS_PER_ROOM) (room reason : Str) (want_ban : Bool) :
    Sends (Now G v) (kickOne i j room reason want_ban)
      (Texts.kickOne v (v.stores.rooms i) j room reason want_ban) fun _ => RoomsOnly G v := by
  refine sends_stores ?_
  simp only [kickText_eq]
  have last : ∀ T, Sends (Now G (inRooms v T)) (modRoom i fun r => r.setUser j .zero) [] fun _ => RoomsOnly G v :=
    fun T => (sends_modRoom i _).post fun _ _ h => ⟨_, h⟩
  unfold Texts.kickOne
  rw [← List.append_nil (_ ++ _), List.append_assoc]
  refine (sends_tellOccupants _ _ _).bind fun _ => (sends_sendTo _ _).bind fun _ => ?_
  split
  · exact sends_saved (k := .rooms) (by decide) _ fun _ => last _
  · exact last v.stores.rooms

theorem sends_mucKick (want_ban : Bool) :
    Sends (Now G v) (mucKick st want_ban) (Texts.mucKick v st want_ban) fun _ => RoomsOnly G v := by
  refine sends_stores ?_
  unfold Texts.mucKick
  generalize kickTarget v.stores st = o
  rcases o with - | ⟨i, j⟩
  · exact .pure fun _ h => Now.roomsOnly h
  · exact sends_kickOne i j _ _ want_ban

theorem sends_result_rooms (size : Nat) :
    Sends (RoomsOnly G v) (replyResult size me st) (Texts.result v me st size) fun _ => RoomsOnly G v := by
  rintro s ⟨T, hs⟩
  obtain ⟨hw, hn⟩ := sends_result me st size s hs
  exact ⟨hw, T, hn⟩

theorem sends_handle_muc_admin :
    Sends (Now G v) (handle_muc_admin me st) (Texts.admin v me st) fun _ => RoomsOnly G v := by
  refine sends_ctx me (fun _ => rfl) <| sends_stores ?_
  refine .ite (fun _ => ?_) fun _ => .ite (fun _ => sends_text.post fun _ _ h => h.roomsOnly) fun _ =>
    sends_text.post fun _ _ h => h.roomsOnly
  change Sends _ (if RoomTable.wantKick st ∨ RoomTable.wantBan st then
      mucKick st (RoomTable.wantBan st) >>= fun _ => replyResult 1024 me st
    else replyResult 1024 me st) _ _
  split
  · exact (sends_mucKick st _).bind fun _ => sends_result_rooms me st 1024
  · exact (sends_result_rooms me st 1024).pre fun _ h => h.roomsOnly

theorem destroyText_eq (alt reason room : Str) (p : Participant) :
    destroyText alt reason room p = (Texts.destroy alt reason room p).str := by
  unfold destroyText Texts.destroy
  split
  · rfl
  · split <;> rfl

theorem sends_mucDestroy : Sends (Now G v) (mucDestroy st) (Texts.mucDestroy v st) fun _ => RoomsOnly G v := by
  refine sends_stores ?_
  unfold Texts.mucDestroy
  dsimp only
  generalize between st.payload "<reason>" "</reason>" 128 = reason
  generalize findRoom v.stores (roomName st.to_) = o
  cases o with
  | none => exact .pure fun _ h => Now.roomsOnly h
  | some i =>
    have ht : destroyText (altJid st.payload) reason (strncpy 63 st.to_) = fun p =>
        (Texts.destroy (altJid st.payload) reason (strncpy 63 st.to_) p).str := funext (destroyText_eq _ _ _)
    dsimp only
    rw [← List.append_nil (Texts.occupants _ _ _ _), ht]
    refine (sends_tellOccupants _ _ _).bind fun _ => ?_
    exact (sends_modRoom i _).after fun _ => (sends_save (k := .rooms) (by decide)).post fun _ _ h => ⟨_, h⟩

theorem sends_mucConfigure : Sends (Now G v) (mucConfigure st) [] fun _ => RoomsOnly G v := by
  refine sends_stores ?_
  generalize findRoom v.stores (roomName st.to_) = o
  cases o with
  | none => exact .pure fun _ h => Now.roomsOnly h
  | some i => exact (sends_modRoom i _).after fun _ => (sends_save (k := .rooms) (by decide)).post fun _ _ h => ⟨_, h⟩

theorem sends_handle_muc_owner :
    Sends (Now G v) (handle_muc_owner me st) (Texts.owner v me st) fun _ => RoomsOnly G v := by
  refine sends_ctx me (fun _ => rfl) <| sends_stores ?_
  refine .ite (fun _ => (sends_mucDestroy st).bind fun _ => sends_result_rooms me st 256) fun _ =>
    .ite (fun _ => (sends_mucConfigure st).after fun _ => ?_) fun _ => ?_
  · rintro s ⟨T, hs⟩
    obtain ⟨hw, hn⟩ := sends_text s hs
    exact ⟨hw, T, hn⟩
  · refine Sends.post (Q := fun _ => Now G v) ?_ fun _ _ h => h.roomsOnly
    unfold Texts.form Texts.formRoom
    exact sends_text

/-! Service discovery. -/

theorem sends_capsForward : Sends (Now G v) (capsForward me st) (Texts.capsForward v me st) fun _ => Now G v := by
  refine sends_ctx me (fun _ => rfl) ?_
  have target : ∀ s, Now G v s → firstIdx (fun i => (s.client_registry i).live &&
      bare st.to_ == bare (s.client_registry i).full_jid) = Texts.capsTarget v st := fun s hs =>
    hs.firstIdx (fun c => c.live && bare st.to_ == bare c.full_jid) fun _ => rfl
  have here : firstIdx (fun i => (v.client_registry i).live &&
      bare st.to_ == bare (v.client_registry i).full_jid) = Texts.capsTarget v st := rfl
  refine sends_get (fun s hs => ?_) ?_
  · have hj : ∀ i, (s.client_registry i).full_jid = (v.client_registry i).full_jid := hs.read Ctx.full_jid fun _ => rfl
    rw [target s hs, here]
    simp only [hj]
  · rw [here]
    unfold Texts.capsForward
    cases Texts.capsTarget v st with
    | none => exact sends_text
    | some i => exact sends_text

theorem sends_handle_disco_info :
    Sends (Now G v) (handle_disco_info me st) (Texts.discoInfo v me st) fun _ => Now G v := by
  refine sends_ctx me (fun _ => rfl) <| sends_stores ?_
  refine .ite (fun _ => ?_) fun _ => .ite (fun _ => sends_text) fun _ => .ite (fun _ => ?_) fun _ => sends_text
  · dsimp only
    cases findRoom v.stores (discoRoomName st.to_) with
    | none => exact sends_text
    | some i => exact sends_text
  · exact .ite (fun _ => sends_capsForward me st) fun _ => sends_text

theorem sends_handle_disco_items :
    Sends (Now G v) (handle_disco_items me st) (Texts.discoItems v me st) fun _ => Now G v := by
  refine sends_ctx me (fun _ => rfl) <| sends_stores ?_
  refine .ite (fun _ => .ite (fun _ => ?_) fun _ => sends_text) fun _ => sends_text
  dsimp only
  cases findRoom v.stores (localPart st.to_) with
  | none => exact sends_text
  | some i => exact sends_text

/-! Presence. -/

theorem RoomsOnly.of_inRooms {v s : Server} {T : Fin MAX_ROOMS → Room} (h : RoomsOnly G (inRooms v T) s) :
    RoomsOnly G v s := h

theorem sends_leaveRoom (t : MucTarget) :
    Sends (Now G v) (leaveRoom me i t) (Texts.leave v me (v.stores.rooms i) t) fun _ => RoomsOnly G v := by
  refine sends_ctx me (fun _ => rfl) <| sends_stores ?_
  unfold Texts.leave
  dsimp only
  cases (v.stores.rooms i).firstUser (·.nick == t.nick) with
  | none => exact .pure fun _ h => Now.roomsOnly h
  | some j =>
    dsimp only
    rw [← List.append_nil (_ ++ _), List.append_assoc]
    refine (sends_tellOccupants (v.stores.rooms i) (· == j) fun p =>
      ⟨1024, fmtLeft, [.s t.bare_jid, .s t.nick, .s p.jid]⟩).bind fun _ => sends_text.bind fun _ => ?_
    refine (sends_modRoom i _).after fun _ => ?_
    split
    · exact (sends_modRoom i _).after fun _ => (sends_save (k := .rooms) (by decide)).post fun _ _ h => ⟨_, h⟩
    · exact .pure fun _ h => ⟨_, h⟩

theorem sends_occupantPresence (t : MucTarget) (k : Fin MAX_USERS_PER_ROOM) :
    Sends (Now G v) (occupantPresence me st i t k) (Texts.occupant v me st (v.stores.rooms i) t k)
      fun _ => RoomsOnly G v := by
  refine sends_ctx me (fun _ => rfl) <| sends_stores ?_
  refine .ite (fun _ => ?_) fun _ => .ite (fun _ => ?_) fun _ => ?_
  · exact (sends_tellOccupants _ nobody (Texts.avail t _ _ _)).post fun _ _ h => h.roomsOnly
  · exact sends_text.post fun _ _ h => h.roomsOnly
  · refine (sends_tellOccupants _ nobody (Texts.nickGone t _ _)).bind fun _ => (sends_modRoom i _).after fun _ => ?_
    refine sends_stores ?_
    rw [inRooms_update]
    exact (sends_tellOccupants (v := inRooms v _) _ nobody (Texts.nickTaken t _)).post fun _ _ h => ⟨_, h⟩

theorem sends_showOne (r : Room) (t : MucTarget) (j : Fin MAX_USERS_PER_ROOM) :
    Sends (Now G v) (showOne me r t j) (Texts.shown v me r t j) fun _ => Now G v :=
  sends_ctx me (fun _ => rfl) <| .when_ (fun _ => .ite (fun _ => sends_text) fun _ => sends_text) fun _ h => h

theorem joinedText_eq (r : Room) (t : MucTarget) (full_jid : Str) (p : Participant) :
    joinedText r t full_jid p = (Texts.joined r t full_jid p).str := by
  unfold joinedText Texts.joined
  split <;> rfl

theorem sends_joinRoom (is_new : Bool) (t : MucTarget) :
    Sends (Now G v) (joinRoom me i is_new t) (Texts.join v me (v.stores.rooms i) t is_new) fun _ => RoomsOnly G v := by
  refine sends_ctx me (fun _ => rfl) <| sends_stores ?_
  refine .ite (fun _ => sends_text.post fun _ _ h => h.roomsOnly) fun _ =>
    .ite (fun _ => sends_text.post fun _ _ h => h.roomsOnly) fun _ => ?_
  refine (sends_modRoom i _).after fun _ => sends_stores ?_
  generalize hr : (v.stores.rooms i).join (v.client_registry me) t.nick = r
  have ht : joinedText r t (v.client_registry me).full_jid = fun p =>
      (Texts.joined r t (v.client_registry me).full_jid p).str := funext (joinedText_eq r t _)
  dsimp only
  rw [inRooms_update, ht]
  unfold Texts.welcome
  rw [List.append_assoc]
  refine (Sends.each fun j => sends_showOne me r t j).bind fun _ =>
    (sends_tellOccupants r _ (Texts.joined r t _)).bind fun _ => ?_
  exact (sends_text.bind fun _ => sends_text).post fun _ _ h => ⟨_, h⟩

/-- The room that is entered, and whether it is new. -/
theorem sends_enterRoom (name : Str) : Sends (Now G v) (enterRoom me name) [] fun o s =>
      o = (RoomTable.enter v.stores.rooms (v.client_registry me) name).map
          (fun p => (p.1, (RoomTable.find v.stores.rooms name).isNone)) ∧
        Now G (inRooms v (((RoomTable.enter v.stores.rooms (v.client_registry me) name).map (·.2)).getD v.stores.rooms)) s := by
  refine sends_ctx me (fun _ => rfl) <| sends_stores ?_
  have hf : findRoom v.stores name = RoomTable.find v.stores.rooms name := rfl
  rw [hf]
  unfold RoomTable.enter
  cases RoomTable.find v.stores.rooms name with
  | some i => exact .pure fun _ h => ⟨rfl, h⟩
  | none =>
    dsimp only
    cases firstIdx (fun i => (v.stores.rooms i).active == 0) with
    | none => exact .pure fun _ h => ⟨rfl, h⟩
    | some i =>
      exact (sends_modRoom i _).after fun _ => (sends_save (k := .rooms) (by decide)).after fun _ => .pure fun _ h => ⟨rfl, h⟩

theorem sends_handle_muc_presence :
    Sends (Now G v) (handle_muc_presence me st) (Texts.mucPresence v me st) fun _ => RoomsOnly G v := by
  unfold handle_muc_presence Texts.mucPresence
  cases mucTarget st.to_ with
  | none => exact .pure fun _ h => Now.roomsOnly h
  | some t =>
    refine (sends_enterRoom me t.room_name).value ?_
    dsimp only [Texts.reg]
    generalize (RoomTable.find v.stores.rooms t.room_name).isNone = is_new
    rcases RoomTable.enter v.stores.rooms (v.client_registry me) t.room_name with - | ⟨i, T⟩
    · exact .pure fun _ h => ⟨_, h⟩
    · refine sends_ctx me (fun _ => rfl) <| sends_stores ?_
      refine .ite (fun _ => sends_text.post fun _ _ h => ⟨T, h⟩) fun _ =>
        .ite (fun _ => (sends_leaveRoom me i t).post fun _ _ h => h.of_inRooms) fun _ => ?_
      dsimp only [Option.map, Option.getD]
      have hT : (inRooms v T).stores.rooms i = T i := rfl
      have hc : (inRooms v T).client_registry me = v.client_registry me := rfl
      rw [hT, hc]
      cases (T i).firstUser (·.jid == bare (v.client_registry me).full_jid) with
      | some k => exact (sends_occupantPresence me st i t k).post fun _ _ h => h.of_inRooms
      | none => exact (sends_joinRoom me i is_new t).post fun _ _ h => h.of_inRooms

end Rooms

end Angelic.Proofs
