import Angelic.Proofs.Texts

namespace Angelic.Proofs
open CString Model

variable {x : Sent} {l : List Sent}

/-! What is true of every text that is sent, and the formats of each handler. -/

/-! Members of the lists. -/

theorem mem_each {n : Nat} {f : Fin n → List Sent} : x ∈ each n f ↔ ∃ i, x ∈ f i := by
  simp [each]

theorem mem_toJid {s : Server} {jid : Str} {t : Text} :
    x ∈ Texts.toJid s jid t ↔ find_client_by_jid s jid = some x.1 ∧ x.2 = t := by
  obtain ⟨k, u⟩ := x
  cases hf : find_client_by_jid s jid with
  | none => simp [Texts.toJid, hf]
  | some i => simp [Texts.toJid, hf, Prod.ext_iff, eq_comm]

/-- Each occupant that is not skipped is sent its text, if it has a session. -/
theorem mem_occupants {s : Server} {r : Room} {skip : Fin MAX_USERS_PER_ROOM → Bool} {text : Participant → Text} :
    x ∈ Texts.occupants s r skip text ↔ ∃ k, ((r.users k).active ∧ skip k = false) ∧
      find_client_by_jid s (r.users k).jid = some x.1 ∧ x.2 = text (r.users k) := by
  rw [Texts.occupants, mem_each]
  refine exists_congr fun k => ?_
  by_cases hk : (r.users k).active = true ∧ ¬ skip k = true
  · rw [if_pos hk, mem_toJid, Bool.not_eq_true] at *
    exact ⟨fun h => ⟨hk, h⟩, fun h => h.2⟩
  · rw [if_neg hk]
    rw [Bool.not_eq_true] at hk
    exact iff_of_false List.not_mem_nil fun h => hk h.1

/-! What all members of a list are. -/

def Every (P : Sent → Prop) (l : List Sent) : Prop := ∀ x ∈ l, P x

namespace Every
variable {P Q : Sent → Prop} {s : Server}

theorem nil : Every P [] := fun _ h => absurd h List.not_mem_nil

theorem single (h : P x) : Every P [x] := fun _ hy => List.mem_singleton.mp hy ▸ h

theorem pair {y : Sent} (hx : P x) (hy : P y) : Every P [x, y] :=
  List.forall_mem_cons.mpr ⟨hx, single hy⟩

theorem append {l' : List Sent} (h : Every P l) (h' : Every P l') : Every P (l ++ l') :=
  List.forall_mem_append.mpr ⟨h, h'⟩

theorem ite {c : Prop} [Decidable c] {l' : List Sent} (h : c → Every P l) (h' : ¬ c → Every P l') :
    Every P (if c then l else l') := by
  split
  · exact h ‹_›
  · exact h' ‹_›

theorem each {n : Nat} {f : Fin n → List Sent} (h : ∀ i, Every P (f i)) : Every P (each n f) := by
  intro x hx
  obtain ⟨i, hi⟩ := mem_each.mp hx
  exact h i x hi

theorem toJid {jid : Str} {t : Text} (h : ∀ k, find_client_by_jid s jid = some k → P (k, t)) :
    Every P (Texts.toJid s jid t) := by
  rintro ⟨k, u⟩ hx
  obtain ⟨hk, rfl⟩ := mem_toJid.mp hx
  exact h k hk

theorem occupants {r : Room} {skip : Fin MAX_USERS_PER_ROOM → Bool} {text : Participant → Text}
    (h : ∀ j, (r.users j).active → skip j = false → ∀ k, find_client_by_jid s (r.users j).jid = some k →
      P (k, text (r.users j))) : Every P (Texts.occupants s r skip text) := by
  rintro ⟨k, u⟩ hx
  obtain ⟨j, ⟨ha, hs⟩, hk, rfl⟩ := mem_occupants.mp hx
  exact h j ha hs k hk

theorem mono (h : Every P l) (hpq : ∀ x, P x → Q x) : Every Q l := fun x hx => hpq x (h x hx)

end Every

abbrev Formats (fs : List Str) (l : List Sent) : Prop := Every (fun x => x.2.fmt ∈ fs) l


theorem Formats.mono {fs fs' : List Str} (h : Formats fs l) (hs : fs ⊆ fs') : Formats fs' l :=
  Every.mono h fun _ hx => hs hx

section Handlers
variable (s : Server) (me : Slot) (st : Stanza)

/-! Rooms. -/

def mucFormats : List Str :=
  [fmtLockedErr, fmtLeft, fmtLeftSelf, fmtAvailSelf, fmtAvail, fmtNickConflict, fmtNickGoneSelf, fmtNickGone,
    fmtMemberSelf, fmtMember, fmtForbidden, fmtJoinConflict, fmtMemberJid, fmtNewRoom, fmtSubject]

theorem leave_formats (r : Room) (t : MucTarget) : Formats [fmtLeft, fmtLeftSelf] (Texts.leave s me r t) := by
  unfold Texts.leave
  cases r.firstUser (·.nick == t.nick) with
  | none => exact Every.nil
  | some j => exact Every.append (Every.occupants fun _ _ _ _ _ => by simp) (Every.single (by simp))

theorem occupant_formats (r : Room) (t : MucTarget) (k : Fin MAX_USERS_PER_ROOM) :
    Formats [fmtAvailSelf, fmtAvail, fmtNickConflict, fmtNickGoneSelf, fmtNickGone, fmtMemberSelf, fmtMember]
      (Texts.occupant s me st r t k) := by
  refine Every.ite (fun _ => Every.occupants fun j _ _ _ _ => ?_) fun _ =>
    Every.ite (fun _ => Every.single (by simp)) fun _ =>
      Every.append (Every.occupants fun j _ _ _ _ => ?_) (Every.occupants fun j _ _ _ _ => ?_)
  · simp only [Texts.avail]
    split <;> simp
  · simp only [Texts.nickGone]
    split <;> simp
  · simp only [Texts.nickTaken]
    split <;> simp

theorem welcome_formats (r : Room) (t : MucTarget) (is_new : Bool) :
    Formats [fmtMemberJid, fmtMember, fmtNewRoom, fmtMemberSelf, fmtSubject] (Texts.welcome s me r t is_new) := by
  refine Every.append (Every.append (Every.each fun j => ?_) (Every.occupants fun j _ _ _ _ => ?_)) (Every.pair ?_ ?_)
  · exact Every.ite (fun _ => Every.ite (fun _ => Every.single (by simp)) fun _ => Every.single (by simp))
      fun _ => Every.nil
  · simp only [Texts.joined]
    split <;> simp
  · cases is_new <;> simp
  · simp

theorem join_formats (r : Room) (t : MucTarget) (is_new : Bool) :
    Formats [fmtForbidden, fmtJoinConflict, fmtMemberJid, fmtMember, fmtNewRoom, fmtMemberSelf, fmtSubject]
      (Texts.join s me r t is_new) :=
  Every.ite (fun _ => Every.single (by simp)) fun _ => Every.ite (fun _ => Every.single (by simp)) fun _ =>
    (welcome_formats s me _ t is_new).mono (by simp)

theorem mucPresence_formats : Formats mucFormats (Texts.mucPresence s me st) := by
  unfold Texts.mucPresence
  cases mucTarget st.to_ with
  | none => exact Every.nil
  | some t =>
    dsimp only
    cases RoomTable.enter s.stores.rooms (Texts.reg s me) t.room_name with
    | none => exact Every.nil
    | some p =>
      refine Every.ite (fun _ => Every.single (by simp [mucFormats])) fun _ => Every.ite (fun _ => ?_) fun _ => ?_
      · exact (leave_formats s me _ t).mono (by simp [mucFormats])
      · cases (p.2 p.1).firstUser (·.jid == bare (Texts.reg s me).full_jid) with
        | some k => exact (occupant_formats s me st _ t k).mono (by simp [mucFormats])
        | none => exact (join_formats s me _ t _).mono (by simp [mucFormats])

def kickFormats : List Str := [fmtKickReason, fmtKick, fmtKickedReason, fmtKicked]

theorem mucKick_formats (want_ban : Bool) : Formats kickFormats (Texts.mucKick s st want_ban) := by
  unfold Texts.mucKick
  cases kickTarget s.stores st with
  | none => exact Every.nil
  | some p =>
    refine Every.append (Every.occupants fun j _ _ _ _ => ?_) (Every.toJid fun _ _ => ?_)
    all_goals
      simp only [Texts.kick]
      split <;> simp [kickFormats]

def destroyFormats : List Str := [fmtDestroyReason, fmtDestroyJid, fmtDestroy]

theorem mucDestroy_formats : Formats destroyFormats (Texts.mucDestroy s st) := by
  unfold Texts.mucDestroy
  cases findRoom s.stores (roomName st.to_) with
  | none => exact Every.nil
  | some i =>
    refine Every.occupants fun j _ _ _ _ => ?_
    simp only [Texts.destroy]
    split
    · simp [destroyFormats]
    · split <;> simp [destroyFormats]

theorem owner_formats : Formats (fmtConfigured :: fmtRoomForm :: fmtResult :: destroyFormats) (Texts.owner s me st) :=
  Every.ite
    (fun _ => Every.append ((mucDestroy_formats s st).mono (by simp [destroyFormats])) (Every.single (by simp)))
    fun _ => Every.ite (fun _ => Every.single (by simp)) fun _ => Every.single (by simp [Texts.form])

theorem admin_formats : Formats (fmtOwner :: fmtAdminEmpty :: fmtResult :: kickFormats) (Texts.admin s me st) := by
  refine Every.ite (fun _ => Every.append ?_ (Every.single (by simp))) fun _ =>
    Every.ite (fun _ => Every.single (by simp)) fun _ => Every.single (by simp)
  exact Every.ite (fun _ => (mucKick_formats s st _).mono (by simp [kickFormats])) fun _ => Every.nil

/-! The other handlers. -/

theorem features_formats : Formats [fmtFeaturesBind, fmtFeaturesSasl, fmtFeaturesTls] (Texts.features s me) :=
  Every.ite (fun _ => Every.single (by simp)) fun _ =>
    Every.ite (fun _ => Every.single (by simp)) fun _ => Every.single (by simp)

theorem bind_formats : Formats [fmtUnexpectedId, fmtUnexpected, fmtBound] (Texts.bind s me st) :=
  Every.ite (fun _ => Every.ite (fun _ => Every.single (by simp)) fun _ => Every.single (by simp))
    fun _ => Every.single (by simp)

theorem roster_formats : Formats [fmtResult, fmtRosterPush, fmtRosterVer, fmtRoster] (Texts.roster s me st) := by
  refine Every.ite (fun _ => Every.append (Every.single (by simp)) (Every.each fun i => ?_)) fun _ =>
    Every.ite (fun _ => Every.single (by simp)) fun _ => Every.single (by simp)
  exact Every.ite (fun _ => Every.single (by simp)) fun _ => Every.nil

def privateFormats : List Str := [fmtNotAcceptable, fmtResourceConstraint, fmtPrivate, fmtResult]

theorem private_formats : Formats privateFormats (Texts.private_ s me st) := by
  refine Every.ite (fun _ => Every.single (by simp [privateFormats])) fun _ => Every.ite (fun _ => ?_) fun _ =>
    Every.single (by simp [privateFormats])
  unfold Texts.privateSet
  split
  · exact Every.single (by simp [privateFormats])
  · split <;> exact Every.single (by simp [privateFormats])

def discoFormats : List Str :=
  [fmtItemNotFound, fmtRoomInfo, fmtServiceInfo, fmtCapsForward, fmtUnavailableFwd, fmtAccountInfo, fmtServerInfo,
    fmtItems, fmtServiceItem]

theorem discoInfo_formats : Formats discoFormats (Texts.discoInfo s me st) := by
  refine Every.ite (fun _ => ?_) fun _ => Every.ite (fun _ => Every.single (by simp [discoFormats])) fun _ =>
    Every.ite (fun _ => Every.ite (fun _ => ?_) fun _ => Every.single (by simp [discoFormats])) fun _ =>
      Every.single (by simp [discoFormats])
  · cases findRoom s.stores (discoRoomName st.to_) with
    | none => exact Every.single (by simp [discoFormats])
    | some i => exact Every.single (by simp [discoFormats, Texts.roomInfo])
  · unfold Texts.capsForward
    split <;> exact Every.single (by simp [discoFormats])

theorem discoItems_formats : Formats discoFormats (Texts.discoItems s me st) := by
  refine Every.ite (fun _ => Every.ite (fun _ => ?_) fun _ => Every.single (by simp [discoFormats])) fun _ =>
    Every.single (by simp [discoFormats])
  cases findRoom s.stores (localPart st.to_) with
  | none => exact Every.single (by simp [discoFormats])
  | some i => exact Every.single (by simp [discoFormats])

end Handlers

namespace Service

def formats : Service → List Str
  | bind => [fmtUnexpectedId, fmtUnexpected, fmtBound]
  | session => [fmtSession]
  | roster => [fmtResult, fmtRosterPush, fmtRosterVer, fmtRoster]
  | discoInfo | discoItems => discoFormats
  | muc => mucFormats
  | mucOwner => fmtConfigured :: fmtRoomForm :: fmtResult :: destroyFormats
  | private_ => privateFormats
  | mucAdmin => fmtOwner :: fmtAdminEmpty :: fmtResult :: kickFormats
  | blocking => [fmtBlocklist, fmtResult]
  | vcard | ping => [fmtResult]
  | version => [fmtVersion]
  | last => [fmtLast]

theorem texts_formats (k : Service) (s : Server) (me : Slot) (st : Stanza) : Formats k.formats (k.texts s me st) := by
  cases k with
  | bind => exact bind_formats s me st
  | roster => exact roster_formats s me st
  | discoInfo => exact discoInfo_formats s me st
  | discoItems => exact discoItems_formats s me st
  | muc => exact mucPresence_formats s me st
  | mucOwner => exact owner_formats s me st
  | private_ => exact private_formats s me st
  | mucAdmin => exact admin_formats s me st
  | blocking =>
    exact Every.ite (fun _ => Every.single List.mem_cons_self) fun _ =>
      Every.single (List.mem_cons_of_mem _ List.mem_cons_self)
  | session | vcard | ping | version | last => exact Every.single List.mem_cons_self

end Service

end Angelic.Proofs
