import Mathlib.Data.List.TakeWhile
import Angelic.Proofs.OfflineOrder
import Angelic.Proofs.ItemText

namespace Angelic.Proofs
open CString Model StateRel Spec

variable {ds : List Deed} {n : Nat}
variable {me : Slot} {s : Server}

/-! To whom the entries of the queues are delivered. Both queues know an addressee by the local part
of the address, cut to 31 bytes. -/

/-- The user a subscription waits for. -/
def subKeyOf (e : PendingSub) : Option Str := if e.active ≠ 0 then some e.to_user.str else none

theorem subKeyOf_eq_some {e : PendingSub} {u : Str} : subKeyOf e = some u ↔ pends u e := by
  unfold subKeyOf pends
  split <;> simp [*]

theorem subKeyOf_answered (u : Str) (e : PendingSub) :
    subKeyOf (answeredOne u e) = subKeyOf e ∨ subKeyOf (answeredOne u e) = none := by
  unfold answeredOne
  split
  · exact .inr rfl
  · exact .inl rfl

theorem subKeyOf_request (v : Server) (me : Slot) (st : Stanza) (type : Str) (i : Fin MAX_PENDING_SUBS) :
    subKeyOf (request v me st type i) = some (localPart (bare st.to_)) := by
  have hu : (request v me st type i).to_user.str = localPart (bare st.to_) :=
    Buf.copied_whole _ (by decide) (localPart_holds (bare_holds st.to_).2)
  exact congrArg some hu

/-- Every entry that came from a stanza of the course waits for the local part of its address. -/
def Filed (ds : List Deed) (key : Fin k → Option Str) (g : Fin k → WithBot Nat) : Prop :=
  ∀ (i : Fin k) (n : Nat) (u : Str), g i = n → key i = some u →
    ∃ me st, ds[n]? = some (.stanza me st) ∧ u = localPart (bare st.to_)

theorem Filed.take {key key' : Fin k → Option Str} {g : Fin k → WithBot Nat} (h : Filed ds key g)
    (hk : ∀ i, key' i = key i ∨ key' i = none) : Filed ds key' g := by
  intro i n u hn hu
  rcases hk i with he | he
  · exact h i n u hn (he ▸ hu)
  · rw [he] at hu
    cases hu

theorem Filed.put {key : Fin k → Option Str} {g : Fin k → WithBot Nat} (h : Filed ds key g) {st : Stanza}
    (hd : ds[n]? = some (.stanza me st)) (i : Fin k) :
    Filed ds (Function.update key i (some (localPart (bare st.to_)))) (Function.update g i n) := by
  intro j n' u hn hu
  by_cases hj : j = i
  · subst hj
    rw [Function.update_self] at hn hu
    obtain rfl : n = n' := WithBot.coe_inj.mp hn
    exact ⟨me, st, hd, (Option.some.inj hu).symm⟩
  · rw [Function.update_of_ne hj] at hn hu
    exact h j n' u hn hu

def subKeys (s : Server) (i : Fin MAX_PENDING_SUBS) : Option Str := subKeyOf (s.stores.pending_subs i)

theorem subSlot_of_login {v : Server} {st : Stanza} (h : logsIn (v.client_registry me) st) :
    subSlot v me st = none := if_neg fun hs => by
  have hw := hs.2.2.2.2
  rw [h.2.2.2.2.1] at hw
  cases hw

section Stanza
variable {s : Server} {me : Slot} {st : Stanza}

theorem subKeys_kept (h : subSlot s me st = none) (i : Fin MAX_PENDING_SUBS) :
    subKeys (after s (.stanza me st)) i = subKeys s i ∨ subKeys (after s (.stanza me st)) i = none := by
  have hm : (after s (.stanza me st)).stores.pending_subs = subscriptionsAfter s me st :=
    congrArg Lists.subscriptions (after_stanza s me st).1
  rw [subKeys, hm, subscriptionsAfter, h]
  split
  · exact subKeyOf_answered _ _
  · exact .inl rfl

theorem subKeys_put {i : Fin MAX_PENDING_SUBS} (h : subSlot s me st = some i) :
    subKeys (after s (.stanza me st)) = Function.update (subKeys s) i (some (localPart (bare st.to_))) := by
  have hl : ¬ logsIn (s.client_registry me) st := fun hl => by
    rw [subSlot_of_login hl] at h
    cases h
  have hm : (after s (.stanza me st)).stores.pending_subs = subscriptionsAfter s me st :=
    congrArg Lists.subscriptions (after_stanza s me st).1
  change (fun j => subKeyOf ((after s (.stanza me st)).stores.pending_subs j)) = _
  rw [hm, subscriptionsAfter, if_neg hl, h, requested, ← subKeyOf_request s me st _ i]
  exact Function.comp_update subKeyOf ..

end Stanza

/-- What is known of both queues all along a course. -/
structure AllFiled (ds : List Deed) (s : Server) (o : Origins) : Prop where
  messages : Filed ds (messageKeys s) o.messages
  subscriptions : Filed ds (subKeys s) o.subscriptions

theorem deed_filed {o : Origins} {d : Deed} (hn : ds[n]? = some d)
    (hd : d.Due s) (h : AllFiled ds s o) : AllFiled ds (after s d) (o.record n s d) := by
  by_cases hst : ∃ me st, d = .stanza me st
  · obtain ⟨me, st, rfl⟩ := hst
    constructor
    · change Filed ds _ (filed o.messages n (mailSlot s me st))
      cases hi : mailSlot s me st with
      | none => exact h.messages.take (messageKeys_kept hi)
      | some i => exact messageKeys_put hi ▸ h.messages.put hn i
    · change Filed ds _ (filed o.subscriptions n (subSlot s me st))
      cases hi : subSlot s me st with
      | none => exact h.subscriptions.take (subKeys_kept hi)
      | some i => exact subKeys_put hi ▸ h.subscriptions.put hn i
  · have hne : ∀ me st, d ≠ .stanza me st := fun me st he => hst ⟨me, st, he⟩
    have hl := after_lists hd hne
    have hm : messageKeys (after s d) = messageKeys s :=
      congrArg (fun (q : Lists) i => keyOf (q.messages i)) hl
    have hs : subKeys (after s d) = subKeys s := congrArg (fun (q : Lists) i => subKeyOf (q.subscriptions i)) hl
    rw [record_of_not_stanza hne]
    exact ⟨hm ▸ h.messages, hs ▸ h.subscriptions⟩

theorem course_filed (h : Course s ds) (n : Nat) : AllFiled ds (stateAt s ds n) (originsAt s ds n) := by
  induction n with
  | zero => exact ⟨fun _ _ _ hn => absurd hn WithBot.bot_ne_coe, fun _ _ _ hn => absurd hn WithBot.bot_ne_coe⟩
  | succ n ih =>
    cases hd : ds[n]? with
    | none =>
      rw [stateAt_end hd, originsAt_end hd]
      exact ih
    | some d =>
      rw [stateAt_succ hd, originsAt_succ hd]
      exact deed_filed hd (h n d hd) ih

/-! Deliveries. -/

/-- The `n`-th deed is the first presence of a connection, which takes what the stanza left. -/
structure Delivers (s : Server) (ds : List Deed) (n : Nat) (me : Slot) (left : Stanza) : Prop where
  login : ∃ st, ds[n]? = some (.stanza me st) ∧ logsIn ((stateAt s ds n).client_registry me) st
  connected : ((stateAt s ds n).client_registry me).pcb.isSome
  origin : ∃ (k : Nat) (other : Slot), ds[k]? = some (.stanza other left) ∧
    ((∃ i ∈ mailOf (stateAt s ds n) me, (originsAt s ds n).messages i = k) ∨
      ∃ i ∈ requestsOf (stateAt s ds n) me, (originsAt s ds n).subscriptions i = k)

/-- The addressee of what is delivered is known by the local part. -/
theorem Delivers.username {left : Stanza} (h : Course s ds) (hd : Delivers s ds n me left) :
    ((stateAt s ds n).client_registry me).username = localPart (bare left.to_) := by
  have hf := course_filed h n
  obtain ⟨k, other, hk, ⟨i, hi, ho⟩ | ⟨i, hi, ho⟩⟩ := hd.origin
  · have hw : waits _ _ := of_decide_eq_true (List.mem_filter.mp hi).2
    obtain ⟨me', st', hk', hu⟩ := hf.messages i k _ ho (keyOf_eq_some.mpr hw)
    rw [hk] at hk'
    cases hk'
    exact hu
  · have hw : pends _ _ := of_decide_eq_true (List.mem_filter.mp hi).2
    obtain ⟨me', st', hk', hu⟩ := hf.subscriptions i k _ ho (subKeyOf_eq_some.mpr hw)
    rw [hk] at hk'
    cases hk'
    exact hu

theorem bare_fullJid {u : Str} (hu : Holds 32 u) (hs : ch '/' ∉ u) (hn : n < 9999) :
    bare (fullJid u n) = address u := by
  have hj := fullJid_holds u n
  have hd : lit "@angelic.local/unikernel-" = lit "@angelic.local" ++ ch '/' :: lit "unikernel-" := by decide
  have hfull : fullJid u n = address u ++ ch '/' :: (lit "unikernel-" ++ decimal n) := by
    rw [fullJid_eq hu hn, hd, address]
    simp
  rw [bare, strncpy, cstr_of_clean hj.2, List.take_of_length_le (Nat.le_of_lt_succ hj.1), hfull,
    List.takeWhile_append_of_pos, List.takeWhile_cons_of_neg (by simp), List.append_nil]
  intro c hc
  rw [bne_iff_ne]
  rintro rfl
  rcases List.mem_append.mp hc with hc | hc
  · exact hs hc
  · exact absurd hc (by decide)

theorem slash_not_mem_localPart (jid : Str) : ch '/' ∉ localPart (bare jid) := fun h => by
  have hb : ch '/' ∈ bare jid := List.takeWhile_subset _ (List.mem_of_mem_take h)
  simpa using List.mem_takeWhile_imp hb

/-- A session that is bound to its user has the bare address of the stanza exactly when that is one of
this server, with a local part that was not cut. -/
theorem addressed_iff {c : Ctx} {a : Str} (hu : Holds 32 c.username) (hne : c.username ≠ [])
    (hj : c.full_jid = [] ∨ ∃ n < 9999, c.full_jid = fullJid c.username n) (hc : c.username = localPart (bare a)) :
    bare c.full_jid = bare a ↔ c.full_jid ≠ [] ∧ bare a = address (localPart (bare a)) := by
  rcases hj with hj | ⟨n, hn, hj⟩
  · refine iff_of_false (fun h => hne ?_) fun h => h.1 hj
    rw [hc, ← h, hj]
    rfl
  · have hb : bare c.full_jid = address (localPart (bare a)) := by
      rw [hj, bare_fullJid hu (hc ▸ slash_not_mem_localPart a) hn, hc]
    have hfull : c.full_jid ≠ [] := fun he => by
      rw [he] at hb
      exact absurd (List.append_eq_nil_iff.mp hb.symm).2 (by decide)
    rw [hb]
    exact ⟨fun h => ⟨hfull, h.symm⟩, fun h => h.2.symm⟩

/-- Every run has a course, and in each course the first presence of a session is sent all that its
queues hold for it. What is delivered to a connection was addressed to its bare address exactly when
the session is bound and the address is one of this server whose local part was not cut. -/
theorem deliveries_addressed_iff (m : Machine) (es : List Event) :
    (∃ ds, Machine.Courses m es ds) ∧ ∀ ds, Machine.Courses m es ds →
      (∀ n me st, ds[n]? = some (.stanza me st) → logsIn ((stateAt m.boot ds n).client_registry me) st →
        let s := stateAt m.boot ds n
        let c := s.client_registry me
        ∃ front, sends (stateAt m.boot ds (n + 1)) = sends s ++ (front ++
          ((requestsOf s me).map fun i => (me, (subText c (s.stores.pending_subs i)).str)) ++
          (mailOf s me).map fun i => (me, (mailText c (s.stores.offline_store i)).str))) ∧
      ∀ n me left, Delivers m.boot ds n me left →
        let c := (stateAt m.boot ds n).client_registry me
        (bare c.full_jid = bare left.to_ ↔
          c.full_jid ≠ [] ∧ bare left.to_ = address (localPart (bare left.to_))) := by
  refine ⟨run_course m es, fun ds hc => ⟨fun n me st hd hl => ?_, fun n me left hd => ?_⟩⟩
  · intro s c
    obtain ⟨front, hf⟩ := sent_login hl
    rw [stateAt_succ hd, (after_stanza _ me st).2, hf, List.map_append, List.map_append, List.map_map, List.map_map]
    exact ⟨_, rfl⟩
  · intro c
    have haddr := course_keeps (P := Registry.Addressed) .empty (fun _ _ h => h.addressed) hc.1 n
    have hnamed := course_keeps (P := Registry.Named) .empty (fun _ _ h => h.names) hc.1 n
    obtain ⟨st, -, hl⟩ := hd.login
    have hle : ClientState.AUTHENTICATED ≤ c.state :=
      Nat.le_trans (by decide : ClientState.AUTHENTICATED.rank ≤ ClientState.SESSION.rank) hl.2.2.1
    have hauth : c.authenticated := (haddr.guarded.session me).authenticated hle
    exact addressed_iff (hnamed.session me).username ((haddr.session me).username hauth)
      ((haddr.session me).full_jid hd.connected) (hd.username hc.1)

/-- A message to a user of another domain, whose name a user here has. -/
def misaddressed : List Event :=
  visit 7 authAdmin [lit "<message to='user1@elsewhere.org' type='chat'><body>hi</body></message>"] ++
    visit 8 authUser1 [lit "<presence/>"]

/-- The user here is sent the message. -/
theorem foreign_message_delivered :
    let s := blank.run misaddressed
    (s.routed.filterMap fun p => if mails p.1 p.2 then some (bare p.2.to_) else none) = [lit "user1@elsewhere.org"] ∧
      bare (s.client_registry 1).full_jid = lit "user1@angelic.local" ∧
      (sends s).getLast? = some (1,
        cat (["<message from='admin@angelic.local/unikernel-0' to='user1@angelic.local/unikernel-0' type='chat'>",
          "<body>hi</body>"] ++ DELAY)) := by
  decide +kernel

end Angelic.Proofs
