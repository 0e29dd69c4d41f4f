import Angelic.Model.Transport
import Angelic.Proofs.HandlerTexts
import Angelic.Proofs.TextSizes
import Angelic.Proofs.Negotiation

namespace Angelic.Proofs
open CString Model StateRel

/-! What becomes of the messages that `offline_msg_drain` takes out of the store. -/

/-- The stanza of a message is not empty and always fits, as far as the length says. -/
theorem mailText_length (c : Ctx) (e : OfflineMsg) :
    0 < (mailText c e).str.length ∧ (mailText c e).str.length < 1400 := by
  have bounds : ∀ {fmt : Str} (args : List Arg), fmt.head? = some (ch '<') →
      0 < (snprintf 1400 fmt args).length ∧ (snprintf 1400 fmt args).length < 1400 := fun args hf =>
    ⟨snprintf_pos (by decide) hf args, snprintf_length (by decide) _ _⟩
  unfold mailText
  split
  · exact bounds _ (by decide : fmtOfflineId.head? = some (ch '<'))
  · exact bounds _ (by decide : fmtOffline.head? = some (ch '<'))

/-- In an address of 63 bytes it is whole: the fields of a message are arrays. -/
theorem mailText_fits {c : Ctx} (hj : c.full_jid.length < 64) (e : OfflineMsg) : (mailText c e).Fits := by
  have field : ∀ {n : Nat} (b : Buf n), (Arg.text (.s b.str)).length < n + 1 := fun b =>
    text_s_length (Nat.lt_succ_of_le ((List.takeWhile_sublist _).length_le.trans_eq b.len))
  have hfrom := field e.from_
  have hid := field e.id
  have hbody := field e.payload
  have hjid := text_s_length hj
  unfold mailText
  split
  · have hl : literal fmtOfflineId ≤ 160 := by decide +kernel
    refine Text.fits_of_le ?_
    simp only [List.map_cons, List.map_nil, List.sum_cons, List.sum_nil]
    omega
  · have hl : literal fmtOffline ≤ 160 := by decide +kernel
    refine Text.fits_of_le ?_
    simp only [List.map_cons, List.map_nil, List.sum_cons, List.sum_nil]
    omega

section Log
variable (v : Server) (me : Slot)

/-- The call of `send_raw` for a message. -/
def mailOut (i : Fin MAX_OFFLINE_MSGS) : Out :=
  let c := v.client_registry me
  .send me c.tls_established c.pcb (mailText c (v.stores.offline_store i)).str

theorem drainOne_out (s : Server) (i : Fin MAX_OFFLINE_MSGS) :
    (drainOne me i s).2.out =
      s.out ++ if waits (s.client_registry me).username (s.stores.offline_store i) then [mailOut s me i] else [] := by
  have htext : (if (s.stores.offline_store i).id.str ≠ [] then snprintf 1400 fmtOfflineId
        [.s (s.stores.offline_store i).from_.str, .s (s.client_registry me).full_jid,
          .s (s.stores.offline_store i).id.str, .s (s.stores.offline_store i).payload.str]
      else snprintf 1400 fmtOffline [.s (s.stores.offline_store i).from_.str, .s (s.client_registry me).full_jid,
        .s (s.stores.offline_store i).payload.str]) =
      (mailText (s.client_registry me) (s.stores.offline_store i)).str := by
    unfold mailText
    split <;> rfl
  rw [drainOne, bind_run, getStores, bind_run, ctxOf]
  dsimp only
  rw [htext, ite_run]
  by_cases hw : waits (s.client_registry me).username (s.stores.offline_store i)
  · have ha : (s.stores.offline_store i).active ≠ 0 ∧
        (s.stores.offline_store i).to_user.str = (s.client_registry me).username := hw
    rw [if_pos hw, if_pos ha, if_pos (mailText_length ..)]
    rfl
  · have ha : ¬ ((s.stores.offline_store i).active ≠ 0 ∧
        (s.stores.offline_store i).to_user.str = (s.client_registry me).username) := hw
    rw [if_neg hw, if_neg ha, List.append_nil]
    rfl

theorem writes_drainOne (i : Fin MAX_OFFLINE_MSGS) (l : List (Fin MAX_OFFLINE_MSGS)) :
    Writes Server.out (OfflineAhead me (fun _ => True) v (i :: l)) (drainOne me i)
      (if waits (v.client_registry me).username (v.stores.offline_store i) then [mailOut v me i] else [])
      fun _ => OfflineAhead me (fun _ => True) v l := by
  intro s hs
  refine ⟨?_, (sends_drainOne me i l s hs).2⟩
  obtain ⟨p, hp, hnow⟩ := hs
  have he : s.stores.offline_store i = v.stores.offline_store i :=
    (congrArg (fun t : Stores => t.offline_store i) hnow.stores).trans hp.head
  have hu : (s.client_registry me).username = (v.client_registry me).username :=
    hnow.read Ctx.username (fun _ => rfl) me
  have ho : mailOut s me i = mailOut v me i := by
    rw [mailOut, he]
    exact hnow.read (fun c => Out.send me c.tls_established c.pcb (mailText c (v.stores.offline_store i)).str)
      (fun _ => rfl) me
  rw [drainOne_out, he, hu, ho]

/-- The log of a drain: a call for each message of the user, in the order of the array. -/
theorem drain_out : (offline_msg_drain me v).2.out = v.out ++ (mailOf v me).map (mailOut v me) := by
  have loop := Writes.forM_rest (writes_drainOne v me) (List.finRange MAX_OFFLINE_MSGS) v
    ⟨_, .start _ _, .refl trivial⟩
  have hsave : (offline_msg_drain me v).2.out = (forAll MAX_OFFLINE_MSGS (drainOne me) v).2.out := by
    rw [offline_msg_drain, bind_run]
    generalize forAll MAX_OFFLINE_MSGS (drainOne me) v = r
    rfl
  rw [hsave, forAll, loop.1, mailOf, ← flatMap_if]
  simp only [decide_eq_true_eq]

/-- The messages that are free afterwards and were not before are those of the user. -/
theorem drain_frees (i : Fin MAX_OFFLINE_MSGS) :
    ((v.stores.offline_store i).active ≠ 0 ∧ ((offline_msg_drain me v).2.stores.offline_store i).active = 0) ↔
      i ∈ mailOf v me := by
  have hs : (offline_msg_drain me v).2.stores.offline_store =
      drained (v.client_registry me).username v.stores.offline_store :=
    congrArg Stores.offline_store (sends_offline_msg_drain (G := fun _ => True) me v (.refl trivial)).2.stores
  rw [hs, drained, drainedOne, mailOf, List.mem_filter]
  by_cases hw : waits (v.client_registry me).username (v.stores.offline_store i)
  · simp [hw, hw.1]
  · simp [hw]

end Log

/-! The transport. -/

/-- From the call `k` on, the answers take a text of a length, at the call or when it is made again after
`WANT`; `k'` is the next call. -/
inductive Takes (ssl : Nat → SslWrite) : Nat → Nat → Nat → Prop where
  | done (k) : Takes ssl k 0 k
  | wrote {k len n k'} (hl : 0 < len) (h : ssl k = .wrote (n + 1)) (rest : Takes ssl (k + 1) (len - (n + 1)) k') :
      Takes ssl k len k'
  | again {k len n k'} (hl : 0 < len) (h : ssl k = .want) (h' : ssl (k + 1) = .wrote (n + 1))
      (rest : Takes ssl (k + 2) (len - (n + 1)) k') : Takes ssl k len k'

/-- They take one text after the other. -/
inductive TakesAll (ssl : Nat → SslWrite) : Nat → List Nat → Prop where
  | nil (k) : TakesAll ssl k []
  | cons {k len k' lens} (h : Takes ssl k len k') (rest : TakesAll ssl k' lens) : TakesAll ssl k (len :: lens)

section Tls
variable (a : Answers) (pcb : Pcb) {p : List Byte} {k : Nat}

theorem tlsLoop_wrote (fuel : Nat) (hp : p ≠ []) {n : Nat} (h : a.ssl k = .wrote (n + 1)) :
    tlsLoop a.transport (some pcb) (fuel + 1) p k = tlsLoop a.transport (some pcb) fuel (p.drop (n + 1)) (k + 1) := by
  have he : p.isEmpty = false := by simpa using hp
  rw [tlsLoop, he]
  simp [Answers.transport, bind_run, h]

theorem tlsLoop_again (fuel : Nat) (hp : p ≠ []) {n : Nat} (h : a.ssl k = .want) (h' : a.ssl (k + 1) = .wrote (n + 1)) :
    tlsLoop a.transport (some pcb) (fuel + 1) p k = tlsLoop a.transport (some pcb) fuel (p.drop (n + 1)) (k + 2) := by
  have he : p.isEmpty = false := by simpa using hp
  rw [tlsLoop, he]
  simp [Answers.transport, bind_run, h, h']

theorem tlsLoop_stuck (fuel : Nat) (hp : p ≠ []) (h : ∀ n, a.ssl k ≠ .wrote (n + 1))
    (h' : a.ssl k = .want → ∀ n, a.ssl (k + 1) ≠ .wrote (n + 1)) :
    (tlsLoop a.transport (some pcb) (fuel + 1) p k).1 = p := by
  have he : p.isEmpty = false := by simpa using hp
  rw [tlsLoop, he]
  cases hk : a.ssl k with
  | wrote n =>
    cases n with
    | zero => simp [Answers.transport, bind_run, pure_run, hk]
    | succ n => exact absurd hk (h n)
  | error => simp [Answers.transport, bind_run, pure_run, hk]
  | want =>
    cases hn : a.ssl (k + 1) with
    | wrote n =>
      cases n with
      | zero => simp [Answers.transport, bind_run, pure_run, hk, hn]
      | succ n => exact absurd hn (h' hk n)
    | want => simp [Answers.transport, bind_run, pure_run, hk, hn]
    | error => simp [Answers.transport, bind_run, pure_run, hk, hn]

/-- Answers that take a text end the loop with nothing left of it. -/
theorem tlsLoop_of_takes {len k' : Nat} (h : Takes a.ssl k len k') :
    ∀ {p : List Byte} {fuel : Nat}, p.length = len → len ≤ fuel →
      tlsLoop a.transport (some pcb) fuel p k = ([], k') := by
  induction h with
  | done k =>
    intro p fuel hp _
    obtain rfl := List.length_eq_zero_iff.mp hp
    cases fuel <;> rfl
  | wrote hl h _ ih =>
    intro p fuel hp hf
    obtain ⟨fuel, rfl⟩ := Nat.exists_eq_add_one_of_ne_zero (by omega : fuel ≠ 0)
    rw [tlsLoop_wrote a pcb fuel (List.ne_nil_of_length_pos (hp ▸ hl)) h]
    exact ih (by rw [List.length_drop, hp]) (by omega)
  | again hl h h' _ ih =>
    intro p fuel hp hf
    obtain ⟨fuel, rfl⟩ := Nat.exists_eq_add_one_of_ne_zero (by omega : fuel ≠ 0)
    rw [tlsLoop_again a pcb fuel (List.ne_nil_of_length_pos (hp ▸ hl)) h h']
    exact ih (by rw [List.length_drop, hp]) (by omega)

/-- With nothing left the answers took the text. -/
theorem takes_of_tlsLoop (fuel : Nat) (h : (tlsLoop a.transport (some pcb) fuel p k).1 = []) :
    Takes a.ssl k p.length (tlsLoop a.transport (some pcb) fuel p k).2 := by
  induction fuel generalizing p k with
  | zero =>
    have hp : p = [] := h
    subst hp
    exact .done k
  | succ fuel ih =>
    by_cases hp : p = []
    · subst hp
      exact .done k
    have hl : 0 < p.length := List.length_pos_iff.mpr hp
    by_cases hw : ∃ n, a.ssl k = .wrote (n + 1)
    · obtain ⟨n, hw⟩ := hw
      rw [tlsLoop_wrote a pcb fuel hp hw] at h ⊢
      have hr := ih h
      rw [List.length_drop] at hr
      exact .wrote hl hw hr
    by_cases ha : a.ssl k = .want ∧ ∃ n, a.ssl (k + 1) = .wrote (n + 1)
    · obtain ⟨hk, n, hn⟩ := ha
      rw [tlsLoop_again a pcb fuel hp hk hn] at h ⊢
      have hr := ih h
      rw [List.length_drop] at hr
      exact .again hl hk hn hr
    · rw [tlsLoop_stuck a pcb fuel hp (fun n hn => hw ⟨n, hn⟩) fun hk n hn => ha ⟨hk, n, hn⟩] at h
      exact absurd h hp

/-- The texts of a TLS connection are all taken. -/
theorem transmitAll_tls_iff (me : Slot) (texts : List Str) (k : Nat) :
    (∀ rest ∈ (transmitAll a.transport (texts.map (.send me true (some pcb))) k).1, rest = []) ↔
      TakesAll a.ssl k (texts.map List.length) := by
  induction texts generalizing k with
  | nil => exact iff_of_true (fun _ h => absurd h List.not_mem_nil) (.nil k)
  | cons text texts ih =>
    have hrun : (transmitAll a.transport ((text :: texts).map (.send me true (some pcb))) k).1 =
        (tlsLoop a.transport (some pcb) text.length text k).1 ::
          (transmitAll a.transport (texts.map (.send me true (some pcb)))
            (tlsLoop a.transport (some pcb) text.length text k).2).1 := rfl
    rw [hrun, List.forall_mem_cons, ih]
    constructor
    · rintro ⟨h, hr⟩
      exact .cons (takes_of_tlsLoop a pcb _ h) hr
    · intro h
      cases h with
      | cons h hr =>
        rw [tlsLoop_of_takes a pcb h rfl (Nat.le_refl _)]
        exact ⟨rfl, hr⟩

end Tls

/-- The texts of a connection without TLS are all taken. -/
theorem transmitAll_tcp_iff (a : Answers) (pcb : Pcb) (me : Slot) {texts : List Str} (ht : ∀ t ∈ texts, t ≠ []) (k : Nat) :
    (∀ rest ∈ (transmitAll a.transport (texts.map (.send me false (some pcb))) k).1, rest = []) ↔
      ∀ j < texts.length, a.tcp (k + j) = .ok := by
  induction texts generalizing k with
  | nil => exact iff_of_true (fun _ h => absurd h List.not_mem_nil) fun j h => absurd h (Nat.not_lt_zero j)
  | cons text texts ih =>
    obtain ⟨htext, htexts⟩ := List.forall_mem_cons.mp ht
    have hrun : (transmitAll a.transport ((text :: texts).map (.send me false (some pcb))) k).1 =
        (if a.tcp k = .ok then [] else text) ::
          (transmitAll a.transport (texts.map (.send me false (some pcb))) (k + 1)).1 := rfl
    rw [hrun, List.forall_mem_cons, ih htexts]
    constructor
    · rintro ⟨h, hr⟩ j hj
      cases j with
      | zero =>
        by_contra hn
        rw [if_neg (by simpa using hn)] at h
        exact htext h
      | succ j =>
        have := hr j (Nat.lt_of_succ_lt_succ hj)
        rwa [Nat.add_assoc, Nat.add_comm 1 j] at this
    · intro h
      refine ⟨if_pos (h 0 (Nat.zero_lt_succ _)), fun j hj => ?_⟩
      rw [Nat.add_assoc, Nat.add_comm 1 j]
      exact h (j + 1) (Nat.succ_lt_succ hj)

/-- Without a connection nothing is taken. -/
theorem transmitAll_closed (a : Answers) (me : Slot) (tls : Bool) {texts : List Str} (ht : ∀ t ∈ texts, t ≠ []) (k : Nat)
    (h : ∀ rest ∈ (transmitAll a.transport (texts.map (.send me tls none)) k).1, rest = []) : texts = [] := by
  cases texts with
  | nil => rfl
  | cons text texts =>
    have htext : text ≠ [] := ht text List.mem_cons_self
    have hrest : (transmit a.transport tls none text k).1 = text := by
      cases tls with
      | false => rfl
      | true =>
        obtain ⟨b, t, rfl⟩ := List.exists_cons_of_ne_nil htext
        rfl
    have hmem : (transmit a.transport tls none text k).1 ∈
        (transmitAll a.transport ((text :: texts).map (.send me tls none)) k).1 := List.mem_cons_self
    exact absurd (hrest.symm.trans (h _ hmem)) htext

section Drain
variable (s : Server) (me : Slot) (a : Answers)

/-- What the transport leaves of each stanza of a drain. -/
def unsent : List Str := (transmitAll a.transport ((mailOf s me).map (mailOut s me)) 0).1

/-- The transport takes every stanza of a drain: there is a connection, and the calls made for them succeed. -/
def TakesDrain : Prop :=
  let c := s.client_registry me
  let texts := (mailOf s me).map fun i => (mailText c (s.stores.offline_store i)).str
  texts = [] ∨ c.pcb.isSome ∧
    if c.tls_established then TakesAll a.ssl 0 (texts.map List.length) else ∀ j < texts.length, a.tcp j = .ok

theorem unsent_nil_iff : (∀ rest ∈ unsent s me a, rest = []) ↔ TakesDrain s me a := by
  have hout : (mailOf s me).map (mailOut s me) =
      ((mailOf s me).map fun i => (mailText (s.client_registry me) (s.stores.offline_store i)).str).map
        (.send me (s.client_registry me).tls_established (s.client_registry me).pcb) := by
    rw [List.map_map]
    rfl
  have hne : ∀ t ∈ (mailOf s me).map fun i => (mailText (s.client_registry me) (s.stores.offline_store i)).str, t ≠ [] := by
    intro t ht
    obtain ⟨i, -, rfl⟩ := List.mem_map.mp ht
    exact List.ne_nil_of_length_pos (mailText_length ..).1
  rw [unsent, TakesDrain, hout]
  generalize ((mailOf s me).map fun i => (mailText (s.client_registry me) (s.stores.offline_store i)).str) = texts at hne ⊢
  generalize (s.client_registry me).tls_established = tls
  cases (s.client_registry me).pcb with
  | none =>
    constructor
    · exact fun h => .inl (transmitAll_closed a me tls hne 0 h)
    · rintro (rfl | ⟨h, -⟩)
      · exact fun _ h => absurd h List.not_mem_nil
      · exact absurd h (by decide)
  | some pcb =>
    have hnil : texts = [] → (∀ rest ∈ (transmitAll a.transport (texts.map (.send me tls (some pcb))) 0).1, rest = []) := by
      rintro rfl _ h
      exact absurd h List.not_mem_nil
    cases tls with
    | true =>
      rw [transmitAll_tls_iff a pcb me texts 0] at hnil ⊢
      exact ⟨fun h => .inr ⟨rfl, h⟩, fun h => h.elim hnil And.right⟩
    | false =>
      rw [transmitAll_tcp_iff a pcb me hne 0] at hnil ⊢
      simp only [Nat.zero_add] at hnil ⊢
      exact ⟨fun h => .inr ⟨rfl, h⟩, fun h => h.elim hnil And.right⟩

/-- The transport is asked for each stanza. -/
theorem unsent_length : (unsent s me a).length = (mailOf s me).length := by
  have hlen : ∀ (l : List (Fin MAX_OFFLINE_MSGS)) (k : Nat),
      (transmitAll a.transport (l.map (mailOut s me)) k).1.length = l.length := by
    intro l
    induction l with
    | nil => exact fun _ => rfl
    | cons i l ih =>
      intro k
      exact congrArg (· + 1) (ih (transmit a.transport _ _ _ k).2)
  exact hlen _ 0

/-- A drain hands the stanza of each message of the user to `send_raw` and frees exactly those messages,
whatever the transport answers. So a message is freed only if its whole stanza was taken just in case
the transport takes them all. -/
theorem drain_keeps_untaken_iff :
    (offline_msg_drain me s).2.out = s.out ++ (mailOf s me).map (mailOut s me) ∧
      ((s.client_registry me).full_jid.length < 64 →
        ∀ i ∈ mailOf s me, (mailText (s.client_registry me) (s.stores.offline_store i)).Fits) ∧
      ((∀ i, (s.stores.offline_store i).active ≠ 0 →
          ((offline_msg_drain me s).2.stores.offline_store i).active = 0 →
          ∃ j : Nat, (mailOf s me)[j]? = some i ∧ (unsent s me a)[j]? = some []) ↔ TakesDrain s me a) := by
  refine ⟨drain_out s me, fun hj i _ => mailText_fits hj _, ?_⟩
  rw [← unsent_nil_iff]
  constructor
  · intro h rest hrest
    obtain ⟨j, hj⟩ := List.mem_iff_getElem?.mp hrest
    have hlt : j < (mailOf s me).length := by
      rw [← unsent_length s me a]
      exact (List.getElem?_eq_some_iff.mp hj).1
    have hi := List.getElem?_eq_getElem hlt
    obtain ⟨ha, hf⟩ := (drain_frees s me _).mpr (List.getElem_mem hlt)
    obtain ⟨j', hj', hu⟩ := h _ ha hf
    -- a message has one place in the list
    have hnd : (mailOf s me).Nodup := (List.nodup_finRange _).filter _
    obtain rfl : j = j' := (List.getElem?_inj hlt hnd).mp (hi.trans hj'.symm)
    exact Option.some.inj (hj.symm.trans hu)
  · intro h i ha hf
    obtain ⟨j, hj⟩ := List.mem_iff_getElem?.mp ((drain_frees s me i).mp ⟨ha, hf⟩)
    have hlt : j < (unsent s me a).length := by
      rw [unsent_length]
      exact (List.getElem?_eq_some_iff.mp hj).1
    refine ⟨j, hj, ?_⟩
    rw [List.getElem?_eq_getElem hlt, h _ (List.getElem_mem hlt)]

end Drain

/-- A message for a user that then binds. -/
def waiting : List Event :=
  visit 7 authAdmin [cat ["<message to='user1@angelic.local' type='chat'>", "<body>hello</body></message>"]] ++
    visit 8 authUser1 []

/-- The transport takes nothing of the message, and the message is gone. -/
theorem untaken_message_freed :
    let s := blank.run waiting
    mailOf s 1 = [0] ∧ unsent s 1 ⟨fun _ => .error, fun _ => .error⟩ =
        [cat (["<message from='admin@angelic.local/unikernel-0' to='user1@angelic.local/unikernel-0' type='chat'>",
          "<body>hello</body>"] ++ DELAY)] ∧
      (s.stores.offline_store 0).active = 1 ∧ ((offline_msg_drain 1 s).2.stores.offline_store 0).active = 0 := by
  decide +kernel

end Angelic.Proofs
