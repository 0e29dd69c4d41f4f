import Angelic.Proofs.Deliveries
import Angelic.Proofs.DirectMessages

namespace Angelic.Proofs
open CString Model Relation Spec

/-! A message that waited against the same message to a session. -/

def delayText : Str :=
  cat ["<delay xmlns='urn:xmpp:delay'", " from='angelic.local'", " stamp='2024-01-01T00:00:00Z'>",
    "Offline Storage", "</delay>"]

/-- A chat message with a sender, an addressee, the text of its other attributes and what it contains. -/
def messageText (from_ to_ attrs content : Str) : Str :=
  lit "<message from='" ++ from_ ++ lit "' to='" ++ to_ ++ lit "' type='chat'" ++ attrs ++ lit ">" ++ content ++
    lit "</message>"

/-- Two messages with one sender, the same other attributes and the same content, but for their addressees and the delay
that the second has behind. -/
def OnlyLater (from_ to_ late_to live late : Str) : Prop :=
  ∃ attrs content, live = messageText from_ to_ attrs content ∧
    late = messageText from_ late_to attrs (content ++ delayText)

/-- The attribute for an identifier, if there is one. -/
def idText (id : Str) : Str := if id = [] then [] else lit " id='" ++ id ++ lit "'"

section Written
variable {st : Stanza} {from_ to_ jid id payload : Str}

/-- What a message to a session contains: a payload that does not start with an element is made a body. -/
def childOf (st : Stanza) : Str :=
  if alreadyWrapped st then st.payload else lit "<body>" ++ st.payload ++ lit "</body>"

theorem chatText_eq (hf : 0 ∉ from_) (ht : 0 ∉ st.to_) (hp : 0 ∉ st.payload) :
    chatText st from_ = (messageText from_ st.to_ [] (childOf st)).take 2047 := by
  unfold chatText childOf
  cases alreadyWrapped st with
  | true =>
    have hpieces : pieces fmtChatWrapped =
        [lit "<message from='", lit "' to='", lit "' type='chat'>", lit "</message>"] := by decide +kernel
    have hsplit : lit "' type='chat'>" = lit "' type='chat'" ++ lit ">" := by decide
    rw [if_pos rfl, if_pos rfl, snprintf, vsnprintf_eq, hpieces, hsplit]
    simp only [weave, Arg.text, cstr_of_clean hf, cstr_of_clean ht, cstr_of_clean hp, messageText, List.append_assoc,
      List.append_nil]
  | false =>
    have hpieces : pieces fmtChat =
        [lit "<message from='", lit "' to='", lit "' type='chat'><body>", lit "</body></message>"] := by decide +kernel
    have hopen : lit "' type='chat'><body>" = lit "' type='chat'" ++ lit ">" ++ lit "<body>" := by decide
    have hclose : lit "</body></message>" = lit "</body>" ++ lit "</message>" := by decide
    rw [if_neg Bool.false_ne_true, if_neg Bool.false_ne_true, snprintf, vsnprintf_eq, hpieces, hopen, hclose]
    simp only [weave, Arg.text, cstr_of_clean hf, cstr_of_clean ht, cstr_of_clean hp, messageText, List.append_assoc,
      List.append_nil]

theorem messageText_length (from_ to_ attrs content : Str) : (messageText from_ to_ attrs content).length =
      45 + from_.length + to_.length + attrs.length + content.length := by
  have h1 : (lit "<message from='").length = 15 := by decide
  have h2 : (lit "' to='").length = 6 := by decide
  have h3 : (lit "' type='chat'").length = 13 := by decide
  have h4 : (lit ">").length = 1 := by decide
  have h5 : (lit "</message>").length = 10 := by decide
  simp only [messageText, List.length_append, h1, h2, h3, h4, h5]
  omega

theorem idText_length (h : Holds 64 id) : (idText id).length ≤ 69 := by
  have h1 : (lit " id='").length = 5 := by decide
  have h2 : (lit "'").length = 1 := by decide
  have := h.1
  unfold idText
  split
  · exact Nat.zero_le _
  · simp only [List.length_append, h1, h2]
    omega

/-- A message that waited is never cut. -/
theorem mailText_str {c : Ctx} {e : OfflineMsg} (hf : Holds 64 e.from_.str) (hj : Holds 64 c.full_jid)
    (hid : Holds 64 e.id.str) (hp : Holds 1024 e.payload.str) :
    (mailText c e).str = messageText e.from_.str c.full_jid (idText e.id.str) (e.payload.str ++ delayText) := by
  have hd : delayText.length = 103 := by decide +kernel
  have hfits : (messageText e.from_.str c.full_jid (idText e.id.str) (e.payload.str ++ delayText)).length ≤ 1399 := by
    have h1 := hf.1
    have h2 := hj.1
    have h3 := idText_length hid
    have h4 := hp.1
    rw [messageText_length, List.length_append, hd]
    omega
  unfold mailText
  by_cases he : e.id.str = []
  · have hpieces : pieces fmtOffline =
        [lit "<message from='", lit "' to='", lit "' type='chat'" ++ lit ">", delayText ++ lit "</message>"] := by
      decide +kernel
    rw [if_neg (not_not.mpr he), Text.str, snprintf, vsnprintf_eq, hpieces]
    rw [idText, if_pos he] at hfits ⊢
    rw [← List.take_of_length_le hfits]
    simp only [weave, Arg.text, cstr_of_clean hf.2, cstr_of_clean hj.2, cstr_of_clean hp.2, messageText,
      List.append_assoc, List.append_nil]
  · have hpieces : pieces fmtOfflineId =
        [lit "<message from='", lit "' to='", lit "' type='chat'" ++ lit " id='", lit "'" ++ lit ">",
          delayText ++ lit "</message>"] := by decide +kernel
    rw [if_pos he, Text.str, snprintf, vsnprintf_eq, hpieces]
    rw [idText, if_neg he] at hfits ⊢
    rw [← List.take_of_length_le hfits]
    simp only [weave, Arg.text, cstr_of_clean hf.2, cstr_of_clean hj.2, cstr_of_clean hid.2, cstr_of_clean hp.2,
      messageText, List.append_assoc]

/-- What stands behind the type of a message. -/
def behindType (attrs content : Str) : Str := attrs ++ lit ">" ++ content ++ lit "</message>"

theorem messageText_split (from_ to_ attrs content : Str) : messageText from_ to_ attrs content =
      (lit "<message from='" ++ from_ ++ lit "' to='" ++ to_ ++ lit "' type='chat'") ++ behindType attrs content := by
  simp only [messageText, behindType, List.append_assoc]

/-- The message to a session, cut, against the one that waited: both have the same behind the type only if the one to the
session has no other attribute, a payload that is an element, and is not cut. -/
theorem behindType_eq_iff {n : Nat} (hn : 1034 < n) :
    (behindType [] (childOf st)).take n = behindType (idText st.id) (st.payload.take 1023) ↔
      st.id = [] ∧ alreadyWrapped st = true ∧ st.payload.length ≤ 1023 := by
  have hgt : lit ">" = [ch '>'] := by decide
  have hend : (lit "</message>").length = 10 := by decide
  constructor
  · intro h
    have hid : st.id = [] := by
      by_contra hne
      have hq : lit " id='" = ch ' ' :: lit "id='" := by decide
      obtain ⟨k, rfl⟩ : ∃ k, n = k + 1 := ⟨n - 1, by omega⟩
      rw [behindType, behindType, idText, if_neg hne, hgt, hq] at h
      simp only [List.nil_append, List.cons_append, List.take_succ_cons] at h
      exact absurd (List.cons.inj h).1 (by decide)
    have hno : idText st.id = [] := if_pos hid
    rw [hno, behindType, behindType, hgt] at h
    simp only [List.nil_append, List.cons_append] at h
    have hw : alreadyWrapped st = true := by
      by_contra hne
      obtain ⟨k, rfl⟩ : ∃ k, n = k + 3 := ⟨n - 3, by omega⟩
      have hb : lit "<body>" = ch '<' :: ch 'b' :: lit "ody>" := by decide
      have he : lit "</message>" = ch '<' :: ch '/' :: lit "message>" := by decide
      rw [childOf, if_neg hne, hb] at h
      simp only [List.cons_append, List.take_succ_cons] at h
      replace h := (List.cons.inj h).2
      cases hp : st.payload with
      | nil =>
        rw [hp, he] at h
        exact absurd (List.cons.inj (List.cons.inj h).2).1 (by decide)
      | cons c w =>
        rw [hp, List.take_succ_cons, List.cons_append] at h
        apply hne
        rw [alreadyWrapped, hp, ← (List.cons.inj h).1]
        exact beq_self_eq_true _
    rw [childOf, if_pos hw] at h
    have hlen := congrArg List.length h
    simp only [List.length_take, List.length_cons, List.length_append, hend] at hlen
    exact ⟨hid, hw, by omega⟩
  · rintro ⟨hid, hw, hl⟩
    rw [hid, idText, if_pos rfl, childOf, if_pos hw, List.take_of_length_le hl]
    refine List.take_of_length_le ?_
    simp only [behindType, hgt, List.length_append, List.length_nil, List.length_singleton, hend]
    omega

theorem onlyLater_iff (hf : Holds 64 from_) (ht : Holds 64 st.to_) (hp : 0 ∉ st.payload) :
    OnlyLater from_ st.to_ jid (chatText st from_)
        (messageText from_ jid (idText st.id) (st.payload.take 1023 ++ delayText)) ↔
      st.id = [] ∧ alreadyWrapped st = true ∧ st.payload.length ≤ 1023 := by
  have hhead : (lit "<message from='" ++ from_ ++ lit "' to='" ++ st.to_ ++ lit "' type='chat'").length =
      34 + from_.length + st.to_.length := by
    have h1 : (lit "<message from='").length = 15 := by decide
    have h2 : (lit "' to='").length = 6 := by decide
    have h3 : (lit "' type='chat'").length = 13 := by decide
    simp only [List.length_append, h1, h2, h3]
    omega
  have hfl := hf.1
  have htl := ht.1
  have hlive : ∀ attrs content, chatText st from_ = messageText from_ st.to_ attrs content ↔
      (behindType [] (childOf st)).take (2047 - (34 + from_.length + st.to_.length)) = behindType attrs content := by
    intro attrs content
    rw [chatText_eq hf.2 ht.2 hp, messageText_split, messageText_split, List.take_append, hhead,
      List.take_of_length_le (by omega), List.append_cancel_left_eq]
  have hlate : ∀ attrs content,
      messageText from_ jid (idText st.id) (st.payload.take 1023 ++ delayText) =
        messageText from_ jid attrs (content ++ delayText) ↔
      behindType (idText st.id) (st.payload.take 1023) = behindType attrs content := by
    intro attrs content
    rw [messageText_split, messageText_split, List.append_cancel_left_eq]
    simp only [behindType]
    rw [List.append_cancel_right_eq, List.append_cancel_right_eq, ← List.append_assoc, ← List.append_assoc,
      List.append_cancel_right_eq]
  rw [← behindType_eq_iff (n := 2047 - (34 + from_.length + st.to_.length)) (by omega)]
  constructor
  · rintro ⟨attrs, content, h1, h2⟩
    exact ((hlive attrs content).mp h1).trans ((hlate attrs content).mp h2).symm
  · intro h
    exact ⟨_, _, (hlive _ _).mpr h, rfl⟩

end Written

/-! The two handlers. -/

/-- Something that is sent to a client. -/
def Gets (s s' : Server) (k : Slot) (text : Str) : Prop := ∃ l, sends s' = sends s ++ l ∧ (k, text) ∈ l

section Copies
variable {m : Machine} {s : Server} {me k : Slot} {st : Stanza} {i : Fin MAX_OFFLINE_MSGS}

theorem Arises.full_jid (h : Arises m s) (i : Slot) : Holds 64 (s.client_registry i).full_jid :=
  (h.named.session i).full_jid

theorem addressee_gets (h : Arises m s) (hc : ¬ (strstr st.to_ CONFERENCE).isSome) (hk : Addressee s st k) :
    Gets s (handle_chat_message me st s).2 k (chatText st (s.client_registry me).full_jid) := by
  refine ⟨_, (h.direct hc).1.trans (List.append_assoc ..), List.mem_append_left _ ?_⟩
  exact List.mem_map.mpr ⟨k, List.mem_filter.mpr ⟨List.mem_finRange k, decide_eq_true hk⟩, rfl⟩

/-- An entry that is there after a message and was free before is its letter. -/
theorem letter_of_stored (h : Arises m s) (hc : ¬ (strstr st.to_ CONFERENCE).isSome)
    (hfree : (s.stores.offline_store i).active = 0)
    (hput : ((handle_chat_message me st s).2.stores.offline_store i).active ≠ 0) :
    (handle_chat_message me st s).2.stores.offline_store i = letter s me st i := by
  have hs : (handle_chat_message me st s).2.stores.offline_store = posted s me st (directSlot s st) := by
    rw [(h.direct hc).2]
  rw [hs] at hput ⊢
  cases hd : directSlot s st with
  | none =>
    rw [hd] at hput
    exact absurd hfree hput
  | some j =>
    rw [hd] at hput
    by_cases hij : i = j
    · rw [hij]
      exact Function.update_self ..
    · rw [posted, Function.update_of_ne hij] at hput
      exact absurd hfree hput

theorem letter_text (hf : Holds 64 (s.client_registry me).full_jid) (hid : Holds 64 st.id) (hp : 0 ∉ st.payload)
    {c : Ctx} (hj : Holds 64 c.full_jid) (i : Fin MAX_OFFLINE_MSGS) :
    (mailText c (letter s me st i)).str = messageText (s.client_registry me).full_jid c.full_jid (idText st.id)
      (st.payload.take 1023 ++ delayText) := by
  have hfrom : (letter s me st i).from_.str = (s.client_registry me).full_jid := Buf.copied_whole _ (by decide) hf
  have hid' : (letter s me st i).id.str = st.id := Buf.copied_whole _ (by decide) hid
  have hpay : (letter s me st i).payload.str = st.payload.take 1023 := by
    have := Buf.copied_str (s.stores.offline_store i).payload (k := 1023) (by decide) st.payload
    rw [cstr_of_clean hp] at this
    exact this
  have hpl : Holds 1024 (st.payload.take 1023) :=
    ⟨Nat.lt_succ_of_le (List.length_take_le ..), fun hz => hp (List.mem_of_mem_take hz)⟩
  have ht := mailText_str (c := c) (e := letter s me st i) (hfrom ▸ hf) hj (hid' ▸ hid) (hpay ▸ hpl)
  rw [ht, hfrom, hid', hpay]

/-- Who logs in gets the letters that wait. -/
theorem drain_gets (hw : waits (s.client_registry k).username (s.stores.offline_store i)) :
    Gets s (offline_msg_drain k s).2 k (mailText (s.client_registry k) (s.stores.offline_store i)).str := by
  refine ⟨_, (sends_offline_msg_drain k s (Now.refl (G := fun _ => True) trivial)).1, ?_⟩
  refine List.mem_map.mpr ⟨(k, mailText (s.client_registry k) (s.stores.offline_store i)), ?_, rfl⟩
  refine List.mem_flatMap.mpr ⟨i, List.mem_finRange i, ?_⟩
  have hone : Texts.offline s k (s.stores.offline_store i) =
      [(k, mailText (s.client_registry k) (s.stores.offline_store i))] := if_pos hw
  rw [hone]
  exact List.mem_singleton.mpr rfl

end Copies

/-- A message that a session of the addressee gets, and the one that they get at login after the same message was stored
for them, differ by their addressees and the delay alone, if and only if the message has no identifier, its payload
starts with an element, and the payload fits the entry. -/
theorem late_copy_iff {m₁ m₂ m₃ : Machine} {here away later : Server} (h₁ : Arises m₁ here) (h₂ : Arises m₂ away)
    (h₃ : Arises m₃ later) {me₁ me₂ k₁ k₃ : Slot} {st : Stanza} (hto : Holds 64 st.to_) (hid : Holds 64 st.id)
    (hp : 0 ∉ st.payload) (hc : ¬ (strstr st.to_ CONFERENCE).isSome)
    (hfrom : (here.client_registry me₁).full_jid = (away.client_registry me₂).full_jid)
    (hk : Addressee here st k₁) {i : Fin MAX_OFFLINE_MSGS} (hfree : (away.stores.offline_store i).active = 0)
    (hput : ((handle_chat_message me₂ st away).2.stores.offline_store i).active ≠ 0)
    (hwait : later.stores.offline_store i = (handle_chat_message me₂ st away).2.stores.offline_store i)
    (huser : (later.client_registry k₃).username = localPart (bare st.to_)) :
    ∃ copy late, Gets here (handle_chat_message me₁ st here).2 k₁ copy ∧
      Gets later (offline_msg_drain k₃ later).2 k₃ late ∧
      (OnlyLater (here.client_registry me₁).full_jid st.to_ (later.client_registry k₃).full_jid copy late ↔
        st.id = [] ∧ alreadyWrapped st = true ∧ st.payload.length ≤ 1023) := by
  have hletter := hwait.trans (letter_of_stored h₂ hc hfree hput)
  have hw : waits (later.client_registry k₃).username (later.stores.offline_store i) := by
    rw [huser, hletter]
    have hact : (letter away me₂ st i).active = 1 := rfl
    exact ⟨by rw [hact]; decide, Option.some.inj (keyOf_letter away me₂ st i)⟩
  refine ⟨_, _, addressee_gets h₁ hc hk, drain_gets hw, ?_⟩
  rw [hletter, letter_text (h₂.full_jid me₂) hid hp (h₃.full_jid k₃), ← hfrom]
  exact onlyLater_iff (h₁.full_jid me₁) hto hp

/-- The administrator is there alone. -/
def adminHere : Server := blank.run (visit 7 authAdmin [])

/-- The administrator writes to user1, who comes then. -/
def userComes : List Event :=
  visit 7 authAdmin [lit "<message to='user1@angelic.local/unikernel-5' type='chat'><body>hi</body></message>"] ++
    visit 8 authUser1 []

def userBack : Server := blank.run userComes

/-- The greeting to user1 is the same later. -/
theorem greeting_same_later :
    ∃ copy late, Gets bothHere (handle_chat_message 0 greeting bothHere).2 1 copy ∧
      Gets userBack (offline_msg_drain 1 userBack).2 1 late ∧
      OnlyLater (lit "admin@angelic.local/unikernel-0") greeting.to_ (lit "user1@angelic.local/unikernel-0") copy late := by
  have hk : Addressee bothHere greeting 1 ∧ (bothHere.client_registry 0).full_jid = (adminHere.client_registry 0).full_jid ∧
      (bothHere.client_registry 0).full_jid = lit "admin@angelic.local/unikernel-0" := by decide +kernel
  have hs : (adminHere.stores.offline_store 0).active = 0 ∧
      ((handle_chat_message 0 greeting adminHere).2.stores.offline_store 0).active ≠ 0 ∧
      userBack.stores.offline_store 0 = (handle_chat_message 0 greeting adminHere).2.stores.offline_store 0 ∧
      (userBack.client_registry 1).username = localPart (bare greeting.to_) ∧
      (userBack.client_registry 1).full_jid = lit "user1@angelic.local/unikernel-0" := by decide +kernel
  have hst : (greeting.to_.length < 64 ∧ 0 ∉ greeting.to_) ∧ (greeting.id.length < 64 ∧ 0 ∉ greeting.id) ∧
      0 ∉ greeting.payload ∧ ¬ (strstr greeting.to_ CONFERENCE).isSome ∧ greeting.id = [] ∧
      alreadyWrapped greeting = true ∧ greeting.payload.length ≤ 1023 := by decide +kernel
  obtain ⟨hto, hid, hp, hc, hcond⟩ := hst
  have h₁ : Arises blank bothHere := run_actions blank _
  have h₂ : Arises blank adminHere := run_actions blank _
  have h₃ : Arises blank userBack := run_actions blank userComes
  obtain ⟨copy, late, h1, h2, hiff⟩ :=
    late_copy_iff h₁ h₂ h₃ hto hid hp hc hk.2.1 hk.1 hs.1 hs.2.1 hs.2.2.1 hs.2.2.2.1
  rw [hk.2.2, hs.2.2.2.2] at hiff
  exact ⟨copy, late, h1, h2, hiff.mpr hcond⟩

def namedMessage : Str := lit "<message to='user1@angelic.local' id='m1' type='chat'><body>hi</body></message>"

def namedGreeting : Stanza :=
  { Stanza.zero with
    type := .MESSAGE, to_ := lit "user1@angelic.local", id := lit "m1", payload := lit "<body>hi</body>" }

/-- With an identifier it is not: who is there does not get it, who comes later does. -/
theorem named_greeting_differs :
    ∃ copy late,
      (sends (blank.run (visit 7 authAdmin [] ++ visit 8 authUser1 [] ++ [.recv 7 [passed namedMessage] true]))).getLast? =
        some (1, copy) ∧
      (sends (blank.run (visit 7 authAdmin [namedMessage] ++ visit 8 authUser1 [lit "<presence/>"]))).getLast? =
        some (1, late) ∧
      ¬ OnlyLater (lit "admin@angelic.local/unikernel-0") (lit "user1@angelic.local") (lit "user1@angelic.local/unikernel-0")
        copy late := by
  have hst : (lit "admin@angelic.local/unikernel-0").length < 64 ∧ 0 ∉ lit "admin@angelic.local/unikernel-0" := by
    decide +kernel
  have hto : Holds 64 namedGreeting.to_ ∧ 0 ∉ namedGreeting.payload := by
    exact ⟨⟨by decide +kernel, by decide +kernel⟩, by decide +kernel⟩
  refine ⟨chatText namedGreeting (lit "admin@angelic.local/unikernel-0"),
    messageText (lit "admin@angelic.local/unikernel-0") (lit "user1@angelic.local/unikernel-0") (idText namedGreeting.id)
      (namedGreeting.payload.take 1023 ++ delayText), by decide +kernel, by decide +kernel, fun h => ?_⟩
  have hid : namedGreeting.id = [] := ((onlyLater_iff hst hto.1 hto.2).mp h).1
  exact absurd hid (by decide)

end Angelic.Proofs
