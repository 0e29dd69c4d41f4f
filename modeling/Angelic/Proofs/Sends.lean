import Angelic.Lib.Output
import Angelic.Proofs.Queues
import Angelic.Proofs.Quiet

namespace Angelic.Proofs
open CString Model StateRel

variable {s : Server}
variable {v : Server}

/-! Rules for what a handler sends, from a server whose contexts and stores are known. -/

def Out.posted : Out → Option (Slot × Str)
  | .send i _ _ text => some (i, text)
  | _ => none

/-- The texts given to `send_raw` so far, each with its context. -/
def sends (s : Server) : List (Slot × Str) := s.out.filterMap Out.posted

theorem sends_of_out {s' : Server} (h : s'.out = s.out) : sends s' = sends s := congrArg (List.filterMap _) h

def rendered (x : Sent) : Slot × Str := (x.1, x.2.str)

/-- From a state with `P` the run sends the texts `l`, one after the other, and ends with `Q`. -/
def Sends (P : Server → Prop) (m : M α) (l : List Sent) (Q : α → Server → Prop) : Prop :=
  Writes sends P m (l.map rendered) Q

namespace Sends
variable {P P' : Server → Prop} {Q : α → Server → Prop} {T : β → Server → Prop} {l l' : List Sent}
variable {m : M α} {k : α → M β} {n : Nat} {f : Fin n → List Sent}

theorem pure {a : α} (h : ∀ s, P s → Q a s) : Sends P (Pure.pure a : M α) [] Q := Writes.pure h

theorem bind (hm : Sends P m l Q) (hk : ∀ a, Sends (Q a) (k a) l' T) : Sends P (m >>= k) (l ++ l') T := by
  rw [Sends, List.map_append]
  exact Writes.bind hm hk

/-- Then a step that sends nothing. -/
theorem before (hm : Sends P m l Q) (hk : ∀ a, Sends (Q a) (k a) [] T) : Sends P (m >>= k) l T := by
  rw [← List.append_nil l]
  exact hm.bind hk

/-- A step that sends nothing. -/
theorem after (hm : Sends P m [] Q) (hk : ∀ a, Sends (Q a) (k a) l T) : Sends P (m >>= k) l T := hm.bind hk

/-- A step that sends nothing and whose value is known. -/
theorem value {a : α} {R : Server → Prop} (hm : Sends P m [] fun x s => x = a ∧ R s)
    (hk : Sends R (k a) l T) : Sends P (m >>= k) l T := by
  refine hm.after fun x => ?_
  rintro s ⟨rfl, hs⟩
  exact hk s hs

theorem silent (ho : ∀ s, (m s).2.out = s.out) (h : Triple P m Q) : Sends P m [] Q :=
  Writes.silent (fun s => sends_of_out (ho s)) h

theorem ite {c : Prop} [Decidable c] {n : M α} (hm : c → Sends P m l Q) (hn : ¬ c → Sends P n l' Q) :
    Sends P (if c then m else n) (if c then l else l') Q := by
  split
  · exact hm ‹_›
  · exact hn ‹_›

/-- A branch without an `else`. -/
theorem when_ {c : Prop} [Decidable c] {m : M Unit} {Q : Unit → Server → Prop} (hm : c → Sends P m l Q)
    (hn : ∀ s, P s → Q () s) : Sends P (if c then m else Pure.pure ()) (if c then l else []) Q :=
  ite hm fun _ => pure hn

theorem post (h : Sends P m l Q) {Q' : α → Server → Prop} (hq : ∀ a s, Q a s → Q' a s) : Sends P m l Q' :=
  Writes.post h hq

theorem pre (h : Sends P m l Q) (hp : ∀ s, P' s → P s) : Sends P' m l Q :=
  Writes.conseq h hp fun _ _ hq => hq

theorem given {A : Prop} (h : A → Sends P m l Q) : Sends (fun s => P s ∧ A) m l Q := by
  rintro s ⟨hs, ha⟩
  exact h ha s hs

/-- What is known may be known of some value. -/
theorem some_value {ι : Type} {A : ι → Prop} {P : ι → Server → Prop}
    (h : ∀ p, A p → Sends (P p) m l Q) : Sends (fun s => ∃ p, A p ∧ P p s) m l Q := by
  rintro s ⟨p, hp, hs⟩
  exact h p hp s hs

theorem each_rest {P : List (Fin n) → Server → Prop} {body : Fin n → M Unit}
    (h : ∀ i l, Sends (P (i :: l)) (body i) (f i) fun _ => P l) :
    Sends (P (List.finRange n)) (forAll n body) (each n f) fun _ => P [] := by
  rw [Sends, each, List.map_flatMap]
  exact Writes.forM_rest h _

theorem each {body : Fin n → M Unit}
    (h : ∀ i, Sends P (body i) (f i) fun _ => P) : Sends P (forAll n body) (each n f) fun _ => P :=
  each_rest (P := fun _ => P) fun i _ => h i

theorem any {body : Bool → Fin n → M Bool} {p : Fin n → Bool}
    (h : ∀ b i, Sends P (body b i) (f i) fun r s => P s ∧ r = (b || p i)) :
    Sends P ((List.finRange n).foldlM body false) (Proofs.each n f) fun r s => P s ∧ r = (List.finRange n).any p := by
  rw [Sends, Proofs.each, List.map_flatMap]
  refine Writes.post (Writes.foldlM_any h _ false) fun r s hs => ?_
  rwa [Bool.false_or] at hs

end Sends

/-- The rosters on a disk. -/
def rosterImage (d : Disk) : RosterArray := (diskStores d).roster_store

/-- A save leaves the rosters of the disk, or replaces them by those in memory. -/
theorem rosterImage_save (k : StoreId) (m : Mem) : rosterImage (k.save m).2.disk = rosterImage m.disk ∨
      k = .roster ∧ rosterImage (k.save m).2.disk = m.stores.roster_store :=
  (save_image .roster k m).imp (fun h => h) fun h => ⟨h.1.symm, h.2⟩

/-- A context without the counters of what was sent to it. -/
def Ctx.face (c : Ctx) : Ctx := { c with sm_want_ack := false, sm_outbound_count := 0 }

theorem face_sent (c : Ctx) : Ctx.face c.on_stanza_sent = Ctx.face c := by
  unfold Ctx.on_stanza_sent
  split <;> rfl

/-- The server is `v`, up to the counters, the disk and the logs; of the rosters on the disk `G` holds. -/
structure Now (G : RosterArray → Prop) (v s : Server) : Prop where
  face : ∀ i, Ctx.face (s.client_registry i) = Ctx.face (v.client_registry i)
  stores : s.stores = v.stores
  version : s.roster_version = v.roster_version
  random : s.random = v.random
  draws : s.draws = v.draws
  image : G (rosterImage s.mem.disk)

variable {G : RosterArray → Prop}

theorem Now.refl (h : G (rosterImage s.mem.disk)) : Now G s s := ⟨fun _ => rfl, rfl, rfl, rfl, rfl, h⟩

theorem Now.setCtx (h : Now G v s) (i : Slot) {c d : Ctx} (hc : Ctx.face c = Ctx.face d) :
    Now G (v.setCtx i d) (s.setCtx i c) := by
  refine ⟨fun j => ?_, h.stores, h.version, h.random, h.draws, h.image⟩
  by_cases hj : j = i
  · subst hj
    rw [setCtx_reg_self, setCtx_reg_self, hc]
  · rw [setCtx_reg_of_ne _ _ hj, setCtx_reg_of_ne _ _ hj, h.face j]

theorem Now.setStores (h : Now G v s) (t : Stores) : Now G (v.setStores t) (s.setStores t) :=
  ⟨h.face, rfl, h.version, h.random, h.draws, h.image⟩

/-- What is read off a context does not depend on its counters. -/
theorem Now.read (h : Now G v s) (g : Ctx → β) (hg : ∀ c, g c = g (Ctx.face c)) (i : Slot) :
    g (s.client_registry i) = g (v.client_registry i) := by
  rw [hg, h.face i, ← hg]

theorem Now.firstIdx (h : Now G v s) (g : Ctx → Bool) (hg : ∀ c, g c = g (Ctx.face c)) :
    (firstIdx fun i => g (s.client_registry i)) = firstIdx fun i => g (v.client_registry i) :=
  congrArg Model.firstIdx (funext fun i => h.read g hg i)

theorem Now.find_client (h : Now G v s) (jid : Str) : find_client_by_jid s jid = find_client_by_jid v jid :=
  h.firstIdx (fun c =>
    let rest := c.full_jid.drop jid.length
    c.live && (c.full_jid.take jid.length == jid) && (rest.head? == some (ch '/') || rest.head? == none))
    fun _ => rfl

section Rules
variable {v : Server} {Q : α → Server → Prop} {l : List Sent}

theorem sends_send (i : Slot) (t : Text) : Sends (Now G v) (send_raw i t.str) [(i, t)] fun _ => Now G v := by
  intro s hs
  refine ⟨?_, ?_, hs.stores, hs.version, hs.random, hs.draws, hs.image⟩
  · change List.filterMap Out.posted (s.out ++ [_]) = _
    rw [List.filterMap_append]
    rfl
  · intro j
    by_cases hj : j = i
    · subst hj
      rw [send_raw_reg_self, face_sent]
      exact hs.face j
    · rw [send_raw_reg_of_ne s i hj]
      exact hs.face j

/-- A context is read for what its counters do not change. -/
theorem sends_ctx (i : Slot) {k : Ctx → M α} (hk : ∀ c, k c = k (Ctx.face c))
    (h : Sends (Now G v) (k (v.client_registry i)) l Q) : Sends (Now G v) (ctxOf i >>= k) l Q := by
  refine Writes.read (fun _ => rfl) fun s hs => ?_
  change Sends (Now G v) (k (s.client_registry i)) l Q
  rw [hk, hs.face i, ← hk]
  exact h

theorem sends_stores {k : Stores → M α} (h : Sends (Now G v) (k v.stores) l Q) :
    Sends (Now G v) (getStores >>= k) l Q := by
  refine Writes.read (fun _ => rfl) fun s hs => ?_
  change Sends (Now G v) (k s.stores) l Q
  rw [hs.stores]
  exact h

theorem sends_get {k : Server → M α} (hk : ∀ s, Now G v s → k s = k v) (h : Sends (Now G v) (k v) l Q) :
    Sends (Now G v) (get >>= k) l Q := by
  refine Writes.read (fun _ => rfl) fun s hs => ?_
  change Sends (Now G v) (k s) l Q
  rw [hk s hs]
  exact h

theorem sends_modCtx (i : Slot) {f : Ctx → Ctx} (hf : ∀ c, Ctx.face (f c) = f (Ctx.face c)) :
    Sends (Now G v) (modCtx i f) [] fun _ => Now G (v.setCtx i (f (v.client_registry i))) := by
  refine .silent (fun _ => rfl) fun s hs => hs.setCtx i ?_
  rw [hf, hs.face i, ← hf]

theorem sends_modStores (f : Stores → Stores) :
    Sends (Now G v) (modStores f) [] fun _ => Now G (v.setStores (f v.stores)) := by
  refine .silent (fun _ => rfl) fun s hs => ?_
  change Now G (v.setStores (f v.stores)) (s.setStores (f s.stores))
  rw [hs.stores]
  exact hs.setStores _

theorem sends_save {k : StoreId} (hk : k ≠ .roster) : Sends (Now G v) (persist k.save) [] fun _ => Now G v := by
  refine .silent (fun _ => rfl) fun s hs =>
    ⟨hs.face, (save_cases k s.mem).1.trans hs.stores, hs.version, hs.random, hs.draws, ?_⟩
  rcases rosterImage_save k s.mem with h | ⟨h, -⟩
  · exact h ▸ hs.image
  · exact absurd h hk

/-- Rosters are saved once they are good. -/
theorem sends_save_roster (hG : G v.stores.roster_store) :
    Sends (Now G v) (persist xmpp_persist_save_roster) [] fun _ => Now G v := by
  refine .silent (fun _ => rfl) fun s hs =>
    ⟨hs.face, (save_cases .roster s.mem).1.trans hs.stores, hs.version, hs.random, hs.draws, ?_⟩
  change G (rosterImage (StoreId.save .roster s.mem).2.disk)
  rcases rosterImage_save .roster s.mem with h | ⟨-, h⟩
  · exact h ▸ hs.image
  · rw [h]
    exact (congrArg Stores.roster_store hs.stores) ▸ hG

/-- A change of the stores that is saved. -/
theorem sends_saved {k : StoreId} (hk : k ≠ .roster) (f : Stores → Stores) {rest : Unit → M α}
    (h : ∀ u, Sends (Now G (v.setStores (f v.stores))) (rest u) l Q) :
    Sends (Now G v) (modStores f >>= fun _ => persist k.save >>= rest) l Q :=
  (sends_modStores f).after fun _ => (sends_save hk).after h

end Rules

end Angelic.Proofs
