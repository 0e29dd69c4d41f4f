import Angelic.Proofs.Rosters

namespace Angelic.Proofs
open CString Model StateRel Relation

/-! Which store a handler works on: the others are as before, in memory and on the disk. A store that is
worked on reaches the disk as it is in the end, or not at all. -/

/-- The disk has of one store what it had before, or what is in memory now. -/
def Backs (k : StoreId) (s s' : Server) : Prop :=
  k.Same (diskStores s.mem.disk) (diskStores s'.mem.disk) ∨ k.Same s'.stores (diskStores s'.mem.disk)

section Relations
variable {k : StoreId} {s s' s'' : Server}

theorem Untouched.backs (h : Untouched k s s') : Backs k s s' := .inl h.image

theorem Backs.after (h : Backs k s' s'') (h' : Untouched k s s') : Backs k s s'' := h.imp_left h'.image.trans

theorem Backs.before (h : Backs k s s') (h' : Untouched k s' s'') : Backs k s s'' := by
  rcases h with h | h
  · exact .inl (h.trans h'.image)
  · exact .inr (h'.store.symm.trans (h.trans h'.image))

end Relations

/-- A save writes its own store, or nothing. -/
theorem backs_save {k : StoreId} (hk : k ≠ .rooms) (s : Server) : Backs k s (persist k.save s).2 := by
  have hst : (persist k.save s).2.stores = s.stores := (save_cases k s.mem).1
  rcases save_image k k s.mem with h | ⟨-, h⟩
  · exact .inl h
  · refine .inr ?_
    rw [hst]
    exact (Stores.packed_same hk _).trans h

section Rules
variable {k : StoreId}

theorem spares_forAll {n : Nat} {body : Fin n → M Unit} (h : ∀ i, Does (Untouched k) (body i)) :
    Does (Untouched k) (forAll n body) := .forM h

end Rules

/-! The handlers. -/

section Answers
variable {k : StoreId}

theorem spares_replyResult (size : Nat) (me : Slot) (st : Stanza) : Does (Untouched k) (replyResult size me st) :=
  .bind (does_ctxOf me) fun _ => spares_send _ _

theorem spares_handshake (me : Slot) : Does (Untouched k) (handle_handshake_logic me) :=
  .bind (.step fun _ => .of_mem rfl) fun _ => .bind (does_ctxOf me) fun _ =>
    .ite (.bind (spares_modCtx _ _) fun _ => spares_send _ _)
      (.ite (.bind (spares_send _ _) fun _ => spares_modCtx _ _) (spares_send _ _))

theorem spares_handle_core_bind (me : Slot) (st : Stanza) : Does (Untouched k) (handle_core_bind me st) := by
  refine .step fun s => .of_mem ?_
  by_cases h : (s.client_registry me).state = .BIND
  · obtain ⟨n, -, o, he⟩ := handle_core_bind_run me st h
    rw [he]
  · obtain ⟨text, he⟩ := handle_core_bind_refused me st h
    rw [he]
    rfl

theorem spares_handle_core_session (me : Slot) (st : Stanza) : Does (Untouched k) (handle_core_session me st) :=
  .bind (spares_send _ _) fun _ => spares_modCtx _ _

end Answers

/-! The router. -/

section Router
variable {k : StoreId}

theorem spares_entry (hr : k ≠ .rooms) (hs : k ≠ .roster) {e : RouteEntry} (he : e ∈ router) (me : Slot) {st : Stanza}
    (h : StanzaOk st) : e.handler = handle_private_storage ∨ Does (Untouched k) (e.handler me st) := by
  simp only [router, List.mem_cons, List.not_mem_nil, or_false] at he
  rcases he with rfl | rfl | rfl | rfl | rfl | rfl | rfl | rfl | rfl | rfl | rfl | rfl | rfl | rfl
  · exact .inr (spares_handle_core_bind me st)
  · exact .inr (spares_handle_core_session me st)
  · exact .inr ((allows_untouched k me).handle_roster_request hs.symm st)
  · exact .inr ((allows_untouched k me).handle_disco_info st)
  · exact .inr ((allows_untouched k me).handle_disco_items st)
  · exact .inr (Stirs.spares hr fun _ _ => stirs_handle_muc_presence h.to_)
  · exact .inr (Stirs.spares hr fun _ _ => stirs_handle_muc_owner)
  · exact .inl rfl
  · exact .inr (Stirs.spares hr fun _ _ => stirs_handle_muc_admin)
  · exact .inr ((allows_untouched k me).handle_blocklist st)
  · exact .inr (spares_replyResult _ me st)
  · exact .inr (.bind (does_ctxOf me) fun _ => spares_send _ _)
  · exact .inr (.bind (does_ctxOf me) fun _ => spares_send _ _)
  · exact .inr (spares_replyResult _ me st)

/-- What is true of all that leaves a store alone, of the handler of private data and of the stanzas without a
namespace is true of the handling of a stanza. -/
theorem dispatch_spares {X : M Unit → Prop} (hr : k ≠ .rooms) (hl : k ≠ .roster) {me : Slot} {c : Ctx} {st : Stanza}
    (h : StanzaOk st) (hs : ∀ m : M Unit, Does (Untouched k) m → X m) (hp : X (handle_private_storage me st)) (hb : X (routeByKind me st)) :
    X (dispatch me c st) := by
  unfold dispatch
  split
  · exact hs _ (spares_handshake me)
  · split
    · rename_i e hfind
      split
      · exact hs _ ((allows_untouched k me).tooEarly st)
      · rcases spares_entry hr hl (List.mem_of_find?_eq_some hfind) me h with he | he
        · rw [he]
          exact hp
        · exact hs _ he
    · exact hb

end Router

end Angelic.Proofs
