import Mathlib.Data.List.Basic
import Mathlib.Logic.Function.Basic

namespace Angelic.Radix

/-! A tree of tables in a memory. An entry of a table may point to a table of the next level; the entries of
the last level are the values of a map from index paths. -/

variable {P I E : Type} (ptr : E → Option P)

/-- The table at the end of a path. -/
def walk (mem : P → I → E) : P → List I → Option P
  | p, [] => some p
  | p, i :: is => (ptr (mem p i)).bind fun q => walk mem q is

/-- The value under a path and a last index. -/
def lookup (mem : P → I → E) (root : P) (zero : E) (a : List I) (k : I) : E :=
  ((walk ptr mem root a).map fun q => mem q k).getD zero

def put [DecidableEq P] [DecidableEq I] (mem : P → I → E) (p : P) (i : I) (e : E) : P → I → E :=
  Function.update mem p (Function.update (mem p) i e)

/-- The tables of `d` levels lie apart, on pages in use. -/
structure Tree (mem : P → I → E) (root : P) (d : Nat) (used : P → Prop) : Prop where
  distinct : ∀ a b p, a.length < d → b.length < d →
    walk ptr mem root a = some p → walk ptr mem root b = some p → a = b
  inUse : ∀ a p, a.length < d → walk ptr mem root a = some p → used p

variable {ptr} {mem mem' : P → I → E} {root p q z : P} {d : Nat} {used : P → Prop} {a b : List I} {i : I} {e zero : E}

theorem walk_append (a b : List I) :
    walk ptr mem root (a ++ b) = (walk ptr mem root a).bind fun q => walk ptr mem q b := by
  induction a generalizing root with
  | nil => rfl
  | cons i a ih =>
    simp only [List.cons_append, walk, Option.bind_assoc]
    congr 1
    funext q
    exact ih

/-- A walk is the same in a memory that has the same entries along it. -/
theorem walk_congr (h : ∀ c j rest, b = c ++ j :: rest → ∀ q, walk ptr mem root c = some q → mem' q j = mem q j) :
    walk ptr mem' root b = walk ptr mem root b := by
  induction b generalizing root with
  | nil => rfl
  | cons i b ih =>
    have hi := h [] i b rfl root rfl
    simp only [walk, hi]
    cases hp : ptr (mem root i) with
    | none => rfl
    | some q =>
      refine ih fun c j rest hb r hr => h (i :: c) j rest (by rw [hb]; rfl) r ?_
      rw [walk, hp]
      exact hr

variable [DecidableEq P] [DecidableEq I]

theorem put_self : put mem p i e p i = e := by rw [put, Function.update_self, Function.update_self]

theorem put_page (h : q ≠ p) : put mem p i e q = mem q := Function.update_of_ne h _ mem

theorem put_other {j : I} (h : ¬ (q = p ∧ j = i)) : put mem p i e q j = mem q j := by
  by_cases hq : q = p
  · subst hq
    rw [put, Function.update_self, Function.update_of_ne fun hj => h ⟨rfl, hj⟩]
  · rw [put_page hq]

section Store
variable (h : Tree ptr mem root d used) (ha : a.length + 1 = d) (hp : walk ptr mem root a = some p)
include h ha hp

/-- Writing to a table of the last level moves no table. -/
theorem walk_store (i : I) (e : E) (hb : b.length < d) : walk ptr (put mem p i e) root b = walk ptr mem root b := by
  refine walk_congr fun c j rest hc q hq => put_other fun hn => ?_
  have hlen : c.length < a.length := by
    have := congrArg List.length hc
    rw [List.length_append, List.length_cons] at this
    omega
  rw [hn.1] at hq
  have := h.distinct c a p (by omega) (by omega) hq hp
  rw [this] at hlen
  exact Nat.lt_irrefl _ hlen

theorem Tree.store (i : I) (e : E) : Tree ptr (put mem p i e) root d used := by
  refine ⟨fun b c q hb hc h1 h2 => ?_, fun b q hb h1 => ?_⟩
  · rw [walk_store h ha hp i e hb] at h1
    rw [walk_store h ha hp i e hc] at h2
    exact h.distinct b c q hb hc h1 h2
  · rw [walk_store h ha hp i e hb] at h1
    exact h.inUse b q hb h1

/-- The map changes at that path and index alone. -/
theorem lookup_store (i : I) (e : E) (hb : b.length + 1 = d) (k : I) :
    lookup ptr (put mem p i e) root zero b k = if b = a ∧ k = i then e else lookup ptr mem root zero b k := by
  rw [lookup, walk_store h ha hp i e (by omega)]
  split
  · rename_i hn
    rw [hn.1, hn.2, hp]
    exact put_self
  · rename_i hn
    rw [lookup]
    cases hq : walk ptr mem root b with
    | none => rfl
    | some q =>
      refine put_other fun hn' => hn ⟨?_, hn'.2⟩
      exact h.distinct b a p (by omega) (by omega) (hn'.1 ▸ hq) hp

end Store

section Link

/-- A cleared page is hung into a table. -/
def linked (mem : P → I → E) (p z : P) (i : I) (e zero : E) : P → I → E :=
  put (Function.update mem z fun _ => zero) p i e

variable (h : Tree ptr mem root d used) (ha : a.length + 1 < d) (hp : walk ptr mem root a = some p) (hz : ¬ used z)
include h ha hp hz

theorem linked_other {c : List I} {j : I} (hc : c.length < d) (hq : walk ptr mem root c = some q)
    (hn : ¬ (c = a ∧ j = i)) : linked mem p z i e zero q j = mem q j := by
  have hqz : q ≠ z := fun hn' => hz (hn' ▸ h.inUse c q hc hq)
  rw [linked, put_other, Function.update_of_ne hqz]
  intro hn'
  exact hn ⟨h.distinct c a p hc (by omega) (hn'.1 ▸ hq) hp, hn'.2⟩

theorem walk_linked_other (hb : b.length < d) (hn : ¬ (a ++ [i]) <+: b) :
    walk ptr (linked mem p z i e zero) root b = walk ptr mem root b := by
  refine walk_congr fun c j rest hc q hq => linked_other h ha hp hz ?_ hq fun hca => hn ?_
  · have := congrArg List.length hc
    rw [List.length_append, List.length_cons] at this
    omega
  · rw [hc, hca.1, hca.2]
    exact ⟨rest, by simp⟩

theorem linked_new (k : I) : linked mem p z i e zero z k = zero := by
  have hpz : z ≠ p := fun hn => hz (hn ▸ h.inUse a p (by omega) hp)
  rw [linked, put_page hpz, Function.update_self]

variable (he : ptr e = some z) (hzero : ptr zero = none)
include he hzero

theorem walk_linked (rest : List I) :
    walk ptr (linked mem p z i e zero) root (a ++ i :: rest) = if rest = [] then some z else none := by
  have hself : ¬ (a ++ [i]) <+: a := fun hpre => by
    have := hpre.length_le
    rw [List.length_append] at this
    exact Nat.not_succ_le_self _ this
  rw [walk_append, walk_linked_other h ha hp hz (by omega) hself, hp]
  change (ptr (linked mem p z i e zero p i)).bind _ = _
  rw [linked, put_self, he]
  cases rest with
  | nil => rfl
  | cons j rest =>
    change (ptr (linked mem p z i e zero z j)).bind _ = _
    rw [linked_new h ha hp hz, hzero]
    rfl

/-- The one table that is new is the page. -/
theorem walk_linked_some (hb : b.length < d) (hq : walk ptr (linked mem p z i e zero) root b = some q) :
    b = a ++ [i] ∧ q = z ∨ walk ptr mem root b = some q := by
  by_cases hn : (a ++ [i]) <+: b
  · obtain ⟨rest, rfl⟩ := hn
    rw [List.append_assoc, List.singleton_append, walk_linked h ha hp hz he hzero] at hq
    split at hq
    · rename_i hr
      exact .inl ⟨by rw [hr, List.append_nil], (Option.some.inj hq).symm⟩
    · exact absurd hq (Option.some_ne_none q).symm
  · exact .inr (walk_linked_other h ha hp hz hb hn ▸ hq)

theorem Tree.link {used' : P → Prop} (hold : ∀ q, used q → used' q) (hnew : used' z) :
    Tree ptr (linked mem p z i e zero) root d used' := by
  have old : ∀ {b q}, b.length < d → walk ptr mem root b = some q → q ≠ z :=
    fun hb hq hn => hz (hn ▸ h.inUse _ _ hb hq)
  refine ⟨fun b c q hb hc h1 h2 => ?_, fun b q hb h1 => ?_⟩
  · rcases walk_linked_some h ha hp hz he hzero hb h1 with ⟨rfl, rfl⟩ | h1
    · rcases walk_linked_some h ha hp hz he hzero hc h2 with ⟨rfl, -⟩ | h2
      · rfl
      · exact absurd rfl (old hc h2)
    · rcases walk_linked_some h ha hp hz he hzero hc h2 with ⟨-, hq⟩ | h2
      · exact absurd hq (old hb h1)
      · exact h.distinct b c q hb hc h1 h2
  · rcases walk_linked_some h ha hp hz he hzero hb h1 with ⟨-, rfl⟩ | h1
    · exact hnew
    · exact hold q (h.inUse b q hb h1)

variable (hnone : ptr (mem p i) = none)
include hnone

omit he hzero in
/-- No walk went where the page now hangs. -/
theorem walk_mono (hb : b.length < d) (hq : walk ptr mem root b = some q) :
    walk ptr (linked mem p z i e zero) root b = some q := by
  rw [walk_linked_other h ha hp hz hb, hq]
  rintro ⟨rest, rfl⟩
  rw [List.append_assoc, List.singleton_append, walk_append, hp] at hq
  change (ptr (mem p i)).bind _ = some q at hq
  rw [hnone] at hq
  exact absurd hq (Option.some_ne_none q).symm

/-- The map is the same. -/
theorem lookup_linked (hb : b.length + 1 = d) (k : I) :
    lookup ptr (linked mem p z i e zero) root zero b k = lookup ptr mem root zero b k := by
  rw [lookup, lookup]
  cases hq : walk ptr mem root b with
  | some q =>
    rw [walk_mono h ha hp hz hnone (by omega) hq]
    refine linked_other h ha hp hz (by omega) hq fun hn => ?_
    rw [← hn.1] at ha
    omega
  | none =>
    cases hq' : walk ptr (linked mem p z i e zero) root b with
    | none => rfl
    | some q =>
      rcases walk_linked_some h ha hp hz he hzero (by omega) hq' with ⟨-, rfl⟩ | hn
      · exact linked_new h ha hp hz k
      · exact absurd (hn.symm.trans hq) (Option.some_ne_none q)

end Link

end Angelic.Radix
