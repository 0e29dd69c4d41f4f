import Angelic.Proofs.Rooms

namespace Angelic.Proofs
open CString Model StateRel Relation

/-! What is true of every room, on every machine and over all restarts, once it was true of the rooms on the first
disk. -/

/-- A property of rooms that no change to one of them ends. -/
structure Law (P : Room → Prop) : Prop where
  zero : P .zero
  create : ∀ r name full_jid, P r → P (r.create name full_jid)
  people : ∀ r users jids n, P r → P { r with users := users, banned_jids := jids, banned_count := n }
  configure : ∀ r payload, P r → P (r.configure payload)
  subject : ∀ r text, P r → P { r with subject := text }
  release : ∀ r, P r → P r.release

/-- It holds of the rooms in memory and of those on the disk. -/
structure Lawful (P : Room → Prop) (a : Rooms) : Prop where
  ok : a.Ok
  table : ∀ i, P (a.table i)
  image : ∀ i, P (a.image i)

theorem Lawful.mod {P : Room → Prop} {a : Rooms} (h : Lawful P a) {i : Fin MAX_ROOMS} {f : Room → Room}
    (hok : (a.mod i f).Ok) (hf : P (f (a.table i))) : Lawful P (a.mod i f) := by
  refine ⟨hok, fun k => ?_, h.image⟩
  change P (a.table.mod i f k)
  by_cases hk : k = i
  · subst hk
    rwa [a.table.mod_self]
  · rw [a.table.mod_of_ne hk]
    exact h.table k

namespace Law
variable {P : Room → Prop} (hP : Law P)
include hP

theorem step {a b : Rooms} (h : Rooms.Step a b) (ha : Lawful P a) : Lawful P b := by
  have hok := h.ok ha.ok
  cases h with
  | create i => exact ha.mod hok (hP.create _ _ _ (ha.table i))
  | join i j => exact ha.mod hok (hP.people _ _ _ _ (ha.table i))
  | rename i k => exact ha.mod hok (hP.people _ _ _ _ (ha.table i))
  | remove i j => exact ha.mod hok (hP.people _ _ _ _ (ha.table i))
  | ban i jid =>
    obtain ⟨jids, n, he⟩ := ban_eq (a.table i) jid
    exact ha.mod hok (he ▸ hP.people _ _ _ _ (ha.table i))
  | configure i payload => exact ha.mod hok (hP.configure _ _ (ha.table i))
  | subject i => exact ha.mod hok (hP.subject _ _ (ha.table i))
  | release i => exact ha.mod hok (hP.release _ (ha.table i))
  | destroy i => exact ha.mod hok hP.zero
  | save =>
    refine ⟨hok, ha.table, fun i => ?_⟩
    change P (a.table i).pack.unpack
    rw [Room.unpack_pack (ha.ok.table.room i).ok]
    exact hP.people _ _ _ _ (ha.table i)

theorem steps {a b : Rooms} (h : ReflTransGen Rooms.Step a b) (ha : Lawful P a) : Lawful P b := by
  induction h with
  | refl => exact ha
  | tail _ hs ih => exact hP.step hs ih

theorem boot (m : Machine) (hd : Tidy (roomImage m.disk)) (h : ∀ i, P (roomImage m.disk i)) :
    Lawful P (view m.boot) := by
  have hok := boot_ok m hd
  have hclear : KeptByClearing fun d => ∀ i, P (roomImage d i) := by
    refine image_keeps (k := .rooms) (Q := fun t => ∀ i, P (t.rooms i)) (fun t u (h : u.rooms = t.rooms) ht => h ▸ ht) ?_
    rw [Stores.packed_of_ok storesOk_zero]
    exact fun _ => hP.people _ _ _ _ hP.zero
  rcases boot_mem hclear m with ⟨hs, hm⟩ | ⟨hz, hi⟩
  · have hv : view m.boot = ⟨roomImage m.disk, roomImage m.disk⟩ := by
      rw [view, hs, hm]
      rfl
    rw [hv] at hok ⊢
    exact ⟨hok, h, h⟩
  · refine ⟨hok, fun i => ?_, hi h⟩
    rw [view, hz]
    exact hP.zero

theorem life (l : Life) {d : Disk} (hd : Tidy (roomImage d)) (h : ∀ i, P (roomImage d i)) :
    Lawful P (view (l.run d)) := hP.steps (run_handled _ l.events).steps (hP.boot (l.on d) hd h)

theorem reboots (ls : List Life) {d : Disk} (hd : Tidy (roomImage d)) (h : ∀ i, P (roomImage d i)) :
    Tidy (roomImage (reboots d ls)) ∧ ∀ i, P (roomImage (Proofs.reboots d ls) i) :=
  foldl_keeps (P := fun d => Tidy (roomImage d) ∧ ∀ i, P (roomImage d i))
    (fun _ l hd => ⟨(life_ok l hd.1).image, (hP.life l hd.1 hd.2).image⟩) ls ⟨hd, h⟩

end Law

end Angelic.Proofs
