import Mathlib.Data.Finset.Card
import Mathlib.Data.Fintype.Basic
import Mathlib.Data.List.FinRange
import Mathlib.Logic.Function.Basic

namespace Angelic

/-! Tables of a fixed number of slots, each empty or holding a value under a key. A key is looked up
from the front; a new one goes to the first empty slot, if there is one. -/

abbrev SlotTable (n : Nat) (κ α : Type) := Fin n → Option (κ × α)

namespace SlotTable

section Search
variable {n : Nat} {p : Fin n → Bool} {i : Fin n}

/-- The first index with a property. -/
def first (p : Fin n → Bool) : Option (Fin n) := (List.finRange n).find? p

theorem first_some (h : first p = some i) : p i = true := List.find?_some h

theorem first_none (h : first p = none) (i : Fin n) : p i = false := by
  simpa using List.find?_eq_none.mp h i (List.mem_finRange i)

theorem first_eq_none (h : ∀ i, p i = false) : first p = none :=
  List.find?_eq_none.mpr fun i _ => by simp [h i]

/-- The first index stays the first where fewer have the property. -/
theorem first_of_subset {q : Fin n → Bool} (h : first p = some i) (hi : q i = true) (hq : ∀ j, q j = true → p j = true) :
    first q = some i := by
  obtain ⟨-, as, bs, hl, hb⟩ := List.find?_eq_some_iff_append.mp h
  refine List.find?_eq_some_iff_append.mpr ⟨hi, as, bs, hl, fun j hj => ?_⟩
  cases hqj : q j with
  | false => rfl
  | true =>
    have := hb j hj
    rw [hq j hqj] at this
    cases this

/-- An index that alone has the property is the first. -/
theorem first_unique (h : p i = true) (hu : ∀ j, p j = true → j = i) : first p = some i := by
  cases hf : first p with
  | none => exact absurd h (by simp [first_none hf i])
  | some j => rw [hu j (first_some hf)]

end Search

variable {n : Nat} {κ α : Type}

/-- The first empty slot. -/
def free (T : SlotTable n κ α) : Option (Fin n) := first fun i => (T i).isNone

variable {T : SlotTable n κ α}

theorem free_some {i : Fin n} (h : T.free = some i) : T i = none :=
  Option.isNone_iff_eq_none.mp (first_some h)

theorem free_none (h : T.free = none) (i : Fin n) : T i ≠ none := by
  have := first_none h i
  rwa [Option.isNone_eq_false_iff, Option.isSome_iff_ne_none] at this

/-- The empty slots. -/
def room (T : SlotTable n κ α) : Finset (Fin n) := Finset.univ.filter fun i => (T i).isNone

theorem room_eq_empty : T.room = ∅ ↔ T.free = none := by
  constructor
  · intro h
    refine first_eq_none fun i => ?_
    rw [Bool.eq_false_iff]
    intro hi
    have hm : i ∈ T.room := Finset.mem_filter.mpr ⟨Finset.mem_univ i, hi⟩
    simp [h] at hm
  · intro h
    refine Finset.filter_eq_empty_iff.mpr fun i _ => ?_
    rw [Option.isNone_iff_eq_none]
    exact free_none h i

variable [DecidableEq κ] {k : κ} {i : Fin n}

def holds (T : SlotTable n κ α) (k : κ) (i : Fin n) : Bool := decide ((T i).map Prod.fst = some k)

theorem holds_iff : T.holds k i = true ↔ ∃ a, T i = some (k, a) := by
  rw [holds, decide_eq_true_eq, Option.map_eq_some_iff]
  constructor
  · rintro ⟨⟨k', a⟩, h, rfl⟩
    exact ⟨a, h⟩
  · rintro ⟨a, h⟩
    exact ⟨(k, a), h, rfl⟩

/-- The slot of a key. -/
def slot (T : SlotTable n κ α) (k : κ) : Option (Fin n) := first (T.holds k)

def get (T : SlotTable n κ α) (k : κ) : Option α := (T.slot k).bind fun i => (T i).map Prod.snd

/-- The value goes where its key is, else to an empty slot; in a full table it is dropped. -/
def put (T : SlotTable n κ α) (k : κ) (a : α) : SlotTable n κ α :=
  match (T.slot k).or T.free with
  | some i => Function.update T i (some (k, a))
  | none => T

def drop (T : SlotTable n κ α) (k : κ) : SlotTable n κ α :=
  match T.slot k with
  | some i => Function.update T i none
  | none => T

/-- No key is held twice. -/
def Distinct (T : SlotTable n κ α) : Prop := ∀ k i j, T.holds k i = true → T.holds k j = true → i = j

theorem slot_some (h : T.slot k = some i) : ∃ a, T i = some (k, a) :=
  holds_iff.mp (first_some h)

theorem slot_none (h : T.slot k = none) (i : Fin n) (a : α) : T i ≠ some (k, a) := by
  intro hi
  have := first_none h i
  rw [holds_iff.mpr ⟨a, hi⟩] at this
  cases this

/-- A key keeps its slot when another slot is written, or its own one with the key. -/
theorem slot_update {j : Fin n} (h : T.slot k = some i) {o : Option (κ × α)}
    (ho : (∃ a, o = some (k, a)) ↔ j = i) : slot (Function.update T j o) k = some i := by
  refine first_of_subset h ?_ fun l hl => ?_
  · by_cases hj : j = i
    · obtain ⟨a, rfl⟩ := ho.mpr hj
      exact holds_iff.mpr ⟨a, by rw [hj, Function.update_self]⟩
    · obtain ⟨a, ha⟩ := slot_some h
      exact holds_iff.mpr ⟨a, by rw [Function.update_of_ne (Ne.symm hj), ha]⟩
  · obtain ⟨a, ha⟩ := holds_iff.mp hl
    by_cases hlj : l = j
    · rw [hlj, Function.update_self] at ha
      rw [hlj, ho.mp ⟨a, ha⟩]
      exact first_some h
    · rw [Function.update_of_ne hlj] at ha
      exact holds_iff.mpr ⟨a, ha⟩

theorem get_eq_none : T.get k = none ↔ T.slot k = none := by
  unfold get
  cases h : T.slot k with
  | none => simp
  | some i =>
    obtain ⟨a, ha⟩ := slot_some h
    simp [ha]

/-- In a table without doubles, what is held under a key is what is found. -/
theorem Distinct.get (h : T.Distinct) {a : α} : T.get k = some a ↔ ∃ i, T i = some (k, a) := by
  constructor
  · intro hg
    unfold SlotTable.get at hg
    cases hs : T.slot k with
    | none => simp [hs] at hg
    | some i =>
      obtain ⟨b, hb⟩ := slot_some hs
      obtain rfl : b = a := by simpa [hs, hb] using hg
      exact ⟨i, hb⟩
  · rintro ⟨i, hi⟩
    have hs : T.slot k = some i :=
      first_unique (holds_iff.mpr ⟨a, hi⟩) fun j hj => h k j i hj (holds_iff.mpr ⟨a, hi⟩)
    simp [SlotTable.get, hs, hi]

/-- What changes one slot, to nothing or to a key that no other slot holds, makes no doubles. -/
theorem Distinct.update (h : T.Distinct) {o : Option (κ × α)}
    (ho : ∀ k a, o = some (k, a) → ∀ j, j ≠ i → T.holds k j = false) : Distinct (Function.update T i o) := by
  have self : ∀ k, holds (Function.update T i o) k i = true → ∃ a, o = some (k, a) := by
    intro k hk
    obtain ⟨a, ha⟩ := holds_iff.mp hk
    rw [Function.update_self] at ha
    exact ⟨a, ha⟩
  have other : ∀ k j, j ≠ i → holds (Function.update T i o) k j = T.holds k j := by
    intro k j hj
    rw [holds, Function.update_of_ne hj, holds]
  intro k j l hj hl
  by_cases hji : j = i
  · by_cases hli : l = i
    · rw [hji, hli]
    · rw [hji] at hj
      obtain ⟨a, ha⟩ := self k hj
      rw [other k l hli, ho k a ha l hli] at hl
      cases hl
  · by_cases hli : l = i
    · rw [hli] at hl
      obtain ⟨a, ha⟩ := self k hl
      rw [other k j hji, ho k a ha j hji] at hj
      cases hj
    · rw [other k j hji] at hj
      rw [other k l hli] at hl
      exact h k j l hj hl

/-- Emptying slots makes no doubles. -/
theorem Distinct.take {T' : SlotTable n κ α} (h : T.Distinct) (ht : ∀ i, T' i = T i ∨ T' i = none) : T'.Distinct := by
  have old : ∀ k i, T'.holds k i = true → T.holds k i = true := by
    intro k i hi
    obtain ⟨a, ha⟩ := holds_iff.mp hi
    rcases ht i with he | he
    · exact holds_iff.mpr ⟨a, he ▸ ha⟩
    · rw [he] at ha
      cases ha
  exact fun k i j hi hj => h k i j (old k i hi) (old k j hj)

theorem put_cases (T : SlotTable n κ α) (k : κ) (a : α) : T.put k a = T ∧ T.slot k = none ∧ T.free = none ∨
      ∃ i, T.put k a = Function.update T i (some (k, a)) ∧
        (T.slot k = some i ∨ T.slot k = none ∧ T.free = some i) := by
  unfold put
  cases hs : T.slot k with
  | some i => exact .inr ⟨i, rfl, .inl rfl⟩
  | none =>
    cases hf : T.free with
    | some i => exact .inr ⟨i, rfl, .inr ⟨rfl, rfl⟩⟩
    | none => exact .inl ⟨rfl, rfl, rfl⟩

theorem Distinct.put (h : T.Distinct) (k : κ) (a : α) : (T.put k a).Distinct := by
  rcases T.put_cases k a with ⟨he, -, -⟩ | ⟨i, he, hi⟩
  · rwa [he]
  · rw [he]
    refine h.update fun k' a' ho j hj => ?_
    obtain ⟨rfl, rfl⟩ := Prod.mk.inj (Option.some.inj ho)
    rw [Bool.eq_false_iff]
    intro hk
    rcases hi with hs | ⟨hs, -⟩
    · exact hj (h k j i hk (first_some hs))
    · exact absurd hk (by simp [first_none hs j])

theorem Distinct.drop (h : T.Distinct) (k : κ) : (T.drop k).Distinct := by
  unfold SlotTable.drop
  cases T.slot k with
  | none => exact h
  | some i => exact h.update fun _ _ ho => by cases ho

/-- A key is looked up after the change of a slot that is not its own. -/
theorem Distinct.get_update (h : T.Distinct) {o : Option (κ × α)}
    (hd : Distinct (Function.update T i o)) (hi : T.holds k i = false) (ho : ∀ a, o ≠ some (k, a)) :
    SlotTable.get (Function.update T i o) k = T.get k := by
  apply Option.ext
  intro a
  rw [hd.get, h.get]
  refine exists_congr fun j => ?_
  by_cases hj : j = i
  · subst hj
    rw [Function.update_self]
    refine iff_of_false (ho a) fun hk => ?_
    rw [holds_iff.mpr ⟨a, hk⟩] at hi
    cases hi
  · rw [Function.update_of_ne hj]

theorem holds_of_ne {k' : κ} (h : k ≠ k') (hi : T.holds k' i = true) : T.holds k i = false := by
  obtain ⟨a, ha⟩ := holds_iff.mp hi
  rw [holds, ha]
  simp [Ne.symm h]

theorem Distinct.get_put_of_ne (h : T.Distinct) {k' : κ} (hk : k ≠ k') (a : α) : (T.put k' a).get k = T.get k := by
  have hd := h.put k' a
  rcases T.put_cases k' a with ⟨he, -, -⟩ | ⟨i, he, hi⟩
  · rw [he]
  · rw [he] at hd ⊢
    refine h.get_update hd ?_ fun b hb => hk ?_
    · rcases hi with hs | ⟨-, hf⟩
      · exact holds_of_ne hk (first_some hs)
      · rw [holds, free_some hf]
        rfl
    · exact (Prod.mk.inj (Option.some.inj hb)).1.symm

/-- What is put is found, unless the table is full of other keys. -/
theorem Distinct.get_put_self (h : T.Distinct) (k : κ) (a : α) :
    (T.put k a).get k = if T.slot k = none ∧ T.free = none then none else some a := by
  have hd := h.put k a
  rcases T.put_cases k a with ⟨he, hs, hf⟩ | ⟨i, he, hi⟩
  · rw [he, if_pos ⟨hs, hf⟩, get_eq_none]
    exact hs
  · rw [if_neg, hd.get, he]
    · exact ⟨i, Function.update_self ..⟩
    · rintro ⟨hs, hf⟩
      rcases hi with hi | ⟨-, hi⟩
      · simp [hs] at hi
      · simp [hf] at hi

theorem Distinct.get_drop_of_ne (h : T.Distinct) {k' : κ} (hk : k ≠ k') : (T.drop k').get k = T.get k := by
  have hd := h.drop k'
  unfold SlotTable.drop at hd ⊢
  cases hs : T.slot k' with
  | none => rfl
  | some i =>
    rw [hs] at hd
    exact h.get_update hd (holds_of_ne hk (first_some hs)) fun _ hb => by cases hb

theorem Distinct.get_drop_self (h : T.Distinct) (k : κ) : (T.drop k).get k = none := by
  have hd := h.drop k
  rw [Option.eq_none_iff_forall_ne_some]
  intro a ha
  obtain ⟨j, hj⟩ := hd.get.mp ha
  unfold SlotTable.drop at hj
  cases hs : T.slot k with
  | none =>
    rw [hs] at hj
    exact slot_none hs j a hj
  | some i =>
    rw [hs] at hj
    by_cases hji : j = i
    · subst hji
      simp at hj
    · have hj' : T j = some (k, a) := by simpa [hji] using hj
      exact hji (h k j i (holds_iff.mpr ⟨a, hj'⟩) (first_some hs))

/-! Many keys are put one after the other. -/

def putAll (T : SlotTable n κ α) (l : List (κ × α)) : SlotTable n κ α := l.foldl (fun T p => T.put p.1 p.2) T

/-- The keys of a list that the table does not hold. -/
def newKeys (T : SlotTable n κ α) (l : List (κ × α)) : Finset κ :=
  (l.map Prod.fst).toFinset.filter fun k => (T.get k).isNone

/-- The value that a list has last for a key. -/
def lastOf (k : κ) (l : List (κ × α)) : Option α := (l.reverse.find? fun p => decide (p.1 = k)).map Prod.snd

theorem lastOf_cons_self (k : κ) (a : α) (l : List (κ × α)) : lastOf k ((k, a) :: l) = (lastOf k l).or (some a) := by
  rw [lastOf, lastOf, List.reverse_cons, List.find?_append, Option.map_or]
  simp

theorem lastOf_cons_of_ne {k' : κ} (h : k' ≠ k) (a : α) (l : List (κ × α)) :
    lastOf k ((k', a) :: l) = lastOf k l := by
  rw [lastOf, lastOf, List.reverse_cons, List.find?_append, Option.map_or]
  simp [h]

theorem room_put_of_held (h : T.slot k = some i) (a : α) : (T.put k a).room = T.room := by
  obtain ⟨b, hb⟩ := slot_some h
  refine Finset.filter_congr fun j _ => ?_
  rw [put, h, Option.some_or]
  by_cases hj : j = i
  · subst hj
    simp [hb]
  · simp [hj]

theorem room_put_of_new (h : T.slot k = none) (hf : T.free = some i)
    (a : α) : (T.put k a).room = T.room.erase i ∧ i ∈ T.room := by
  refine ⟨?_, Finset.mem_filter.mpr ⟨Finset.mem_univ i, by rw [free_some hf]; rfl⟩⟩
  ext j
  simp only [room, Finset.mem_filter, Finset.mem_univ, true_and, Finset.mem_erase]
  rw [put, h, hf, Option.none_or]
  by_cases hj : j = i
  · subst hj
    simp
  · simp [hj]

theorem newKeys_cons (T : SlotTable n κ α) (k : κ) (a : α) (l : List (κ × α)) :
    T.newKeys ((k, a) :: l) = if (T.get k).isNone then insert k (T.newKeys l) else T.newKeys l := by
  rw [newKeys, List.map_cons, List.toFinset_cons, Finset.filter_insert]
  rfl

theorem newKeys_congr {T' : SlotTable n κ α} (h : ∀ k, (T'.get k).isNone = (T.get k).isNone) (l : List (κ × α)) :
    T'.newKeys l = T.newKeys l := by
  simp only [newKeys, h]

/-- A key that was put is not new any more. -/
theorem newKeys_put (h : T.Distinct) {a : α} (hk : (T.put k a).get k = some a)
    (l : List (κ × α)) : (T.put k a).newKeys l = (T.newKeys l).erase k := by
  ext x
  simp only [newKeys, Finset.mem_filter, Finset.mem_erase]
  by_cases hx : x = k
  · subst hx
    simp [hk]
  · simp [hx, h.get_put_of_ne hx a]

/-- The key is held, or an empty slot is left when it first comes. -/
def Takes (T : SlotTable n κ α) (l : List (κ × α)) (k : κ) : Prop :=
  (T.get k).isSome ∨ (T.newKeys (l.takeWhile fun p => decide (p.1 ≠ k))).card < T.room.card

instance (T : SlotTable n κ α) (l : List (κ × α)) (k : κ) : Decidable (T.Takes l k) :=
  inferInstanceAs (Decidable (_ ∨ _))

/-- After many puts a key has the value put last, if there was a slot for it. -/
theorem Distinct.get_putAll (h : T.Distinct) (l : List (κ × α)) (k : κ) :
    (T.putAll l).get k = if T.Takes l k then (lastOf k l).or (T.get k) else none := by
  change _ = if (T.get k).isSome ∨ (T.newKeys (l.takeWhile fun p => decide (p.1 ≠ k))).card < T.room.card then _
    else _
  induction l generalizing T with
  | nil =>
    cases hg : T.get k with
    | none => simp [putAll, lastOf, hg]
    | some a => simp [putAll, lastOf, hg]
  | cons p l ih =>
    obtain ⟨k', a⟩ := p
    have step : T.putAll ((k', a) :: l) = (T.put k' a).putAll l := rfl
    have hput := h.get_put_self k' a
    rw [step, ih (h.put k' a)]
    by_cases hk : k' = k
    · subst hk
      rw [List.takeWhile_cons_of_neg (by simp), lastOf_cons_self]
      by_cases hfull : T.slot k' = none ∧ T.free = none
      · -- the table is full and stays so
        have hsame : T.put k' a = T := by rw [SlotTable.put, hfull.1, hfull.2]; rfl
        have hroom : T.room = ∅ := room_eq_empty.mpr hfull.2
        have hget : T.get k' = none := get_eq_none.mpr hfull.1
        simp [hsame, hroom, hget]
      · rw [if_neg hfull] at hput
        have hcond : (T.get k').isSome ∨ (T.newKeys []).card < T.room.card := by
          by_cases hs : T.slot k' = none
          · have hf : T.room ≠ ∅ := fun he => hfull ⟨hs, room_eq_empty.mp he⟩
            exact .inr (Finset.card_pos.mpr (Finset.nonempty_iff_ne_empty.mpr hf))
          · left
            rw [Option.isSome_iff_ne_none]
            exact fun hg => hs (get_eq_none.mp hg)
        rw [if_pos hcond, if_pos (.inl (by rw [hput]; rfl)), hput]
        cases lastOf k' l <;> rfl
    · have hget : (T.put k' a).get k = T.get k := h.get_put_of_ne (Ne.symm hk) a
      rw [List.takeWhile_cons_of_pos (by simp [hk]), lastOf_cons_of_ne hk, hget]
      congr 1
      refine propext (or_congr Iff.rfl ?_)
      generalize l.takeWhile (fun p => decide (p.1 ≠ k)) = l'
      rw [newKeys_cons]
      cases hs : T.slot k' with
      | some i =>
        -- nothing new
        have hg : ¬ (T.get k').isNone := by simp [get_eq_none, hs]
        rw [if_neg hg, room_put_of_held hs, newKeys_congr fun x => ?_]
        by_cases hx : x = k'
        · subst hx
          rw [hput, if_neg (by simp [hs]), Option.isNone_some]
          exact (Bool.eq_false_iff.mpr hg).symm
        · rw [h.get_put_of_ne hx]
      | none =>
        have hg : (T.get k').isNone := by simp [get_eq_none, hs]
        rw [if_pos hg]
        cases hf : T.free with
        | none =>
          have hsame : T.put k' a = T := by rw [SlotTable.put, hs, hf]; rfl
          have hroom : T.room = ∅ := room_eq_empty.mpr hf
          simp [hsame, hroom]
        | some i =>
          obtain ⟨hr, hm⟩ := room_put_of_new hs hf a
          rw [if_neg (by simp [hf])] at hput
          have hins : (insert k' (T.newKeys l')).card = ((T.newKeys l').erase k').card + 1 := by
            rw [← Finset.card_erase_add_one (Finset.mem_insert_self ..), Finset.erase_insert_eq_erase]
          have hera := Finset.card_erase_add_one hm
          rw [hr, newKeys_put h hput]
          omega

end SlotTable

end Angelic
