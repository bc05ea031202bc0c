import Mathlib.Data.Finset.Card

/-!
# Counted entries

A reference count stands for a number of entries of a table: those that hold the reference.
`Counted f p n` says that the table `f` has `n` entries that satisfy `p`. The lemmas say what
becomes of the count when one entry of the table changes.
-/

namespace Wdl

open Finset

variable {ι β : Type} {f : ι → Option β} {p : β → Prop} {n : ℕ} {i : ι} {b : β}

/-- There is an entry at an index, and it satisfies `p`. -/
def EntryAt (f : ι → Option β) (p : β → Prop) (i : ι) : Prop := ∃ b, f i = some b ∧ p b

/-- The table has `n` entries that satisfy `p`. -/
def Counted (f : ι → Option β) (p : β → Prop) (n : ℕ) : Prop :=
  ∃ ids : Finset ι, (∀ i, i ∈ ids ↔ EntryAt f p i) ∧ n = ids.card

theorem not_entryAt_of_eq_none (h : f i = none) : ¬ EntryAt f p i := by
  rintro ⟨b, hb, -⟩
  exact Option.some_ne_none b (hb.symm.trans h)

theorem entryAt_iff (h : f i = some b) : EntryAt f p i ↔ p b := by
  constructor
  · rintro ⟨b', hb', hp⟩
    exact Option.some.inj (h.symm.trans hb') ▸ hp
  · exact fun hp => ⟨b, h, hp⟩

theorem Counted.zero (h : ∀ i, ¬ EntryAt f p i) : Counted f p 0 :=
  ⟨∅, fun i => iff_of_false (notMem_empty i) (h i), rfl⟩

theorem Counted.congr {g : ι → Option β} (h : Counted f p n)
    (hfg : ∀ i, EntryAt f p i ↔ EntryAt g p i) : Counted g p n := by
  obtain ⟨ids, hids, hn⟩ := h
  exact ⟨ids, fun i => (hids i).trans (hfg i), hn⟩

/-- An entry that is counted keeps the count from being zero. -/
theorem Counted.pos (h : Counted f p n) (hi : EntryAt f p i) : 0 < n := by
  obtain ⟨ids, hids, rfl⟩ := h
  exact card_pos.mpr ⟨i, (hids i).mpr hi⟩

variable [DecidableEq ι] {v : Option β}

theorem entryAt_update_self : EntryAt (Function.update f i v) p i ↔
    ∃ b, v = some b ∧ p b := by
  rw [EntryAt, Function.update_self]

theorem entryAt_update_of_ne {j : ι} (hj : j ≠ i) :
    EntryAt (Function.update f i v) p j ↔ EntryAt f p j := by
  rw [EntryAt, Function.update_of_ne hj, EntryAt]

theorem Counted.update (h : Counted f p n)
    (hv : EntryAt f p i ↔ ∃ b, v = some b ∧ p b) : Counted (Function.update f i v) p n := by
  refine h.congr fun j => ?_
  by_cases hj : j = i
  · rw [hj, entryAt_update_self]
    exact hv
  · rw [entryAt_update_of_ne hj]

theorem Counted.insert (h : Counted f p n) (hi : ¬ EntryAt f p i) (hb : p b) :
    Counted (Function.update f i (some b)) p (n + 1) := by
  obtain ⟨ids, hids, rfl⟩ := h
  have hmem : i ∉ ids := fun hmem => hi ((hids i).mp hmem)
  refine ⟨Insert.insert i ids, fun j => ?_, (card_insert_of_notMem hmem).symm⟩
  rw [mem_insert]
  by_cases hj : j = i
  · rw [hj, entryAt_update_self]
    exact iff_of_true (.inl rfl) ⟨b, rfl, hb⟩
  · rw [entryAt_update_of_ne hj, hids]
    exact or_iff_right hj

theorem Counted.erase (h : Counted f p n) (hi : EntryAt f p i) :
    Counted (Function.update f i none) p (n - 1) := by
  obtain ⟨ids, hids, rfl⟩ := h
  refine ⟨ids.erase i, fun j => ?_, (card_erase_of_mem ((hids i).mpr hi)).symm⟩
  rw [mem_erase]
  by_cases hj : j = i
  · rw [hj, entryAt_update_self]
    exact iff_of_false (fun hne => hne.1 rfl) fun hsome =>
      hsome.elim fun b hb => Option.some_ne_none b hb.1.symm
  · rw [entryAt_update_of_ne hj, hids]
    exact and_iff_right hj

end Wdl
