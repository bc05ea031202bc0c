import Mathlib.Algebra.Order.BigOperators.Group.Multiset
import Mathlib.Algebra.Order.Ring.Nat
import Mathlib.Data.Finmap

/-!
# Hashes and the size of what they hold

A hash of the store is a finite map. What matters beyond Mathlib's `Finmap` is
the total size of its values, and how writing a field changes it: the old value
of the field leaves the total and the new one enters it (`Hash.total_insert`).
-/

namespace Wdl

open Finmap

/-- A hash: a finite map from fields to values. -/
abbrev Hash (κ ν : Type) := Finmap fun _ : κ => ν

namespace Hash

variable {κ ν : Type} (size : ν → ℕ)

/-- The total size of the values of a hash. -/
def total (h : Hash κ ν) : ℕ := (h.entries.map fun e => size e.2).sum

@[simp] theorem total_empty : total size (∅ : Hash κ ν) = 0 := rfl

theorem card_keys_le_total (hpos : ∀ v, 0 < size v) (h : Hash κ ν) :
    h.keys.card ≤ total size h := by
  have hsum :=
    Multiset.card_nsmul_le_sum (s := h.entries.map fun e => size e.2) (a := 1) fun n hn => by
    obtain ⟨e, -, rfl⟩ := Multiset.mem_map.1 hn
    exact hpos e.2
  rw [Multiset.card_map, nsmul_eq_mul, mul_one, Nat.cast_id] at hsum
  exact (Multiset.card_map _ _).trans_le hsum

variable [DecidableEq κ]

/-- Some field of the hash satisfies `p`. -/
def Any (h : Hash κ ν) (p : κ → ν → Prop) : Prop := ∃ e ∈ h.entries, p e.1 e.2

instance (h : Hash κ ν) (p : κ → ν → Prop) [∀ k v, Decidable (p k v)] : Decidable (h.Any p) :=
  Multiset.decidableExistsMultiset

variable {h : Hash κ ν}

theorem any_iff {p : κ → ν → Prop} :
    h.Any p ↔ ∃ k v, h.lookup k = some v ∧ p k v := by
  constructor
  · rintro ⟨⟨k, v⟩, he, hp⟩
    exact ⟨k, v, lookup_eq_some_iff.2 he, hp⟩
  · rintro ⟨k, v, hv, hp⟩
    exact ⟨⟨k, v⟩, lookup_eq_some_iff.1 hv, hp⟩

theorem ne_empty_iff : h ≠ ∅ ↔ ∃ k v, h.lookup k = some v := by
  constructor
  · intro hne
    by_contra hnone
    refine hne (ext_lookup fun k => ?_)
    cases hk : h.lookup k with
    | none => rfl
    | some v => exact absurd ⟨k, v, hk⟩ hnone
  · rintro ⟨k, v, hk⟩ rfl
    simp at hk

variable {k : κ}

theorem erase_eq_empty_iff (hk : k ∈ h) : h.erase k = ∅ ↔ h.keys = {k} := by
  have hmem : k ∈ h.keys := mem_keys.2 hk
  rw [Finset.eq_singleton_iff_unique_mem, and_iff_right hmem]
  constructor
  · intro hempty j hj
    by_contra hne
    have hj' : j ∈ h.erase k := mem_erase.2 ⟨hne, mem_keys.1 hj⟩
    rw [hempty] at hj'
    exact notMem_empty hj'
  · intro honly
    by_contra hne
    obtain ⟨j, v, hj⟩ := ne_empty_iff.1 hne
    obtain ⟨hjk, hj⟩ := mem_erase.1 (mem_of_lookup_eq_some hj)
    exact hjk (honly j (mem_keys.2 hj))

theorem erase_of_lookup_none (hk : h.lookup k = none) : h.erase k = h := by
  refine ext_lookup fun j => ?_
  by_cases hj : j = k
  · rw [hj, hk, lookup_erase]
  · rw [lookup_erase_ne hj]

theorem lookup_insert_ite (h : Hash κ ν) (k j : κ) (v : ν) :
    (h.insert k v).lookup j = if j = k then some v else h.lookup j := by
  split_ifs with hj
  · rw [hj, lookup_insert]
  · exact lookup_insert_of_ne _ hj

/-- The size of the value of a field, zero when there is none. -/
def sizeAt (h : Hash κ ν) (k : κ) : ℕ := (h.lookup k).elim 0 size

theorem sizeAt_of_lookup {v : ν} (hv : h.lookup k = some v) :
    sizeAt size h k = size v := by
  rw [sizeAt, hv, Option.elim_some]

theorem sizeAt_of_lookup_none (hv : h.lookup k = none) :
    sizeAt size h k = 0 := by
  rw [sizeAt, hv, Option.elim_none]

theorem total_insert_of_notMem (v : ν) (hk : k ∉ h) :
    total size (h.insert k v) = size v + total size h := by
  rw [total, entries_insert_of_notMem hk, Multiset.map_cons, Multiset.sum_cons, total]

/-- The fields other than `k` and the field `k` make up the hash. -/
theorem total_erase_add (h : Hash κ ν) (k : κ) :
    total size (h.erase k) + sizeAt size h k = total size h := by
  cases hv : h.lookup k with
  | none =>
    rw [sizeAt_of_lookup_none size hv, Nat.add_zero]
    congr 1
    refine ext_lookup fun j => ?_
    by_cases hj : j = k
    · rw [hj, lookup_erase, hv]
    · exact lookup_erase_ne hj
  | some v =>
    have hins : (h.erase k).insert k v = h := by
      refine ext_lookup fun j => ?_
      by_cases hj : j = k
      · rw [hj, lookup_insert, hv]
      · rw [lookup_insert_of_ne _ hj, lookup_erase_ne hj]
    have hk : k ∉ h.erase k := by simp
    calc total size (h.erase k) + sizeAt size h k
        = size v + total size (h.erase k) := by rw [sizeAt_of_lookup size hv, Nat.add_comm]
      _ = total size ((h.erase k).insert k v) := (total_insert_of_notMem size v hk).symm
      _ = total size h := by rw [hins]

/-- Writing a field replaces the size of its old value by that of the new one. -/
theorem total_insert (h : Hash κ ν) (k : κ) (v : ν) :
    total size (h.insert k v) + sizeAt size h k = total size h + size v := by
  have hins : h.insert k v = (h.erase k).insert k v := by
    refine ext_lookup fun j => ?_
    by_cases hj : j = k
    · rw [hj, lookup_insert, lookup_insert]
    · rw [lookup_insert_of_ne _ hj, lookup_insert_of_ne _ hj,
        lookup_erase_ne hj]
  have hk : k ∉ h.erase k := by simp
  rw [hins, total_insert_of_notMem size v hk, Nat.add_assoc, total_erase_add, Nat.add_comm]

end Hash

end Wdl
