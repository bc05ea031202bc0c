import Mathlib.Data.List.Nodup

/-!
# Bounded caches

A cache keeps at most a fixed number of entries, in the order in which they were last used:
an entry that is read or written becomes the last one, and when there is no room for another
entry the first one goes. A cache never makes up an entry: what is in it after an operation
was in it before, or is what the operation put there.
-/

namespace Wdl

open List

/-- A cache of at most `bound` entries. -/
structure Lru (κ ν : Type) (bound : ℕ) where
  /-- The entries, the one that was used last at the end. -/
  entries : List (κ × ν)
  nodup : (entries.map Prod.fst).Nodup
  bounded : entries.length ≤ bound

namespace Lru

/-- The cache without entries. -/
def empty (κ ν : Type) (bound : ℕ) : Lru κ ν bound := ⟨[], List.nodup_nil, Nat.zero_le _⟩

variable {κ ν : Type} {bound : ℕ} [DecidableEq κ]

/-- Entries without the one of a key. -/
def without (k : κ) (entries : List (κ × ν)) : List (κ × ν) := entries.filter fun e => e.1 ≠ k

variable {k : κ} {entries : List (κ × ν)} {e : κ × ν}

theorem mem_without :
    e ∈ without k entries ↔ e ∈ entries ∧ e.1 ≠ k := by
  rw [without, mem_filter, decide_eq_true_eq]

theorem nodup_without (h : (entries.map Prod.fst).Nodup) :
    ((without k entries).map Prod.fst).Nodup :=
  h.sublist (filter_sublist.map _)

theorem length_without_le (k : κ) (entries : List (κ × ν)) :
    (without k entries).length ≤ entries.length :=
  length_filter_le _ _

variable {v : ν}

theorem nodup_without_append (h : (entries.map Prod.fst).Nodup) :
    ((without k entries ++ [(k, v)]).map Prod.fst).Nodup := by
  rw [map_append, map_singleton, ← concat_eq_append]
  refine (nodup_without h).concat fun hk => ?_
  obtain ⟨e, he, hek⟩ := mem_map.mp hk
  exact (mem_without.mp he).2 hek

/-- An entry that is there makes the others fewer. -/
theorem length_without_append_le {w : ν} (h : (k, v) ∈ entries) :
    (without k entries ++ [(k, w)]).length ≤ entries.length := by
  rw [length_append, length_singleton]
  exact length_filter_lt_length_iff_exists.mpr ⟨(k, v), h, by simp⟩

theorem length_tail_without_append_le (k : κ) (v : ν) (entries : List (κ × ν)) :
    (without k entries ++ [(k, v)]).tail.length ≤ entries.length := by
  rw [length_tail, length_append, length_singleton, Nat.add_sub_cancel]
  exact length_without_le k entries

/-- What the cache holds for a key. -/
def get? (c : Lru κ ν bound) (k : κ) : Option ν := c.entries.lookup k

variable {c : Lru κ ν bound}

theorem mem_of_get? (h : c.get? k = some v) :
    (k, v) ∈ c.entries := by
  obtain ⟨l₁, l₂, hl, -⟩ := lookup_eq_some_iff.mp h
  rw [hl]
  exact mem_append_right _ mem_cons_self

/-- The entry of a key is gone. -/
def delete (c : Lru κ ν bound) (k : κ) : Lru κ ν bound where
  entries := without k c.entries
  nodup := nodup_without c.nodup
  bounded := Nat.le_trans (length_without_le k c.entries) c.bounded

/-- The entry of a key becomes the last one. -/
def touch (c : Lru κ ν bound) (k : κ) (v : ν) (h : c.get? k = some v) : Lru κ ν bound where
  entries := without k c.entries ++ [(k, v)]
  nodup := nodup_without_append c.nodup
  bounded := Nat.le_trans (length_without_append_le (mem_of_get? h)) c.bounded

/-- The entry of a key is written, and becomes the last one. -/
def set (c : Lru κ ν bound) (k : κ) (v : ν) : Lru κ ν bound :=
  if h : (without k c.entries ++ [(k, v)]).length ≤ bound then
    { entries := without k c.entries ++ [(k, v)]
      nodup := nodup_without_append c.nodup
      bounded := h }
  else
    { entries := (without k c.entries ++ [(k, v)]).tail
      nodup := (nodup_without_append c.nodup).sublist ((List.tail_sublist _).map _)
      bounded := Nat.le_trans (length_tail_without_append_le k v c.entries) c.bounded }

theorem mem_of_mem_touch {h : c.get? k = some v} (he : e ∈ (c.touch k v h).entries) :
    e ∈ c.entries := by
  rcases mem_append.mp he with he | he
  · exact (mem_without.mp he).1
  · rw [mem_singleton.mp he]
    exact mem_of_get? h

/-- What is in the cache after a write was there, or is what was written. -/
theorem mem_of_mem_set (h : e ∈ (c.set k v).entries) : e ∈ c.entries ∨ e = (k, v) := by
  have happ : e ∈ without k c.entries ++ [(k, v)] := by
    unfold set at h
    split at h
    case isTrue => exact h
    case isFalse => exact mem_of_mem_tail h
  rcases mem_append.mp happ with he | he
  · exact .inl (mem_without.mp he).1
  · exact .inr (mem_singleton.mp he)

end Lru

end Wdl
