import Wdl.Base.Lru
import Mathlib.Algebra.BigOperators.Group.List.Basic
import Mathlib.Algebra.Order.Ring.Int

/-!
# Tallied entries

A program keeps entries in the order of their insertion, and a counter of their sizes next to
them. The counter is never computed anew: what an entry that comes, goes or changes adds to it is
added to it. `Tallied` says that it is the sum of the sizes.
-/

namespace Wdl

open List

open Lru (without)

variable {κ ν : Type} {P : ν → Prop} {size : ν → ℤ} {l : List (κ × ν)} {b : ℤ} {k : κ} {v w : ν}

/-- The entries have different keys, satisfy `P`, and their sizes sum up to the counter. -/
structure Tallied (P : ν → Prop) (size : ν → ℤ) (l : List (κ × ν)) (b : ℤ) : Prop where
  nodup : (l.map Prod.fst).Nodup
  all : ∀ e ∈ l, P e.2
  total : b = (l.map fun e => size e.2).sum

/-- The oldest entries go while the number of the entries and the counter are over a bound. -/
def evict (full : ℕ → ℤ → Bool) (size : ν → ℤ) : List (κ × ν) → ℤ → List (κ × ν) × ℤ
  | [], b => ([], b)
  | e :: l, b => if full (l.length + 1) b then evict full size l (b - size e.2) else (e :: l, b)

theorem evict_suffix (full : ℕ → ℤ → Bool) : (evict full size l b).1 <:+ l := by
  induction l generalizing b with
  | nil => exact suffix_rfl
  | cons e l ih =>
    unfold evict
    split
    case isTrue => exact ih.trans (suffix_cons e l)
    case isFalse => exact suffix_rfl

namespace Tallied

theorem nil : Tallied P size ([] : List (κ × ν)) 0 := ⟨List.nodup_nil, by simp, rfl⟩

theorem perm {l' : List (κ × ν)} (h : Tallied P size l b) (hl : l.Perm l') :
    Tallied P size l' b where
  nodup := (hl.map _).nodup_iff.1 h.nodup
  all e he := h.all e (hl.mem_iff.2 he)
  total := h.total.trans (hl.map _).sum_eq

theorem tail {e : κ × ν} (h : Tallied P size (e :: l) b) : Tallied P size l (b - size e.2) where
  nodup := (List.nodup_cons.1 h.nodup).2
  all e' he' := h.all e' (List.mem_cons_of_mem e he')
  total := by rw [h.total, List.map_cons, List.sum_cons, add_sub_cancel_left]

theorem cons (h : Tallied P size l b) (hk : k ∉ l.map Prod.fst) (hv : P v) :
    Tallied P size ((k, v) :: l) (b + size v) where
  nodup := List.nodup_cons.2 ⟨hk, h.nodup⟩
  all := List.forall_mem_cons.2 ⟨hv, h.all⟩
  total := by rw [h.total, List.map_cons, List.sum_cons, add_comm]

theorem snoc (h : Tallied P size l b) (hk : k ∉ l.map Prod.fst) (hv : P v) :
    Tallied P size (l ++ [(k, v)]) (b + size v) :=
  (h.cons hk hv).perm (perm_append_singleton _ l).symm

theorem evict (h : Tallied P size l b) (full : ℕ → ℤ → Bool) :
    Tallied P size (evict full size l b).1 (evict full size l b).2 := by
  induction l generalizing b with
  | nil => exact h
  | cons e l ih =>
    unfold Wdl.evict
    split
    case isTrue => exact ih h.tail
    case isFalse => exact h

/-- Nothing is over the bound any more, or nothing is left. -/
theorem evict_within (h : Tallied P size l b) (full : ℕ → ℤ → Bool) :
    (Wdl.evict full size l b).1 = [] ∧ (Wdl.evict full size l b).2 = 0 ∨
      full (Wdl.evict full size l b).1.length (Wdl.evict full size l b).2 = false := by
  induction l generalizing b with
  | nil => exact .inl ⟨rfl, h.total⟩
  | cons e l ih =>
    unfold Wdl.evict
    split
    case isTrue => exact ih h.tail
    case isFalse hover => exact .inr (Bool.eq_false_of_not_eq_true hover)

variable [DecidableEq κ]

theorem notMem_keys_without : k ∉ (without k l).map Prod.fst := by
  rintro hk
  obtain ⟨e, he, rfl⟩ := mem_map.1 hk
  exact (Lru.mem_without.1 he).2 rfl

theorem notMem_keys_of_lookup (h : l.lookup k = none) : k ∉ l.map Prod.fst := by
  rintro hk
  obtain ⟨e, he, rfl⟩ := mem_map.1 hk
  exact absurd (lookup_eq_none_iff.1 h e he) (by simp)

theorem perm_cons_without (h : (l.map Prod.fst).Nodup) (hk : l.lookup k = some v) :
    l.Perm ((k, v) :: without k l) := by
  induction l with
  | nil => cases hk
  | cons e l ih =>
    obtain ⟨hmem, hl⟩ := nodup_cons.1 h
    rw [lookup_cons] at hk
    split at hk
    case h_1 he =>
      obtain rfl := eq_of_beq he
      have hrest : without e.1 l = l := filter_eq_self.2 fun e' he' =>
        decide_eq_true fun heq => hmem (mem_map.2 ⟨e', he', heq⟩)
      rw [without, filter_cons_of_neg (by simp), ← without, hrest, ← Option.some.inj hk]
    case h_2 he =>
      have hne : e.1 ≠ k := fun heq => by simp [heq] at he
      rw [without, filter_cons_of_pos (by simpa using hne), ← without]
      exact ((ih hl hk).cons e).trans (.swap _ _ _)

theorem all_of_lookup (h : Tallied P size l b) (hk : l.lookup k = some v) : P v :=
  (h.perm (perm_cons_without h.nodup hk)).all _ mem_cons_self

theorem length_without_append (h : (l.map Prod.fst).Nodup) (hk : l.lookup k = some v) :
    (without k l ++ [(k, w)]).length = l.length :=
  length_append.trans (perm_cons_without h hk).length_eq.symm

section

variable (h : Tallied P size l b) (hk : l.lookup k = some v)

include h hk

theorem erase :
    Tallied P size (without k l) (b - size v) :=
  (h.perm (perm_cons_without h.nodup hk)).tail

theorem move (hw : P w) :
    Tallied P size (without k l ++ [(k, w)]) (b + (size w - size v)) := by
  have hmove := (h.erase hk).snoc notMem_keys_without hw
  rwa [sub_add_eq_add_sub, add_sub_assoc] at hmove

theorem replace (hw : P w) :
    Tallied P size (l.map fun e => if e.1 = k then (k, w) else e) (b + (size w - size v)) := by
  refine (h.move hk hw).perm (((perm_cons_without h.nodup hk).map _).trans ?_).symm
  have hrest : (without k l).map (fun e => if e.1 = k then (k, w) else e) = without k l :=
    (map_congr_left fun e he => if_neg (Lru.mem_without.1 he).2).trans (map_id' _)
  rw [map_cons, hrest, if_pos rfl]
  exact (perm_append_singleton _ _).symm

end

end Tallied

end Wdl
