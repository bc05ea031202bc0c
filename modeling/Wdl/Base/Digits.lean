import Mathlib.Algebra.Order.Ring.Nat
import Mathlib.Data.Char
import Mathlib.Data.List.Lex

/-!
# Texts in lexicographic order

What it takes to find things in a lexicographically ordered set of texts by a prefix.

* The texts between a prefix and the prefix followed by one more character start with it.
* Numbers that are padded to one width are ordered like the numbers, and can be read back.
* Bytes are written as two hexadecimal digits each, and can be told apart.
-/

namespace Wdl

open List

section Lex

variable {α : Type*} [LinearOrder α]

/-- What lies between a prefix and an extension of it by one character starts with it. -/
theorem exists_append_of_between {p m : List α} {z : α} (hlo : p ≤ m) (hhi : m ≤ p ++ [z]) :
    ∃ r, m = p ++ r := by
  induction p generalizing m with
  | nil => exact ⟨m, rfl⟩
  | cons a p ih =>
    cases m with
    | nil => exact absurd (nil_lt_cons a p) (not_lt.2 hlo)
    | cons b m =>
      have hba := fun h => not_lt.2 hlo (cons_lt_cons_iff.2 h)
      have hab := fun h => not_lt.2 hhi (cons_lt_cons_iff.2 h)
      obtain rfl : a = b :=
        le_antisymm (not_lt.1 fun h => hba (.inl h)) (not_lt.1 fun h => hab (.inl h))
      obtain ⟨r, rfl⟩ := ih (not_lt.1 fun h => hba (.inr ⟨rfl, h⟩))
        (not_lt.1 fun h => hab (.inr ⟨rfl, h⟩))
      exact ⟨r, rfl⟩

theorem append_lt_append_left (p : List α) {l l' : List α} (h : l < l') : p ++ l < p ++ l' := by
  induction p with
  | nil => exact h
  | cons a p ih => exact cons_lt_cons_iff.2 (.inr ⟨rfl, ih⟩)

/-- Texts of one length that differ are in the order of their first difference, whatever
    follows. -/
theorem append_lt_append_of_lt {l l' : List α} (hlen : l.length = l'.length) (h : l < l')
    (r r' : List α) : l ++ r < l' ++ r' := by
  induction l generalizing l' with
  | nil =>
    obtain rfl := length_eq_zero_iff.1 hlen.symm
    exact absurd h (lt_irrefl _)
  | cons a l ih =>
    cases l' with
    | nil => cases hlen
    | cons b l' =>
      rcases cons_lt_cons_iff.1 h with hlt | ⟨rfl, hlt⟩
      · exact cons_lt_cons_iff.2 (.inl hlt)
      · exact cons_lt_cons_iff.2 (.inr ⟨rfl, ih (Nat.succ.inj hlen) hlt⟩)

end Lex

/-! ## Decimal digits -/

/-- The decimal digits of a number, padded to a width. -/
def paddedDigits : ℕ → ℕ → List Char
  | 0, _ => []
  | w + 1, n => paddedDigits w (n / 10) ++ [Nat.digitChar (n % 10)]

/-- The number that decimal digits denote. -/
def digitsValue (l : List Char) : ℕ := l.foldl (fun n c => 10 * n + (c.toNat - '0'.toNat)) 0

theorem digitChar_isDigit : ∀ d < 10, (Nat.digitChar d).isDigit = true := by decide

theorem digitChar_lt : ∀ d < 10, ∀ d' < d, Nat.digitChar d' < Nat.digitChar d := by decide

theorem digitChar_toNat : ∀ d < 10, (Nat.digitChar d).toNat - '0'.toNat = d := by decide

@[simp] theorem length_paddedDigits (w n : ℕ) : (paddedDigits w n).length = w := by
  induction w generalizing n with
  | zero => rfl
  | succ w ih => rw [paddedDigits, length_append, ih, length_singleton]

theorem isDigit_of_mem_paddedDigits {w n : ℕ} {c : Char} (h : c ∈ paddedDigits w n) :
    c.isDigit = true := by
  induction w generalizing n with
  | zero => cases h
  | succ w ih =>
    rcases mem_append.1 h with h | h
    · exact ih h
    · rw [mem_singleton.1 h]
      exact digitChar_isDigit _ (Nat.mod_lt _ (by decide))

theorem digitsValue_paddedDigits {w n : ℕ} (h : n < 10 ^ w) :
    digitsValue (paddedDigits w n) = n := by
  induction w generalizing n with
  | zero =>
    rw [pow_zero, Nat.lt_one_iff] at h
    rw [h]
    rfl
  | succ w ih =>
    have hdiv : n / 10 < 10 ^ w := Nat.div_lt_of_lt_mul (by rw [← pow_succ']; exact h)
    rw [digitsValue, paddedDigits, foldl_append]
    change 10 * digitsValue (paddedDigits w (n / 10)) + _ = n
    rw [ih hdiv, digitChar_toNat _ (Nat.mod_lt _ (by decide))]
    exact Nat.div_add_mod n 10

theorem paddedDigits_lt {w n n' : ℕ} (h : n < n') (h' : n' < 10 ^ w) :
    paddedDigits w n < paddedDigits w n' := by
  induction w generalizing n n' with
  | zero =>
    omega
  | succ w ih =>
    have hdiv : n' / 10 < 10 ^ w := Nat.div_lt_of_lt_mul (by rw [← pow_succ']; exact h')
    have hmod : n' % 10 < 10 := Nat.mod_lt _ (by decide)
    -- the numbers differ before the last digit, or only there
    rcases Nat.lt_or_eq_of_le (Nat.div_le_div_right (c := 10) h.le) with hlt | heq
    · refine append_lt_append_of_lt ?_ (ih hlt hdiv) _ _
      rw [length_paddedDigits, length_paddedDigits]
    · have hlast : n % 10 < n' % 10 := by omega
      rw [paddedDigits, paddedDigits, heq]
      exact append_lt_append_left _ (cons_lt_cons_iff.2 (.inl (digitChar_lt _ hmod _ hlast)))

/-! ## Hexadecimal digits -/

/-- The two hexadecimal digits of a byte. -/
def hexByte (b : UInt8) : List Char := [Nat.digitChar (b.toNat / 16), Nat.digitChar (b.toNat % 16)]

theorem hexDigit_ne_colon : ∀ d < 16, Nat.digitChar d ≠ ':' := by decide

theorem hexDigit_inj : ∀ d < 16, ∀ d' < 16, Nat.digitChar d = Nat.digitChar d' → d = d' := by decide

theorem ne_colon_of_mem_hexByte {b : UInt8} {c : Char} (h : c ∈ hexByte b) : c ≠ ':' := by
  have hb : b.toNat < 256 := b.toNat_lt
  simp only [hexByte, mem_cons, not_mem_nil, or_false] at h
  rcases h with rfl | rfl
  · exact hexDigit_ne_colon _ (by omega)
  · exact hexDigit_ne_colon _ (by omega)

theorem hexByte_inj {b b' : UInt8} (h : hexByte b = hexByte b') : b = b' := by
  have hb : b.toNat < 256 := b.toNat_lt
  have hb' : b'.toNat < 256 := b'.toNat_lt
  simp only [hexByte, List.cons.injEq, and_true] at h
  have hhi := hexDigit_inj _ (by omega) _ (by omega) h.1
  have hlo := hexDigit_inj _ (by omega) _ (by omega) h.2
  exact UInt8.toNat_inj.1 (by omega)

theorem flatMap_hexByte_inj {t t' : List UInt8} (h : t.flatMap hexByte = t'.flatMap hexByte) :
    t = t' := by
  induction t generalizing t' with
  | nil =>
    cases t' with
    | nil => rfl
    | cons b t' => cases h
  | cons b t ih =>
    cases t' with
    | nil => cases h
    | cons b' t' =>
      obtain ⟨hb, ht⟩ := append_inj h rfl
      rw [hexByte_inj hb, ih ht]

end Wdl
