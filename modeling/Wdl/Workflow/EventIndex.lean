import Wdl.Base.Digits
import Wdl.Workflow.State
import Mathlib.Data.Finset.Sort

/-!
# The index of events by type

Events are found through a lexicographically ordered set. The member of an event
is the hexadecimal text of its type, a colon, and its sequence number padded to
twenty digits, and the events of a type are the range between its prefix and the
prefix followed by `~`.

* The range of a type has no members of other types (`type_of_mem_range`).
* Members of one type are ordered like their events (`eventTypeIndexMember_lt`), and
  the event can be read off its member (`eventIdFromIndexMember_member`).
-/

namespace Wdl.Workflow

open List

/-- The prefix of the members of an event type. -/
def eventTypeIndexPrefix (t : EventType) : List Char := t.flatMap hexByte ++ [':']

/-- The member of the event `id`, given the prefix of its type. -/
def indexMember (pre : List Char) (id : ℕ) : List Char := pre ++ paddedDigits 20 id

/-- The member of the event `id` of a type. -/
def eventTypeIndexMember (t : EventType) (id : ℕ) : List Char :=
  indexMember (eventTypeIndexPrefix t) id

/-- The sequence number in a member: what follows its last colon, when it is
    twenty digits. -/
def eventIdFromIndexMember (m : List Char) : Option ℕ :=
  let raw := (m.reverse.takeWhile (· ≠ ':')).reverse
  if ':' ∈ m ∧ raw.length = 20 ∧ raw.all Char.isDigit then some (digitsValue raw) else none

/-- `ZRANGEBYLEX` with closed bounds and a limit. -/
def zrangebylex (z : Finset (List Char)) (lo hi : List Char) (limit : ℕ) : List (List Char) :=
  ((z.filter fun m => lo ≤ m ∧ m ≤ hi).sort (· ≤ ·)).take limit

/-- The members of the index within the range of a prefix. -/
def indexRange (z : Finset (List Char)) (pre : List Char) (limit : ℕ) : List (List Char) :=
  zrangebylex z pre (pre ++ ['~']) limit

example : eventTypeIndexMember [0x6f, 0x4b] 17 = "6f4b:00000000000000000017".toList := by decide

example : eventIdFromIndexMember "6f4b:00000000000000000017".toList = some 17 := by decide

/-! ## Members -/

variable {t t' : EventType} {id id' : ℕ}

theorem colon_notMem_hex (t : EventType) : ':' ∉ t.flatMap hexByte := by
  intro h
  obtain ⟨b, -, hb⟩ := mem_flatMap.1 h
  exact ne_colon_of_mem_hexByte hb rfl

theorem colon_notMem_digits (w n : ℕ) : ':' ∉ paddedDigits w n :=
  fun h => absurd (isDigit_of_mem_paddedDigits h) (by decide)

/-- A member says of which type it is. -/
theorem eventTypeIndexPrefix_inj {r r' : List Char}
    (h : eventTypeIndexPrefix t ++ r = eventTypeIndexPrefix t' ++ r') : t = t' := by
  rw [eventTypeIndexPrefix, eventTypeIndexPrefix, append_assoc, append_assoc,
    singleton_append, singleton_append] at h
  -- the type is what comes before the first colon
  have hbefore : ∀ (t : EventType) (r : List Char),
      (t.flatMap hexByte ++ ':' :: r).takeWhile (· ≠ ':') = t.flatMap hexByte := by
    intro t r
    rw [takeWhile_append_of_pos fun c hc => ?_]
    · simp
    · exact decide_eq_true fun (hcolon : c = ':') => colon_notMem_hex t (hcolon ▸ hc)
  have htype : t.flatMap hexByte = t'.flatMap hexByte := by
    rw [← hbefore t r, ← hbefore t' r', h]
  exact flatMap_hexByte_inj htype

theorem eventIdFromIndexMember_member (t : EventType) (h : id < 10 ^ 20) :
    eventIdFromIndexMember (eventTypeIndexMember t id) = some id := by
  have hraw : ((eventTypeIndexMember t id).reverse.takeWhile (· ≠ ':')).reverse =
      paddedDigits 20 id := by
    rw [eventTypeIndexMember, indexMember, eventTypeIndexPrefix, reverse_append,
      reverse_append, takeWhile_append_of_pos fun c hc => ?_]
    · simp
    · exact decide_eq_true fun (hcolon : c = ':') =>
        colon_notMem_digits 20 id (hcolon ▸ mem_reverse.1 hc)
  have hcolon : ':' ∈ eventTypeIndexMember t id := by
    rw [eventTypeIndexMember, indexMember, eventTypeIndexPrefix]
    simp
  have hdigits : (paddedDigits 20 id).all Char.isDigit = true :=
    all_eq_true.2 fun c hc => isDigit_of_mem_paddedDigits hc
  rw [eventIdFromIndexMember, hraw, if_pos ⟨hcolon, length_paddedDigits 20 id, hdigits⟩,
    digitsValue_paddedDigits h]

theorem eventTypeIndexMember_inj (h : eventTypeIndexMember t id = eventTypeIndexMember t' id')
    (hid : id < 10 ^ 20) (hid' : id' < 10 ^ 20) : id = id' := by
  have hread := eventIdFromIndexMember_member t hid
  rw [h, eventIdFromIndexMember_member t' hid'] at hread
  exact (Option.some.inj hread).symm

theorem eventTypeIndexMember_lt (t : EventType) (h : id < id') (hid' : id' < 10 ^ 20) :
    eventTypeIndexMember t id < eventTypeIndexMember t id' :=
  append_lt_append_left _ (paddedDigits_lt h hid')

/-! ## The range of a type -/

theorem eventTypeIndexMember_mem_range (t : EventType) (id : ℕ) :
    eventTypeIndexPrefix t ≤ eventTypeIndexMember t id ∧
      eventTypeIndexMember t id ≤ eventTypeIndexPrefix t ++ ['~'] := by
  obtain ⟨d, l, hl⟩ : ∃ d l, paddedDigits 20 id = d :: l := by
    refine exists_cons_of_length_pos ?_
    rw [length_paddedDigits]
    decide
  have hdigit : d.isDigit = true := isDigit_of_mem_paddedDigits (hl ▸ mem_cons_self)
  have hd : d < '~' := by
    simp only [Char.isDigit, Bool.and_eq_true, decide_eq_true_eq] at hdigit
    exact lt_of_le_of_lt hdigit.2 (by decide)
  rw [eventTypeIndexMember, indexMember, hl]
  constructor
  · have h := append_lt_append_left (eventTypeIndexPrefix t) (nil_lt_cons d l)
    rw [append_nil] at h
    exact h.le
  · exact (append_lt_append_left _ (cons_lt_cons_iff.2 (.inl hd))).le

/-- The range of a type has no members of other types. -/
theorem type_of_mem_range (hlo : eventTypeIndexPrefix t ≤ eventTypeIndexMember t' id)
    (hhi : eventTypeIndexMember t' id ≤ eventTypeIndexPrefix t ++ ['~']) : t' = t := by
  obtain ⟨r, hr⟩ := exists_append_of_between hlo hhi
  exact eventTypeIndexPrefix_inj hr

section Page

variable {z : Finset (List Char)} {pre m : List Char} {limit : ℕ}

theorem indexRange_mem (h : m ∈ indexRange z pre limit) : pre ≤ m ∧ m ≤ pre ++ ['~'] :=
  (Finset.mem_filter.1 ((Finset.mem_sort _).1 (mem_of_mem_take h))).2

theorem mem_of_mem_indexRange (h : m ∈ indexRange z pre limit) : m ∈ z :=
  (Finset.mem_filter.1 ((Finset.mem_sort _).1 (mem_of_mem_take h))).1

/-- A page of a range starts at its least member: what is smaller than a member of the page
    is in the page, before it. -/
theorem indexRange_before {m' : List Char} {before after : List (List Char)}
    (hpage : indexRange z pre limit = before ++ m :: after) (hm' : m' ∈ z) (hlo : pre ≤ m')
    (hhi : m' ≤ pre ++ ['~']) (hlt : m' < m) : m' ∈ before := by
  have hsorted := Finset.pairwise_sort (z.filter fun m => pre ≤ m ∧ m ≤ pre ++ ['~']) (· ≤ ·)
  have hmem : m' ∈ (z.filter fun m => pre ≤ m ∧ m ≤ pre ++ ['~']).sort (· ≤ ·) :=
    (Finset.mem_sort _).2 (Finset.mem_filter.2 ⟨hm', hlo, hhi⟩)
  rw [indexRange, zrangebylex] at hpage
  rw [← take_append_drop limit (Finset.sort _ _), hpage, append_assoc] at hsorted hmem
  obtain ⟨-, hrest, -⟩ := pairwise_append.1 hsorted
  rcases mem_append.1 hmem with hmem | hmem
  · exact hmem
  · rcases mem_cons.1 hmem with rfl | hmem
    · exact absurd hlt (lt_irrefl _)
    · exact absurd hlt (not_lt.2 ((pairwise_cons.1 hrest).1 m' hmem))

end Page

end Wdl.Workflow
