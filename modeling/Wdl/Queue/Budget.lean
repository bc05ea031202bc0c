import Mathlib.Algebra.BigOperators.Fin
import Mathlib.Algebra.Order.BigOperators.Group.List
import Mathlib.Algebra.Order.Ring.Nat

/-!
# The budget of delayed messages

The scheduler moves the due messages of several queues in one round. `delayed_member_limits` gives
each queue its part of the budget of the round: the queues come in the order of their counts, and
each gets its count or an equal share of what is left, whichever is less.

* `allocate_fair`: what the loop gives to the queues that are left, from any state in which there
  is one message for each of them and no more than they hold.
* `delayed_limits_fair` puts this together for every vector of counts.
-/

namespace Wdl.Queue

open List Function

variable {n : ℕ} {counts limits : Fin n → ℕ}

def usizeMax : ℕ := 2 ^ 64 - 1

/-- The loop over the queues that are left, and what remains of the budget. There is no result if
    the subtraction underflows. -/
def allocate (counts : Fin n → ℕ) : List (Fin n) → (Fin n → ℕ) → ℕ → Option ((Fin n → ℕ) × ℕ)
  | [], limits, remaining => some (limits, remaining)
  | index :: rest, limits, remaining =>
    let queuesLeft := rest.length + 1
    let fairShare := max (remaining / queuesLeft) 1
    let allocated := min (counts index) fairShare
    if remaining < allocated then none
    else allocate counts rest (update limits index allocated) (remaining - allocated)

def delayedMemberLimits (counts : Fin n → ℕ) (batchSize : ℕ) : Option ((Fin n → ℕ) × ℕ) :=
  let eligible := (List.finRange n).filter fun index => 0 < counts index
  if eligible = [] then some (fun _ => 0, 0)
  else
    let total := (List.ofFn counts).foldl (fun sum count => min (sum + count) usizeMax) 0
    let budget := min total (max batchSize eligible.length)
    allocate counts
      (eligible.mergeSort fun i j => counts i < counts j ∨ counts i = counts j ∧ i ≤ j)
      (fun _ => 0) budget

/-- What the queues of a list have got of a budget. -/
structure Fair (counts : Fin n → ℕ) (l : List (Fin n)) (budget : ℕ) (limits : Fin n → ℕ) :
    Prop where
  within : ∀ i ∈ l, 0 < limits i ∧ limits i ≤ counts i
  sum : (l.map limits).sum = budget
  /-- A later queue has no less, and at most one more than one that got less than its count. -/
  order : l.Pairwise fun i j =>
    limits i ≤ limits j ∧ (limits i < counts i → limits j ≤ limits i + 1)
  /-- An equal share of the budget is a lower and an upper bound. -/
  lower : ∀ m, m * l.length ≤ budget → (∀ i ∈ l, m ≤ counts i) → ∀ i ∈ l, m ≤ limits i
  upper : ∀ m, budget ≤ m * l.length → (∀ i ∈ l, m ≤ counts i) → ∀ i ∈ l, limits i ≤ m

theorem exists_share (budget k : ℕ) : ∃ share rest, budget / (k + 1) = share ∧
    budget = share * k + share + rest ∧ rest ≤ k :=
  ⟨_, budget % (k + 1), rfl, by rw [← Nat.mul_succ, Nat.div_add_mod'],
    Nat.le_of_lt_succ (Nat.mod_lt _ k.succ_pos)⟩

theorem allocate_fair {l : List (Fin n)} (hnodup : l.Nodup)
    (hsorted : l.Pairwise fun i j => counts i ≤ counts j) (hpos : ∀ i ∈ l, 0 < counts i)
    {budget : ℕ} (hlo : l.length ≤ budget) (hhi : budget ≤ (l.map counts).sum)
    (limits : Fin n → ℕ) :
    ∃ limits', allocate counts l limits budget = some (limits', 0) ∧
      (∀ i ∉ l, limits' i = limits i) ∧ Fair counts l budget limits' := by
  induction l generalizing budget limits with
  | nil =>
    obtain rfl : budget = 0 := Nat.le_zero.1 hhi
    exact ⟨limits, rfl, fun _ _ => rfl, by simp, rfl, .nil, by simp, by simp⟩
  | cons index rest ih =>
    obtain ⟨hmem, hnodup⟩ := nodup_cons.1 hnodup
    obtain ⟨hle, hsorted⟩ := pairwise_cons.1 hsorted
    obtain ⟨hindex, hpos⟩ := forall_mem_cons.1 hpos
    obtain ⟨share, extra, hshare, hbudget, hover⟩ := exists_share budget rest.length
    rw [map_cons, sum_cons] at hhi
    have hone : 1 ≤ share := hshare ▸ (Nat.one_le_div_iff rest.length.succ_pos).2 hlo
    have hlen : rest.length ≤ share * rest.length := Nat.le_mul_of_pos_left _ hone
    -- a queue that gets a share leaves enough behind, as the later ones hold more
    have hrest : share < counts index →
        share * rest.length + rest.length ≤ (rest.map counts).sum := fun hlt => by
      have hsum := card_nsmul_le_sum (rest.map counts) (share + 1) fun c hc => by
        obtain ⟨i, hi, rfl⟩ := mem_map.1 hc
        exact hlt.trans_le (hle i hi)
      rwa [length_map, smul_eq_mul, mul_comm, Nat.succ_mul] at hsum
    obtain ⟨allocated, hallocated⟩ : ∃ a, a = min (counts index) share := ⟨_, rfl⟩
    obtain ⟨limits', hrun, hframe, hfair⟩ := @ih hnodup hsorted hpos (budget - allocated) (by omega)
      (by omega) (update limits index allocated)
    have hself : limits' index = allocated := (hframe index hmem).trans (update_self ..)
    refine ⟨limits', ?_, fun i hi => ?_, ?_, ?_, ?_, ?_, ?_⟩
    · rw [allocate, hshare, max_eq_left hone, ← hallocated, if_neg (by omega)]
      exact hrun
    · rw [mem_cons, not_or] at hi
      rw [hframe i hi.2, update_of_ne hi.1]
    · rw [forall_mem_cons, hself]
      exact ⟨by omega, hfair.within⟩
    · rw [map_cons, sum_cons, hself, hfair.sum]
      omega
    · rw [pairwise_cons, hself]
      refine ⟨fun j hj => ⟨?_, fun hlt => ?_⟩, hfair.order⟩
      · have hmul := Nat.mul_le_mul_right rest.length (hallocated.trans_le (min_le_right _ _))
        have hcount := hallocated.trans_le (min_le_left _ _)
        exact hfair.lower allocated (by omega) (fun i hi => hcount.trans (hle i hi)) j hj
      · obtain rfl : allocated = share := by omega
        have hmul := Nat.add_one_mul allocated rest.length
        exact hfair.upper (allocated + 1) (by omega) (fun i hi => hlt.trans_le (hle i hi)) j hj
    · intro m hm hcounts
      rw [forall_mem_cons] at hcounts ⊢
      have hms : m ≤ share := hshare ▸ (Nat.le_div_iff_mul_le rest.length.succ_pos).2 hm
      have hmul := Nat.mul_le_mul_right rest.length hms
      exact ⟨by omega, hfair.lower m (by omega) hcounts.2⟩
    · intro m hm hcounts
      rw [forall_mem_cons] at hcounts ⊢
      have hms : share ≤ m := hshare ▸ Nat.div_le_of_le_mul (by rwa [mul_comm])
      rw [length_cons, Nat.mul_succ] at hm
      refine ⟨by omega, hfair.upper m ?_ hcounts.2⟩
      rcases hms.eq_or_lt with rfl | hlt
      · omega
      · have hmul := Nat.mul_le_mul_right rest.length hlt
        rw [Nat.succ_mul] at hmul
        omega

theorem Fair.le_succ {l : List (Fin n)} {budget : ℕ} (h : Fair counts l budget limits) {i j : Fin n}
    (hi : i ∈ l) (hj : j ∈ l) : limits i < counts i → limits j ≤ limits i + 1 := by
  have hup := h.order.imp fun h => h.2
  have hdown := h.order.imp fun {i j} h (_ : limits j < counts j) => Nat.le_succ_of_le h.1
  exact hup.forall_of_forall_of_flip (fun _ _ _ => Nat.le_succ _) hdown hi hj

theorem foldl_saturating (l : List ℕ) (m : ℕ) :
    l.foldl (fun sum count => min (sum + count) usizeMax) (min m usizeMax) =
      min (m + l.sum) usizeMax := by
  induction l generalizing m with
  | nil => rfl
  | cons c l ih =>
    rw [foldl_cons, sum_cons, ← Nat.add_assoc, ← ih]
    congr 1
    omega

theorem sum_eligible {l : List (Fin n)} (hnodup : l.Nodup) (hl : ∀ i, i ∈ l ↔ 0 < counts i)
    {f : Fin n → ℕ} (hf : ∀ i, f i ≤ counts i) : (l.map f).sum = ∑ i, f i := by
  rw [← sum_toFinset f hnodup]
  refine Finset.sum_subset (Finset.subset_univ _) fun i _ hi => ?_
  rw [mem_toFinset, hl, Nat.pos_iff_ne_zero, not_not] at hi
  exact Nat.le_zero.1 (hi ▸ hf i)

/-- The limits are within the counts, leave no queue out, use up the budget, and are fair: a queue
    that gets less than its count gets at most one less than any other. -/
theorem delayed_limits_fair (counts : Fin n → ℕ) (batchSize : ℕ) (hn : n ≤ usizeMax)
    (hbatch : batchSize ≤ usizeMax) :
    ∃ limits, delayedMemberLimits counts batchSize = some (limits, 0) ∧
      (∀ i, limits i ≤ counts i ∧ (0 < counts i → 1 ≤ limits i)) ∧
      ∑ i, limits i = min (∑ i, counts i)
        (max batchSize (Finset.univ.filter fun i => 0 < counts i).card) ∧
      ∀ i j, limits i < counts i → limits j ≤ limits i + 1 := by
  obtain ⟨eligible, heligible⟩ : ∃ l, l = (List.finRange n).filter fun i => 0 < counts i := ⟨_, rfl⟩
  have hmem : ∀ i, i ∈ eligible ↔ 0 < counts i := by simp [heligible]
  have hnodup : eligible.Nodup := heligible ▸ (nodup_finRange n).filter _
  have hcard : eligible.length = (Finset.univ.filter fun i => 0 < counts i).card := by
    rw [← toFinset_card_of_nodup hnodup]
    congr 1
    ext i
    simp [hmem]
  rw [delayedMemberLimits, ← heligible, ← hcard]
  by_cases hnil : eligible = []
  · have hzero : ∀ i, counts i = 0 := by simpa [hnil] using hmem
    exact ⟨fun _ => 0, if_pos hnil, by simp [hzero]⟩
  obtain ⟨l, hl⟩ : ∃ l, l = eligible.mergeSort
    fun i j => counts i < counts j ∨ counts i = counts j ∧ i ≤ j := ⟨_, rfl⟩
  have hperm : l.Perm eligible := hl ▸ mergeSort_perm _ _
  have hsorted : l.Pairwise fun i j => counts i ≤ counts j := by
    refine (hl ▸ pairwise_mergeSort ?_ ?_ eligible).imp fun {i j} h => ?_
    · simp only [decide_eq_true_iff]; omega
    · simp only [Bool.or_eq_true, decide_eq_true_iff]; omega
    · rw [decide_eq_true_iff] at h; omega
  simp only [← hperm.mem_iff] at hmem
  rw [← hperm.nodup_iff] at hnodup
  rw [← hperm.length_eq] at hcard ⊢
  have hsum := sum_eligible hnodup hmem fun i => le_refl (counts i)
  have hpos : l.length ≤ (l.map counts).sum := by
    simpa using length_le_sum_of_one_le (l.map counts) (by simp [hmem, Nat.succ_le_iff])
  have hlen : l.length ≤ usizeMax :=
    (hcard.trans_le ((Finset.card_filter_le _ _).trans (Finset.card_fin n).le)).trans hn
  have hbudget : l.length ≤ min (∑ i, counts i) (max batchSize l.length) := by omega
  obtain ⟨limits, hrun, hframe, hfair⟩ := allocate_fair hnodup hsorted (fun i => (hmem i).1)
    hbudget (by omega) fun _ => 0
  have hlimits : ∀ i, limits i ≤ counts i ∧ (0 < counts i → 1 ≤ limits i) := fun i => by
    by_cases hi : i ∈ l
    · exact ⟨(hfair.within i hi).2, fun _ => (hfair.within i hi).1⟩
    · exact ⟨(hframe i hi).trans_le (Nat.zero_le _), fun h => absurd ((hmem i).2 h) hi⟩
  refine ⟨limits, ?_, hlimits, ?_, fun i j hi => ?_⟩
  · have htotal := foldl_saturating (List.ofFn counts) 0
    rw [Nat.zero_min, Nat.zero_add, sum_ofFn] at htotal
    rw [if_neg hnil, ← hl, htotal]
    dsimp only
    rw [min_assoc, min_eq_right (max_le hbatch hlen)]
    exact hrun
  · rw [← hfair.sum, sum_eligible hnodup hmem fun i => (hlimits i).1]
  · by_cases hj : j ∈ l
    · exact hfair.le_succ ((hmem i).2 (Nat.zero_lt_of_lt hi)) hj hi
    · exact (hframe j hj).trans_le (Nat.zero_le _)

theorem delayed_limits_fair_two : ∃ limits, delayedMemberLimits ![1, 1000] 100 = some (limits, 0) ∧
    ∑ i, limits i = 100 := by
  obtain ⟨limits, hrun, -, hsum, -⟩ :=
    delayed_limits_fair ![1, 1000] 100 (by decide) (by decide)
  exact ⟨limits, hrun, hsum.trans (by decide)⟩

end Wdl.Queue
