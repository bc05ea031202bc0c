import Wdl.Base.Count
import Wdl.Gateway.Resolver

/-!
# Fresh views

A view of a key is fresh at a time if the reads it was made of began after the last time
before then at which the key was invalidated. The cache holds fresh views only: `Side.Inv`.
What the epochs are for is that a call whose epochs have not changed has read its replies
after every invalidation that concerns it (`Since.settled`), and the only invalidations that
do not change the epochs of a call are those of other keys.

The read states of the keys are objects that the calls share, and an object is forgotten with
its last reader. So it has to be shown that no reader outlives it: as long as a call waits, the
read state of its key is the one it noted (`Noted`), as the readers are counted (`counted`).
-/

namespace Wdl.Gateway

open Option Function

/-! ## Reads of Redis -/

section Reads

variable {V : Type} (D : Design V)

/-- Redis gave a reply to a command, at some time between two others. -/
def ReadSince (redis : ℕ → Redis) (began now : ℕ) (command : Command) (reply : Reply) : Prop :=
  ∃ t, began < t ∧ t < now ∧ reply = (redis t).reply command

/-- A view was made of what Redis replied between two times. -/
def ViewSince (redis : ℕ → Redis) (began now : ℕ) (key : String) (view : V) : Prop :=
  ∃ replies, List.Forall₂ (ReadSince redis began now) (D.entryCommands key) replies ∧
    view = D.view replies

/-- A key was not among the known ones at some time between two others. -/
def AbsentSince (redis : ℕ → Redis) (began now : ℕ) (key : String) : Prop :=
  ∃ t, began < t ∧ t < now ∧ key ∉ (redis t).sets D.membershipKey

/-- A key was not invalidated between two times. -/
def SettledSince (invalidated : String → ℕ → Prop) (began now : ℕ) (key : String) : Prop :=
  ∀ t, invalidated key t → t < now → t < began

/-- A view of a key comes from reads that began after its last invalidation. -/
def FreshView (redis : ℕ → Redis) (invalidated : String → ℕ → Prop) (now : ℕ) (key : String)
    (view : V) : Prop :=
  ∃ began, SettledSince invalidated began now key ∧ ViewSince D redis began now key view

/-- That a key is unknown comes from a read that began after its last invalidation. -/
def FreshAbsence (redis : ℕ → Redis) (invalidated : String → ℕ → Prop) (now : ℕ)
    (key : String) : Prop :=
  ∃ began, SettledSince invalidated began now key ∧ AbsentSince D redis began now key

/-- An answer is fresh at the time it is given. -/
structure Answer.Fresh (redis : ℕ → Redis) (invalidated : String → ℕ → Prop)
    (a : Answer V) : Prop where
  known : ∀ view cacheHit, a.outcome = .known view cacheHit →
    FreshView D redis invalidated a.time a.key view
  unknown : a.outcome = .unknown → FreshAbsence D redis invalidated a.time a.key

variable {D} {redis redis' : ℕ → Redis} {invalidated invalidated' : String → ℕ → Prop}
  {began now now' : ℕ} {key : String}

theorem ReadSince.mono {command : Command} {reply : Reply}
    (h : ReadSince redis began now command reply) (hnow : now ≤ now')
    (hredis : ∀ t < now, redis' t = redis t) : ReadSince redis' began now' command reply := by
  obtain ⟨t, hb, ht, hreply⟩ := h
  exact ⟨t, hb, ht.trans_le hnow, by rw [hreply, hredis t ht]⟩

theorem ViewSince.mono {view : V} (h : ViewSince D redis began now key view) (hnow : now ≤ now')
    (hredis : ∀ t < now, redis' t = redis t) : ViewSince D redis' began now' key view := by
  obtain ⟨replies, hreads, hview⟩ := h
  exact ⟨replies, hreads.imp fun _ _ hr => hr.mono hnow hredis, hview⟩

theorem AbsentSince.mono (h : AbsentSince D redis began now key) (hnow : now ≤ now')
    (hredis : ∀ t < now, redis' t = redis t) : AbsentSince D redis' began now' key := by
  obtain ⟨t, hb, ht, habsent⟩ := h
  exact ⟨t, hb, ht.trans_le hnow, by rwa [hredis t ht]⟩

/-- What happened to a key before one time also happened to it before a later one. -/
def NoNew (invalidated invalidated' : String → ℕ → Prop) (now now' : ℕ) (key : String) : Prop :=
  ∀ t, invalidated' key t → t < now' → invalidated key t ∧ t < now

theorem SettledSince.mono (h : SettledSince invalidated began now key)
    (hnew : NoNew invalidated invalidated' now now' key) :
    SettledSince invalidated' began now' key := by
  intro t ht htnow
  obtain ⟨hold, hlt⟩ := hnew t ht htnow
  exact h t hold hlt

theorem FreshView.mono {view : V} (h : FreshView D redis invalidated now key view)
    (hnow : now ≤ now') (hredis : ∀ t < now, redis' t = redis t)
    (hnew : NoNew invalidated invalidated' now now' key) :
    FreshView D redis' invalidated' now' key view := by
  obtain ⟨began, hsettled, hview⟩ := h
  exact ⟨began, hsettled.mono hnew, hview.mono hnow hredis⟩

theorem FreshAbsence.mono (h : FreshAbsence D redis invalidated now key) (hnow : now ≤ now')
    (hredis : ∀ t < now, redis' t = redis t)
    (hnew : NoNew invalidated invalidated' now now' key) :
    FreshAbsence D redis' invalidated' now' key := by
  obtain ⟨began, hsettled, habsent⟩ := h
  exact ⟨began, hsettled.mono hnew, habsent.mono hnow hredis⟩

/-- What happens later does not matter to an answer. -/
theorem Answer.Fresh.mono {a : Answer V} (h : a.Fresh D redis invalidated)
    (hredis : ∀ t < a.time, redis' t = redis t)
    (hnew : ∀ key t, invalidated' key t → t < a.time → invalidated key t) :
    a.Fresh D redis' invalidated' where
  known view cacheHit ho :=
    (h.known view cacheHit ho).mono le_rfl hredis fun t ht hlt => ⟨hnew _ t ht hlt, hlt⟩
  unknown ho := (h.unknown ho).mono le_rfl hredis fun t ht hlt => ⟨hnew _ t ht hlt, hlt⟩

end Reads

/-! ## Calls that wait -/

namespace Await

variable {V : Type} {D : Design V}

/-- The epochs that a call noted are still the ones of the gateway. -/
def Current (s : Side D) : Await → Prop
  | .membership resetEpoch membershipEpoch =>
    resetEpoch = s.resetEpoch ∧ membershipEpoch = s.membershipEpoch
  | .entry resetEpoch st epoch => resetEpoch = s.resetEpoch ∧ epoch = (s.states st).epoch

/-- The epochs that a call noted are not ahead of those of the gateway, and the read state it
    noted is still the one of its key. -/
def Noted (s : Side D) (key : String) : Await → Prop
  | .membership resetEpoch membershipEpoch =>
    resetEpoch ≤ s.resetEpoch ∧ membershipEpoch ≤ s.membershipEpoch
  | .entry resetEpoch st epoch =>
    resetEpoch ≤ s.resetEpoch ∧ epoch ≤ (s.states st).epoch ∧ s.reads key = some st

/-- The keys that the replies to a call are about. -/
def Concerns (key : String) : Await → String → Prop
  | .membership _ _, _ => True
  | .entry _ _ _, k => k = key

/-- A call is one of the readers of a read state. -/
def Holds (st : ℕ) : Await → Prop
  | .membership _ _ => False
  | .entry _ st' _ => st' = st

end Await

section Calls

variable {V : Type} {D : Design V}

variable (D) in
/-- The replies to a call came after a time, and while its epochs are current no key that they
    are about was invalidated since then. -/
structure Resolution.Since (redis : ℕ → Redis) (invalidated : String → ℕ → Prop) (now : ℕ)
    (current : Prop) (c : Resolution) (began : ℕ) : Prop where
  began_lt : began < now
  reads : List.Forall₂ (ReadSince redis began now) ((c.commands D).take c.replies.length) c.replies
  settled : current → ∀ key, c.await.Concerns c.key key → SettledSince invalidated began now key

variable {redis redis' : ℕ → Redis} {invalidated invalidated' : String → ℕ → Prop} {now now' : ℕ}
  {current current' : Prop} {c : Resolution} {began : ℕ}

theorem Resolution.Since.mono (h : c.Since D redis invalidated now current began)
    (hnow : now ≤ now') (hredis : ∀ t < now, redis' t = redis t)
    (hnew : current' → current ∧ ∀ key, c.await.Concerns c.key key →
      NoNew invalidated invalidated' now now' key) :
    c.Since D redis' invalidated' now' current' began where
  began_lt := h.began_lt.trans_le hnow
  reads := h.reads.imp fun _ _ hr => hr.mono hnow hredis
  settled hcurrent key hkey :=
    (h.settled (hnew hcurrent).1 key hkey).mono ((hnew hcurrent).2 key hkey)

variable (redis invalidated now) in
/-- What holds between two events. -/
structure Side.Inv (s : Side D) : Prop where
  /-- Invalidations are in the past. -/
  past : ∀ key t, invalidated key t → t < now
  cached : ∀ e ∈ s.cache.entries, FreshView D redis invalidated now e.1 e.2
  absent : ∀ known, s.known = some known → ∀ key, key ∉ known →
    FreshAbsence D redis invalidated now key
  waiting : ∀ id c, s.calls id = some c →
    ∃ began, c.Since D redis invalidated now (c.await.Current s) began
  noted : ∀ id c, s.calls id = some c → c.await.Noted s c.key
  /-- The read states of the keys are objects that exist. -/
  allocated : ∀ key st, s.reads key = some st → st < s.fresh
  /-- The readers of a read state are the calls that hold it. -/
  counted : ∀ st, Counted s.calls (fun c => c.await.Holds st) (s.states st).readers
  answered : ∀ a ∈ s.answers, a.time < now ∧ a.Fresh D redis invalidated

end Calls

/-! ## What keeps the invariant -/

namespace Side

variable {V : Type} {D : Design V} {redis redis' : ℕ → Redis}
  {invalidated invalidated' : String → ℕ → Prop} {now id st : ℕ} {key : String} {s : Side D}
  {c : Resolution}

section

variable (h : s.Inv redis invalidated now)

include h

theorem Inv.mono {now' : ℕ} (hnow : now ≤ now')
    (hredis : ∀ t < now, redis' t = redis t)
    (hinv : ∀ key t, invalidated' key t → invalidated key t) : s.Inv redis' invalidated' now' := by
  have hnew : ∀ key, NoNew invalidated invalidated' now now' key :=
    fun key t ht _ => ⟨hinv key t ht, h.past key t (hinv key t ht)⟩
  refine ⟨fun key t ht => (h.past key t (hinv key t ht)).trans_le hnow, ?_, ?_, ?_, h.noted,
    h.allocated, h.counted, ?_⟩
  · exact fun e he => (h.cached e he).mono hnow hredis (hnew _)
  · exact fun known hk key hkey => (h.absent known hk key hkey).mono hnow hredis (hnew _)
  · intro id c hc
    obtain ⟨began, hsince⟩ := h.waiting id c hc
    exact ⟨began, hsince.mono hnow hredis fun hcurrent => ⟨hcurrent, fun key _ => hnew key⟩⟩
  · intro a ha
    obtain ⟨hlt, hfresh⟩ := h.answered a ha
    exact ⟨hlt.trans_le hnow,
      hfresh.mono (fun t ht => hredis t (ht.trans hlt)) fun key t ht _ => hinv key t ht⟩

theorem Inv.later : s.Inv redis invalidated (now + 1) :=
  h.mono (Nat.le_succ now) (fun _ _ => rfl) fun _ _ ht => ht

theorem Inv.answered_later (hinv : ∀ key t, invalidated' key t → invalidated key t ∨ t = now) :
    ∀ a ∈ s.answers, a.time < now + 1 ∧ a.Fresh D redis invalidated' := by
  intro a ha
  obtain ⟨hlt, hfresh⟩ := h.answered a ha
  refine ⟨hlt.trans (Nat.lt_succ_self now), hfresh.mono (fun _ _ => rfl) fun key t ht hta => ?_⟩
  exact (hinv key t ht).resolve_right (hta.trans hlt).ne

theorem Inv.past_later (hinv : ∀ key t, invalidated' key t → invalidated key t ∨ t = now) :
    ∀ key t, invalidated' key t → t < now + 1 := by
  intro key t ht
  rcases hinv key t ht with hold | rfl
  · exact (h.past key t hold).trans (Nat.lt_succ_self now)
  · exact Nat.lt_succ_self t

theorem Inv.not_current_clearState (hc : s.calls id = some c) :
    ¬ c.await.Current s.clearState := by
  have hnoted := h.noted id c hc
  cases hw : c.await with
  | membership | entry =>
    rw [hw] at hnoted
    exact fun hcurrent => absurd (hcurrent.1 ▸ hnoted.1) (Nat.not_succ_le_self _)

theorem Inv.clearState (hinv : ∀ key t, invalidated' key t → invalidated key t ∨ t = now) :
    s.clearState.Inv redis invalidated' (now + 1) := by
  refine ⟨h.past_later hinv, ?_, ?_, ?_, ?_, h.allocated, h.counted, h.answered_later hinv⟩
  · exact fun e he => absurd he List.not_mem_nil
  · exact fun known hk => absurd hk (some_ne_none _).symm
  · intro id c hc
    obtain ⟨began, hsince⟩ := h.waiting id c hc
    exact ⟨began, hsince.mono (Nat.le_succ now) (fun _ _ => rfl)
      fun hcurrent => absurd hcurrent (h.not_current_clearState hc)⟩
  · intro id c hc
    have hnoted := h.noted id c hc
    cases hw : c.await with
    | membership resetEpoch membershipEpoch =>
      rw [hw] at hnoted
      exact ⟨hnoted.1.trans (Nat.le_succ _), hnoted.2.trans (Nat.le_succ _)⟩
    | entry resetEpoch st epoch =>
      rw [hw] at hnoted
      exact ⟨hnoted.1.trans (Nat.le_succ _), hnoted.2⟩

end

theorem readers_invalidateKeyRead (s : Side D) (key : String) (st : ℕ) :
    ((s.invalidateKeyRead key).states st).readers = (s.states st).readers := by
  rw [invalidateKeyRead_states]
  cases s.reads key with
  | none => rfl
  | some st' =>
    by_cases hst : st = st'
    · rw [elim_some, hst, update_self]
    · rw [elim_some, update_of_ne hst]

theorem epoch_invalidateKeyRead_self (h : s.reads key = some st) :
    ((s.invalidateKeyRead key).states st).epoch = (s.states st).epoch + 1 := by
  rw [invalidateKeyRead_states, h, elim_some, update_self]

theorem states_invalidateKeyRead_of_ne (h : s.reads key ≠ some st) :
    (s.invalidateKeyRead key).states st = s.states st := by
  rw [invalidateKeyRead_states]
  cases hr : s.reads key with
  | none => rfl
  | some st' =>
    have hst : st ≠ st' := by
      rintro rfl
      exact h hr
    rw [elim_some, update_of_ne hst]

/-- The calls that are still current after an invalidation were so before, and are not about
    its key. -/
theorem Inv.current_invalidate (h : s.Inv redis invalidated now) (hc : s.calls id = some c)
    (hcurrent : c.await.Current (s.invalidate key)) :
    c.await.Current s ∧ ∀ k, c.await.Concerns c.key k → k ≠ key := by
  have hnoted := h.noted id c hc
  cases hw : c.await with
  | membership resetEpoch membershipEpoch =>
    rw [hw] at hnoted hcurrent
    exact absurd (hcurrent.2 ▸ hnoted.2) (Nat.not_succ_le_self _)
  | entry resetEpoch st epoch =>
    rw [hw] at hnoted hcurrent
    obtain ⟨-, hepoch, hreads⟩ := hnoted
    obtain ⟨hreset, hcurrent⟩ := hcurrent
    -- the call of the invalidated key shares its read state, whose epoch has changed
    have hkey : c.key ≠ key := by
      intro hkey
      have hself := epoch_invalidateKeyRead_self (hkey ▸ hreads)
      exact absurd ((hcurrent.trans hself) ▸ hepoch) (Nat.not_succ_le_self _)
    refine ⟨⟨hreset, ?_⟩, fun k hk => hk ▸ hkey⟩
    by_cases hst : s.reads key = some st
    · have hself := epoch_invalidateKeyRead_self hst
      exact absurd ((hcurrent.trans hself) ▸ hepoch) (Nat.not_succ_le_self _)
    · exact hcurrent.trans (congrArg ReadState.epoch (states_invalidateKeyRead_of_ne hst))

theorem Inv.noted_invalidate (h : s.Inv redis invalidated now) (hc : s.calls id = some c)
    (key : String) : c.await.Noted (s.invalidate key) c.key := by
  have hnoted := h.noted id c hc
  cases hw : c.await with
  | membership resetEpoch membershipEpoch =>
    rw [hw] at hnoted
    exact ⟨hnoted.1, hnoted.2.trans (Nat.le_succ _)⟩
  | entry resetEpoch st epoch =>
    rw [hw] at hnoted
    obtain ⟨hreset, hepoch, hreads⟩ := hnoted
    refine ⟨hreset, hepoch.trans ?_, hreads⟩
    by_cases hst : s.reads key = some st
    · exact (Nat.le_succ _).trans_eq (epoch_invalidateKeyRead_self hst).symm
    · exact (congrArg ReadState.epoch (states_invalidateKeyRead_of_ne hst)).ge

variable {keys : List String}

/-- The known keys after an invalidation: a key that is not among them was not among them
    before, and is not the invalidated one. -/
theorem exists_of_invalidatedKnown {known : Option (List String)}
    (h : invalidatedKnown D key known = some keys) :
    ∃ keys', known = some keys' ∧ keys = key :: keys' := by
  unfold invalidatedKnown at h
  split at h
  case isTrue =>
    obtain ⟨keys', hk, hkeys⟩ := map_eq_some_iff.mp h
    exact ⟨keys', hk, hkeys.symm⟩
  case isFalse => cases h

theorem Inv.invalidate (h : s.Inv redis invalidated now)
    (hinv : ∀ k t, invalidated' k t → invalidated k t ∨ (k = key ∧ t = now)) :
    (s.invalidate key).Inv redis invalidated' (now + 1) := by
  have hinv' : ∀ k t, invalidated' k t → invalidated k t ∨ t = now :=
    fun k t ht => (hinv k t ht).imp_right And.right
  have hnew : ∀ k, k ≠ key → NoNew invalidated invalidated' now (now + 1) k := by
    intro k hk t ht _
    have hold := (hinv k t ht).resolve_right fun hkey => hk hkey.1
    exact ⟨hold, h.past k t hold⟩
  refine ⟨h.past_later hinv', ?_, ?_, ?_, fun id c hc => h.noted_invalidate hc key, h.allocated,
    ?_, h.answered_later hinv'⟩
  · intro e he
    obtain ⟨hmem, hne⟩ := Lru.mem_without.mp he
    exact (h.cached e hmem).mono (Nat.le_succ now) (fun _ _ => rfl) (hnew e.1 hne)
  · intro keys hkeys k hk
    obtain ⟨keys', hknown, rfl⟩ := exists_of_invalidatedKnown hkeys
    rw [List.mem_cons, not_or] at hk
    exact (h.absent keys' hknown k hk.2).mono (Nat.le_succ now) (fun _ _ => rfl) (hnew k hk.1)
  · intro id c hc
    obtain ⟨began, hsince⟩ := h.waiting id c hc
    refine ⟨began, hsince.mono (Nat.le_succ now) (fun _ _ => rfl) fun hcurrent => ?_⟩
    obtain ⟨hcurrent, hother⟩ := h.current_invalidate hc hcurrent
    exact ⟨hcurrent, fun k hk => hnew k (hother k hk)⟩
  · intro st
    exact (readers_invalidateKeyRead s key st).symm ▸ h.counted st

variable {a : Answer V}

section

variable (h : s.Inv redis invalidated now)

include h

theorem Inv.answer (ht : a.time < now)
    (hfresh : a.Fresh D redis invalidated) : (s.answer a).Inv redis invalidated now := by
  refine ⟨h.past, h.cached, h.absent, h.waiting, h.noted, h.allocated, h.counted, ?_⟩
  intro b hb
  rcases List.mem_append.mp hb with hb | hb
  · exact h.answered b hb
  · rw [List.mem_singleton.mp hb]
    exact ⟨ht, hfresh⟩

theorem Inv.answer_error (ht : a.time < now)
    (ho : a.outcome = .unavailable ∨ a.outcome = .failed) :
    (s.answer a).Inv redis invalidated now := by
  refine h.answer ht ⟨fun view cacheHit hk => ?_, fun hk => ?_⟩
  · rw [hk] at ho
    exact absurd ho (by simp)
  · rw [hk] at ho
    exact absurd ho (by simp)

theorem Inv.withCache {cache : Lru String V D.maxEntries}
    (hcache : ∀ e ∈ cache.entries, FreshView D redis invalidated now e.1 e.2) :
    { s with cache := cache }.Inv redis invalidated now :=
  { h with cached := hcache }

theorem Inv.withKnown (hkeys : ∀ key, key ∉ keys → FreshAbsence D redis invalidated now key) :
    { s with known := some keys }.Inv redis invalidated now := by
  refine ⟨h.past, h.cached, ?_, h.waiting, h.noted, h.allocated, h.counted, h.answered⟩
  intro known hknown
  rwa [← Option.some.inj hknown]

theorem Inv.cacheView {view : V}
    (hview : FreshView D redis invalidated now key view) :
    (s.cacheView now key view).Inv redis invalidated (now + 1) := by
  have hlater := h.later
  have hnew : NoNew invalidated invalidated now (now + 1) key :=
    fun t ht _ => ⟨ht, h.past key t ht⟩
  refine (hlater.withCache fun e he => ?_).answer (Nat.lt_succ_self now)
    ⟨fun v cacheHit ho => ?_, fun ho => absurd ho (by simp)⟩
  · rcases Lru.mem_of_mem_set he with he | rfl
    · exact hlater.cached e he
    · exact hview.mono (Nat.le_succ now) (fun _ _ => rfl) hnew
  · obtain ⟨rfl, -⟩ := Outcome.known.inj ho
    exact hview

end

theorem Inv.empty (redis : ℕ → Redis) :
    ({} : Side D).Inv redis (fun _ _ => False) 0 where
  past _ _ h := h.elim
  cached _ he := absurd he List.not_mem_nil
  absent _ hk := absurd hk (Option.some_ne_none _).symm
  waiting _ _ hc := absurd hc (Option.some_ne_none _).symm
  noted _ _ hc := absurd hc (Option.some_ne_none _).symm
  allocated _ _ hst := absurd hst (Option.some_ne_none _).symm
  counted _ := .zero fun _ => not_entryAt_of_eq_none rfl
  answered _ ha := absurd ha List.not_mem_nil

end Side

end Wdl.Gateway
