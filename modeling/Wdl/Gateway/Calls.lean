import Wdl.Gateway.Freshness

/-!
# The calls keep their views fresh

Every event of a call keeps `Side.Inv` (`Side.Inv.step`): it begins to wait, alone or together
with other readers of its key; Redis replies to one of its commands; it goes on with all its
replies, and begins again if an epoch that it noted has changed; or it fails. Other calls only
notice when the read state of a key is made or forgotten, which happens while no call holds it
(`Inv.newKeyRead`, `Inv.release`).
-/

namespace Wdl.Gateway

open Option List Function

namespace Side

variable {V : Type} {D : Design V} {redis : ℕ → Redis} {invalidated : String → ℕ → Prop}
  {now id st : ℕ} {key : String} {s : Side D} {c : Resolution}

/-! ## Calls come and go -/

theorem calls_of_wake {id' : ℕ} (hc : (s.wake id).calls id' = some c) :
    s.calls id' = some c := by
  rw [wake_calls] at hc
  have hid : id' ≠ id := by
    rintro rfl
    rw [update_self] at hc
    cases hc
  rwa [update_of_ne hid] at hc

theorem Inv.wake (h : s.Inv redis invalidated now) (hc : s.calls id = some c)
    (hfree : ∀ st, ¬ c.await.Holds st) : (s.wake id).Inv redis invalidated now := by
  refine { h with
    waiting := fun id' c' hc' => h.waiting id' c' (calls_of_wake hc')
    noted := fun id' c' hc' => h.noted id' c' (calls_of_wake hc')
    counted := fun st => (h.counted st).update ?_ }
  rw [entryAt_iff hc]
  exact iff_of_false (hfree st) fun hsome => hsome.elim fun b hb => some_ne_none b hb.1.symm

theorem epoch_update (s : Side D) (st st' readers : ℕ) :
    (update s.states st { s.states st with readers } st').epoch = (s.states st').epoch := by
  by_cases hst : st' = st
  · rw [hst, update_self]
  · rw [update_of_ne hst]

theorem reads_endKeyRead (s : Side D) (key key' : String) (st : ℕ) :
    (s.endKeyRead key st).reads key' =
      if (s.states st).readers - 1 = 0 ∧ key' = key then none else s.reads key' := by
  rw [endKeyRead_reads]
  by_cases hzero : (s.states st).readers - 1 = 0
  · by_cases hkey : key' = key
    · rw [if_pos hzero, if_pos ⟨hzero, hkey⟩, hkey, update_self]
    · rw [if_pos hzero, if_neg fun hboth => hkey hboth.2, update_of_ne hkey]
  · rw [if_neg hzero, if_neg fun hboth => hzero hboth.1]

/-- The epochs that a call noted are the same in two states. -/
structure SameEpochs (s t : Side D) (w : Await) : Prop where
  reset : t.resetEpoch = s.resetEpoch
  membership : t.membershipEpoch = s.membershipEpoch
  epoch : ∀ st, w.Holds st → (t.states st).epoch = (s.states st).epoch

variable {t : Side D}

theorem SameEpochs.current {w : Await} (h : SameEpochs s t w) (hw : w.Current t) :
    w.Current s := by
  cases w with
  | membership resetEpoch membershipEpoch =>
    exact ⟨hw.1.trans h.reset, hw.2.trans h.membership⟩
  | entry resetEpoch st epoch => exact ⟨hw.1.trans h.reset, hw.2.trans (h.epoch st rfl)⟩

theorem SameEpochs.noted {w : Await} (h : SameEpochs s t w)
    (hreads : ∀ st, w.Holds st → s.reads key = some st → t.reads key = some st)
    (hw : w.Noted s key) : w.Noted t key := by
  cases w with
  | membership resetEpoch membershipEpoch =>
    exact ⟨hw.1.trans_eq h.reset.symm, hw.2.trans_eq h.membership.symm⟩
  | entry resetEpoch st epoch =>
    exact ⟨hw.1.trans_eq h.reset.symm, hw.2.1.trans_eq (h.epoch st rfl).symm,
      hreads st rfl hw.2.2⟩

variable {began : ℕ}

/-- What is known of the replies to a call does not change with what it did not note. -/
theorem SameEpochs.since (h : SameEpochs s t c.await)
    (hsince : c.Since D redis invalidated now (c.await.Current s) began) :
    c.Since D redis invalidated now (c.await.Current t) began :=
  hsince.mono le_rfl (fun _ _ => rfl) fun hcurrent =>
    ⟨h.current hcurrent, fun _ _ _ ht hlt => ⟨ht, hlt⟩⟩

theorem Inv.reads_of_holds (h : s.Inv redis invalidated now) (hc : s.calls id = some c)
    (hst : c.await.Holds st) : s.reads c.key = some st := by
  have hnoted := h.noted id c hc
  cases hw : c.await with
  | membership resetEpoch membershipEpoch =>
    rw [hw] at hst
    exact hst.elim
  | entry resetEpoch st' epoch =>
    rw [hw] at hst hnoted
    exact hst ▸ hnoted.2.2

/-- A reader leaves, and the read state of its key goes with the last one. -/
theorem Inv.release (h : s.Inv redis invalidated now) (hc : s.calls id = some c)
    (hst : c.await.Holds st) :
    ((s.wake id).endKeyRead c.key st).Inv redis invalidated now := by
  have hread := h.reads_of_holds hc hst
  have hleft := (h.counted st).erase ⟨c, hc, hst⟩
  have hsame : ∀ w, SameEpochs s ((s.wake id).endKeyRead c.key st) w :=
    fun w => ⟨rfl, rfl, fun st' _ => epoch_update (s.wake id) st st' _⟩
  refine ⟨h.past, h.cached, h.absent, ?_, ?_, ?_, ?_, h.answered⟩
  · intro id' c' hc'
    obtain ⟨began, hsince⟩ := h.waiting id' c' (calls_of_wake hc')
    exact ⟨began, (hsame c'.await).since hsince⟩
  · intro id' c' hc'
    refine (hsame c'.await).noted ?_ (h.noted id' c' (calls_of_wake hc'))
    intro st' hst' hread'
    rw [reads_endKeyRead, if_neg]
    · exact hread'
    -- a call of the same key would be another reader of the same state
    rintro ⟨hzero, hkey⟩
    have hsame : st' = st := Option.some.inj (hread'.symm.trans (hkey ▸ hread))
    exact (hleft.pos ⟨c', hc', hsame ▸ hst'⟩).ne' hzero
  · intro key' st' hst'
    rw [reads_endKeyRead] at hst'
    split at hst'
    case isTrue => cases hst'
    case isFalse => exact h.allocated key' st' hst'
  · intro st'
    rw [endKeyRead_states, wake_states]
    by_cases hne : st' = st
    · rw [hne, update_self]
      exact hleft
    · rw [update_of_ne hne]
      refine (h.counted st').update ?_
      rw [entryAt_iff hc]
      refine iff_of_false (fun hst' => hne ?_) fun hsome =>
        hsome.elim fun b hb => some_ne_none b hb.1.symm
      exact Option.some.inj ((h.reads_of_holds hc hst').symm.trans hread)

theorem calls_of_wait {c' : Resolution} {id' : ℕ} (hc : (s.wait id c).calls id' = some c') :
    (id' = id ∧ c' = c) ∨ s.calls id' = some c' := by
  rw [wait_calls] at hc
  by_cases hid : id' = id
  · rw [hid, update_self, Option.some.injEq] at hc
    exact .inl ⟨hid, hc.symm⟩
  · rw [update_of_ne hid] at hc
    exact .inr hc

/-- A call waits that reads nothing together with other calls, or waits on as it did. -/
theorem Inv.wait (h : s.Inv redis invalidated now)
    (hsince : ∃ began, c.Since D redis invalidated now (c.await.Current s) began)
    (hnoted : c.await.Noted s c.key)
    (hholds : ∀ st, EntryAt s.calls (fun c => c.await.Holds st) id ↔ c.await.Holds st) :
    (s.wait id c).Inv redis invalidated now := by
  refine ⟨h.past, h.cached, h.absent, ?_, ?_, h.allocated, ?_, h.answered⟩
  · intro id' c' hc'
    rcases calls_of_wait hc' with ⟨-, rfl⟩ | hold
    · exact hsince
    · exact h.waiting id' c' hold
  · intro id' c' hc'
    rcases calls_of_wait hc' with ⟨-, rfl⟩ | hold
    · exact hnoted
    · exact h.noted id' c' hold
  · intro st
    refine (h.counted st).update ((hholds st).trans ?_)
    exact ⟨fun hst => ⟨c, rfl, hst⟩, fun hsome => hsome.elim fun c' hc' =>
      Option.some.inj hc'.1 ▸ hc'.2⟩

/-- A read state that no call holds is forgotten, and may be made anew. -/
theorem Inv.newKeyRead (h : s.Inv redis invalidated now) (hkey : s.reads key = none) :
    (s.newKeyRead key).Inv redis invalidated now := by
  -- no call that waits holds the new object, or is about its key
  have hnew : ∀ id c, s.calls id = some c → ¬ c.await.Holds s.fresh := by
    intro id c hc hst
    exact (h.allocated c.key s.fresh (h.reads_of_holds hc hst)).ne rfl
  have hsame : ∀ id c, s.calls id = some c → SameEpochs s (s.newKeyRead key) c.await := by
    intro id c hc
    refine ⟨rfl, rfl, fun st hst => ?_⟩
    have hne : st ≠ s.fresh := by
      rintro rfl
      exact hnew id c hc hst
    rw [newKeyRead_states, update_of_ne hne]
  refine ⟨h.past, h.cached, h.absent, ?_, ?_, ?_, ?_, h.answered⟩
  · intro id c hc
    obtain ⟨began, hsince⟩ := h.waiting id c hc
    exact ⟨began, (hsame id c hc).since hsince⟩
  · intro id c hc
    refine (hsame id c hc).noted (fun st _ hread => ?_) (h.noted id c hc)
    have hne : c.key ≠ key := by
      intro heq
      exact some_ne_none st (hread.symm.trans (heq ▸ hkey))
    rw [newKeyRead_reads, update_of_ne hne]
    exact hread
  · intro key' st' hst'
    rw [newKeyRead_reads] at hst'
    by_cases hk : key' = key
    · rw [hk, update_self, Option.some.injEq] at hst'
      exact hst' ▸ Nat.lt_succ_self _
    · rw [update_of_ne hk] at hst'
      exact (h.allocated key' st' hst').trans (Nat.lt_succ_self _)
  · intro st
    rw [newKeyRead_states]
    by_cases hst : st = s.fresh
    · rw [hst, update_self]
      exact .zero fun id hentry => hentry.elim fun c hc => hnew id c hc.1 hc.2
    · rw [update_of_ne hst]
      exact h.counted st

variable {current : Prop}

/-- A call that begins to wait has read nothing from before the last invalidation. -/
theorem Inv.since_begin (h : s.Inv redis invalidated now) (hreplies : c.replies = []) :
    c.Since D redis invalidated (now + 1) current now where
  began_lt := Nat.lt_succ_self now
  reads := by
    rw [hreplies]
    exact .nil
  settled _ key _ t ht _ := h.past key t ht

/-- A call reads a key, together with the calls that read it already. -/
theorem Inv.readEntry (h : s.Inv redis invalidated now) (hid : s.calls id = none)
    (hkey : s.reads key = some st) (n : ℕ) :
    ((s.joinKeyRead st).readEntry id key n st).Inv redis invalidated (now + 1) := by
  have hlater := h.later
  have hsame : ∀ w, SameEpochs s ((s.joinKeyRead st).readEntry id key n st) w :=
    fun w => ⟨rfl, rfl, fun st' _ => epoch_update s st st' _⟩
  refine ⟨hlater.past, hlater.cached, hlater.absent, ?_, ?_, h.allocated, ?_, hlater.answered⟩
  · intro id' c' hc'
    rcases calls_of_wait hc' with ⟨-, rfl⟩ | hold
    · exact ⟨now, h.since_begin rfl⟩
    · obtain ⟨began, hsince⟩ := hlater.waiting id' c' hold
      exact ⟨began, (hsame c'.await).since hsince⟩
  · intro id' c' hc'
    rcases calls_of_wait hc' with ⟨-, rfl⟩ | hold
    · exact ⟨le_rfl, le_rfl, hkey⟩
    · exact (hsame c'.await).noted (fun _ _ hread => hread) (h.noted id' c' hold)
  · intro st'
    have hfree : ¬ EntryAt s.calls (fun c => c.await.Holds st') id := not_entryAt_of_eq_none hid
    by_cases hst : st' = st
    · subst hst
      have hreaders : ((s.joinKeyRead st').states st').readers = (s.states st').readers + 1 := by
        rw [joinKeyRead_states, update_self]
      exact hreaders ▸ (h.counted st').insert hfree (show Await.Holds _ (.entry _ st' _) from rfl)
    · have hreaders : ((s.joinKeyRead st).states st').readers = (s.states st').readers := by
        rw [joinKeyRead_states, update_of_ne hst]
      refine hreaders ▸ (h.counted st').update (iff_of_false hfree ?_)
      rintro ⟨c', hc', hholds⟩
      rw [← Option.some.inj hc'] at hholds
      exact hst hholds.symm

/-! ## What a call reads -/

theorem reads_of_length (h : c.Since D redis invalidated now current began)
    (hlen : c.replies.length = (c.commands D).length) :
    List.Forall₂ (ReadSince redis began now) (c.commands D) c.replies := by
  have hreads := h.reads
  rwa [hlen, take_length] at hreads

variable {resetEpoch : ℕ}

/-- The entry that a call read is fresh while its epochs are current. -/
theorem freshView_of_entry {epoch : ℕ}
    (h : c.Since D redis invalidated now (c.await.Current s) began)
    (hw : c.await = .entry resetEpoch st epoch)
    (hlen : c.replies.length = (c.commands D).length) (hcurrent : c.await.Current s) :
    FreshView D redis invalidated now c.key (D.view c.replies) := by
  refine ⟨began, h.settled hcurrent c.key (hw ▸ rfl), c.replies, ?_, rfl⟩
  have hreads := reads_of_length h hlen
  rwa [Resolution.commands, hw] at hreads

/-- So are the known keys that it read, and its entry with them. -/
theorem fresh_of_membership {membershipEpoch : ℕ}
    (h : c.Since D redis invalidated now (c.await.Current s) began)
    (hw : c.await = .membership resetEpoch membershipEpoch)
    (hlen : c.replies.length = (c.commands D).length) (hcurrent : c.await.Current s) :
    FreshView D redis invalidated now c.key (D.view c.replies.tail) ∧
      ∀ key, key ∉ c.members → FreshAbsence D redis invalidated now key := by
  have hsettled : ∀ key, SettledSince invalidated began now key :=
    fun key => h.settled hcurrent key (hw ▸ trivial)
  have hreads := reads_of_length h hlen
  rw [Resolution.commands, hw] at hreads
  obtain ⟨reply, replies, ⟨t, hbegan, ht, hreply⟩, htail, heq⟩ := forall₂_cons_left_iff.mp hreads
  refine ⟨⟨began, hsettled c.key, replies, htail, by rw [heq, tail_cons]⟩, fun key hkey => ?_⟩
  refine ⟨began, hsettled key, t, hbegan, ht, ?_⟩
  rwa [Resolution.members, heq, hreply] at hkey

/-! ## The events of a call -/

section

variable (h : s.Inv redis invalidated now) (hid : s.calls id = none) (n : ℕ)

include h hid n

theorem Inv.beginRead :
    ((s.beginKeyRead key).1.readEntry id key n (s.beginKeyRead key).2).Inv redis invalidated
      (now + 1) := by
  unfold beginKeyRead
  split
  case h_1 st hst => exact h.readEntry hid hst n
  case h_2 hst =>
    refine (h.newKeyRead hst).readEntry hid ?_ n
    rw [newKeyRead_reads, update_self]

theorem Inv.lookup :
    (s.lookup now id key n).Inv redis invalidated (now + 1) := by
  unfold Side.lookup
  split
  case h_1 view hview =>
    have hlater := h.later
    have htouch : ∀ e ∈ (s.cache.touch key view hview).entries,
        FreshView D redis invalidated (now + 1) e.1 e.2 :=
      fun e he => hlater.cached e (Lru.mem_of_mem_touch he)
    refine (hlater.withCache htouch).answer (Nat.lt_succ_self now)
      ⟨fun v cacheHit ho => ?_, fun ho => absurd ho (by simp)⟩
    obtain ⟨rfl, -⟩ := Outcome.known.inj ho
    exact h.cached _ (Lru.mem_of_get? hview)
  case h_2 => exact h.beginRead hid n

theorem Inv.attempt :
    (s.attempt now id key n).Inv redis invalidated (now + 1) := by
  have hlater := h.later
  unfold Side.attempt
  split
  case isTrue => exact hlater.answer_error (Nat.lt_succ_self now) (.inl rfl)
  case isFalse =>
    split
    case h_1 =>
      refine hlater.wait ⟨now, h.since_begin rfl⟩ ⟨le_rfl, le_rfl⟩ fun st => ?_
      exact iff_of_false (not_entryAt_of_eq_none hid) fun hst => hst
    case h_2 known hknown =>
      split
      case isTrue hkey =>
        exact hlater.answer (Nat.lt_succ_self now)
          ⟨fun v cacheHit ho => absurd ho (by simp), fun _ => h.absent known hknown key hkey⟩
      case isFalse => exact h.lookup hid n

end

/-- A call has read the known keys: they are kept, and it is answered. -/
theorem Inv.readMembership (h : s.Inv redis invalidated now)
    (hview : FreshView D redis invalidated now c.key (D.view c.replies.tail))
    (habsent : ∀ key, key ∉ c.members → FreshAbsence D redis invalidated now key) :
    (s.readMembership now c).Inv redis invalidated (now + 1) := by
  have hknown := h.withKnown habsent
  unfold Side.readMembership
  split
  case isTrue hkey =>
    exact hknown.later.answer (Nat.lt_succ_self now)
      ⟨fun v cacheHit ho => absurd ho (by simp), fun _ => habsent c.key hkey⟩
  case isFalse => exact hknown.cacheView hview

theorem not_holds_membership {membershipEpoch : ℕ}
    (hw : c.await = .membership resetEpoch membershipEpoch) (st : ℕ) : ¬ c.await.Holds st :=
  hw ▸ fun hst => hst

theorem calls_wake_self : (s.wake id).calls id = none := by
  rw [wake_calls, update_self]

section

variable (h : s.Inv redis invalidated now) (hc : s.calls id = some c)

include h hc

theorem Inv.proceed (hlen : c.replies.length = (c.commands D).length) :
    ((s.wake id).proceed now id c).Inv redis invalidated (now + 1) := by
  obtain ⟨began, hsince⟩ := h.waiting id c hc
  unfold Side.proceed
  split
  case h_1 resetEpoch membershipEpoch hw =>
    have hwake := h.wake hc (not_holds_membership hw)
    split
    case isTrue => exact hwake.attempt calls_wake_self _
    case isFalse hepochs =>
      rw [not_or, not_not, not_not] at hepochs
      have hcurrent : c.await.Current s := hw ▸ hepochs
      obtain ⟨hview, habsent⟩ := fresh_of_membership hsince hw hlen hcurrent
      exact hwake.readMembership hview habsent
  case h_2 resetEpoch st epoch hw =>
    have hst : c.await.Holds st := hw ▸ rfl
    have hrelease := h.release hc hst
    split
    case isTrue => exact hrelease.attempt calls_wake_self _
    case isFalse hepochs =>
      rw [not_or, not_not, not_not] at hepochs
      have hcurrent : c.await.Current s := hw ▸ hepochs
      -- the order in which the cache and the readers change does not matter
      exact hrelease.cacheView (freshView_of_entry hsince hw hlen hcurrent)

theorem Inv.reject :
    ((s.wake id).reject now c).Inv redis invalidated (now + 1) := by
  unfold Side.reject
  split
  case h_1 resetEpoch membershipEpoch hw =>
    exact (h.wake hc (not_holds_membership hw)).later.answer_error
      (Nat.lt_succ_self now) (.inr rfl)
  case h_2 resetEpoch st epoch hw =>
    exact (h.release hc (hw ▸ rfl)).later.answer_error
      (Nat.lt_succ_self now) (.inr rfl)

theorem Inv.reply {command : Command}
    (hcommand : (c.commands D)[c.replies.length]? = some command) :
    (s.wait id { c with replies := c.replies ++ [(redis now).reply command] }).Inv redis invalidated
      (now + 1) := by
  have hlater := h.later
  obtain ⟨began, hsince⟩ := h.waiting id c hc
  have hread : ReadSince redis began (now + 1) command ((redis now).reply command) :=
    ⟨now, hsince.began_lt, Nat.lt_succ_self now, rfl⟩
  refine hlater.wait ⟨began, ?_, ?_, ?_⟩ (hlater.noted id c hc) fun st =>
    @entryAt_iff _ _ _ (fun c => c.await.Holds st) _ _ hc
  · exact hsince.began_lt.trans (Nat.lt_succ_self now)
  · have hreads := hsince.reads.imp fun _ _ hr => hr.mono (Nat.le_succ now) fun _ _ => rfl
    have htake : (c.commands D).take (c.replies.length + 1) =
        (c.commands D).take c.replies.length ++ [command] := by
      rw [take_add_one, hcommand, toList_some]
    show List.Forall₂ _ ((c.commands D).take (c.replies ++ [_]).length) _
    rw [length_append, length_singleton, htake]
    exact rel_append hreads (.cons hread .nil)
  · intro hcurrent key hkey
    exact (hsince.settled hcurrent key hkey).mono fun t ht _ => ⟨ht, h.past key t ht⟩

end

theorem Inv.step (h : s.Inv redis invalidated now) {op : Op}
    (hstep : s.step (redis now) now op = some t) : t.Inv redis invalidated (now + 1) := by
  cases op with
  | resolve id key =>
    simp only [Side.step, Side.resolve] at hstep
    split at hstep
    case isTrue hid => exact Option.some.inj hstep ▸ h.attempt hid 0
    case isFalse => cases hstep
  | serve id =>
    obtain ⟨c, hc, hstep⟩ := bind_eq_some_iff.mp hstep
    obtain ⟨command, hcommand, hstep⟩ := bind_eq_some_iff.mp hstep
    exact Option.some.inj hstep ▸ h.reply hc hcommand
  | resume id =>
    obtain ⟨c, hc, hstep⟩ := bind_eq_some_iff.mp hstep
    split at hstep
    case isTrue hlen => exact Option.some.inj hstep ▸ h.proceed hc hlen
    case isFalse => cases hstep
  | fail id =>
    obtain ⟨c, hc, hstep⟩ := bind_eq_some_iff.mp hstep
    exact Option.some.inj hstep ▸ h.reject hc

end Side

end Wdl.Gateway
