import Wdl.Workflow.Marks

/-!
# The past of an instance

What the keys of an instance say must agree with what has happened to it.

* `Chronicle` is the agreement. Two parts of it hold only as long as no two reservations
  were made with the same creation time (`Fresh`): the service tells one life of an instance
  from another by the creation time, and what a process read in one life it would otherwise
  carry into the next.
* `Seen` is what a process knows that has read a visible instance, however long ago: if the
  instance still has the generation and the creation time that were read, then it has the
  version that was read. It stays true whatever happens (`Seen.effect`).
* `Observed` is what a process knows when it calls a script, and `Chronicle.effect` says that
  scripts called with this knowledge keep the agreement.
-/

namespace Wdl.Workflow

open Script State Instance List

variable {cfg : Service} {n : ℕ} {k : Kind} {c : Script} {x : c.Reply} {i i' : Instance}
  {s s' : State} {past : List Mark}

/-- The indexes and the tokens of the instance are as its life requires. -/
structure Indexed (i : Instance) : Prop where
  byVersion : i.byVersion = i.life.versions
  byWorkflow : i.life.isVisible = true → i.byWorkflow.isSome = true
  quiet : Quiet i

theorem Indexed.of_visible (hs : i.state = some s) (hst : s.status ≠ .pendingCreate)
    (hversion : i.byVersion = if s.status = .terminated then ∅ else {s.frozenVersion})
    (hworkflow : i.byWorkflow.isSome = true) (hquiet : Quiet i) : Indexed i := by
  refine ⟨?_, fun _ => hworkflow, hquiet⟩
  rw [hversion, life_of_state hs, life_of_visible hst, Life.versions]
  simp only [decide_eq_true_eq]

/-- The keys of the instance agree with its past. -/
structure Chronicle (i : Instance) (past : List Mark) : Prop where
  /-- No create reserves twice. -/
  unique : (past.filterMap Mark.token).Nodup
  pending : ∀ token createdAt version, i.life = .pending token createdAt version →
    ∃ t, token = some t ∧ .reserved t createdAt version ∈ past
  born : ∀ createdAt, i.life.createdAt = some createdAt → createdAt ∈ past.filterMap Mark.createdAt
  unpublished : i.life.isVisible = false → ∀ b, .published b ∈ past → DeletedSince past b
  separated : ∀ a b, a ≠ b → .published a ∈ past → .published b ∈ past →
    DeletedBetween past a b ∨ DeletedBetween past b a
  byWorker : i.byWorker = true ↔ i.life ≠ .absent
  byWorkflow : i.life.isVisible = false → i.byWorkflow = none
  indexed : Fresh past → Indexed i

theorem Chronicle.absent : Chronicle .absent [] where
  unique := List.nodup_nil
  pending _ _ _ h := by cases h
  born _ h := by cases h
  unpublished _ b h := absurd h List.not_mem_nil
  separated a b _ h := absurd h List.not_mem_nil
  byWorker := by simp [Instance.absent, Instance.life]
  byWorkflow _ := rfl
  indexed _ := ⟨rfl, fun h => (by cases h), .of_none rfl rfl⟩

/-! ## What a process has seen -/

/-- The instance was visible with this generation, creation time and version. As long as it
    has the creation time it is still visible, and as long as it also has the generation it has
    the version. -/
def Seen (generation createdAt version : ℕ) (i : Instance) (past : List Mark) : Prop :=
  createdAt ∈ past.filterMap Mark.createdAt ∧
    (Fresh past → i.life.createdAt = some createdAt →
      ∃ g v terminated, i.life = .visible createdAt g v terminated ∧
        (generation < g ∨ (generation = g ∧ version = v)))

theorem Seen.of_read (h : Chronicle i past) (hs : i.state = some s)
    (hst : s.status ≠ .pendingCreate) : Seen s.generation s.createdAtMs s.frozenVersion i past := by
  have hlife := (life_of_state hs).trans (life_of_visible hst)
  refine ⟨h.born _ ?_, fun _ _ => ⟨_, _, _, hlife, .inr ⟨rfl, rfl⟩⟩⟩
  rw [life_of_state hs, life_createdAt]

theorem Seen.current {g created v : ℕ} (h : Seen g created v i past) (hf : Fresh past)
    (hs : incarnation g created i = some s) : s.status ≠ .pendingCreate ∧ s.frozenVersion = v := by
  obtain ⟨hs, hg, hc⟩ := incarnation_some hs
  obtain ⟨g', v', t, hlife, hcur⟩ := h.2 hf (by rw [life_of_state hs, life_createdAt, hc])
  rw [life_of_state hs] at hlife
  have hst : s.status ≠ .pendingCreate := by
    rw [← life_isVisible, hlife]
    rfl
  rw [life_of_visible hst] at hlife
  injection hlife with _ hg' hv _
  refine ⟨hst, ?_⟩
  rcases hcur with hlt | ⟨-, hv'⟩
  · exact absurd (hg.symm.trans hg') hlt.ne
  · exact hv.trans hv'.symm

/-- A life that goes on as it was, or in a later generation, is still the one that was seen. -/
theorem Seen.kept {g created v : ℕ} (h : Seen g created v i past)
    (hlife : Fresh past → i'.life.createdAt = some created →
      i.life.createdAt = some created ∧ ∀ g₀ v₀ t₀, i.life = .visible created g₀ v₀ t₀ →
        ∃ g₁ v₁ t₁, i'.life = .visible created g₁ v₁ t₁ ∧ (g₀ < g₁ ∨ (g₀ = g₁ ∧ v₀ = v₁))) :
    Seen g created v i' past := by
  refine ⟨h.1, fun hf hc => ?_⟩
  obtain ⟨hc₀, hnext⟩ := hlife hf hc
  obtain ⟨g₀, v₀, t₀, hv, hcur⟩ := h.2 hf hc₀
  obtain ⟨g₁, v₁, t₁, hv', hcur'⟩ := hnext g₀ v₀ t₀ hv
  refine ⟨g₁, v₁, t₁, hv', ?_⟩
  omega

/-- A transition starts a later generation of a visible instance. -/
theorem Seen.advanced {g created v : ℕ} (h : Seen g created v i past) (hs : i.state = some s)
    (hs' : i'.state = some s') (hcreated : s'.createdAtMs = s.createdAtMs)
    (hgen : s.generation < s'.generation) (hst' : s'.status ≠ .pendingCreate) :
    Seen g created v i' past := by
  have hlife := life_of_state hs
  have hlife' := (life_of_state hs').trans (life_of_visible hst')
  refine h.kept fun hf hc => ?_
  have hc₀ : i.life.createdAt = some created := by
    rw [hlife, life_createdAt, ← hcreated]
    rwa [hlife'] at hc
  obtain rfl : s'.createdAtMs = created := by
    rw [hlife'] at hc
    exact Option.some.inj hc
  refine ⟨hc₀, fun g₀ v₀ t₀ hv => ⟨_, _, _, hlife', .inl ?_⟩⟩
  rw [hlife] at hv
  have hst : s.status ≠ .pendingCreate := by
    rw [← life_isVisible, hv]
    rfl
  rw [life_of_visible hst] at hv
  injection hv with _ hg _ _
  exact hg ▸ hgen

/-- An instance that is not there, or is reserved, is none that was seen. -/
theorem Seen.of_gone {g created v : ℕ} {ms : List Mark} (h : Seen g created v i past)
    (hgone : i'.life = .absent) : Seen g created v i' (ms ++ past) := by
  refine ⟨?_, fun _ hc => ?_⟩
  · rw [filterMap_append]
    exact mem_append_right _ h.1
  · rw [hgone] at hc
    cases hc

/-- What was seen once is seen after every script. -/
theorem Seen.effect {g created v : ℕ} (h : Seen g created v i past) (hc : Calls cfg n k c)
    (heff : Effect cfg i c x i') : Seen g created v i' (c.marks i i' ++ past) := by
  have stays : ∀ {s s' : State}, i.state = some s → i'.state = some s' →
      s'.createdAtMs = s.createdAtMs → s.generation < s'.generation → s'.status ≠ .pendingCreate →
      (∀ a, c ≠ .createInstance a) → (∀ t m, c ≠ .finalizeCreateInstance t m) →
      Seen g created v i' (c.marks i i' ++ past) := by
    intro s s' hs hs' hcreated hgen hst' hno hnof
    rw [marks_of_state hs' hno hnof]
    exact h.advanced hs hs' hcreated hgen hst'
  by_cases hl : c.Lives
  swap
  · have hlife := (heff.life_eq hc hl).1
    rw [marks_of_life_eq hl hlife]
    refine h.kept fun _ hcr => ⟨hlife ▸ hcr, fun g₀ v₀ t₀ hv => ⟨g₀, v₀, t₀, hlife.trans hv, ?_⟩⟩
    exact .inr ⟨rfl, rfl⟩
  cases heff with
  | idle =>
    rw [marks_self]
    exact h
  | @created a hs =>
    rw [marks, hs]
    refine ⟨mem_cons_of_mem _ h.1, fun hf hcr => absurd h.1 ?_⟩
    obtain rfl : a.now = created := Option.some.inj hcr
    exact hf.not_mem
  | @finalized t m s hs =>
    obtain ⟨hstate, -, hst, -⟩ := pendingUnder_some hs
    refine ⟨?_, fun hf hcr => ?_⟩
    · rw [filterMap_append]
      exact mem_append_right _ h.1
    -- under fresh creation times what was seen is not reserved
    · obtain ⟨g', v', b, hv, -⟩ := h.2 hf.of_append
        (by rw [life_of_state hstate, life_createdAt]; exact hcr)
      rw [life_of_state hstate, life_of_pending hst] at hv
      cases hv
  | pendingRemoved | expired => exact h.of_gone rfl
  | paused s hs | resumed s hs | terminated s hs =>
    obtain ⟨hs, hg, -⟩ := incarnation_some hs
    refine stays hs rfl rfl ?_ (by simp) (by simp) (by simp)
    exact hg.trans_lt (hc.2 ▸ Nat.lt_succ_self _)
  | restarted s hs =>
    obtain ⟨hs, hg, -⟩ := incarnation_some hs
    refine stays hs rfl rfl ?_ (by simp) (by simp) (by simp)
    exact hg.trans_lt (hc.2.1 ▸ Nat.lt_succ_self _)
  | _ => exact absurd hl id

/-! ## The scripts keep the agreement -/

/-- What the process with number `n` knows when it calls a script. -/
def Observed (n : ℕ) (i : Instance) (past : List Mark) : Script → Prop
  | .createInstance _ => ∀ createdAt version, .reserved n createdAt version ∉ past
  | .cleanupPendingCreate t v =>
    ∀ createdAt version, .reserved t createdAt version ∈ past → version = v
  | .sendEvent _ _ _ _ g created | .pause g _ created | .resume g _ created =>
    ∃ v, Seen g created v i past
  | .terminate g _ created _ v | .restart _ g _ created v _ _ _ | .cleanupRetention g created _ v =>
    Seen g created v i past
  | _ => True

namespace Chronicle

section

variable (h : Chronicle i past)

include h

theorem version_eq {t created version created' version' : ℕ}
    (hm : .reserved t created version ∈ past) (hm' : .reserved t created' version' ∈ past) :
    version' = version := by
  by_contra hne
  have hpair := pairwise_filterMap.1 h.unique
  have hsymm : Std.Symm fun m m' : Mark => ∀ b, m.token = some b →
    ∀ b', m'.token = some b' → b ≠ b' :=
    ⟨fun m m' hmm b hb b' hb' => (hmm b' hb' b hb).symm⟩
  have hmarks : Mark.reserved t created version ≠ .reserved t created' version' :=
    fun heq => hne (Mark.reserved.inj heq).2.2.symm
  exact hpair.forall hm hm' hmarks t rfl t rfl rfl

/-- A change that leaves the life and the indexes alone. -/
theorem same (hlife : i'.life = i.life) (hidx : SameIndexes i i')
    (hquiet : Fresh past → Quiet i') : Chronicle i' past where
  unique := h.unique
  pending _ _ _ hl := h.pending _ _ _ (hlife.symm.trans hl)
  born _ hl := h.born _ (hlife ▸ hl)
  unpublished hl := h.unpublished (hlife ▸ hl)
  separated := h.separated
  byWorker := by rw [hidx.byWorker, hlife]; exact h.byWorker
  byWorkflow hl := hidx.byWorkflow.trans (h.byWorkflow (hlife ▸ hl))
  indexed hf :=
    ⟨by rw [hidx.byVersion, hlife]; exact (h.indexed hf).byVersion,
      fun hl => by rw [hidx.byWorkflow]; exact (h.indexed hf).byWorkflow (hlife ▸ hl), hquiet hf⟩

/-- A change that makes the instance go on, visibly, in the life that it is in. -/
theorem turned (hs : i.state = some s) (hs' : i'.state = some s')
    (hcreated : s'.createdAtMs = s.createdAtMs) (hst' : s'.status ≠ .pendingCreate)
    (hworker : i'.byWorker = true) (hidx : Fresh past → Indexed i') : Chronicle i' past where
  unique := h.unique
  pending _ _ _ hl := by
    rw [life_of_state hs', life_of_visible hst'] at hl
    cases hl
  born created hl := by
    refine h.born created ?_
    rw [life_of_state hs', life_createdAt, hcreated] at hl
    rw [life_of_state hs, life_createdAt, hl]
  unpublished hl := by
    rw [life_of_state hs', (life_isVisible s').2 hst'] at hl
    cases hl
  separated := h.separated
  byWorker := by
    rw [hworker, life_of_state hs']
    exact iff_of_true rfl s'.life_ne_absent
  byWorkflow hl := by
    rw [life_of_state hs', (life_isVisible s').2 hst'] at hl
    cases hl
  indexed := hidx

/-- The end of a life. -/
theorem ended (hs' : i'.state = none) (hworker : i'.byWorker = false)
    (hworkflow : i'.byWorkflow = none) (hversion : Fresh past → i'.byVersion = ∅)
    (hquiet : Fresh past → Quiet i') : Chronicle i' (.deleted :: past) := by
  have hlife : i'.life = .absent := life_of_missing hs'
  refine ⟨h.unique, fun _ _ _ hl => ?_, fun _ hl => ?_, fun _ b hb => ?_,
    fun a b hne ha hb => ?_, ?_, fun _ => hworkflow, fun hf => ⟨?_, fun hl => ?_, ?_⟩⟩
  · cases hlife.symm.trans hl
  · rw [hlife] at hl
    cases hl
  · exact .of_deleted ((mem_cons.1 hb).resolve_left (by simp))
  · have ha' := (mem_cons.1 ha).resolve_left (by simp)
    have hb' := (mem_cons.1 hb).resolve_left (by simp)
    exact (h.separated a b hne ha' hb').imp (·.cons _) (·.cons _)
  · rw [hworker, hlife]
    exact iff_of_false Bool.false_ne_true fun hne => hne rfl
  · rw [hversion hf, hlife]
    rfl
  · rw [hlife] at hl
    cases hl
  · exact hquiet hf

/-- The beginning of a life. -/
theorem created {a : CreateArgs} (hs : i.state = none)
    (hfresh : ∀ createdAt version, .reserved a.pendingToken createdAt version ∉ past)
    (hs' : i'.state = some a.state) (hworker : i'.byWorker = true)
    (hversion : i'.byVersion = insert a.frozenVersion i.byVersion)
    (hworkflow : i'.byWorkflow = i.byWorkflow) (hquiet : Fresh past → Quiet i') :
    Chronicle i' (.reserved a.pendingToken a.now a.frozenVersion :: past) := by
  have habsent : i.life = .absent := life_of_missing hs
  have hlife : i'.life = .pending (some a.pendingToken) a.now a.frozenVersion :=
    (life_of_state hs').trans (life_of_pending rfl)
  have hinvisible : i.life.isVisible = false := by rw [habsent]; rfl
  refine ⟨?_, fun token created v hl => ?_, fun created hl => ?_, fun _ b hb => ?_,
    fun a' b hne ha hb => ?_, ?_, fun _ => hworkflow.trans (h.byWorkflow hinvisible), fun hf => ?_⟩
  · refine nodup_cons.2 ⟨fun hmem => ?_, h.unique⟩
    obtain ⟨m, hm, htoken⟩ := mem_filterMap.1 hmem
    cases m with
    | reserved t created v =>
      cases htoken
      exact hfresh created v hm
    | published | deleted => cases htoken
  · obtain ⟨rfl, rfl, rfl⟩ := Life.pending.inj (hlife.symm.trans hl)
    exact ⟨_, rfl, mem_cons_self⟩
  · rw [hlife] at hl
    cases hl
    exact mem_cons_self
  · exact (h.unpublished hinvisible b ((mem_cons.1 hb).resolve_left (by simp))).cons _
  · have ha' := (mem_cons.1 ha).resolve_left (by simp)
    have hb' := (mem_cons.1 hb).resolve_left (by simp)
    exact (h.separated a' b hne ha' hb').imp (·.cons _) (·.cons _)
  · rw [hworker, hlife]
    exact iff_of_true rfl (by simp)
  · have hf' : Fresh past := hf.of_cons
    refine ⟨?_, fun hl => ?_, hquiet hf'⟩
    · rw [hversion, (h.indexed hf').byVersion, habsent, hlife]
      rfl
    · rw [hlife] at hl
      cases hl

/-- The publication of a reserved instance. -/
theorem published {t : ℕ} (hs : i.state = some s)
    (hst : s.status = .pendingCreate) (hs' : i'.state = some s')
    (hcreated : s'.createdAtMs = s.createdAtMs) (hversion : s'.frozenVersion = s.frozenVersion)
    (hst' : s'.status = .queued) (hworker : i'.byWorker = i.byWorker)
    (hbyVersion : i'.byVersion = i.byVersion) (hworkflow : i'.byWorkflow.isSome = true) :
    Chronicle i' (.published t :: past) := by
  have hlife : i.life = .pending s.pendingCreateToken s.createdAtMs s.frozenVersion :=
    (life_of_state hs).trans (life_of_pending hst)
  have hinvisible : i.life.isVisible = false := by rw [hlife]; rfl
  have hvisible : s'.status ≠ .pendingCreate := by rw [hst']; decide
  have hlife' := (life_of_state hs').trans (life_of_visible hvisible)
  have hworker' : i'.byWorker = true := by
    rw [hworker, h.byWorker, hlife]
    simp
  have hidx : Fresh past → Indexed i' := by
    intro hf
    refine ⟨?_, fun _ => hworkflow, .of_active hs' hvisible (by rw [hst']; rfl)⟩
    rw [hbyVersion, (h.indexed hf).byVersion, hlife, hlife', hst', hversion]
    rfl
  have hturned := h.turned hs hs' hcreated hvisible hworker' hidx
  refine ⟨h.unique, fun _ _ _ hl => ?_, hturned.born, fun hl => ?_, fun a b hne ha hb => ?_,
    hturned.byWorker, hturned.byWorkflow, hidx⟩
  · cases hlife'.symm.trans hl
  · rw [hlife'] at hl
    cases hl
  -- the instance was not visible, so whoever published it before, it was deleted since
  · rcases mem_cons.1 ha with ha' | ha' <;> rcases mem_cons.1 hb with hb' | hb'
    · exact absurd (Mark.published.inj (ha'.trans hb'.symm)) hne
    · cases ha'
      exact .inl (.of_published (h.unpublished hinvisible b hb'))
    · cases hb'
      exact .inr (.of_published (h.unpublished hinvisible a ha'))
    · exact (h.separated a b hne ha' hb').imp (·.cons _) (·.cons _)

theorem byWorker_of_state (hs : i.state = some s) : i.byWorker = true := by
  rw [h.byWorker, life_of_state hs]
  exact s.life_ne_absent

/-- A transition by a process that has read the instance finds it in the index by workflow, and
    its version in the place where the script removes it from. -/
theorem transition {g created v : ℕ} (hseen : Seen g created v i past)
    (hs : incarnation g created i = some s) (hf : Fresh past) :
    i.byWorkflow.isSome = true ∧ i.byVersion.erase v = ∅ ∧
      (s.status ≠ .terminated → i.byVersion = {s.frozenVersion}) := by
  obtain ⟨hst, rfl⟩ := hseen.current hf hs
  have hlife := (life_of_state (incarnation_some hs).1).trans (life_of_visible hst)
  have hversions := (h.indexed hf).byVersion
  rw [hlife, Life.versions] at hversions
  refine ⟨(h.indexed hf).byWorkflow (by rw [hlife]; rfl), ?_, fun hterm => ?_⟩
  · rw [hversions]
    split <;> simp
  · rw [hversions, if_neg (by simpa using hterm)]

/-- **The agreement is kept.** A script that is called with what the processes know keeps the
    keys of the instance in agreement with its past. -/
theorem effect (hc : Calls cfg n k c) (ho : Observed n i past c)
    (heff : Effect cfg i c x i') : Chronicle i' (c.marks i i' ++ past) := by
  have hquiet : Fresh past → Quiet i' := by
    refine fun hf => (h.indexed hf).quiet.effect hc heff ?_
    rintro p ty pre t g created rfl s hs
    obtain ⟨v, hseen⟩ := ho
    exact (hseen.current hf hs).1
  by_cases hl : c.Lives
  swap
  · obtain ⟨hlife, hidx⟩ := heff.life_eq hc hl
    rw [marks_of_life_eq hl hlife]
    exact h.same hlife hidx hquiet
  cases heff with
  | idle =>
    rw [marks_self]
    exact h
  | created hs =>
    rw [marks, hs]
    obtain rfl := hc.2.1
    exact h.created hs ho rfl rfl rfl rfl hquiet
  | @finalized t m s hs =>
    rw [marks_of_published hs rfl (by simp)]
    obtain ⟨hs, -, hst, -⟩ := pendingUnder_some hs
    exact h.published hs hst rfl rfl rfl rfl rfl rfl rfl
  | @pendingRemoved t v s hs =>
    obtain ⟨hs, -, hst, htoken⟩ := pendingUnder_some hs
    have hlife := (life_of_state hs).trans (life_of_pending hst)
    rw [marks_of_removed hs rfl (by simp) (by simp)]
    refine h.ended rfl rfl (h.byWorkflow (by rw [hlife]; rfl)) (fun hf => ?_) hquiet
    obtain ⟨t', ht', hmem⟩ := h.pending _ _ _ hlife
    cases htoken.symm.trans ht'
    obtain rfl := ho _ _ hmem
    have hversion := (h.indexed hf).byVersion
    rw [hlife] at hversion
    exact (congrArg (Finset.erase · _) hversion).trans (by simp [Life.versions])
  | expired s e hs hst =>
    rw [marks_of_removed (incarnation_some hs).1 rfl (by simp) (by simp)]
    exact h.ended rfl rfl rfl (fun hf => (h.transition ho hs hf).2.1) hquiet
  | paused s hs hst | resumed s hs hst =>
    -- the version stays in its index, as the instance is not terminated
    obtain ⟨v, ho⟩ := ho
    have hstate := (incarnation_some hs).1
    rw [marks_of_state rfl (by simp) (by simp)]
    refine h.turned hstate rfl rfl (by simp) (h.byWorker_of_state hstate) fun hf => ?_
    obtain ⟨hworkflow, -, hversion⟩ := h.transition ho hs hf
    refine .of_visible rfl (by simp) (hversion ?_) hworkflow (hquiet hf)
    rintro hterm
    rw [hterm] at hst
    cases hst
  | terminated s hs hst =>
    have hstate := (incarnation_some hs).1
    rw [marks_of_state rfl (by simp) (by simp)]
    refine h.turned hstate rfl rfl (by simp) (h.byWorker_of_state hstate) fun hf => ?_
    obtain ⟨hworkflow, hgone, -⟩ := h.transition ho hs hf
    exact .of_visible rfl (by simp) hgone hworkflow (hquiet hf)
  | restarted s hs =>
    have hstate := (incarnation_some hs).1
    rw [marks_of_state rfl (by simp) (by simp)]
    refine h.turned hstate rfl rfl (by simp) rfl fun hf => ?_
    obtain ⟨-, hgone, -⟩ := h.transition ho hs hf
    refine .of_visible rfl (by simp) ?_ rfl (hquiet hf)
    exact (congrArg (insert _) hgone).trans (by simp)
  | _ => exact absurd hl id

end

end Chronicle

end Wdl.Workflow
