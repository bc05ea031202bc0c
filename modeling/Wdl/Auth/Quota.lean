import Wdl.Auth.Processes

/-!
# The quota of delegated issue

An issuer never has more active tokens under a template than the template allows, whatever
becomes of locks, replies and processes: a delegated issue counts the tokens while it has the
lock, and commits only if it still has it (`Change.quota`). And once an issuer has been revoked,
nothing is issued for it (`Change.no_issue`).
-/

namespace Wdl.Auth

open List

variable {i : ℕ} {configured : Option Token} {a b : Db} {key : LockKey}

/-! ## Active tokens -/

variable {id : TokenId}

theorem mem_active_of_evolves (hab : Evolves a b) (hid : id ≠ .bootstrap)
    (h : id ∈ b.active key) (hold : (a.records id).isSome) : id ∈ a.active key := by
  obtain ⟨r, hr, hpair, hrev, hexp⟩ := h
  obtain ⟨r', hr'⟩ := Option.isSome_iff_exists.mp hold
  obtain ⟨r'', hr'', hb⟩ := hab.records id r' hid hr'
  cases hr''.symm.trans hr
  rw [Bool.eq_false_iff] at hrev hexp
  refine ⟨r', hr', hb.issuedUnder_iff.mp hpair, Bool.eq_false_iff.mpr fun h => hrev (hb.revoked h),
    Bool.eq_false_iff.mpr fun h => hexp (isExpired_mono hb.expiresAt hab.clock h)⟩

theorem ne_bootstrap_of_mem_active (hb : Inv b) (h : id ∈ b.active key) :
    id ≠ .bootstrap := by
  rintro rfl
  obtain ⟨r, hr, hpair, -⟩ := h
  cases (hb.bootstrap r hr).2.2.symm.trans hpair.2

theorem eq_of_template_id {t t' : DelegatedIssueTemplate} (ht : t ∈ delegatedIssueTemplates)
    (ht' : t' ∈ delegatedIssueTemplates) (h : t.id = t'.id) : t = t' := by
  have hall : ∀ t ∈ delegatedIssueTemplates, ∀ t' ∈ delegatedIssueTemplates,
      t.id = t'.id → t = t' := by
    decide
  exact hall t ht t' ht' h

/-- The active tokens of every issuer and template are within the quota. -/
def WithinQuota (db : Db) : Prop :=
  ∀ issuer, ∀ template ∈ delegatedIssueTemplates,
    (db.active (issuer, template.id)).encard ≤ template.activeQuota

theorem Change.quota (h : Change i configured a b) (ha : Inv a) (hq : WithinQuota a) :
    WithinQuota b := by
  intro issuer template htemplate
  have hb := h.inv ha
  by_cases hnew : ∀ id ∈ b.active (issuer, template.id), (a.records id).isSome
  · -- nothing new under the template
    refine le_trans (Set.encard_le_encard fun id hid => ?_) (hq issuer template htemplate)
    exact mem_active_of_evolves h.evolves (ne_bootstrap_of_mem_active hb hid) hid (hnew id hid)
  · -- a new token: the process has counted fewer tokens than the quota
    have hsub :
      b.active (issuer, template.id) ⊆ insert (.random i) (a.active (issuer, template.id)) := by
      intro id hid
      have hne := ne_bootstrap_of_mem_active hb hid
      have hactive := hid
      obtain ⟨r, hr, hpair, -⟩ := hid
      rcases h.new_token hne hr hpair with hold | ⟨rfl, -⟩
      · exact .inr (mem_active_of_evolves h.evolves hne hactive hold)
      · exact .inl rfl
    push Not at hnew
    obtain ⟨id, hid, hnone⟩ := hnew
    have hne := ne_bootstrap_of_mem_active hb hid
    obtain ⟨r, hr, hpair, -⟩ := hid
    obtain ⟨-, -, template', htemplate', hsame, hlt⟩ :=
      (h.new_token hne hr hpair).resolve_left (by simpa using hnone)
    obtain rfl := eq_of_template_id htemplate' htemplate hsame
    calc (b.active (issuer, template'.id)).encard
        ≤ (insert (.random i) (a.active (issuer, template'.id))).encard := Set.encard_le_encard hsub
      _ ≤ (a.active (issuer, template'.id)).encard + 1 := Set.encard_insert_le _ _
      _ ≤ template'.activeQuota := Order.add_one_le_of_lt hlt

theorem Env.quota (e : Env) (ha : Inv a) (hq : WithinQuota a) : WithinQuota (e.apply a) := by
  intro issuer template htemplate
  refine le_trans (Set.encard_le_encard fun id hid => ?_) (hq issuer template htemplate)
  refine mem_active_of_evolves (Env.evolves e a)
    (ne_bootstrap_of_mem_active (Env.inv e ha) hid) hid ?_
  obtain ⟨r, hr, -⟩ := hid
  have hrecords : (e.apply a).records = a.records := by cases e <;> rfl
  rw [← hrecords, hr]
  rfl

/-! ## Revoked issuers -/

/-- The second event is not an issue for an issuer that the first one revokes. -/
def Event.Allows (e e' : Event) : Prop :=
  ∀ j issuer collapsed template id, e = .revoked j issuer collapsed →
    e' ≠ .delegated issuer template id

theorem Change.no_issue (h : Change i configured a b) (ha : Inv a)
    (hlog : a.log.Pairwise Event.Allows) : b.log.Pairwise Event.Allows := by
  rcases h.log_cases with heq | ⟨e, heq, he⟩
  · rwa [heq]
  rw [heq, pairwise_append]
  refine ⟨hlog, pairwise_singleton _ _, fun e' he' e'' hmem j issuer collapsed template id hrev
    hissue => ?_⟩
  -- the record of a revoked issuer says so
  obtain rfl := mem_singleton.mp hmem
  subst hrev hissue
  obtain ⟨-, r, hr, hrevoked⟩ := ha.log _ he'
  obtain ⟨-, r', hr', hactive⟩ := he
  cases hr'.symm.trans hr
  exact Bool.false_ne_true (hactive.symm.trans hrevoked)

/-! ## Every run -/

/-- What is kept of the quota: the active tokens are within it, and after the revocation of an
    issuer nothing is issued for it. -/
structure QuotaKept (db : Db) : Prop where
  within : WithinQuota db
  final : ∀ earlier later j issuer collapsed,
    db.log = earlier ++ Event.revoked j issuer collapsed :: later →
    ∀ template id, Event.delegated issuer template id ∉ later

variable {issuer : TokenId}

theorem final_of_pairwise {l : List Event} (h : l.Pairwise Event.Allows)
    {earlier later : List Event} {j : ℕ} {collapsed : Bool}
    (hl : l = earlier ++ Event.revoked j issuer collapsed :: later) (template : String)
    (id : TokenId) : Event.delegated issuer template id ∉ later := by
  intro hmem
  rw [hl, pairwise_append, pairwise_cons] at h
  exact h.2.1.1 _ hmem j issuer collapsed template id rfl rfl

/-- **The quota is never exceeded.** In every run, the active tokens of an issuer under a template
    are at most as many as the template allows, and none is issued after its issuer was
    revoked. -/
theorem delegated_quota_never_exceeded {w : AuthWorld} (h : auth.Reachable Initial w) :
    QuotaKept w.store.db := by
  have hwithin : WithinQuota w.store.db := by
    refine (relyGuarantee _).store_invariant (J := fun s => WithinQuota s.db) (fun s hs => ?_)
      (fun i k s t hinv hq hg => hg.db.quota hinv hq) (fun w e t _ hinv hq he => ?_) h
    · intro issuer template _
      rw [show s.db = _ from hs]
      refine le_of_eq_of_le (Set.encard_eq_zero.mpr ?_) zero_le
      refine Set.eq_empty_of_forall_notMem ?_
      rintro id ⟨r, hr, -⟩
      cases hr
    · obtain rfl : t = _ := he
      exact Env.quota e hinv hq
  have hfinal : w.store.db.log.Pairwise Event.Allows := by
    refine (relyGuarantee _).store_invariant (J := fun s => s.db.log.Pairwise Event.Allows)
      (fun s hs => ?_) (fun i k s t hinv hl hg => hg.db.no_issue hinv hl)
      (fun w e t _ hinv hl he => ?_) h
    · rw [show s.db = _ from hs]
      exact .nil
    · obtain rfl : t = _ := he
      have hlog : (e.apply w.store.db).log = w.store.db.log := by cases e <;> rfl
      rwa [Shared.move_db, hlog]
  exact ⟨hwithin, fun _ _ _ _ _ hl => final_of_pairwise hfinal hl⟩

/-- A call that issues a token issuer that may use a template. -/
def issuerCall : Kind := .issue (some (.text "boot")) {
  kind := some "token-issuer"
  ns := none
  label := none
  expiresAt := .absent
  issuerTokenId := some .bootstrap
  issueTemplates := some ["wdl-cli-integration"]
  storageField := false }

/-- A call by which that issuer issues a token. -/
def delegatedCall : Kind :=
  .delegatedIssue (some (.text "boot"))
    ⟨some (.random 0), some "wdl-cli-integration", none⟩ ["ab12"]

/-- A token that is issued under a template does not expire at once. -/
theorem isExpired_delegatedRecord {i : ℕ} {template : DelegatedIssueTemplate} {ns : Ns}
    {nowMs : ℕ} (h : 0 < template.ttlSeconds) :
    isExpired (delegatedRecord i issuer template ns nowMs) nowMs = false := by
  rw [isExpired, delegatedRecord, Option.any_some, decide_eq_false_iff_not]
  omega

/-- A token issuer can issue a token, and is then within its quota. -/
theorem delegated_quota_issued : ∃ w, auth.Reachable Initial w ∧
    TokenId.random 1 ∈ w.store.db.active (.random 0, "wdl-cli-integration") ∧
    QuotaKept w.store.db := by
  have h₀ : auth.Reachable Initial _ := reachable_initial
  obtain ⟨t₁, hdb₁, h₁⟩ := reachable_serve (fun _ _ _ _ => trivial) h₀ 0 issuerCall trivial rfl
  -- the delegated issue, up to its scan
  obtain ⟨t₂, hdb₂, hclean₂, hruns₂⟩ := Prog.alone_runs Command.answer_step
    (body 1 delegatedCall) none t₁ nofun
  rw [hdb₁] at hdb₂ hclean₂ hruns₂
  have hfound : ∀ k, keyed.Present t₂.db k → Key.isRecord k →
      k ∈ [Key.record .bootstrap, Key.record (.random 0)] := by
    rw [hdb₂]
    intro k hk hp
    cases k with
    | record id =>
      cases id with
      | bootstrap => exact mem_cons_self ..
      | random j =>
        cases j with
        | zero => exact mem_cons_of_mem _ (mem_cons_self ..)
        | succ j => cases hk
      | text s => cases hk
    | _ => cases hp
  obtain ⟨t₃, hdb₃, hclean₃, hruns₃⟩ := hruns₂.scan hclean₂ hfound
  obtain ⟨t₄, hdb₄, -, hruns₄⟩ := hruns₃.alone Command.answer_step hclean₃
  have h₂ := reachable_run (fun _ _ _ _ => trivial) h₁ trivial rfl hruns₄
  refine ⟨_, h₂, ?_, delegated_quota_never_exceeded h₂⟩
  show _ ∈ t₄.db.active _
  rw [hdb₄, hdb₃, hdb₂]
  refine ⟨_, rfl, ⟨rfl, rfl⟩, rfl, ?_⟩
  exact isExpired_delegatedRecord (by decide)

end Wdl.Auth
