import Wdl.Auth.Changes
import Wdl.Base.Index

/-!
# The transactions of the auth service as if they were atomic

What the two transactions know when they commit: a rotation knows the hash that it replaces
(`rotateBootstrap_ensures`), and a delegated issue that it has its lock, that its issuer may still
issue, and that the quota is not used up (`delegatedSession_ensures`).
-/

namespace Wdl.Auth

open List

open Session (Ensures Seen Commits)

variable {α β : Type} {A : Db → Prop} {R : Db → Db → Prop} {i : ℕ} {db : Db} {W : Set Key}

/-! ## Rules for sessions -/

theorem ensures_any (p : SessionM α) : Ensures A R db W p fun _ _ => True := by
  induction p generalizing W with
  | ret | fail => trivial
  | call c f ih =>
    cases c with
    | watch ks => exact ih _
    | read | scan => exact fun _ _ => ih _

variable {Q : Set Key → β → Prop}

section Rules

variable {T : (Db → Db) → Prop} {p : SessionM α} {f : α → SessionM (Verdict Db β)}

theorem ensures_skip (hf : ∀ V a, Ensures A R db V (f a) (Commits T)) :
    Ensures A R db W (p >>= f) (Commits T) :=
  Ensures.seq (ensures_any p) fun V a _ => hf V a

theorem ensures_ofPolicy {e : Except AuthPolicyError α} :
    Ensures A R db W (ofPolicy e : SessionM α) fun V a => V = W ∧ e = .ok a := by
  cases e with
  | ok a => exact ⟨rfl, rfl⟩
  | error e => trivial

theorem ensures_refuseIf {c : Prop} [Decidable c] {status : ℕ} {reason message : String} :
    Ensures A R db W (refuseIf c status reason message : SessionM Unit) fun V _ => V = W ∧ ¬ c := by
  rw [refuseIf]
  split_ifs with hc
  · trivial
  · exact ⟨rfl, hc⟩

theorem ensures_reach : Ensures A R db W reach fun V _ => V = W := by
  intro d _
  show Ensures (K := keyed) A R db W (if d.unreachable then _ else _) _
  split
  · trivial
  · exact rfl

end Rules

/-! ## The rotation of the bootstrap token -/

/-- What a process knows before it issues anything: the invariant, and that what it has drawn is
    not used yet. -/
def Base (i : ℕ) (db : Db) : Prop := Inv db ∧ db.records (.random i) = none

theorem Base.rely {a b : Db} (h : Base i a) (hab : Rely i a b) : Base i b :=
  ⟨hab.inv h.1, hab.fresh h.2⟩

/-- The hash that a rotation replaces. -/
def Db.bootstrapHash (db : Db) : Option TokenHash := (db.records .bootstrap).map TokenRecord.hash

theorem rotateBootstrap_ensures (desired : TokenHash) (db : Db) :
    Ensures A R db ∅ (rotateBootstrap desired) (Commits fun m =>
      db.bootstrapHash ≠ some desired ∧ ∃ now, m = rotated db.bootstrapHash desired now) := by
  refine .watch_bind (.read_bind (by simp) ?_)
  show Ensures (K := keyed) A R db _ (if db.bootstrapHash = some desired then _ else _) _
  split_ifs with hold
  · trivial
  · exact fun d _ => ⟨hold, d.clock, rfl⟩

/-! ## Delegated issue -/

/-- What a scan is worth: if the process still has the lock, it has seen every token of the issuer
    and the template. -/
def Covers (i : ℕ) (db : Db) (records : List (TokenId × TokenRecord)) : Prop :=
  ∀ key, db.locks key = some i → ∀ id r, id ≠ .bootstrap → db.records id = some r →
    r.IssuedUnder key → ∃ r', (id, r') ∈ records ∧ r'.Becomes r

theorem scanTokenRecords_ensures :
    Ensures A (Rely i) db W scanTokenRecords fun V records => V = W ∧ Covers i db records := by
  intro l hl
  refine .forEach
    (P := fun id x => ∃ d, Seen keyed A (Rely i) db W d ∧ x = (d.records id).map fun r => (id, r))
    (fun id _ d hd => ⟨rfl, d, hd, rfl⟩) fun records hrecords => ⟨rfl, ?_⟩
  intro key hlock id r hid hr hpair
  -- the token has been there ever since the process has the lock
  have hthere : ∀ d, Seen keyed A (Rely i) db W d → (d.records id).isSome :=
    fun d hd => hd.later.issued key hlock id r hid hr hpair
  have hmem : Key.record id ∈ l := hl (.record id) rfl hthere
  obtain ⟨x, hx, d, hd, rfl⟩ := exists_of_forall₂ hrecords (a := id) (by
    rw [mem_eraseDups]
    exact mem_filterMap.mpr ⟨_, hmem, rfl⟩)
  obtain ⟨r', hr'⟩ := Option.isSome_iff_exists.mp (hthere d hd)
  obtain ⟨r'', hr'', hb⟩ := hd.later.evolves.records id r' hid hr'
  cases hr''.symm.trans hr
  refine ⟨r', mem_filterMap.mpr ⟨_, hx, ?_⟩, hb⟩
  rw [hr']
  rfl

variable {key : LockKey}

/-- A record that may become an active one counts. -/
theorem countsFor_of_becomes {r r' : TokenRecord} (hb : r'.Becomes r)
    (hpair : r.IssuedUnder key) (hrev : isRevoked r = false) : countsFor key.1 key.2 r' = true := by
  have hpair' := hb.issuedUnder_iff.mp hpair
  have hrev' : isRevoked r' = false := by
    rw [Bool.eq_false_iff] at hrev ⊢
    exact fun h => hrev (hb.revoked h)
  rw [isRevoked, Option.isSome_eq_false_iff] at hrev'
  simp [countsFor, hpair'.1, hpair'.2, hrev']

/-- A token that expires and has not done so yet expires later than any time before. -/
theorem expiresAt_after {r r' : TokenRecord} {nowMs clock : ℕ} (hnow : nowMs ≤ clock)
    (hr : r'.expiresAt = r.expiresAt) (hsome : r'.expiresAt.isNone = false)
    (hexp : isExpired r clock = false) : r'.expiresAt.any (nowMs < ·) = true := by
  rw [hr] at hsome ⊢
  obtain ⟨t, ht⟩ := Option.isSome_iff_exists.mp (Option.isNone_eq_false_iff.mp hsome)
  rw [isExpired, ht, Option.any_some, decide_eq_false_iff_not, not_le] at hexp
  rw [ht, Option.any_some]
  exact decide_eq_true (hnow.trans_lt hexp)

/-- A count that covers every token is at least the number of those that are active. -/
theorem active_encard_le {records : List (TokenId × TokenRecord)} {nowMs n : ℕ}
    (hinv : Inv db) (hnow : nowMs ≤ db.clock) (hlock : db.locks key = some i)
    (hcov : Covers i db records)
    (hcount : countActiveDelegatedTokens records key.1 key.2 nowMs = .ok n) :
    (db.active key).encard ≤ n := by
  rw [countActiveDelegatedTokens] at hcount
  split at hcount
  · cases hcount
  rename_i hexpires
  generalize hcounted :
    records.filter (fun e => countsFor key.1 key.2 e.2) = counted at hcount hexpires
  cases hcount
  have hsub : db.active key ⊆
      (((counted.filter fun e => e.2.expiresAt.any (nowMs < ·)).map Prod.fst).toFinset :
        Set TokenId) := by
    rintro id ⟨r, hr, hpair, hrev, hexp⟩
    have hid : id ≠ .bootstrap := by
      rintro rfl
      cases (hinv.bootstrap r hr).2.2.symm.trans hpair.2
    obtain ⟨r', hmem, hb⟩ := hcov key hlock id r hid hr hpair
    have hmem' : (id, r') ∈ counted := by
      rw [← hcounted, mem_filter]
      exact ⟨hmem, countsFor_of_becomes hb hpair hrev⟩
    have hsome : r'.expiresAt.isNone = false := by
      rw [Bool.eq_false_iff]
      exact fun hnone => hexpires (any_eq_true.mpr ⟨_, hmem', hnone⟩)
    rw [coe_toFinset, Set.mem_ofPred_eq, mem_map]
    exact ⟨(id, r'), mem_filter.mpr
      ⟨hmem', expiresAt_after hnow hb.expiresAt.symm hsome hexp⟩, rfl⟩
  calc (db.active key).encard
      ≤ _ := Set.encard_le_encard hsub
    _ = _ := Set.encard_coe_eq_coe_finsetCard _
    _ ≤ _ := by
      rw [Nat.cast_le]
      refine (toFinset_card_le _).trans ?_
      rw [length_map, countP_eq_length_filter]

/-- An issuer that passes its check is a token issuer that is not revoked. -/
theorem exists_of_validateIssuer {issuer : Option TokenRecord} {templateId : String} {now : ℕ}
    (h : validateIssuerForDelegatedIssue issuer templateId now = .ok ()) :
    ∃ r, issuer = some r ∧ r.kind = .tokenIssuer ∧ isRevoked r = false := by
  unfold validateIssuerForDelegatedIssue at h
  split at h
  · cases h
  rename_i r
  split at h
  · cases h
  split at h
  · cases h
  rename_i hkind
  split at h
  · cases h
  rename_i hactive
  rw [not_or] at hactive
  exact ⟨r, rfl, not_not.mp hkind, Bool.eq_false_iff.mpr hactive.1⟩

/-- What a delegated issue knows of its lock and its issuer when it commits. -/
theorem watchDelegatedIssuePrerequisites_ensures (hdb : Inv db) (issuer : TokenId)
    (templateId : String) :
    Ensures A R db W (watchDelegatedIssuePrerequisites i issuer templateId)
      fun _ _ => db.locks (issuer, templateId) = some i ∧ db.Issues issuer := by
  refine .seq ensures_reach fun V _ _ =>
    .watch_bind (.read_bind (by simp) ?_)
  show Ensures (K := keyed) A R db _ (if db.locks (issuer, templateId) ≠ some i then _ else _) _
  split
  · trivial
  rename_i hlock
  refine .seq ensures_reach fun V' _ hV' =>
    .read_bind (by simp [hV']) fun d _ => ?_
  refine .mono ensures_ofPolicy fun U _ hr => ?_
  obtain ⟨r, hr, hkind, hrev⟩ := exists_of_validateIssuer hr.2
  refine ⟨not_not.mp hlock, ?_, r, hr, hrev⟩
  rintro rfl
  cases (hdb.bootstrap r hr).1.symm.trans hkind

/-- What a delegated issue knows when it commits in `db`. -/
def DelegatedCommit (i : ℕ) (issuer : TokenId) (template : DelegatedIssueTemplate) (db : Db)
    (m : Db → Db) : Prop :=
  db.locks (issuer, template.id) = some i ∧ db.Issues issuer ∧
    (db.active (issuer, template.id)).encard < template.activeQuota ∧
    ∃ ns nowMs, m = delegatedWrites i issuer template (delegatedRecord i issuer template ns nowMs)

theorem delegatedSession_ensures (hdb : Inv db) (issuer : TokenId)
    (template : DelegatedIssueTemplate) (draws : List Ns) (startedAt : ℕ) :
    Ensures A (Rely i) db ∅ (delegatedSession i issuer template draws startedAt)
      (Commits (DelegatedCommit i issuer template db)) := by
  refine .peek_bind fun d hd => ?_
  have hnow : d.clock ≤ db.clock := hd.later.evolves.clock
  refine ensures_skip fun _ _ => .seq scanTokenRecords_ensures fun _ records hrecords =>
    ensures_skip fun _ _ => .seq ensures_ofPolicy fun _ active hactive =>
    Ensures.seq ensures_refuseIf fun _ _ hquota => ensures_skip fun _ ns => ensures_skip fun _ _ =>
    ensures_skip fun _ _ =>
    Ensures.seq (watchDelegatedIssuePrerequisites_ensures hdb issuer template.id) fun _ _ hpre => ?_
  have hcount := active_encard_le hdb hnow hpre.1 hrecords.2 hactive.2
  have hlt : (active : ℕ∞) < template.activeQuota := by
    rw [Nat.cast_lt]
    exact not_le.mp hquota.2
  exact ⟨hpre.1, hpre.2, hcount.trans_lt hlt, ns, d.clock, rfl⟩

end Wdl.Auth
