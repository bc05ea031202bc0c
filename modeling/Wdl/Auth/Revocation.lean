import Wdl.Auth.Processes

/-!
# Revocation is final

Once a token has been revoked, or found expired, no later lookup accepts it, and at most one
call answers that it revoked it. The index always leads to records with the right hash, and
once there is a bootstrap record exactly one of its entries leads there.

All this holds as long as no replica is configured with a bootstrap token that the service
issued itself (`revocation_final`). Otherwise the token has two records, the entry of the index
leads to the bootstrap record, and the revocation of the issued token removes it
(`reissued_bootstrap`).
-/

namespace Wdl.Auth

open Option Function

variable {i j : ℕ} {configured : Option Token} {a b : Db}

/-! ## The index -/

/-- The records and the index belong together. -/
structure Indexed (db : Db) : Prop where
  bootstrap : ∀ r, db.records .bootstrap = some r →
    (∃ s, r.hash = hashToken (.text s)) ∧ db.index r.hash = some .bootstrap
  issued : ∀ id r, id ≠ .bootstrap → db.records id = some r →
    ∃ j, id = .random j ∧ r.hash = hashToken (.random j)
  index : ∀ h id, db.index h = some id → ∃ r, db.records id = some r ∧ r.hash = h

/-- The configured bootstrap token is not one that the service has drawn. -/
def Foreign (configured : Option Token) : Prop :=
  ∀ token, configured = some token → ∃ s, token = .text s

theorem hashToken_text_ne (s : String) (j : ℕ) : hashToken (.text s) ≠ hashToken (.random j) := by
  intro h
  cases TokenHash.mk.inj h

/-- A rotation replaces the only entry that leads to the bootstrap record. -/
theorem Indexed.rotated (h : Indexed a) (s : String) (now : ℕ) :
    Indexed (Auth.rotated a.bootstrapHash (hashToken (.text s)) now a) := by
  refine ⟨fun r hr => ?_, fun id r hid hr => ?_, fun hash id hindex => ?_⟩
  · rw [rotated_records, update_self, some_inj] at hr
    have hhash : r.hash = hashToken (.text s) := by
      rw [← hr]
      cases a.records .bootstrap <;> rfl
    rw [hhash, rotated_index, update_self]
    exact ⟨⟨s, rfl⟩, rfl⟩
  · rw [rotated_records, update_of_ne hid] at hr
    exact h.issued id r hid hr
  · rw [rotated_index] at hindex
    by_cases hnew : hash = hashToken (.text s)
    · subst hnew
      rw [update_self, some_inj] at hindex
      subst hindex
      refine ⟨_, by rw [rotated_records, update_self], ?_⟩
      cases a.records .bootstrap <;> rfl
    · rw [update_of_ne hnew] at hindex
      have hid : id ≠ .bootstrap ∧ a.index hash = some id := by
        rw [Db.bootstrapHash] at hindex
        cases hold : a.records .bootstrap with
        | none =>
          rw [hold] at hindex
          refine ⟨?_, hindex⟩
          rintro rfl
          obtain ⟨r, hr, -⟩ := h.index hash _ hindex
          cases hold.symm.trans hr
        | some old =>
          rw [hold] at hindex
          have hne : hash ≠ old.hash := by
            rintro rfl
            rw [map_some, elim_some, update_self] at hindex
            cases hindex
          rw [map_some, elim_some, update_of_ne hne] at hindex
          refine ⟨?_, hindex⟩
          rintro rfl
          obtain ⟨r, hr, rfl⟩ := h.index hash _ hindex
          rw [hold, some_inj] at hr
          exact hne (hr ▸ rfl)
      obtain ⟨r, hr, hhash⟩ := h.index hash id hid.2
      exact ⟨r, by rw [rotated_records, update_of_ne hid.1]; exact hr, hhash⟩

/-- A new token with its entry. -/
theorem Indexed.put (h : Indexed a) {record : TokenRecord} (hfresh : a.records (.random i) = none)
    (hhash : record.hash = hashToken (.random i))
    (hrecords : b.records = (a.putRecord (.random i) record).records)
    (hindex : b.index = (a.setIndex record.hash (.random i)).index) : Indexed b := by
  refine ⟨fun r hr => ?_, fun id r hid hr => ?_, fun hash id hentry => ?_⟩
  · rw [hrecords, Db.putRecord_records, update_of_ne (by simp)] at hr
    obtain ⟨⟨s, hs⟩, hentry⟩ := h.bootstrap r hr
    have hne : r.hash ≠ record.hash := by
      rw [hs, hhash]
      exact hashToken_text_ne s i
    rw [hindex, Db.setIndex_index, update_of_ne hne]
    exact ⟨⟨s, hs⟩, hentry⟩
  · rw [hrecords, Db.putRecord_records] at hr
    by_cases hid' : id = .random i
    · subst hid'
      rw [update_self, some_inj] at hr
      exact ⟨i, rfl, hr ▸ hhash⟩
    · rw [update_of_ne hid'] at hr
      exact h.issued id r hid hr
  · rw [hindex, Db.setIndex_index] at hentry
    rw [hrecords, Db.putRecord_records]
    by_cases hsame : hash = record.hash
    · subst hsame
      rw [update_self, some_inj] at hentry
      subst hentry
      exact ⟨record, update_self .., rfl⟩
    · rw [update_of_ne hsame] at hentry
      obtain ⟨r, hr, hr'⟩ := h.index hash id hentry
      have hid : id ≠ .random i := by
        rintro rfl
        cases hfresh.symm.trans hr
      exact ⟨r, by rw [update_of_ne hid]; exact hr, hr'⟩

variable {id : TokenId}

/-- The entry of an issued token is removed, and its record stays with its hash. -/
theorem Indexed.remove (h : Indexed a) {hash : TokenHash} (hid : a.Holds id hash)
    {f : TokenRecord → TokenRecord} (hrecords : b.records = (a.setFields id f).records)
    (hf : ∀ r, (f r).hash = r.hash) (hindex : b.index = (a.delIndex hash).index) : Indexed b := by
  obtain ⟨hne, r₀, hr₀, rfl⟩ := hid
  obtain ⟨j, rfl, hhash⟩ := h.issued id r₀ hne hr₀
  refine ⟨fun r hr => ?_, fun id r hid hr => ?_, fun hash id hentry => ?_⟩
  · rw [hrecords, Db.setFields_records, update_of_ne (by simp)] at hr
    obtain ⟨⟨s, hs⟩, hentry⟩ := h.bootstrap r hr
    have hne : r.hash ≠ r₀.hash := by
      rw [hs, hhash]
      exact hashToken_text_ne s j
    rw [hindex, Db.delIndex_index, update_of_ne hne]
    exact ⟨⟨s, hs⟩, hentry⟩
  · rw [hrecords, Db.setFields_records] at hr
    by_cases hid' : id = .random j
    · subst hid'
      rw [update_self, hr₀, map_some, some_inj] at hr
      exact ⟨j, rfl, by rw [← hr, hf, hhash]⟩
    · rw [update_of_ne hid'] at hr
      exact h.issued id r hid hr
  · rw [hindex, Db.delIndex_index] at hentry
    have hsame : hash ≠ r₀.hash := by
      rintro rfl
      rw [update_self] at hentry
      cases hentry
    rw [update_of_ne hsame] at hentry
    obtain ⟨r, hr, hr'⟩ := h.index hash id hentry
    rw [hrecords, Db.setFields_records]
    by_cases hid' : id = .random j
    · subst hid'
      rw [hr, some_inj] at hr₀
      exact absurd (hr'.symm.trans (hr₀ ▸ rfl)) hsame
    · exact ⟨r, by rw [update_of_ne hid']; exact hr, hr'⟩

theorem Indexed.of_eq (h : Indexed a) (hrecords : b.records = a.records)
    (hindex : b.index = a.index) : Indexed b :=
  ⟨by rw [hrecords, hindex]; exact h.bootstrap, by rw [hrecords]; exact h.issued,
    by rw [hrecords, hindex]; exact h.index⟩

theorem setFields_id (db : Db) (id : TokenId) :
    (db.setFields id fun r => r).records = db.records := by
  show update db.records id ((db.records id).map fun r => r) = db.records
  rw [map_id', update_eq_self]

theorem Change.indexed (h : Change i configured a b) (hconf : Foreign configured) (ha : Indexed a) :
    Indexed b := by
  cases h with
  | stay => exact ha
  | looked | checked => exact ha.of_eq rfl rfl
  | rotated token now hc hold =>
    obtain ⟨s, rfl⟩ := hconf token hc
    exact ha.rotated s now
  | issued record hfresh hhash htemplate => exact ha.put hfresh hhash rfl rfl
  | delegated issuer template ns nowMs hfresh => exact ha.put hfresh rfl rfl rfl
  | collected id hash now h => exact ha.remove h rfl (fun _ => rfl) rfl
  | revoked id hash now h => exact ha.remove h rfl (fun _ => rfl) rfl
  | dropped id hash h => exact ha.remove h (setFields_id a id).symm (fun _ => rfl) rfl
  | locked | unlocked => exact ha.of_eq rfl rfl

/-! ## Revoked once -/

/-- Only one of two events tells that a token lost its entry by a revocation. -/
def Event.CollapsesOther (e e' : Event) : Prop :=
  ∀ j j' id, e = .revoked j id true → e' ≠ .revoked j' id true

/-- A revocation that removed the entry of a token is the only one, and the entry stays
    removed. -/
structure RevokedOnce (db : Db) : Prop where
  removed : ∀ j id, Event.revoked j id true ∈ db.log → ∀ r, db.records id = some r →
    db.index r.hash = none
  once : db.log.Pairwise Event.CollapsesOther

/-- The entry of an issued token does not come back. -/
theorem Change.index_none (h : Change i configured a b) (hconf : Foreign configured)
    (ha : Indexed a) {r : TokenRecord} (hid : id ≠ .bootstrap) (hr : a.records id = some r)
    (hnone : a.index r.hash = none) : b.index r.hash = none := by
  obtain ⟨k, rfl, hhash⟩ := ha.issued id r hid hr
  have hdel : ∀ hash, (a.delIndex hash).index r.hash = none := by
    intro hash
    rw [Db.delIndex_index, update_apply]
    split
    · rfl
    · exact hnone
  have hset : ∀ record : TokenRecord, record.hash = hashToken (.random i) →
      a.records (.random i) = none → (a.setIndex record.hash (.random i)).index r.hash = none := by
    intro record hrecord hfresh
    have hne : r.hash ≠ record.hash := by
      rw [hhash, hrecord]
      intro h
      obtain rfl : k = i := Token.random.inj (TokenHash.mk.inj h)
      cases hfresh.symm.trans hr
    rw [Db.setIndex_index, update_of_ne hne]
    exact hnone
  cases h with
  | rotated token now hc hold =>
    obtain ⟨s, rfl⟩ := hconf token hc
    rw [rotated_index, update_of_ne (by rw [hhash]; exact (hashToken_text_ne s k).symm)]
    cases (a.records .bootstrap).map TokenRecord.hash with
    | none => exact hnone
    | some old => exact hdel old
  | issued record hfresh hrecord htemplate => exact hset record hrecord hfresh
  | delegated issuer template ns nowMs hfresh => exact hset _ rfl hfresh
  | collected id hash now h => exact hdel hash
  | revoked id hash now h => exact hdel hash
  | dropped id hash h => exact hdel hash
  | _ => exact hnone

theorem Change.revokedOnce (h : Change i configured a b) (hconf : Foreign configured) (hinv : Inv a)
    (ha : Indexed a) (hr : RevokedOnce a) : RevokedOnce b := by
  -- what the log says already stays so
  have hold : ∀ j id, Event.revoked j id true ∈ a.log → ∀ r, b.records id = some r →
      b.index r.hash = none := by
    intro j id hmem r hrecord
    obtain ⟨hid, r', hr', -⟩ := hinv.log _ hmem
    obtain ⟨r'', hr'', hb⟩ := h.evolves.records id r' hid hr'
    cases hr''.symm.trans hrecord
    rw [hb.hash]
    exact h.index_none hconf ha hid hr' (hr.removed j id hmem r' hr')
  rcases h.log_cases with heq | ⟨e, heq, he⟩
  · exact ⟨by rw [heq]; exact hold, by rw [heq]; exact hr.once⟩
  refine ⟨fun j id hmem r hrecord => ?_, ?_⟩
  · rw [heq, List.mem_append, List.mem_singleton] at hmem
    rcases hmem with hmem | rfl
    · exact hold j id hmem r hrecord
    · obtain ⟨hash, ⟨hid, r', hr', rfl⟩, -, hgone⟩ := he
      obtain ⟨r'', hr'', hb⟩ := h.evolves.records id r' hid hr'
      cases hr''.symm.trans hrecord
      rwa [hb.hash]
  · rw [heq, List.pairwise_append]
    refine ⟨hr.once, List.pairwise_singleton _ _, fun e' he' e'' hmem j j' id hfirst hsecond => ?_⟩
    -- the second revocation would have found the entry that the first one removed
    obtain rfl := List.mem_singleton.mp hmem
    subst hfirst hsecond
    obtain ⟨hash, ⟨-, r, hrecord, rfl⟩, hsome, -⟩ := he
    rw [hr.removed j id he' r hrecord] at hsome
    cases hsome

/-! ## Every run -/

/-- No replica is configured with a bootstrap token that the service has drawn. -/
def ForeignBootstrap : AuthWorld → Label api Kind Env → Prop
  | _, .spawn _ k => Foreign k.configured
  | _, _ => True

/-- What revocation means in a world. -/
structure RevocationFinal (w : AuthWorld) : Prop where
  /-- The index leads to records with the right hash. -/
  index : ∀ hash id, w.store.db.index hash = some id →
    ∃ r, w.store.db.records id = some r ∧ r.hash = hash
  /-- A token is accepted only after a lookup that found it, and before which it was neither
      revoked nor found expired. -/
  accepted : ∀ i configured cached token action ns' live kind ns id,
    w.proc i = some ⟨.verify configured cached token action ns', .ret (.allowed kind ns id), live⟩ →
      ∃ t, token = some t ∧ Accepted w.store.db i (hashToken t) kind ns id
  /-- At most one call answers that it revoked a token. -/
  once : ∀ i j configured configured' id live live',
    w.proc i = some ⟨.revoke configured (some id), .ret (.revoked true), live⟩ →
    w.proc j = some ⟨.revoke configured' (some id), .ret (.revoked true), live'⟩ → i = j
  /-- Exactly one entry of the index leads to the bootstrap record, once there is one. -/
  bootstrap : (w.store.db.records .bootstrap).isSome →
    ∃! hash, w.store.db.index hash = some .bootstrap

/-- The configured tokens of all calls are foreign, and the index is in order. -/
structure InOrder (w : AuthWorld) : Prop where
  foreign : ∀ i p, w.proc i = some p → Foreign p.kind.configured
  indexed : Indexed w.store.db
  once : RevokedOnce w.store.db

theorem InOrder.step {w w' : AuthWorld} {l : Label api Kind Env}
    (hw : auth.ReachableWhen Initial ForeignBootstrap w) (h : InOrder w)
    (hok : ForeignBootstrap w l) (hs : auth.Step w l w') : InOrder w' := by
  have hinv : Inv w.store.db := ((relyGuarantee ForeignBootstrap).holds hw).inv
  cases hs with
  | spawn i k hi =>
    refine ⟨fun j p hp => ?_, h.indexed, h.once⟩
    rcases World.setProc_cases hp with ⟨rfl, rfl⟩ | ⟨-, hp⟩
    · exact hok
    · exact h.foreign j p hp
  | call i hi hc =>
    have hchange := ((relyGuarantee ForeignBootstrap).call_guar hw hi hc).db
    have hconf := h.foreign i _ hi
    refine ⟨fun j p hp => ?_, hchange.indexed hconf h.indexed,
      hchange.revokedOnce hconf hinv h.indexed h.once⟩
    rcases World.setProc_cases hp with ⟨rfl, rfl⟩ | ⟨-, hp⟩
    · exact hconf
    · exact h.foreign j p hp
  | stop i hi =>
    refine ⟨fun j p hp => ?_, h.indexed, h.once⟩
    rcases World.setProc_cases hp with ⟨rfl, rfl⟩ | ⟨-, hp⟩
    · have hconf := h.foreign j _ hi
      exact hconf
    · exact h.foreign j p hp
  | env e he =>
    obtain rfl : _ = _ := he
    refine ⟨h.foreign, ?_, ?_⟩
    · cases e <;> exact h.indexed.of_eq rfl rfl
    · cases e <;> exact ⟨h.once.removed, h.once.once⟩

theorem inOrder_of_reachable {w : AuthWorld} (h : auth.ReachableWhen Initial ForeignBootstrap w) :
    InOrder w := by
  refine System.ReachableWhen.invariant (J := InOrder) (fun s hs => ?_)
    (fun w l w' hw ih hok hs => ih.step hw hok hs) h
  have hdb : s.db = Db.empty := hs
  refine ⟨fun _ p hp => absurd hp (some_ne_none p).symm, ?_, ?_⟩
  · show Indexed s.db
    rw [hdb]
    exact ⟨fun _ hr => (by cases hr), fun _ _ _ hr => (by cases hr), nofun⟩
  · show RevokedOnce s.db
    rw [hdb]
    exact ⟨fun _ _ hmem => absurd hmem List.not_mem_nil, .nil⟩

/-- Two calls that both removed the entry of one token are the same. -/
theorem RevokedOnce.eq {db : Db} (h : RevokedOnce db) (hi : Event.revoked i id true ∈ db.log)
    (hj : Event.revoked j id true ∈ db.log) : i = j := by
  by_contra hne
  have hsymm : Std.Symm Event.CollapsesOther :=
    ⟨fun e e' hother k k' id' he' he => hother k' k id' he he'⟩
  have hevents : Event.revoked i id true ≠ Event.revoked j id true := by simpa using hne
  exact h.once.forall hi hj hevents i j id rfl rfl

/-- **Revocation is final**, as long as no replica is configured with a token that the service
    issued. -/
theorem revocation_final {w : AuthWorld} (h : auth.ReachableWhen Initial ForeignBootstrap w) :
    RevocationFinal w := by
  have horder := inOrder_of_reachable h
  refine ⟨horder.indexed.index, fun i configured cached token action ns' live kind ns id hp => ?_,
    fun i j configured configured' id live live' hi hj => ?_, fun hsome => ?_⟩
  · exact answers_of_reachable h hp rfl kind ns id rfl
  · obtain ⟨_, ⟨⟩, hmem⟩ := answers_of_reachable h hi rfl rfl
    obtain ⟨_, ⟨⟩, hmem'⟩ := answers_of_reachable h hj rfl rfl
    exact horder.once.eq hmem hmem'
  · obtain ⟨r, hr⟩ := isSome_iff_exists.mp hsome
    refine ⟨r.hash, (horder.indexed.bootstrap r hr).2, fun hash hhash => ?_⟩
    obtain ⟨r', hr', rfl⟩ := horder.indexed.index hash _ hhash
    rw [Option.some.inj (hr'.symm.trans hr)]

/-- The input of a call that issues a token for a tenant. -/
def tenantInput : IssueInput where
  kind := some "ns"
  ns := some "acme"
  label := none
  expiresAt := .absent
  issuerTokenId := some .bootstrap
  issueTemplates := none
  storageField := false

/-- A call that verifies the first token that is issued, where the bootstrap token is
    `configured`. -/
def tenantVerify (configured : Token) : Kind :=
  .verify (some configured) none (some (.random 0)) (some "worker.deploy") (some "acme")

/-- A token is issued, accepted, revoked and no longer accepted. -/
theorem revocation_final_tenant : ∃ w,
    auth.ReachableWhen Initial ForeignBootstrap w ∧ RevocationFinal w ∧
    (∃ k, w.proc 1 = some ⟨k, .ret (.allowed .ns (some "acme") (.random 0)), true⟩) ∧
    (∃ k, w.proc 2 = some ⟨k, .ret (.revoked true), true⟩) ∧
    ∃ k, w.proc 3 = some ⟨k, .ret (.denied 401 "unknown_token"), true⟩ := by
  have hforeign : Foreign (some (.text "boot")) := fun token h => ⟨"boot", (Option.some.inj h).symm⟩
  have hcalls : ∀ w i c x, ForeignBootstrap w (.call i c x) := fun _ _ _ _ => trivial
  obtain ⟨w, hw, -, hprocs⟩ := exists_reachable_serves hcalls
    [.issue (some (.text "boot")) tenantInput, tenantVerify (.text "boot"),
      .revoke (some (.text "boot")) (some (.random 0)), tenantVerify (.text "boot")] (by
      intro w i k hk
      simp only [List.mem_cons, List.not_mem_nil, or_false] at hk
      rcases hk with rfl | rfl | rfl | rfl <;> exact hforeign)
  exact ⟨w, hw, revocation_final hw, ⟨_, hprocs 1 _ rfl⟩, ⟨_, hprocs 2 _ rfl⟩, ⟨_, hprocs 3 _ rfl⟩⟩

/-- When a replica is configured with a token that the service issued, the revocation of that
    token removes the entry of the bootstrap record. -/
theorem reissued_bootstrap : ¬ ∀ w, auth.Reachable Initial w → RevocationFinal w := by
  intro hall
  obtain ⟨w, hw, hdb, -⟩ := @exists_reachable_serves (fun _ _ => True) (fun _ _ _ _ => trivial)
    [.issue (some (.text "boot")) tenantInput, tenantVerify (.random 0),
      .revoke (some (.random 0)) (some (.random 0))] fun _ _ _ _ => trivial
  have hboot : (w.store.db.records .bootstrap).isSome := by
    rw [hdb]
    rfl
  obtain ⟨hash, hhash, -⟩ := (hall w hw).bootstrap hboot
  obtain ⟨r, hr, hsame⟩ := (hall w hw).index hash _ hhash
  rw [hdb] at hr hhash
  -- the bootstrap record has the hash of the token that was revoked
  have hrevoked : hash = hashToken (.random 0) := by
    rw [← hsame, ← Option.some.inj hr]
    rfl
  rw [hrevoked] at hhash
  cases hhash

end Wdl.Auth
