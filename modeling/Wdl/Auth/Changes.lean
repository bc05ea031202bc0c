import Wdl.Auth.System
import Mathlib.Data.Set.Card

/-!
# What the processes of the auth service do to the store

Everything that a process does to the store is a `Change`, with what it knows when it does it.
Whatever happens, the time and the log only grow, and a record stays what it was issued as,
until it is revoked (`Evolves`). The one exception is the bootstrap record.

A process relies on more (`Rely`): that no other process issues a token under an id it has drawn,
or takes a lock in its name, and that as long as it has the lock of an issuer and a template
no token is issued for them. The last is why a delegated issue may count tokens with a scan
that is not atomic, if it still has the lock when it commits.
-/

namespace Wdl.Auth

open Option Function

/-! ## How the store evolves -/

/-- What may become of the record of an issued token. -/
structure TokenRecord.Becomes (r r' : TokenRecord) : Prop where
  hash : r'.hash = r.hash
  createdBy : r'.createdBy = r.createdBy
  expiresAt : r'.expiresAt = r.expiresAt
  issueTemplate : r'.issueTemplate = r.issueTemplate
  revoked : isRevoked r = true → isRevoked r' = true

theorem TokenRecord.Becomes.refl (r : TokenRecord) : r.Becomes r := ⟨rfl, rfl, rfl, rfl, id⟩

theorem TokenRecord.Becomes.trans {r r' r'' : TokenRecord} (h : r.Becomes r')
    (h' : r'.Becomes r'') : r.Becomes r'' :=
  ⟨h'.hash.trans h.hash, h'.createdBy.trans h.createdBy, h'.expiresAt.trans h.expiresAt,
    h'.issueTemplate.trans h.issueTemplate, fun hr => h'.revoked (h.revoked hr)⟩

theorem isExpired_mono {r r' : TokenRecord} {c c' : ℕ}
    (hr : r'.expiresAt = r.expiresAt) (hc : c ≤ c')
    (h : isExpired r c = true) : isExpired r' c' = true := by
  rw [isExpired, any_eq_true] at h ⊢
  obtain ⟨t, ht, hle⟩ := h
  exact ⟨t, hr.trans ht, decide_eq_true ((of_decide_eq_true hle).trans hc)⟩

/-- What holds between the store before and after whatever happens. -/
structure Evolves (a b : Db) : Prop where
  clock : a.clock ≤ b.clock
  log : a.log <+: b.log
  records : ∀ id r, id ≠ .bootstrap → a.records id = some r →
    ∃ r', b.records id = some r' ∧ r.Becomes r'

theorem Evolves.refl (a : Db) : Evolves a a :=
  ⟨le_rfl, List.prefix_rfl, fun _ r _ hr => ⟨r, hr, .refl r⟩⟩

theorem Evolves.trans {a b c : Db} (h : Evolves a b) (h' : Evolves b c) : Evolves a c := by
  refine ⟨h.clock.trans h'.clock, h.log.trans h'.log, fun id r hid hr => ?_⟩
  obtain ⟨r', hr', hb⟩ := h.records id r hid hr
  obtain ⟨r'', hr'', hb'⟩ := h'.records id r' hid hr'
  exact ⟨r'', hr'', hb.trans hb'⟩

/-- What the log says of revocations and of expiry is so. -/
def Event.Justified (db : Db) : Event → Prop
  | .revoked _ id _ => id ≠ .bootstrap ∧ ∃ r, db.records id = some r ∧ isRevoked r = true
  | .checked _ id true =>
    id ≠ .bootstrap ∧ ∃ r, db.records id = some r ∧ isExpired r db.clock = true
  | _ => True

theorem Event.Justified.evolves {a b : Db} {e : Event} (h : e.Justified a) (hab : Evolves a b) :
    e.Justified b := by
  cases e with
  | lookup | delegated => trivial
  | checked j id expired =>
    cases expired with
    | false => trivial
    | true =>
      obtain ⟨hid, r, hr, hexp⟩ := h
      obtain ⟨r', hr', hb⟩ := hab.records id r hid hr
      exact ⟨hid, r', hr', isExpired_mono hb.expiresAt hab.clock hexp⟩
  | revoked j id collapsed =>
    obtain ⟨hid, r, hr, hrev⟩ := h
    obtain ⟨r', hr', hb⟩ := hab.records id r hid hr
    exact ⟨hid, r', hr', hb.revoked hrev⟩

/-- The invariant of the store. -/
structure Inv (db : Db) : Prop where
  /-- The bootstrap token does not expire, and is under no template. -/
  bootstrap : ∀ r, db.records .bootstrap = some r →
    r.kind = .ops ∧ r.expiresAt = none ∧ r.issueTemplate = none
  log : ∀ e ∈ db.log, e.Justified db

theorem Inv.initial {s : Shared keyed} (h : Initial s) : Inv s.db := by
  rw [show s.db = _ from h]
  exact ⟨fun r hr => absurd hr (some_ne_none r).symm, fun e he => absurd he List.not_mem_nil⟩

theorem Inv.evolve {a b : Db} (h : Inv a) (hab : Evolves a b) (hlog : b.log = a.log)
    (hboot : ∀ r, b.records .bootstrap = some r →
      r.kind = .ops ∧ r.expiresAt = none ∧ r.issueTemplate = none) : Inv b :=
  ⟨hboot, fun e he => (h.log e (hlog ▸ he)).evolves hab⟩

/-- The invariant is kept when something that is so is added to the log. -/
theorem Inv.evolve_note {a b : Db} {e : Event} (h : Inv a) (hab : Evolves a b)
    (hlog : b.log = a.log ++ [e]) (he : e.Justified b) (hboot : ∀ r, b.records .bootstrap = some r →
      r.kind = .ops ∧ r.expiresAt = none ∧ r.issueTemplate = none) : Inv b := by
  refine ⟨hboot, fun e' he' => ?_⟩
  rw [hlog, List.mem_append, List.mem_singleton] at he'
  rcases he' with hold | rfl
  · exact (h.log e' hold).evolves hab
  · exact he

/-! ## Changes -/

/-- The token was issued by an issuer under a template. -/
def TokenRecord.IssuedUnder (r : TokenRecord) (key : LockKey) : Prop :=
  r.createdBy = key.1 ∧ r.issueTemplate = some key.2

variable {key : LockKey}

theorem TokenRecord.Becomes.issuedUnder_iff {r r' : TokenRecord} (h : r.Becomes r') :
    r'.IssuedUnder key ↔ r.IssuedUnder key := by
  rw [TokenRecord.IssuedUnder, TokenRecord.IssuedUnder, h.createdBy, h.issueTemplate]

/-- The ids of the tokens of an issuer and a template that are neither revoked nor expired. -/
def Db.active (db : Db) (key : LockKey) : Set TokenId :=
  {id | ∃ r, db.records id = some r ∧ r.IssuedUnder key ∧ isRevoked r = false ∧
    isExpired r db.clock = false}

/-- The id is that of an issued token with this hash. -/
def Db.Holds (db : Db) (id : TokenId) (hash : TokenHash) : Prop :=
  id ≠ .bootstrap ∧ ∃ r, db.records id = some r ∧ r.hash = hash

variable {id : TokenId}

theorem Db.Holds.evolves {a b : Db} {hash : TokenHash} (h : a.Holds id hash)
    (hab : Evolves a b) : b.Holds id hash := by
  obtain ⟨hid, r, hr, hhash⟩ := h
  obtain ⟨r', hr', hb⟩ := hab.records id r hid hr
  exact ⟨hid, r', hr', hb.hash.trans hhash⟩

/-- The issuer may still issue. -/
def Db.Issues (db : Db) (issuer : TokenId) : Prop :=
  issuer ≠ .bootstrap ∧ ∃ r, db.records issuer = some r ∧ isRevoked r = false

/-- What the process `i` does to the store, where the bootstrap token is `configured`. -/
inductive Change (i : ℕ) (configured : Option Token) (a : Db) : Db → Prop
  | stay : Change i configured a a
  | looked (hash : TokenHash) :
      Change i configured a (a.note (.lookup i hash (a.readRecordByHash hash) a.clock))
  | checked (id : TokenId) (expired : Bool) (h : Event.Justified a (.checked i id expired)) :
      Change i configured a (a.note (.checked i id expired))
  | rotated (token : Token) (now : ℕ) (hconf : configured = some token)
      (hold : (a.records .bootstrap).map TokenRecord.hash ≠ some (hashToken token)) :
      Change i configured a
        (Auth.rotated ((a.records .bootstrap).map TokenRecord.hash) (hashToken token) now a)
  | issued (record : TokenRecord) (hfresh : a.records (.random i) = none)
      (hhash : record.hash = hashToken (.random i)) (htemplate : record.issueTemplate = none) :
      Change i configured a ((a.putRecord (.random i) record).setIndex record.hash (.random i))
  | delegated (issuer : TokenId) (template : DelegatedIssueTemplate) (ns : Ns) (nowMs : ℕ)
      (hfresh : a.records (.random i) = none) (htemplate : template ∈ delegatedIssueTemplates)
      (hlock : a.locks (issuer, template.id) = some i) (hissuer : a.Issues issuer)
      (hquota : (a.active (issuer, template.id)).encard < template.activeQuota) :
      Change i configured a
        (delegatedWrites i issuer template (delegatedRecord i issuer template ns nowMs) a)
  | collected (id : TokenId) (hash : TokenHash) (now : ℕ) (h : a.Holds id hash) :
      Change i configured a
        ((a.delIndex hash).setFields id fun r => { r with expiredAt := some now })
  | revoked (id : TokenId) (hash : TokenHash) (now : ℕ) (h : a.Holds id hash) :
      Change i configured a
        (((a.delIndex hash).setFields id fun r => { r with revokedAt := some now }).note
          (.revoked i id (a.index hash).isSome))
  | dropped (id : TokenId) (hash : TokenHash) (h : a.Holds id hash) :
      Change i configured a (a.delIndex hash)
  | locked (key : LockKey) (h : a.locks key = none) :
      Change i configured a (a.setLock key (some i))
  | unlocked (key : LockKey) (h : a.locks key = some i) :
      Change i configured a (a.setLock key none)

variable {i j : ℕ} {configured : Option Token} {a b c : Db} {f : TokenRecord → TokenRecord}
  {log : List Event}

theorem evolves_setFields (hf : ∀ r : TokenRecord, r.Becomes (f r))
    (hrecords : b.records = (a.setFields id f).records) (hclock : b.clock = a.clock)
    (hlog : b.log = a.log ++ log) : Evolves a b := by
  refine ⟨hclock.ge, ⟨log, hlog.symm⟩, fun id' r _ hr => ?_⟩
  rw [hrecords, Db.setFields_records]
  by_cases hid : id' = id
  · subst hid
    rw [update_self, hr]
    exact ⟨f r, rfl, hf r⟩
  · rw [update_of_ne hid]
    exact ⟨r, hr, .refl r⟩

theorem evolves_putRecord {record : TokenRecord} (hid : id = .bootstrap ∨ a.records id = none)
    (hrecords : b.records = (a.putRecord id record).records) (hclock : b.clock = a.clock)
    (hlog : b.log = a.log ++ log) : Evolves a b := by
  refine ⟨hclock.ge, ⟨log, hlog.symm⟩, fun id' r hne hr => ⟨r, ?_, .refl r⟩⟩
  have hother : id' ≠ id := by
    rintro rfl
    rcases hid with hid | hid
    · exact hne hid
    · cases hid.symm.trans hr
  rw [hrecords, Db.putRecord_records, update_of_ne hother]
  exact hr

theorem evolves_of_records (hrecords : b.records = a.records)
    (hclock : a.clock ≤ b.clock) (hlog : b.log = a.log ++ log) : Evolves a b :=
  ⟨hclock, ⟨log, hlog.symm⟩, fun _ r _ hr => ⟨r, hrecords ▸ hr, .refl r⟩⟩

theorem becomes_expired (now : ℕ) (r : TokenRecord) : r.Becomes { r with expiredAt := some now } :=
  ⟨rfl, rfl, rfl, rfl, id⟩

theorem becomes_revoked (now : ℕ) (r : TokenRecord) : r.Becomes { r with revokedAt := some now } :=
  ⟨rfl, rfl, rfl, rfl, fun _ => rfl⟩

theorem Change.evolves (h : Change i configured a b) : Evolves a b := by
  cases h with
  | stay => exact .refl a
  | looked | checked => exact evolves_of_records rfl le_rfl rfl
  | rotated token now hconf hold =>
    exact evolves_putRecord (.inl rfl) (rotated_records ..) (rotated_clock ..)
      ((rotated_log ..).trans (List.append_nil _).symm)
  | issued record hfresh hhash htemplate =>
    exact evolves_putRecord (.inr hfresh) rfl rfl (List.append_nil _).symm
  | delegated issuer template ns nowMs hfresh => exact evolves_putRecord (.inr hfresh) rfl rfl rfl
  | collected id hash now h =>
    exact evolves_setFields (becomes_expired now) rfl rfl (List.append_nil _).symm
  | revoked id hash now h => exact evolves_setFields (becomes_revoked now) rfl rfl rfl
  | dropped | locked | unlocked => exact evolves_of_records rfl le_rfl (List.append_nil _).symm

theorem Change.inv (h : Change i configured a b) (ha : Inv a) : Inv b := by
  have hab := h.evolves
  cases h with
  | stay => exact ha
  | looked hash => exact ha.evolve_note hab rfl trivial ha.bootstrap
  | checked id expired h => exact ha.evolve_note hab rfl (h.evolves hab) ha.bootstrap
  | rotated token now hconf hold =>
    refine ha.evolve hab (rotated_log ..) fun r hr => ?_
    rw [rotated_records, update_self, some_inj] at hr
    subst hr
    cases hold' : a.records .bootstrap with
    | none => exact ⟨rfl, rfl, rfl⟩
    | some old =>
      obtain ⟨-, hexp, htemplate⟩ := ha.bootstrap old hold'
      exact ⟨rfl, hexp, htemplate⟩
  | issued record hfresh hhash htemplate =>
    exact ha.evolve hab rfl fun r hr => ha.bootstrap r hr
  | delegated issuer template ns nowMs hfresh =>
    exact ha.evolve_note hab rfl trivial fun r hr => ha.bootstrap r hr
  | collected id hash now h =>
    refine ha.evolve hab rfl fun r hr => ha.bootstrap r ?_
    rwa [Db.setFields_records, update_of_ne (Ne.symm h.1)] at hr
  | revoked id hash now h =>
    obtain ⟨hid, r, hr, -⟩ := h
    refine ha.evolve_note hab rfl ⟨hid, { r with revokedAt := some now }, ?_, rfl⟩ fun r hr =>
      ha.bootstrap r ?_
    · rw [Db.note_records, Db.setFields_records, update_self, Db.delIndex_records, hr]
      rfl
    · rwa [Db.note_records, Db.setFields_records, update_of_ne (Ne.symm hid)] at hr
  | dropped | locked | unlocked => exact ha.evolve hab rfl ha.bootstrap

/-- What is known when an event is added to the log: the issuer of a new token may issue, and a
    revocation that removes an entry of the index finds it there. -/
def Event.Made (a b : Db) : Event → Prop
  | .delegated issuer _ _ => a.Issues issuer
  | .revoked _ id true => ∃ hash, a.Holds id hash ∧ (a.index hash).isSome ∧ b.index hash = none
  | _ => True

theorem Change.log_cases (h : Change i configured a b) :
    b.log = a.log ∨ ∃ e, b.log = a.log ++ [e] ∧ e.Made a b := by
  cases h with
  | looked | checked => exact .inr ⟨_, rfl, trivial⟩
  | revoked id hash now h =>
    refine .inr ⟨_, rfl, ?_⟩
    cases hindex : (a.index hash).isSome with
    | false => trivial
    | true => exact ⟨hash, h, hindex, update_self ..⟩
  | delegated issuer template ns nowMs hfresh htemplate hlock hissuer hquota =>
    exact .inr ⟨_, rfl, hissuer⟩
  | rotated token now hconf hold => exact .inl (rotated_log ..)
  | _ => exact .inl rfl

theorem Env.evolves (e : Env) (a : Db) : Evolves a (e.apply a) := by
  cases e with
  | tick clock => exact evolves_of_records rfl (le_max_left ..) (List.append_nil _).symm
  | lockExpires | namespaces | unreachable =>
    exact evolves_of_records rfl le_rfl (List.append_nil _).symm

theorem Env.inv (e : Env) (ha : Inv a) : Inv (e.apply a) := by
  cases e <;> exact ha.evolve (Env.evolves _ a) rfl ha.bootstrap

/-! ## What a process relies on -/

/-- What the process `i` relies on. -/
structure Rely (i : ℕ) (a b : Db) : Prop where
  inv : Inv a → Inv b
  evolves : Evolves a b
  fresh : a.records (.random i) = none → b.records (.random i) = none
  locks : ∀ key, b.locks key = some i → a.locks key = some i
  /-- While the process has the lock, nobody issues a token under the template. -/
  issued : ∀ key, b.locks key = some i → ∀ id r, id ≠ .bootstrap → b.records id = some r →
    r.IssuedUnder key → (a.records id).isSome

theorem Rely.refl (i : ℕ) (a : Db) : Rely i a a :=
  ⟨id, .refl a, id, fun _ => id, fun _ _ _ _ _ hr _ => hr ▸ rfl⟩

theorem Rely.trans (h : Rely i a b) (h' : Rely i b c) : Rely i a c := by
  refine ⟨fun ha => h'.inv (h.inv ha), h.evolves.trans h'.evolves, fun ha => h'.fresh (h.fresh ha),
    fun key hc => h.locks key (h'.locks key hc), fun key hc id r hid hr hpair => ?_⟩
  obtain ⟨r', hr'⟩ := isSome_iff_exists.mp (h'.issued key hc id r hid hr hpair)
  obtain ⟨r'', hr'', hb⟩ := h'.evolves.records id r' hid hr'
  cases hr''.symm.trans hr
  exact h.issued key (h'.locks key hc) id r' hid hr' (hb.issuedUnder_iff.mp hpair)

theorem isSome_of_setFields {id' : TokenId} (h : ((a.setFields id f).records id').isSome) :
    (a.records id').isSome := by
  rw [isSome_iff_ne_none] at h ⊢
  exact fun hnone => h (setFields_records_none hnone)

theorem Change.fresh (h : Change i configured a b) (hne : i ≠ j)
    (hj : a.records (.random j) = none) : b.records (.random j) = none := by
  have hid : TokenId.random j ≠ .random i := by simpa using Ne.symm hne
  cases h with
  | rotated token now hconf hold =>
    rw [rotated_records, update_of_ne (by simp)]
    exact hj
  | issued | delegated => exact putRecord_records_none hid hj
  | collected | revoked => exact setFields_records_none hj
  | _ => exact hj

theorem locks_of_setLock {key' : LockKey} {owner : Option ℕ} (hne : owner ≠ some j)
    (h : (a.setLock key owner).locks key' = some j) : a.locks key' = some j := by
  by_cases hk : key' = key
  · subst hk
    rw [Db.setLock_locks, update_self] at h
    exact absurd h hne
  · rwa [Db.setLock_locks, update_of_ne hk] at h

theorem Change.locks (h : Change i configured a b) (hne : i ≠ j) (hkey : b.locks key = some j) :
    a.locks key = some j := by
  cases h with
  | rotated token now hconf hold => rwa [rotated_locks] at hkey
  | locked key' h => exact locks_of_setLock (fun h => hne (Option.some.inj h)) hkey
  | unlocked key' h => exact locks_of_setLock (some_ne_none j).symm hkey
  | _ => exact hkey

/-- A token that is new under a template is one that the process has drawn, and it is issued with
    the lock, for an issuer that may issue, below the quota. -/
theorem Change.new_token (h : Change i configured a b) {r : TokenRecord} (hid : id ≠ .bootstrap)
    (hr : b.records id = some r) (hpair : r.IssuedUnder key) :
    (a.records id).isSome ∨ id = .random i ∧ a.locks key = some i ∧
      ∃ template ∈ delegatedIssueTemplates, template.id = key.2 ∧
        (a.active key).encard < template.activeQuota := by
  have hput : ∀ {id' : TokenId} {record : TokenRecord},
      (a.putRecord id' record).records id = some r → id ≠ id' → (a.records id).isSome := by
    intro id' record hr hne
    rw [Db.putRecord_records, update_of_ne hne] at hr
    exact hr ▸ rfl
  cases h with
  | rotated token now hconf hold =>
    rw [rotated_records, update_of_ne hid] at hr
    exact .inl (hr ▸ rfl)
  | issued record hfresh hhash htemplate =>
    by_cases hid' : id = .random i
    · -- what is issued by `issue` is under no template
      subst hid'
      have hrecord : some record = some r := by
        rw [← hr, Db.setIndex_records, Db.putRecord_records, update_self]
      cases hrecord
      cases htemplate.symm.trans hpair.2
    · exact .inl (hput hr hid')
  | delegated issuer template ns nowMs hfresh htemplate hlock hissuer hquota =>
    by_cases hid' : id = .random i
    · subst hid'
      have hrecord : some (delegatedRecord i issuer template ns nowMs) = some r := by
        rw [← hr, delegatedWrites, Db.note_records, Db.setIndex_records, Db.putRecord_records,
          update_self]
      cases hrecord
      obtain rfl : (issuer, template.id) = key := Prod.ext hpair.1 (Option.some.inj hpair.2)
      exact .inr ⟨rfl, hlock, template, htemplate, rfl, hquota⟩
    · exact .inl (hput hr hid')
  | collected | revoked => exact .inl (isSome_of_setFields (isSome_of_eq_some hr))
  | _ => exact .inl (isSome_of_eq_some hr)

theorem Change.rely (h : Change i configured a b) (hne : i ≠ j) (ha : Inv a) : Rely j a b := by
  refine ⟨fun _ => h.inv ha, h.evolves, h.fresh hne, fun key => h.locks hne,
    fun key hkey id r hid hr hpair => ?_⟩
  -- who issues under the template has the lock, and that is not the process
  rcases h.new_token hid hr hpair with hold | ⟨-, hlock, -⟩
  · exact hold
  · exact absurd (Option.some.inj (hlock.symm.trans (h.locks hne hkey))) hne

theorem Env.rely (e : Env) (i : ℕ) (a : Db) : Rely i a (e.apply a) := by
  have hlocks : ∀ key, (e.apply a).locks key = some i → a.locks key = some i := by
    intro key hkey
    cases e with
    | lockExpires key' => exact locks_of_setLock (some_ne_none i).symm hkey
    | _ => exact hkey
  have hrecords : (e.apply a).records = a.records := by cases e <;> rfl
  refine ⟨Env.inv e, Env.evolves e a, ?_, hlocks, fun key _ id r _ hr _ => ?_⟩
  · rw [hrecords]
    exact id
  · rw [← hrecords, hr]
    rfl

end Wdl.Auth
