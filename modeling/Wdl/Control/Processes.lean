import Wdl.Control.Commits
import Wdl.Control.Effects

/-!
# What requests do to the database

A request takes a `Reliance` for granted: an outlook that the others keep, and that its own
commands and transactions keep as well. Then everything it does to the database is a
`Change`: nothing, a command, or a transaction that knows what it should know
(`Reliance.body_safe`).
-/

namespace Wdl.Control

open Option List

open Session (Ensures Commits)

/-- An outlook that the others keep while the process `i` runs, and that its own commands and
    transactions keep. -/
structure Reliance (i : ℕ) extends Outlook where
  rel_refl : ∀ a, rel a a
  rel_trans : ∀ a b c, rel a b → rel b c → rel a c
  inv_rel : ∀ a b, inv a → rel a b → inv b
  held_rel : ∀ v a b, held v a → rel a b → held v b
  inv_transaction : ∀ a b, inv a → Transaction toOutlook a b → inv b
  rel_command : ∀ c x a b, inv a → c.Own i → Command.Step c a x b → rel a b
  held_incr : ∀ w n a b, inv a → Command.Step (.incrNextVersion i w) a n b → held (w.1, w.2, n) b
  seen_rel : ∀ e a b, seen e a → rel a b → seen e b
  seen_stored : ∀ ns databaseId r a, inv a → a.database (ns, databaseId) = some r →
    seen ⟨.created, ns, r.databaseName, r.databaseId⟩ a
  seen_transaction : ∀ e a b, inv a → Transaction toOutlook a b →
    seen e a ∨ b.databaseLog = e :: a.databaseLog → seen e b

variable {w : WorkerId}

namespace Reliance

variable {i : ℕ} (ρ : Reliance i) {α β : Type}

/-- From `A` on, everything the process does to the database is a `Change`, and the program
    ends in `Q`. -/
def Safe (A : Db → Prop) (Q : Except Failure α → Db → Prop) (p : ControlM α) : Prop :=
  p.SafeFrom (Request.Step Command.Step) (Shared.Moves i ρ.rel)
    (Shared.Guar i (Change ρ.toOutlook i)) (fun r s => Q r s.db) (fun s => A s.db)

/-- A program ends with the invariant, and `B` is known of its result. -/
abbrev Ends (B : α → Db → Prop) : Except Failure α → Db → Prop := Finishes B fun _ => ρ.inv

/-- A program ends with the invariant. -/
abbrev Ended : Except Failure α → Db → Prop := ρ.Ends fun _ => ρ.inv

/-! ## Rules -/

/-- The others keep `P`. -/
class Kept (P : Db → Prop) : Prop where
  rel : ∀ a b, P a → ρ.rel a b → P b

/-- What the process may know between its calls: the invariant and more, that the others keep. -/
class Steady (A : Db → Prop) : Prop extends Kept ρ A where
  inv : ∀ a, A a → ρ.inv a

/-- `P` is known in addition to `A`. -/
abbrev With (A P : Db → Prop) (db : Db) : Prop := A db ∧ P db

instance : ρ.Steady ρ.inv where
  rel := ρ.inv_rel
  inv _ h := h

instance (v : VersionId) : ρ.Kept (ρ.held v) := ⟨ρ.held_rel v⟩

instance (e : DatabaseEvent) : ρ.Kept (ρ.seen e) := ⟨ρ.seen_rel e⟩

instance {c : Prop} : ρ.Kept fun _ => c := ⟨fun _ _ h _ => h⟩

instance {γ : Type} {P : γ → Db → Prop} [hP : ∀ x, ρ.Kept (P x)] (l : List γ) :
    ρ.Kept fun db => ∀ x ∈ l, P x db := ⟨fun a b h hrel x hx => (hP x).rel a b (h x hx) hrel⟩

instance {γ δ : Type} {P : γ → δ → Db → Prop} [hP : ∀ x y, ρ.Kept (P x y)] (l : List γ)
    (l' : List δ) : ρ.Kept fun db => List.Forall₂ (fun x y => P x y db) l l' :=
  ⟨fun a b h hrel => h.imp fun x y hxy => (hP x y).rel a b hxy hrel⟩

instance {A P : Db → Prop} [hA : ρ.Steady A] [hP : ρ.Kept P] : ρ.Steady (With A P) where
  rel a b h hrel := ⟨hA.rel a b h.1 hrel, hP.rel a b h.2 hrel⟩
  inv a h := hA.inv a h.1

section Rules

variable {ρ} {A A' : Db → Prop} {Q : Except Failure β → Db → Prop} {p : ControlM α}
  {f : α → ControlM β} {B : α → Db → Prop} {C : β → Db → Prop} {E : Failure → Db → Prop}

theorem stable_db [hA : ρ.Kept A] (s t : Shared keyed) (h : A s.db) (hst : s.Moves i ρ.rel t) :
    A t.db := hA.rel _ _ h hst.db

theorem Safe.bind (hp : ρ.Safe A (ρ.Ends B) p) (hf : ∀ a, ρ.Safe (B a) (ρ.Ends C) (f a)) :
    ρ.Safe A (ρ.Ends C) (p >>= f) := by
  intro s hs
  refine .bind (.refl ρ.rel_refl) ((hp s hs).mono fun r t h => ?_)
  cases r with
  | ok a => exact hf a t h
  | error e => exact h

/-- A part whose error does not end the program. -/
theorem Safe.attempt_bind {f : Except Failure α → ControlM β} (hp : ρ.Safe A (Finishes B E) p)
    (hf : ∀ r, ρ.Safe (Finishes B E r) Q (f r)) :
    ρ.Safe A Q ((p.attempt : ControlM (Except Failure α)) >>= f) := by
  intro s hs
  refine .bind (.refl ρ.rel_refl) (.attempt ((hp s hs).mono fun r t h => ?_))
  exact hf r t h

theorem Safe.of {Q : Except Failure α → Db → Prop} (hp : ρ.Safe A Q p) (h : ∀ db, A' db → A db) :
    ρ.Safe A' Q p := Prog.SafeFrom.mono hp fun s hs => h s.db hs

variable {e : Failure} [hA : ρ.Steady A]

theorem Safe.ret {a : α} (h : ∀ db, A db → B a db) : ρ.Safe A (Finishes B E) (.ret a) :=
  Prog.SafeFrom.ret stable_db fun s hs => h s.db hs

theorem Safe.done (a : α) : ρ.Safe A ρ.Ended (.ret a) := .ret hA.inv

theorem Safe.fail : ρ.Safe A (ρ.Ends B) (.fail e) :=
  Prog.SafeFrom.fail stable_db fun s hs => hA.inv s.db hs

/-- A part of which nothing is remembered, whether it fails or not. -/
theorem safe_attempt_bind {f : Except Failure α → ControlM β} {A : Db → Prop}
    (hp : ρ.Safe A ρ.Ended p) (hf : ∀ r, ρ.Safe ρ.inv Q (f r)) :
    ρ.Safe A Q ((p.attempt : ControlM (Except Failure α)) >>= f) := by
  refine hp.attempt_bind fun r => (hf r).of fun db h => ?_
  cases r with
  | ok a => exact h
  | error e => exact h

theorem Safe.readPlain {k : Key} {f : k.Val → ControlM β}
    (hf : ∀ v, ρ.Safe A Q (f v)) : ρ.Safe A Q (readPlain k >>= f) :=
  Prog.SafeFrom.read (fun _ => .stay) hA.rel (fun _ h => h) hf

/-- A command of the process. -/
theorem Safe.command {c : Command} {f : Command.interface.Ans c → ControlM β}
    {N : Command.interface.Ans c → Db → Prop} (own : c.Own i)
    (hc : ∀ db x db', A db → Command.Step c db x db' → N x db')
    (hf : ∀ x, ρ.Safe (N x) Q (f x)) :
    ρ.Safe A Q (Prog.perform (I := api) (.command c) >>= f) :=
  Prog.SafeFrom.command hA.rel
    (fun db x db' h hstep => ⟨.command c x db' own hstep, hc db x db' h hstep⟩) hf

theorem safe_command_inv {c : Command} {f : Command.interface.Ans c → ControlM β} (own : c.Own i)
    (hf : ∀ x, ρ.Safe A Q (f x)) :
    ρ.Safe A Q (Prog.perform (I := api) (.command c) >>= f) :=
  .command own (fun db x db' h hstep => hA.rel _ _ h
    (ρ.rel_command c x db db' (hA.inv _ h) own hstep)) hf

theorem safe_incrNextVersion {f : ℕ → ControlM β}
    (hf : ∀ n, ρ.Safe (With A (ρ.held (w.1, w.2, n))) Q (f n)) :
    ρ.Safe A Q (incrNextVersion i w >>= f) := by
  refine .command (N := fun n => With A (ρ.held (w.1, w.2, n))) rfl (fun db n db' h hstep => ?_) hf
  have hrel := ρ.rel_command (.incrNextVersion i w) n db db' (hA.inv _ h) rfl hstep
  exact ⟨hA.rel _ _ h hrel, ρ.held_incr _ _ _ _ (hA.inv _ h) hstep⟩

variable {T : Db → (Db → Db) → Prop} {body : SessionM (Verdict Db α)} {exhausted : Failure}

/-- A transaction, that knows `T` when it commits. -/
theorem Safe.optimistic
    (hbody : ∀ db, A db → Ensures A ρ.rel db ∅ body (Commits (T db)))
    (hT : ∀ db m, A db → T db m → Transaction ρ.toOutlook db (m db)) :
    ρ.Safe A ρ.Ended (optimistic i exhausted body) := by
  refine runOptimistic_safe (B := fun _ => ρ.inv) (Q := fun db => Commits (T db))
    ρ.rel_refl ρ.rel_trans (fun _ => .stay) hA.rel (fun _ => ρ.inv_rel)
    (fun db _ h _ => hA.inv db h) (fun db W m a h hm => ?_) (fun _ => hA.inv)
    (fun db h => ensures_retrying (hbody db h))
    Safe.fail _
  have htransaction := hT db m h hm
  exact ⟨.transaction _ htransaction, ρ.inv_transaction _ _ (hA.inv _ h) htransaction⟩

end Rules

/-! ## Activations -/

theorem promoteWithRoutes_safe (w : WorkerId) (version : Version) :
    ρ.Safe ρ.inv ρ.Ended (promoteWithRoutes i w version) := by
  rw [promoteWithRoutes]
  split_ifs with hv
  · refine .optimistic (fun db _ => promoteSession_ensures (fun _ h => h) w hv db) ?_
    rintro db m - ⟨p, rfl, hp⟩
    exact hp.transaction
  · exact .fail

theorem bumpActiveAndPromote_safe (w : WorkerId) (key : String) (mutation : SecretMutation) :
    ρ.Safe ρ.inv ρ.Ended
      (bumpActiveAndPromote i w fun _ => stageWorkerSecretForBump w key mutation) := by
  refine .readPlain fun routes => ?_
  cases routes.lookup w.2 with
  | none => exact .fail
  | some active =>
    refine safe_incrNextVersion fun newVersion => ?_
    split_ifs with hv
    · refine .optimistic (fun db h => bumpSession_ensures w h.2 hv key mutation) ?_
      rintro db m - ⟨p, key, mutation, rfl, hp⟩
      exact hp.transaction key mutation
    · exact .fail

theorem mutateSecretWithoutActive_safe (w : WorkerId) (key : String) (mutation : SecretMutation) :
    ρ.Safe ρ.inv ρ.Ended
      (mutateSecretWithoutActive i w key mutation) := by
  refine .optimistic (fun db _ => mutateSecretSession_ensures w key mutation db) ?_
  rintro db m - ⟨last, rfl, h⟩
  exact h.transaction

theorem mutateSecretLoop_safe (w : WorkerId) (key : String) (mutation : SecretMutation) (n : ℕ) :
    ρ.Safe ρ.inv ρ.Ended
      (mutateSecretLoop i w key mutation n) := by
  induction n with
  | zero => exact .fail
  | succ n ih =>
    refine safe_attempt_bind (bumpActiveAndPromote_safe ρ w key mutation) fun bumped => ?_
    split
    · exact .done _
    · exact .done _
    · refine .bind (mutateSecretWithoutActive_safe ρ w key mutation) fun found => ?_
      cases found with
      | activePresent => exact ih
      | notMutated | mutated => exact .done _
    · exact .fail

theorem mutateSecret_safe (w : WorkerId) (key : String) (mutation : SecretMutation) :
    ρ.Safe ρ.inv ρ.Ended (mutateSecret i w key mutation) := by
  rw [mutateSecret]
  split
  · refine .readPlain fun lock => ?_
    split
    · exact .fail
    · refine .readPlain fun secrets => ?_
      split
      · exact .done _
      · exact mutateSecretLoop_safe ρ w key mutation _
  · exact mutateSecretLoop_safe ρ w key mutation _

/-! ## Deletion -/

theorem withDeleteLock_safe (w : WorkerId) (token : LockToken) {p : ControlM α}
    (hp : ρ.Safe ρ.inv ρ.Ended p) :
    ρ.Safe ρ.inv ρ.Ended (withDeleteLock w token p) := by
  refine safe_command_inv trivial fun ok => ?_
  cases ok with
  | false => exact .fail
  | true =>
    refine safe_attempt_bind hp fun outcome => safe_command_inv trivial fun _ => ?_
    cases outcome with
    | ok a => exact .done a
    | error e => exact .fail

theorem requireDeleteLock_bind_safe {A : Db → Prop} [ρ.Steady A] (w : WorkerId)
    (token : LockToken) {f : Unit → ControlM β} (hf : ρ.Safe A ρ.Ended (f ())) :
    ρ.Safe A ρ.Ended (requireDeleteLock w token >>= f) := by
  refine .bind (B := fun _ => A) (safe_command_inv trivial fun ok => ?_) fun _ => hf
  cases ok with
  | true => exact .ret fun s hs => hs
  | false => exact .fail

theorem deleteVersion_safe (w : WorkerId) (version : Version) :
    ρ.Safe ρ.inv ρ.Ended (deleteVersion i w version) := by
  rw [deleteVersion]
  split
  · refine withDeleteLock_safe ρ w _ (requireDeleteLock_bind_safe ρ w _ ?_)
    refine .optimistic (fun db _ => versionDeleteSession_ensures w version _ db) ?_
    rintro db m - ⟨srcMeta, last, nothingLeft, rfl, h⟩
    exact h.transaction
  · exact .fail

variable {ρ} in
/-- A session that is run once. -/
theorem safe_runSession {A : Db → Prop} [hA : ρ.Steady A] {body : SessionM (Verdict Db α)}
    {T : Db → (Db → Db) → Prop}
    (hbody : ∀ db, A db → Ensures A ρ.rel db ∅ body (Commits (T db)))
    (hT : ∀ db m, A db → T db m → Transaction ρ.toOutlook db (m db)) :
    ρ.Safe A ρ.Ended (runSession i body) := by
  refine fun s hs => (Session.run_safe (B := fun _ => ρ.inv)
    (Q := fun db => Commits (T db)) ρ.rel_refl ρ.rel_trans (fun _ => .stay) hA.rel
    (fun _ => ρ.inv_rel) (fun db _ h _ _ => hA.inv db h) (fun db W m a h hm => ?_) hbody s hs).mono
    fun r s h => ?_
  · have htransaction := hT db m h hm
    exact ⟨.transaction _ htransaction, ρ.inv_transaction _ _ (hA.inv _ h) htransaction⟩
  · cases r with
    | error e => exact hA.inv _ h
    | ok r =>
      cases r with
      | some a => exact h
      | none => exact hA.inv _ h

/-- A session that only reads, and knows `P` of what it returns. -/
def Leaves (P : α → Prop) : Set Key → Verdict Db α → Prop
  | _, .leave a => P a
  | _, _ => False

variable {ρ} in
theorem before_rel {a b : Db} {P : Db → Prop} (h : ρ.Before a P) (hrel : ρ.rel a b) :
    ρ.Before b P :=
  h.mono ρ.rel_trans hrel

instance (w : WorkerId) (c : DeleteInputs) : ρ.Kept fun db => Collected ρ.toOutlook db w c where
  rel a b h hrel := by
    obtain ⟨hversions, hroutes⟩ := h
    refine ⟨hversions, ?_⟩
    revert hroutes
    cases c.activeVersion with
    | none => exact id
    | some version => exact fun ⟨m, hm, hP⟩ => ⟨m, hm, before_rel hP hrel⟩

/-- What is known after an attempt to collect. -/
def Collects (w : WorkerId) : Option DeleteInputs → Db → Prop
  | some c, db => ρ.inv db ∧ Collected ρ.toOutlook db w c
  | none, db => ρ.inv db

theorem unwatching_read {k : Key} {f : k.Val → SessionM α} (h : ∀ v, Session.Unwatching (f v)) :
    Session.Unwatching (read k >>= f) := h

variable {ns : Ns}

theorem unwatching_scan {f : List Key → SessionM α} (h : ∀ l, Session.Unwatching (f l)) :
    Session.Unwatching (scanQueueConsumers ns >>= f) := h

theorem refuseIf_unwatching (c : Prop) [Decidable c] (e : Failure) :
    Session.Unwatching (refuseIf c e) := by
  rw [refuseIf]
  split <;> trivial

theorem collectVersion_unwatching (w : WorkerId) (version : Version) :
    Session.Unwatching (collectVersion w version) := by
  refine unwatching_read fun candidate => unwatching_read fun referrers => ?_
  cases candidate with
  | some m => trivial
  | none => exact unwatching_read fun _ => (refuseIf_unwatching _ _).bind fun _ => trivial

theorem collectActiveRoutes_unwatching (w : WorkerId) (metas : List (Version × Meta))
    (active : Option Version) : Session.Unwatching (collectActiveRoutes w metas active) := by
  cases active with
  | none => trivial
  | some version =>
    rw [collectActiveRoutes]
    cases metas.lookup version with
    | some m => trivial
    | none =>
      refine unwatching_read fun candidate => ?_
      cases candidate with
      | some m => trivial
      | none => exact unwatching_read fun _ => (refuseIf_unwatching _ _).bind fun _ => trivial

theorem scanQueueConsumerKeysForWorker_unwatching (w : WorkerId) :
    Session.Unwatching (scanQueueConsumerKeysForWorker w) :=
  unwatching_scan fun _ => .bind
    (.forEach fun _ => unwatching_read fun _ => trivial) fun _ => trivial

theorem collect_unwatching (w : WorkerId) :
    Session.Unwatching
      ((collectDeleteInputs w).bind fun c => .ret (Verdict.leave (σ := Db) c)) := by
  refine Session.Unwatching.bind (unwatching_read fun storageId => ?_) fun _ => trivial
  refine (scanQueueConsumerKeysForWorker_unwatching w).bind fun queues =>
    unwatching_read fun versions => ?_
  refine (Session.Unwatching.forEach (collectVersion_unwatching w)).bind fun collected =>
    unwatching_read fun routes => ?_
  exact (collectActiveRoutes_unwatching w _ _).bind fun _ =>
    unwatching_read fun _ => unwatching_read fun _ => trivial

theorem collect_safe (w : WorkerId) :
    ρ.Safe ρ.inv (ρ.Ends (ρ.Collects w))
      (runSession i ((collectDeleteInputs w).bind fun c => .ret (.leave c))) := by
  refine fun s hs => (Session.run_safe (A := ρ.inv) (B := fun c db => ρ.Collects w (some c) db)
    (Q := fun db => Leaves (Collected ρ.toOutlook db w)) ρ.rel_refl ρ.rel_trans (fun _ => .stay)
    ρ.inv_rel (fun c => (inferInstance : ρ.Steady (With ρ.inv _)).rel)
    (fun db c h _ hc => ⟨h, hc (collect_unwatching w)⟩)
    (fun _ _ _ _ _ h => h.elim) (fun db h => ?_) s hs).mono fun r s h => ?_
  · exact Ensures.seq (collectDeleteInputs_ensures (fun _ h => h) db w) fun _ _ hc => hc
  · cases r with
    | error e => exact h
    | ok r =>
      cases r with
      | some | none => exact h

theorem deleteWorkerAttempt_safe (w : WorkerId) (token : LockToken) :
    ρ.Safe ρ.inv ρ.Ended (deleteWorkerAttempt i w token) := by
  refine .bind (collect_safe ρ w) fun c => ?_
  cases c with
  | none => exact .done (A := ρ.inv) _
  | some c =>
    refine .of (A := With ρ.inv fun db => Collected ρ.toOutlook db w c) ?_ fun _ h => h
    dsimp only
    split
    · exact .fail
    · split
      · split
        · exact .fail
        · refine requireDeleteLock_bind_safe ρ w token (safe_runSession
            (fun db h => workerDeleteSession_ensures (fun _ h => h.1) token h.2) ?_)
          rintro db m - ⟨losing, stillActive, rfl, h⟩
          exact h.transaction
      · refine requireDeleteLock_bind_safe ρ w token (safe_runSession
          (fun db _ => residualDeleteSession_ensures w c token db) ?_)
        rintro db m - ⟨hasStorage, hasPolicy, rfl, h⟩
        exact .deleteResidue w hasStorage hasPolicy h

theorem deleteWorkerLoop_safe (w : WorkerId) (token : LockToken) (n : ℕ) :
    ρ.Safe ρ.inv ρ.Ended (deleteWorkerLoop i w token n) := by
  induction n with
  | zero => exact .fail
  | succ n ih =>
    refine safe_attempt_bind (deleteWorkerAttempt_safe ρ w token) fun outcome => ?_
    split
    · exact .done _
    · exact ih
    · exact ih
    · exact .fail

theorem deleteWorker_safe (w : WorkerId) :
    ρ.Safe ρ.inv ρ.Ended (deleteWorker i w) :=
  withDeleteLock_safe ρ w _ (deleteWorkerLoop_safe ρ w _ _)

/-! ## Hosts and databases -/

theorem reconcileHosts_safe (ns : Ns) (hosts : Finset Host) :
    ρ.Safe ρ.inv ρ.Ended (reconcileHosts i ns hosts) := by
  refine .optimistic (fun db _ => reconcileSession_ensures (fun _ h => h) ns hosts db) ?_
  rintro db m - ⟨toAdd, removals, rfl, h⟩
  exact h.transaction

/-- If there is a record, it is known to have been created. -/
def Recorded (ns : Ns) (record : Option DatabaseRecord) (db : Db) : Prop :=
  ρ.inv db ∧ ∀ r, record = some r → ρ.seen ⟨.created, ns, r.databaseName, r.databaseId⟩ db

instance (ns : Ns) (record : Option DatabaseRecord) : ρ.Steady (ρ.Recorded ns record) where
  rel a b h hab := ⟨ρ.inv_rel a b h.1 hab, fun r hr => ρ.seen_rel _ a b (h.2 r hr) hab⟩
  inv _ h := h.1

variable {ρ} {A : Db → Prop} [hA : ρ.Steady A] in
/-- A record that is read is known to have been created. -/
theorem safe_readRecord {Q : Except Failure β → Db → Prop} {databaseId : String}
    {f : Option DatabaseRecord → ControlM β}
    (hf : ∀ record, ρ.Safe (ρ.Recorded ns record) Q (f record)) :
    ρ.Safe A Q (readPlain (.database ns databaseId) >>= f) :=
  Prog.SafeFrom.read (fun _ => .stay) hA.rel (fun db h => ⟨hA.inv db h,
    fun r hr => ρ.seen_stored ns databaseId r db (hA.inv db h) hr⟩) hf

/-- A transaction that only succeeds if it commits, and is noted then. -/
theorem safe_noted {A : Db → Prop} [hA : ρ.Steady A] {body : SessionM (Verdict Db MetadataResult)}
    {exhausted : Failure} {T : Db → (Db → Db) → Prop} (e : DatabaseEvent)
    (hown : ∀ a b, A a → Transaction ρ.toOutlook a b → A b)
    (hbody : ∀ db, A db → Ensures A ρ.rel db ∅ body (Commits (T db)))
    (hT : ∀ db m, T db m → Transaction ρ.toOutlook db (m db) ∧
      (m db).databaseLog = e :: db.databaseLog)
    (hleave : ¬ body.MayLeave .ok) :
    ρ.Safe A (Finishes (fun r db => A db ∧ (r = .ok → ρ.seen e db)) fun _ => A)
      (optimistic i exhausted body) := by
  refine runOptimistic_safe (B := fun (r : MetadataResult) db => A db ∧ (r = .ok → ρ.seen e db))
    (Q := fun db => Commits (T db)) ρ.rel_refl ρ.rel_trans (fun _ => .stay) hA.rel
    (fun r a b h hab => ⟨hA.rel a b h.1 hab, fun hr => ρ.seen_rel e a b (h.2 hr) hab⟩)
    (fun db r h hr => ⟨h, ?_⟩) (fun db W m r h hm => ?_) (fun _ _ h => h)
    (fun db h => ensures_retrying (hbody db h)) (.fail stable_db fun _ hs => hs) _
  · rintro rfl
    exact absurd (mayLeave_of_retrying hr) hleave
  · obtain ⟨ht, hlog⟩ := hT db m hm
    exact ⟨.transaction _ ht, hown _ _ h ht,
      fun _ => ρ.seen_transaction e _ _ (hA.inv _ h) ht (.inr hlog)⟩

theorem rollbackProvisional_safe (ns : Ns) (database : DatabaseRecord) :
    ρ.Safe (ρ.Recorded ns (some database)) ρ.Ended
      (rollbackProvisionalDatabaseMetadata i ns database) := by
  refine .optimistic (fun db _ => rollbackProvisionalSession_ensures ns database db) ?_
  rintro db m hseen ⟨c, rfl, h⟩
  exact .removeDatabase ns database c _ (.inl ⟨rfl, h⟩) (hseen.2 database rfl)

theorem makeRoom_safe (ns : Ns) (databaseName : String) (now : ℕ) :
    ρ.Safe ρ.inv ρ.Ended (makeRoom i ns databaseName now) := by
  refine .readPlain fun name => ?_
  cases name with
  | none => exact .done _
  | some existingId =>
    refine safe_readRecord fun record => ?_
    cases record with
    | none => exact .fail
    | some existing =>
      dsimp only
      split
      · exact .bind (rollbackProvisional_safe ρ ns existing) fun _ => .done _
      · exact .fail

theorem abandonDatabase_safe (ns : Ns) (database : DatabaseRecord) (e : Failure)
    {B : Reply → Db → Prop} : ρ.Safe (ρ.Recorded ns (some database)) (ρ.Ends B)
      (abandonDatabase i ns database e) :=
  safe_attempt_bind (rollbackProvisional_safe ρ ns database) fun _ => .fail

theorem createDatabase_safe (ns : Ns) (databaseName databaseId : String) (now : ℕ)
    (initialized : Bool) :
    ρ.Safe ρ.inv
      (ρ.Ends fun _ db => ρ.inv db ∧ ρ.seen ⟨.ready, ns, databaseName, databaseId⟩ db)
      (createDatabase i ns databaseName databaseId now initialized) := by
  refine .bind (makeRoom_safe ρ ns databaseName now) fun _ => ?_
  refine .bind (safe_noted ρ ⟨.created, ns, databaseName, databaseId⟩ ρ.inv_transaction
    (fun db _ => commitDatabaseSession_ensures ns databaseName databaseId _ db) ?_ ?_)
    fun result => ?_
  · rintro db m ⟨rfl, h, hname⟩
    exact ⟨.createDatabase ns databaseName databaseId _ h hname, rfl⟩
  · rintro ⟨-, name, record, h⟩
    change Session.MayLeave _ (ite _ _ (ite _ _ _)) at h
    split_ifs at h <;> cases h
  split
  · refine .of ?_ fun db hs => show ρ.Recorded ns (some ⟨databaseId, databaseName, .provisional,
      some (now + provisionalTtlMs)⟩) db from ⟨hs.1, by rintro r ⟨⟩; exact hs.2 rfl⟩
    by_cases hinit : initialized = true
    · rw [if_pos hinit]
      refine .attempt_bind (safe_noted ρ ⟨.ready, ns, databaseName, databaseId⟩
        ?_ (fun db _ => markReadySession_ensures ns _ db) ?_ ?_) fun ready => ?_
      · exact fun a b h ht => ⟨ρ.inv_transaction a b h.1 ht,
          fun r hr => ρ.seen_transaction _ a b h.1 ht (.inl (h.2 r hr))⟩
      · rintro db m ⟨c, rfl, h, hname⟩
        exact ⟨.databaseReady ns _ c h hname, rfl⟩
      · rintro ⟨-, current, name, h⟩
        cases current with
        | none => cases h
        | some c =>
          change Session.MayLeave _ (ite _ _ (ite _ _ _)) at h
          split_ifs at h <;> cases h
      · by_cases hready : ready = .ok .ok
        · subst hready
          refine .of (A := With ρ.inv (ρ.seen _)) ?_ fun db hs => ⟨hs.1.1, hs.2 rfl⟩
          exact .ret fun _ h => h
        · rw [if_neg hready]
          refine (abandonDatabase_safe ρ ns _ _).of fun s hs => ?_
          cases ready with
          | ok r => exact hs.1
          | error e => exact hs
    · rw [if_neg hinit]
      exact abandonDatabase_safe ρ ns _ _
  · exact (Safe.fail (A := ρ.inv)).of fun s hs => hs.1

theorem resolveDatabaseRefFrom_safe (ns : Ns) (databaseRef : String) :
    ρ.Safe ρ.inv (ρ.Ends (ρ.Recorded ns))
      (resolveDatabaseRefFrom readPlain ns databaseRef) := by
  refine safe_readRecord fun byId => .readPlain fun name => ?_
  cases byId with
  | some database =>
    refine .ret fun s hs => ⟨hs.1, fun r hr => ?_⟩
    exact hs.2 r (ite_none_right_eq_some.1 hr).2
  | none =>
    cases name with
    | none => exact .ret fun s hs => hs
    | some databaseId =>
      refine safe_readRecord fun byName => .ret fun s hs => ⟨hs.1, fun r hr => ?_⟩
      exact hs.2 r (filter_eq_some_iff.1 hr).1

theorem deleteDatabase_safe (ns : Ns) (databaseRef : String) :
    ρ.Safe ρ.inv ρ.Ended (deleteDatabase i ns databaseRef) := by
  refine .bind (resolveDatabaseRefFrom_safe ρ ns databaseRef) fun found => ?_
  cases found with
  | none => exact .fail
  | some database =>
    refine .optimistic (fun db _ => deleteDatabaseSession_ensures ns database db) ?_
    rintro db m hseen ⟨c, rfl, h, hunreferenced⟩
    exact .removeDatabase ns database c _ (.inr ⟨rfl, h, hunreferenced⟩) (hseen.2 database rfl)

/-! ## Deploys -/

section Deploy

variable {ρ} {A : Db → Prop} [hA : ρ.Steady A]

/-- Reads for each member of a list. -/
theorem safe_forEach_read {γ δ : Type} {Q : Except Failure β → Db → Prop} {l : List γ}
    {k : γ → Key} {g : (b : γ) → (k b).Val → δ} {f : List δ → ControlM β} (P : γ → δ → Db → Prop)
    [hP : ∀ b x, ρ.Kept (P b x)] (hread : ∀ b ∈ l, ∀ db : Db, A db → P b (g b (db.get (k b))) db)
    (hf : ∀ as, ρ.Safe (With A (fun db => List.Forall₂ (fun b x => P b x db) l as))
      Q (f as)) :
    ρ.Safe A Q
      (.forEach l (fun b => readPlain (k b) >>= fun v => pure (g b v)) >>= f) :=
  Prog.SafeFrom.forEach_read (fun _ => .stay) hA.rel (fun b x => (hP b x).rel) hread hf

instance (b : Binding) : ρ.Kept fun db => LinkedService ρ.toOutlook db w b where
  rel d d' h hrel := by
    obtain ⟨versions, metas, request, hlink, hread⟩ := h
    refine ⟨versions, metas, request, hlink, fun target version hversion => ?_⟩
    obtain ⟨d₁, d₂, h₁, h₁₂, h₂, h₂d, hroute, hmeta⟩ := hread target version hversion
    exact ⟨d₁, d₂, h₁, h₁₂, h₂, ρ.rel_trans _ _ _ h₂d hrel, hroute, hmeta⟩

/-- A version was read as the active one of its worker, and then its metadata. -/
def ReadTarget (ρ : Reliance i) (target : VersionId) (x : VersionId × Option Meta) (db : Db) :
    Prop :=
  x.1 = target ∧ ∃ d d', ρ.inv d ∧ ρ.rel d d' ∧ ρ.inv d' ∧ ρ.rel d' db ∧
    (d.routes target.1).lookup target.2.1 = some target.2.2 ∧ x.2 = d'.bundle target

/-- The active version of a worker was read. -/
def ReadVersion (ρ : Reliance i) (target : WorkerId) (x : WorkerId × Option Version) (db : Db) :
    Prop :=
  x.1 = target ∧ ∀ version, x.2 = some version →
    ρ.Before db fun d => (d.routes target.1).lookup target.2 = some version

instance (target : VersionId) (x : VersionId × Option Meta) : ρ.Kept (ReadTarget ρ target x) where
  rel a b h hrel := by
    obtain ⟨hx, d, d', hd, hdd', hd', hlater, hroute, hmeta⟩ := h
    exact ⟨hx, d, d', hd, hdd', hd', ρ.rel_trans _ _ _ hlater hrel, hroute, hmeta⟩

instance (target : WorkerId) (x : WorkerId × Option Version) : ρ.Kept (ReadVersion ρ target x) :=
  ⟨fun _ _ h hrel => ⟨h.1, fun v hv => before_rel (h.2 v hv) hrel⟩⟩

/-- The workers with a version, as they are looked up. -/
def versionedTargets (versions : List (WorkerId × Option Version)) : List VersionId :=
  versions.filterMap fun x => x.2.map fun version => (x.1.1, x.1.2, version)

variable {versions : List (WorkerId × Option Version)}

theorem mem_versionedTargets {target : WorkerId}
    {version : Version} : (target.1, target.2, version) ∈ versionedTargets versions ↔
      (target, some version) ∈ versions := by
  rw [versionedTargets, mem_filterMap]
  constructor
  · rintro ⟨⟨⟨ns, worker⟩, active⟩, hx, heq⟩
    obtain ⟨version', rfl, heq⟩ := map_eq_some_iff.1 heq
    obtain ⟨hns, hworker, rfl⟩ : ns = target.1 ∧ worker = target.2 ∧ version' = version := by
      simpa using heq
    rwa [hns, hworker] at hx
  · exact fun h => ⟨_, h, rfl⟩

/-- What is looked up in the caches of the preflight was read before. -/
theorem linkedService_of_reads {db : Db} {metas : List (VersionId × Option Meta)}
    (hmetas : List.Forall₂ (fun t x => ReadTarget ρ t x db) (versionedTargets versions) metas)
    {request b : Binding}
    (hlink : linkServiceBinding w (fun target => (versions.lookup target).join)
      (fun target => (metas.lookup target).join) request = .ok b) :
    LinkedService ρ.toOutlook db w b := by
  refine ⟨_, _, request, hlink, fun target version hversion => ?_⟩
  have hmem : (target, some version) ∈ versions :=
    mem_of_lookup (join_eq_some_iff.1 hversion)
  obtain ⟨x, hx, hfst, -⟩ := exists_of_forall₂ hmetas (mem_versionedTargets.2 hmem)
  -- the cache has an entry for the version, and every entry for it was read so
  have hsome : (metas.lookup (target.1, target.2, version)).isSome :=
    lookup_isSome_iff.2 ⟨x, hx, by simp [hfst]⟩
  obtain ⟨y, hy⟩ := isSome_iff_exists.1 hsome
  obtain ⟨t, -, ht, d, d', hd, hdd', hd', hlater, hroute, hmeta⟩ :=
    exists_of_forall₂_right hmetas (mem_of_lookup hy)
  obtain rfl : (target.1, target.2, version) = t := ht
  exact ⟨d, d', hd, hdd', hd', hlater, hroute, by rw [hy]; exact hmeta⟩

theorem ok_of_link {x : Except Failure Binding} {name : String} {b : String × Binding}
    (h : (do let linked ← x; .ok (name, linked)) = Except.ok b) : b.1 = name ∧ x = .ok b.2 := by
  cases x with
  | error e => cases h
  | ok linked => cases h; exact ⟨rfl, rfl⟩

theorem validateServiceBindingsPreflight_safe (w : WorkerId) (bindings : List (String × Binding)) :
    ρ.Safe ρ.inv (ρ.Ends fun linked db => ρ.inv db ∧
      linked.map Prod.fst = bindings.map Prod.fst ∧
        ∀ b ∈ linked, LinkedService ρ.toOutlook db w b.2)
      (validateServiceBindingsPreflight w bindings) := by
  refine safe_forEach_read (ReadVersion ρ) ?_ fun versions => safe_forEach_read (ReadTarget ρ) ?_
    fun metas => ?_
  · exact fun target _ db h => ⟨rfl, fun v hv => ⟨db, h, ρ.rel_refl db, hv⟩⟩
  · rintro target htarget db ⟨hinv, hversions⟩
    have hversion : ((target.1, target.2.1), some target.2.2) ∈ versions :=
      mem_versionedTargets.1 htarget
    obtain ⟨t, -, ht, hbefore⟩ := exists_of_forall₂_right hversions hversion
    obtain ⟨d, hd, hrel, hroute⟩ := hbefore _ rfl
    obtain rfl : (target.1, target.2.1) = t := ht
    exact ⟨rfl, d, db, hd, hrel, hinv, ρ.rel_refl db, hroute, rfl⟩
  · dsimp only
    split
    · rename_i linked hlinked
      have hall := (forall₂_of_mapM_ok hlinked).imp fun b b' => ok_of_link
      refine (Safe.ret (A := With ρ.inv fun db => ∀ b ∈ linked, LinkedService ρ.toOutlook db w b.2)
        fun s h => ⟨h.1, map_eq_of_forall₂ (hall.imp fun _ _ h => h.1), h.2⟩).of ?_
      rintro s ⟨⟨hinv, -⟩, hmetas⟩
      refine ⟨hinv, fun b hb => ?_⟩
      obtain ⟨request, -, -, hok⟩ := exists_of_forall₂_right hall hb
      exact linkedService_of_reads hmetas hok
    · exact .fail

/-- An export of the platform was read. -/
def ReadExport (ρ : Reliance i) (e : PlatformExport) (db : Db) : Prop :=
  ρ.Before db fun d => ∃ m, d.bundle e.target = some m ∧ e.entry ∈ m.exports

instance (e : PlatformExport) : ρ.Kept (ReadExport ρ e) := ⟨fun _ _ h hrel => before_rel h hrel⟩

theorem collectPlatformExports_safe :
    ρ.Safe A (ρ.Ends fun exports db => A db ∧ ∀ e ∈ exports, ReadExport ρ e db)
      collectPlatformExports := by
  refine safe_forEach_read (fun _ _ _ => True) (fun _ _ _ _ => trivial) fun routeHashes =>
    safe_forEach_read (fun _ exports db => ∀ e ∈ exports, ReadExport ρ e db)
    (fun target _ db h e he => ?_) fun exportsByWorker => ?_
  · obtain ⟨entry, hentry, heq⟩ := mem_filterMap.1 he
    split at heq
    · cases heq
    · cases heq
      refine ⟨db, hA.inv db h.1, ρ.rel_refl db, ?_⟩
      cases hm : db.bundle target with
      | none => simp [Db.get, hm] at hentry
      | some m => exact ⟨m, hm, by simpa [Db.get, hm] using hentry⟩
  · refine .of (A := With A fun db => ∀ e ∈ exportsByWorker.flatten, ReadExport ρ e db)
      (.ret fun _ h => h) ?_
    rintro db ⟨⟨h, -⟩, hexports⟩
    refine ⟨h, fun e he => ?_⟩
    obtain ⟨exports, hmem, he⟩ := mem_flatten.1 he
    obtain ⟨target, -, hall⟩ := exists_of_forall₂_right hexports hmem
    exact hall e he

/-- The requests for exports of the platform add linked bindings under new names. -/
theorem linkPlatformBindings_linked {db : Db} {exports : List PlatformExport}
    (hexports : ∀ e ∈ exports, ReadExport ρ e db) {all requests : List PlatformBindingRequest}
    (hall : requests ⊆ all) {bindings result : List (String × Binding)}
    (h : linkPlatformBindings w.1 exports requests bindings = .ok result)
    (hb : Linked ρ.toOutlook db w all bindings) : Linked ρ.toOutlook db w all result := by
  induction requests generalizing bindings with
  | nil => cases h; exact hb
  | cons request requests ih =>
    rw [linkPlatformBindings] at h
    cases hlink : linkPlatformBinding w.1 request bindings exports with
    | error e => rw [hlink] at h; cases h
    | ok linked =>
      rw [hlink] at h
      obtain ⟨hrequest, hrest⟩ := cons_subset.1 hall
      refine ih hrest h ⟨?_, fun b hmem => ?_⟩
      · have hnew : request.binding ∉ bindings.map Prod.fst := by
          intro hold
          rw [linkPlatformBinding, if_pos hold] at hlink
          cases hlink
        rw [map_append, map_cons, map_nil, nodup_append]
        refine ⟨hb.names, nodup_singleton _, ?_⟩
        rintro a ha b hmem rfl
        rw [mem_singleton.1 hmem] at ha
        exact hnew ha
      · rcases mem_append.1 hmem with hmem | hmem
        · exact hb.linked b hmem
        · obtain rfl := mem_singleton.1 hmem
          exact .inr ⟨request, hrequest, rfl, bindings, exports, hlink, hexports⟩

/-- What is linked stays linked. -/
instance (requests : List PlatformBindingRequest) (bindings : List (String × Binding)) :
    ρ.Kept fun db => Linked ρ.toOutlook db w requests bindings where
  rel a b h hrel := by
    refine ⟨h.names, fun x hx => ?_⟩
    rcases h.linked x hx with hservice | ⟨request, hmem, hname, existing, exports, hlink, hexports⟩
    · have hkept : ρ.Kept fun db => LinkedService ρ.toOutlook db w x.2 := inferInstance
      exact .inl (hkept.rel _ _ hservice hrel)
    · exact .inr ⟨request, hmem, hname, existing, exports, hlink,
        fun e he => before_rel (hexports e he) hrel⟩

theorem runDeployPreflight_safe (w : WorkerId) {r : DeployRequest}
    (hr : (r.bindings.map Prod.fst).Nodup) :
    ρ.Safe ρ.inv (ρ.Ends fun bindings =>
      With ρ.inv fun db => Linked ρ.toOutlook db w r.platformBindings bindings)
      (runDeployPreflight w r) := by
  refine .bind (validateServiceBindingsPreflight_safe w r.bindings) fun bindings =>
    Safe.of (A := With ρ.inv fun db => Linked ρ.toOutlook db w r.platformBindings bindings) ?_ ?_
  · split
    · exact .ret fun _ h => h
    · refine .bind collectPlatformExports_safe fun exports => ?_
      split
      · rename_i linked hlinked
        refine .of
          (A := With ρ.inv fun db => Linked ρ.toOutlook db w r.platformBindings linked)
          (.ret fun _ h => h) ?_
        exact fun s hs =>
          ⟨hs.1.1, linkPlatformBindings_linked hs.2 (List.Subset.refl _) hlinked hs.1.2⟩
      · exact (Safe.fail (A := ρ.inv)).of fun s hs => hs.1.1
  · rintro s ⟨hinv, hnames, hlinked⟩
    exact ⟨hinv, hnames ▸ hr, fun b hb => .inl (hlinked b hb)⟩

end Deploy

theorem deploy_safe (w : WorkerId) (request : DeployRequest) (fresh : FreshIds) :
    ρ.Safe ρ.inv ρ.Ended (deploy i w request fresh) := by
  rw [deploy]
  cases hprepare : prepareDeployRequest w.1 request with
  | error e => exact .fail
  | ok r =>
    refine .bind (runDeployPreflight_safe w (prepareDeployRequest_ok hprepare).names)
      fun bindings => safe_incrNextVersion
        (A := With ρ.inv fun db => Linked ρ.toOutlook db w r.platformBindings bindings)
        fun version => ?_
    split
    · refine .optimistic (fun db h => deployCommitSession_ensures
        (fun _ h => h.1.1) fresh h.2 ⟨request, r, bindings, hprepare, rfl, h.1.2⟩) ?_
      rintro db m - ⟨refs, storageId, workflowKey, rfl, h⟩
      exact h.transaction storageId workflowKey
    · exact .fail

/-! ## All requests -/

/-- **Requests.** Everything a request does to the database is a `Change`. -/
theorem body_safe (k : Kind) :
    ρ.Safe ρ.inv ρ.Ended (body i k) := by
  cases k with
  | deploy w request fresh => exact deploy_safe ρ w request fresh
  | promote w version => exact promoteWithRoutes_safe ρ w version
  | mutateSecret w key mutation => exact mutateSecret_safe ρ w key mutation
  | deleteVersion w version => exact deleteVersion_safe ρ w version
  | deleteWorker w => exact deleteWorker_safe ρ w
  | reconcileHosts ns hosts => exact reconcileHosts_safe ρ ns hosts
  | createDatabase ns databaseName databaseId now initialized =>
    refine fun s hs => (createDatabase_safe ρ ns databaseName databaseId now initialized s hs).mono
      fun r s h => ?_
    cases r with
    | ok reply => exact h.1
    | error e => exact h
  | deleteDatabase ns databaseRef => exact deleteDatabase_safe ρ ns databaseRef

end Reliance

end Wdl.Control
