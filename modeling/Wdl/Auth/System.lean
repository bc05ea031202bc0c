import Wdl.Auth.Programs

/-!
# The auth service as a system of processes

Each call is a process, on any replica and with the bootstrap token that is configured there,
and each of them may stop at any point. Time passes, locks expire at any time, and the
namespaces and whether the store can be reached change as they like.

What a process draws at random is its own: the id `random i` has no record before the process
`i` issues a token (`fresh_of_reachable`).
-/

namespace Wdl.Auth

open Prog.Emits Function

/-- The calls of the auth service. -/
inductive Kind
  | verify (configured : Option Token) (cached : Option TokenHash) (token : Option Token)
      (action ns : Option String)
  | issue (configured : Option Token) (input : IssueInput)
  | delegatedIssue (configured : Option Token) (input : DelegatedIssueInput) (draws : List Ns)
  | list (configured : Option Token) (ns : Option Ns)
  | revoke (configured : Option Token) (tokenId : Option TokenId)

/-- The bootstrap token that is configured where the call is made. -/
def Kind.configured : Kind → Option Token
  | .verify configured _ _ _ _ => configured
  | .issue configured _ => configured
  | .delegatedIssue configured _ _ => configured
  | .list configured _ => configured
  | .revoke configured _ => configured

/-- The program of a call. -/
def body (i : ℕ) : Kind → AuthM Reply
  | .verify configured cached token action ns => verify i configured cached token action ns
  | .issue configured input => issue i configured input
  | .delegatedIssue configured input draws => delegatedIssue i configured input draws
  | .list configured ns => list i configured ns
  | .revoke configured tokenId => revoke i configured tokenId

/-- What happens to the store without a call. -/
inductive Env
  /-- Time passes. -/
  | tick (clock : ℕ)
  /-- A lock expires. -/
  | lockExpires (key : LockKey)
  /-- The namespaces of the control plane change. -/
  | namespaces (value : Ns → Bool)
  /-- The store can, or can no longer, be reached. -/
  | unreachable (value : Bool)

/-- What an event does. -/
def Env.apply : Env → Db → Db
  | .tick clock, db => { db with clock := max db.clock clock }
  | .lockExpires key, db => db.setLock key none
  | .namespaces value, db => { db with namespaces := value }
  | .unreachable value, db => { db with unreachable := value }

/-- The auth service. -/
def auth : System api (Shared keyed) Kind Failure Reply Env where
  body := body
  call := Request.Step Command.Step
  env e s t := t = s.move (e.apply s.db)

/-- A world of the auth service. -/
abbrev AuthWorld := World api (Shared keyed) Kind Failure Reply

/-- The auth service before its first call. -/
def Initial (s : Shared keyed) : Prop := s.db = Db.empty

/-! ## Random ids -/

/-- The request of the process `i` makes no record under what another process drew. -/
def KeepsFresh (i : ℕ) (q : api.Call) : Prop :=
  ∀ s x t, Request.Step Command.Step q s x t → ∀ j, j ≠ i → s.db.records (.random j) = none →
    t.db.records (.random j) = none

variable {i : ℕ}

theorem keepsFresh_of_quiet (q : Request keyed Command.interface) (h : q.Quiet) :
    KeepsFresh i q := by
  intro s x t hstep j _ hj
  rwa [h.db_eq hstep]

theorem keepsFresh_exec {m : Db → Db}
    (h : ∀ db j, j ≠ i → db.records (.random j) = none → (m db).records (.random j) = none) :
    KeepsFresh i (.exec i m) := by
  rintro s x t (⟨-, -, rfl⟩ | ⟨-, -, rfl⟩) j hj hnone
  · exact h s.db j hj hnone
  · exact hnone

theorem keepsFresh_command {c : Command}
    (h : ∀ db j, j ≠ i → db.records (.random j) = none →
      (Command.answer c db).2.records (.random j) = none) : KeepsFresh i (.command c) := by
  rintro s x t ⟨db', hstep, rfl⟩ j hj hnone
  obtain rfl : db' = _ := congrArg Prod.snd hstep
  exact h s.db j hj hnone

theorem setFields_records_none {db : Db} {id id' : TokenId} {f : TokenRecord → TokenRecord}
    (h : db.records id' = none) : (db.setFields id f).records id' = none := by
  by_cases hid : id' = id
  · subst hid
    rw [Db.setFields_records, update_self, h, Option.map_none]
  · rwa [Db.setFields_records, update_of_ne hid]

theorem putRecord_records_none {db : Db} {id id' : TokenId} {record : TokenRecord}
    (hid : id' ≠ id) (h : db.records id' = none) : (db.putRecord id record).records id' = none := by
  rwa [Db.putRecord_records, update_of_ne hid]

/-- The program keeps what others drew fresh. -/
abbrev FreshKept (i : ℕ) {α : Type} (p : AuthM α) : Prop :=
  p.Emits (fun _ _ => True) (KeepsFresh i)

theorem readPlain_freshKept (k : Key) : FreshKept i (readPlain k) :=
  Prog.emits_perform _ |>.2 (keepsFresh_of_quiet (.read k) trivial)

theorem ofPolicy_freshKept {α : Type} (e : Except AuthPolicyError α) :
    FreshKept i (ofPolicy e) := by
  cases e <;> trivial

theorem ensureBootstrap_freshKept (configured : Option Token) :
    FreshKept i (ensureBootstrap i configured) := by
  rw [ensureBootstrap]
  split
  · trivial
  · rename_i desired _
    refine bind ((readPlain_freshKept _).bind fun existing => ?_) fun _ => trivial
    split
    · trivial
    · refine Session.CommitsOnly.runOptimistic_emits keepsFresh_of_quiet ?_ (Prog.emits_fail _) _
      refine .bind _ fun _ => .bind _ fun old => ?_
      split
      · trivial
      · refine .bind _ fun now => keepsFresh_exec fun db j _ hnone => ?_
        rw [rotated_records, update_of_ne (by simp)]
        exact hnone

theorem verifyRecord_freshKept (hash : TokenHash) (action ns : Option String) (id : TokenId)
    (record : TokenRecord) : FreshKept i (verifyRecord i hash action ns id record) := by
  rw [verifyRecord]
  split
  · trivial
  · split
    · trivial
    · split
      · trivial
      · refine ⟨keepsFresh_command fun _ _ _ h => h, fun expired _ => ?_⟩
        cases expired with
        | true =>
          refine ⟨keepsFresh_of_quiet (.read .clock) trivial, fun now _ =>
            ⟨keepsFresh_command fun db j _ h => ?_, fun _ _ => trivial⟩⟩
          exact setFields_records_none h
        | false => trivial

theorem lookup_freshKept (hash : TokenHash) : FreshKept i (command (.readRecordByHash i hash)) :=
  ⟨keepsFresh_command fun _ _ _ h => h, fun _ _ => trivial⟩

theorem verify_freshKept (configured : Option Token) (cached : Option TokenHash)
    (token : Option Token) (action ns : Option String) :
    FreshKept i (verify i configured cached token action ns) := by
  unfold verify
  split
  · trivial
  · trivial
  · refine bind ?_ fun desired => bind ?_ fun loaded => ?_
    · cases cached with
      | some desired => trivial
      | none => exact ensureBootstrap_freshKept configured
    · refine (lookup_freshKept _).bind fun loaded => ?_
      split
      · exact (ensureBootstrap_freshKept configured).bind fun _ => lookup_freshKept _
      · trivial
    · split
      · trivial
      · trivial
      · exact verifyRecord_freshKept ..

theorem issue_freshKept (configured : Option Token) (input : IssueInput) :
    FreshKept i (issue i configured input) := by
  refine (ensureBootstrap_freshKept configured).bind fun _ => (readPlain_freshKept _).bind fun _ =>
    (readPlain_freshKept _).bind fun _ => (ofPolicy_freshKept _).bind fun record => ?_
  refine ⟨keepsFresh_command fun db j hj h => ?_, fun _ _ => trivial⟩
  have hne : TokenId.random j ≠ .random i := by simpa using hj
  exact putRecord_records_none hne h

theorem delegatedSession_commitsOnly (issuer : TokenId) (template : DelegatedIssueTemplate)
    (draws : List Ns) (startedAt : ℕ) :
    (delegatedSession i issuer template draws startedAt).CommitsOnly
      fun m => KeepsFresh i (.exec i m) := by
  refine .bind _ fun nowMs => .bind _ fun _ => .bind _ fun records => .bind _ fun _ =>
    .bind _ fun active => .bind _ fun _ => .bind _ fun ns => .bind _ fun elapsed =>
    .bind _ fun _ => .bind _ fun _ => keepsFresh_exec fun db j hj h => ?_
  have hne : TokenId.random j ≠ .random i := by simpa using hj
  exact putRecord_records_none hne h

theorem delegatedIssueLocked_freshKept (issuer : TokenId) (template : DelegatedIssueTemplate)
    (draws : List Ns) (startedAt : ℕ) :
    FreshKept i (delegatedIssueLocked i issuer template draws startedAt) := by
  refine bind (attempt ?_) fun result => bind ?_ fun _ => ?_
  · exact (delegatedSession_commitsOnly issuer template draws startedAt).run_emits
      keepsFresh_of_quiet
  · refine (readPlain_freshKept _).bind fun down => ?_
    split
    · trivial
    · refine ⟨keepsFresh_command fun db j _ h => ?_, fun _ _ => trivial⟩
      show (if _ then _ else _ : Db).records _ = none
      split <;> exact h
  · split <;> trivial

theorem delegatedIssue_freshKept (configured : Option Token) (input : DelegatedIssueInput)
    (draws : List Ns) : FreshKept i (delegatedIssue i configured input draws) := by
  refine (ensureBootstrap_freshKept configured).bind fun _ => (ofPolicy_freshKept _).bind fun e =>
    (readPlain_freshKept _).bind fun record => (readPlain_freshKept _).bind fun now =>
    (ofPolicy_freshKept _).bind fun _ => (readPlain_freshKept _).bind fun startedAt =>
    bind ?_ fun locked => ?_
  · refine ⟨keepsFresh_command fun db j _ h => ?_, fun _ _ => trivial⟩
    rw [Command.answer]
    split <;> exact h
  · split
    · exact delegatedIssueLocked_freshKept ..
    · trivial

theorem list_freshKept (configured : Option Token) (ns : Option Ns) :
    FreshKept i (list i configured ns) := by
  refine (ofPolicy_freshKept _).bind fun _ => (ensureBootstrap_freshKept configured).bind fun _ =>
    bind ?_ fun records => trivial
  exact Session.CommitsOnly.run_emits keepsFresh_of_quiet (.bind _ fun _ => trivial)

theorem revoke_freshKept (configured : Option Token) (tokenId : Option TokenId) :
    FreshKept i (revoke i configured tokenId) := by
  refine (ensureBootstrap_freshKept configured).bind fun _ => ?_
  split
  · trivial
  · trivial
  · refine (readPlain_freshKept _).bind fun record => ?_
    split
    · trivial
    · refine (readPlain_freshKept _).bind fun indexed => ?_
      split
      · trivial
      · split
        · exact ⟨keepsFresh_command fun _ _ _ h => h, fun _ _ => trivial⟩
        · refine (readPlain_freshKept _).bind fun now => ?_
          exact ⟨keepsFresh_command fun db j _ h => setFields_records_none h, fun _ _ => trivial⟩

theorem body_freshKept (k : Kind) : FreshKept i (body i k) := by
  cases k with
  | verify => exact verify_freshKept ..
  | issue => exact issue_freshKept ..
  | delegatedIssue => exact delegatedIssue_freshKept ..
  | list => exact list_freshKept ..
  | revoke => exact revoke_freshKept ..

variable {ok : AuthWorld → Label api Kind Env → Prop} {w : AuthWorld}

/-- What a process will draw at random has no record before the process is started. -/
theorem fresh_of_reachable (h : auth.ReachableWhen Initial ok w)
    (hi : w.proc i = none) :
    w.store.db.records (.random i) = none := by
  refine System.ReachableWhen.invariant
    (J := fun w : AuthWorld => ∀ i, w.proc i = none → w.store.db.records (.random i) = none)
    (fun s hs i _ => by rw [show s.db = _ from hs]; rfl) ?_ h i hi
  intro w l w' hw ih _ hs i hi
  have keep : ∀ {u : AuthWorld} {j p}, (u.setProc j p).proc i = none → i ≠ j ∧ u.proc i = none := by
    intro u j p hu
    by_cases hj : i = j
    · rw [hj, World.setProc_proc_self] at hu
      cases hu
    · rw [World.setProc_proc_ne _ _ hj] at hu
      exact ⟨hj, hu⟩
  cases hs with
  | spawn j k hj => exact ih i (keep hi).2
  | call j hj hc =>
    obtain ⟨hne, hi⟩ := keep hi
    have hemits := hw.emits (fun _ _ _ _ _ => trivial) (fun i k => body_freshKept k) hj
    exact hemits.1 _ _ _ hc i hne (ih i hi)
  | stop j hj => exact ih i (keep hi).2
  | env e he =>
    obtain rfl : _ = _ := he
    cases e <;> exact ih i hi

/-! ## Undisturbed calls -/

theorem Command.answer_step (c : Command) (db : Db) :
    Command.Step c db (Command.answer c db).1 (Command.answer c db).2 := rfl

/-- A call may be made while the others do nothing. -/
theorem reachable_run (hcalls : ∀ w i c x, ok w (.call i c x)) (h : auth.ReachableWhen Initial ok w)
    {i : ℕ} {k : Kind} (hok : ok w (.spawn i k)) (hi : w.proc i = none) {q : AuthM Reply}
    {t : Shared keyed} (hr : (body i k).Runs (Request.Step Command.Step) w.store q t) :
    auth.ReachableWhen Initial ok (World.setProc ⟨t, w.proc⟩ i ⟨k, q, true⟩) :=
  h.steps (System.StepsWhen.start hcalls .refl hi hok hr)

/-- What is stored after the call `i` has been made alone, and what is left of it. -/
def serve (i : ℕ) (k : Kind) (db : Db) : AuthM Reply × Db :=
  let r := (body i k).alone Command.answer none db
  (r.1, r.2.2)

/-- A call may be made, up to its first scan, while the others do nothing. -/
theorem reachable_serve (hcalls : ∀ w i c x, ok w (.call i c x))
    (h : auth.ReachableWhen Initial ok w) (i : ℕ) (k : Kind) (hok : ok w (.spawn i k))
    (hi : w.proc i = none) :
    ∃ t, t.db = (serve i k w.store.db).2 ∧ auth.ReachableWhen Initial ok
      (World.setProc ⟨t, w.proc⟩ i ⟨k, (serve i k w.store.db).1, true⟩) := by
  obtain ⟨t, hdb, -, hruns⟩ := Prog.alone_runs Command.answer_step (body i k) none w.store nofun
  exact ⟨t, hdb, reachable_run hcalls h hok hi hruns⟩

theorem reachable_initial :
    auth.ReachableWhen Initial ok ⟨⟨.empty, fun _ => .fresh⟩, fun _ => none⟩ :=
  .init (show Initial ⟨.empty, fun _ => .fresh⟩ from rfl)

/-- The processes of some calls that are made one after the other, from the process `i` on, and
    what is stored then. -/
def serves : ℕ → List Kind → Db → List (Process api Kind Failure Reply) × Db
  | _, [], db => ([], db)
  | i, k :: ks, db =>
    (⟨k, (serve i k db).1, true⟩ :: (serves (i + 1) ks (serve i k db).2).1,
      (serves (i + 1) ks (serve i k db).2).2)

theorem reachable_serves (hcalls : ∀ w i c x, ok w (.call i c x)) (ks : List Kind)
    (hok : ∀ w i, ∀ k ∈ ks, ok w (.spawn i k)) {i : ℕ} (h : auth.ReachableWhen Initial ok w)
    (hfree : ∀ j, i ≤ j → w.proc j = none) :
    ∃ w', auth.ReachableWhen Initial ok w' ∧ w'.store.db = (serves i ks w.store.db).2 ∧
      (∀ j, j < i → w'.proc j = w.proc j) ∧
      ∀ n p, (serves i ks w.store.db).1[n]? = some p → w'.proc (i + n) = some p := by
  induction ks generalizing i w with
  | nil => exact ⟨w, h, rfl, fun _ _ => rfl, fun n p hn => by cases hn⟩
  | cons k ks ih =>
    obtain ⟨t, hdb, ht⟩ := reachable_serve hcalls h i k (hok w i k (List.mem_cons_self ..))
      (hfree i le_rfl)
    obtain ⟨w', hw', hdb', hbefore, hprocs⟩ := ih (i := i + 1)
      (fun w i k hk => hok w i k (List.mem_cons_of_mem _ hk)) ht fun j hj => by
        rw [World.setProc_proc_ne _ _ (Nat.ne_of_gt hj)]
        exact hfree j (Nat.le_of_succ_le hj)
    rw [World.setProc_store, hdb] at hdb' hprocs
    refine ⟨w', hw', hdb', fun j hj => ?_, fun n p hn => ?_⟩
    · rw [hbefore j (Nat.lt_succ_of_lt hj), World.setProc_proc_ne _ _ (Nat.ne_of_lt hj)]
    · cases n with
      | zero =>
        rw [Nat.add_zero, hbefore i (Nat.lt_succ_self i), World.setProc_proc_self]
        exact hn
      | succ n =>
        have hproc := hprocs n p hn
        rwa [Nat.add_right_comm, Nat.add_assoc] at hproc

/-- Calls that are made one after the other lead to a reachable world. -/
theorem exists_reachable_serves (hcalls : ∀ w i c x, ok w (.call i c x)) (ks : List Kind)
    (hok : ∀ w i, ∀ k ∈ ks, ok w (.spawn i k)) :
    ∃ w, auth.ReachableWhen Initial ok w ∧ w.store.db = (serves 0 ks Db.empty).2 ∧
      ∀ n p, (serves 0 ks Db.empty).1[n]? = some p → w.proc n = some p := by
  obtain ⟨w, hw, hdb, -, hprocs⟩ := reachable_serves hcalls ks hok reachable_initial fun _ _ => rfl
  refine ⟨w, hw, hdb, fun n p hn => ?_⟩
  have hproc := hprocs n p hn
  rwa [Nat.zero_add] at hproc

end Wdl.Auth
