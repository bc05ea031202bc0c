import Wdl.Control.Effects

/-!
# Version numbers and bundles

The number of a version is given to one process, which stores a bundle under it at most once,
and a bundle that is removed does not come back. So the metadata that was read for a version
at any time is that of the bundle, if it is stored (`Numbered`, `Later`).

`BundleStep` says what a transaction does to bundles: nothing, store one under a number
that the process was given, or remove some that are not active.
-/

namespace Wdl.Control

open Function

/-- What is stored under a number was issued, and only numbers that were given are used. -/
structure Numbered (db : Db) : Prop where
  stored : ∀ v m, db.bundle v = some m → db.issued v = some m
  issued : ∀ v m, db.issued v = some m → v.2.2 ≤ db.nextVersion (v.1, v.2.1)
  given : ∀ v i, db.holder v = some i → v.2.2 ≤ db.nextVersion (v.1, v.2.1)

/-- What was issued stays so, and what is gone does not come back. -/
structure Later (db db' : Db) : Prop where
  issued : ∀ v m, db.issued v = some m → db'.issued v = some m
  gone : ∀ v m, db.issued v = some m → db.bundle v = none → db'.bundle v = none

/-- The process was given the number of the version, and has not used it. -/
def Held (i : ℕ) (v : VersionId) (db : Db) : Prop := db.holder v = some i ∧ db.issued v = none

theorem Later.refl (db : Db) : Later db db := ⟨fun _ _ h => h, fun _ _ _ h => h⟩

theorem Later.trans {a b c : Db} (h : Later a b) (h' : Later b c) : Later a c :=
  ⟨fun v m hv => h'.issued v m (h.issued v m hv),
    fun v m hv hb => h'.gone v m (h.issued v m hv) (h.gone v m hv hb)⟩

variable {v : VersionId}

/-- A bundle that was stored earlier is the one that is stored now, if there is one. -/
theorem Later.bundle_eq {db db' : Db} (h : Later db db') (hn : Numbered db) (hn' : Numbered db')
    {m m' : Meta} (hm : db.bundle v = some m) (hm' : db'.bundle v = some m') :
    m' = m := by
  have hissued := h.issued v m (hn.stored v m hm)
  exact Option.some_inj.1 ((hn'.stored v m' hm').symm.trans hissued)

theorem Numbered.notStored {db : Db} (h : Numbered db) (hv : db.issued v = none) :
    db.bundle v = none := by
  cases hb : db.bundle v with
  | none => rfl
  | some m =>
    have hissued := h.stored v m hb
    cases hv.symm.trans hissued

/-- Where the metadata of a new version comes from: a deploy, or the active version. -/
inductive Origin (o : Outlook) (db : Db) (v : VersionId) : Meta → Prop
  | deploy (prepared : Meta) (refs : List ResolvedD1Ref) (storageId : String)
      (workflowKey : String → String) (h : Deployed o db v prepared refs) :
      Origin o db v (committedMeta prepared refs storageId workflowKey)
  | bump (current : Version) (m : Meta) (active : db.active (v.1, v.2.1) = some current)
      (stored : db.bundle (v.1, v.2.1, current) = some m) : Origin o db v m

/-- What a transaction does to bundles. -/
inductive BundleStep (o : Outlook) (db db' : Db) : Prop
  | same (bundle : db'.bundle = db.bundle) (issued : db'.issued = db.issued)
  | issue (v : VersionId) (m : Meta) (held : o.held v db) (origin : Origin o db v m)
      (bundle : db'.bundle = update db.bundle v (some m))
      (issued : db'.issued = update db.issued v (some ((db.issued v).getD m)))
  | remove (w : WorkerId) (gone : Version → Prop) (versions : VersionsGone db w gone db')
      (issued : db'.issued = db.issued)
      (inactive : ∀ version, gone version → db'.active w ≠ some version)

section Steps

variable {o : Outlook} {db db' : Db}

theorem Transaction.bundleStep (ht : Transaction o db db') :
    BundleStep o db db' ∧ db'.nextVersion = db.nextVersion ∧ db'.holder = db.holder := by
  cases ht with
  | deploy v prepared refs storageId workflowKey h =>
    exact ⟨.issue v _ h.held (.deploy prepared refs storageId workflowKey h) rfl rfl, rfl, rfl⟩
  | bump w p key mutation d h =>
    exact ⟨.issue (w.1, w.2, p.newVersion) p.srcMeta h.held (.bump _ _ h.active h.source) rfl rfl,
      rfl, rfl⟩
  | deleteVersion w version m last nothingLeft d h hgone =>
    refine ⟨.remove w (· = version) (hgone.frame rfl rfl rfl rfl) rfl ?_, rfl, rfl⟩
    rintro _ rfl
    exact h.inactive
  | deleteWorker w c losing stillActive d h hgone =>
    refine ⟨.remove w (· ∈ c.retainedVersions)
      (hgone.frame rfl rfl rfl rfl) rfl fun version _ => ?_, rfl, rfl⟩
    have hnone := (Directory.lookup_drop db.routes w w).trans (if_pos rfl)
    exact fun hactive => absurd (hnone.symm.trans hactive) (by simp)
  | promote | secret | deleteResidue | hosts | createDatabase | databaseReady | removeDatabase =>
    exact ⟨.same rfl rfl, rfl, rfl⟩

/-- The numbers that the process uses were given to it. -/
theorem BundleStep.numbered {i : ℕ} (hs : BundleStep o db db')
    (hheld : ∀ v, o.held v db → Held i v db)
    (hnext : db'.nextVersion = db.nextVersion) (hholder : db'.holder = db.holder)
    (h : Numbered db) : Numbered db' := by
  have hgiven : ∀ v i, db'.holder v = some i → v.2.2 ≤ db'.nextVersion (v.1, v.2.1) := by
    rw [hnext, hholder]
    exact h.given
  cases hs with
  | same bundle issued =>
    refine ⟨?_, ?_, hgiven⟩
    · rw [bundle, issued]
      exact h.stored
    · rw [issued, hnext]
      exact h.issued
  | issue v m held origin bundle issued =>
    have hv := hheld v held
    rw [hv.2, Option.getD_none] at issued
    refine ⟨fun v' m' hm => ?_, fun v' m' hm => ?_, hgiven⟩
    · rw [bundle, update_apply] at hm
      rw [issued, update_apply]
      split at hm
      · rename_i heq
        rw [if_pos heq, hm]
      · rename_i hne
        rw [if_neg hne]
        exact h.stored v' m' hm
    · rw [issued, update_apply] at hm
      rw [hnext]
      split at hm
      · rename_i heq
        rw [heq]
        exact h.given v i hv.1
      · exact h.issued v' m' hm
  | remove w gone versions issued inactive =>
    refine ⟨fun v m hm => ?_, ?_, hgiven⟩
    · rw [issued]
      refine h.stored v m ?_
      rwa [versions.bundle_kept] at hm
      rintro ⟨rfl, hgone⟩
      cases (versions.bundle_gone v.2.2 hgone).symm.trans hm
    · rw [issued, hnext]
      exact h.issued

theorem BundleStep.later {i : ℕ} (hs : BundleStep o db db')
    (hheld : ∀ v, o.held v db → Held i v db) : Later db db' := by
  cases hs with
  | same bundle issued =>
    exact ⟨by rw [issued]; exact fun _ _ h => h, by rw [bundle]; exact fun _ _ _ h => h⟩
  | issue v m held origin bundle issued =>
    -- nothing was issued under the number
    have hne : ∀ v' m', db.issued v' = some m' → v' ≠ v := by
      rintro v' m' hm rfl
      cases ((hheld v' held).2).symm.trans hm
    refine ⟨fun v' m' hm => ?_, fun v' m' hm hb => ?_⟩
    · rw [issued, update_of_ne (hne v' m' hm)]
      exact hm
    · rw [bundle, update_of_ne (hne v' m' hm)]
      exact hb
  | remove w gone versions issued inactive =>
    refine ⟨by rw [issued]; exact fun _ _ h => h, fun v m hm hb => ?_⟩
    by_cases hgone : (v.1, v.2.1) = w ∧ gone v.2.2
    · obtain ⟨rfl, hgone⟩ := hgone
      exact versions.bundle_gone v.2.2 hgone
    · rw [versions.bundle_kept v hgone]
      exact hb

/-- A number that another process was given stays unused. -/
theorem BundleStep.held {i j : ℕ} (hij : i ≠ j) (hs : BundleStep o db db')
    (hheld : ∀ v, o.held v db → Held i v db) (hholder : db'.holder = db.holder) {v : VersionId}
    (h : Held j v db) : Held j v db' := by
  refine ⟨by rw [hholder]; exact h.1, ?_⟩
  cases hs with
  | same bundle issued => rw [issued]; exact h.2
  | issue v' m held origin bundle issued =>
    have hne : v ≠ v' := by
      rintro rfl
      exact hij (Option.some_inj.1 ((hheld v held).1.symm.trans h.1))
    rw [issued, update_of_ne hne]
    exact h.2
  | remove w gone versions issued inactive => rw [issued]; exact h.2

end Steps

/-! ## Commands -/

section Commands

variable {db db' : Db} {c : Command} {x : Command.interface.Ans c}

section

variable (hstep : Command.Step c db x db')

include hstep

/-- A command leaves bundles alone, and gives out numbers that were not given. -/
theorem Command.numbers :
    (db'.nextVersion = db.nextVersion ∧ db'.holder = db.holder) ∨
      ∃ i w, c = .incrNextVersion i w ∧
        db'.nextVersion = update db.nextVersion w (db.nextVersion w + 1) ∧
        db'.holder = update db.holder (w.1, w.2, db.nextVersion w + 1) (some i) := by
  cases c with
  | incrNextVersion i w =>
    obtain ⟨rfl, rfl⟩ := hstep
    exact .inr ⟨i, w, rfl, rfl, rfl⟩
  | acquireDeleteLock w token =>
    rcases hstep with ⟨-, -, rfl⟩ | ⟨-, -, rfl⟩
    · exact .inl ⟨rfl, rfl⟩
    · exact .inl ⟨rfl, rfl⟩
  | renewDeleteLock w token =>
    obtain ⟨-, rfl⟩ := hstep
    exact .inl ⟨rfl, rfl⟩
  | releaseDeleteLock w token =>
    rw [Command.Step] at hstep
    split at hstep
    · rw [hstep]
      exact .inl ⟨rfl, rfl⟩
    · rw [hstep]
      exact .inl ⟨rfl, rfl⟩

theorem Command.numbered (h : Numbered db) : Numbered db' := by
  have hnumbers := Command.numbers hstep
  obtain ⟨nextVersion, holder, deleteLock, rfl⟩ := Command.step_eq hstep
  rcases hnumbers with ⟨hnext, hholder⟩ | ⟨i, w, -, hnext, hholder⟩
  · refine ⟨h.stored, ?_, ?_⟩
    · rw [hnext]
      exact h.issued
    · rw [hnext, hholder]
      exact h.given
  · have hle : ∀ v : VersionId, v.2.2 ≤ db.nextVersion (v.1, v.2.1) →
        v.2.2 ≤ update db.nextVersion w (db.nextVersion w + 1) (v.1, v.2.1) := by
      intro v hv
      rw [update_apply]
      split_ifs with heq
      · rw [← heq]
        exact hv.trans (Nat.le_succ _)
      · exact hv
    refine ⟨h.stored, fun v m hm => ?_, fun v j hj => ?_⟩
    · rw [hnext]
      exact hle v (h.issued v m hm)
    · rw [hnext]
      rw [hholder, update_apply] at hj
      split at hj
      · rename_i heq
        rw [heq, update_self]
      · exact hle v (h.given v j hj)

theorem Command.later : Later db db' := by
  obtain ⟨nextVersion, holder, deleteLock, rfl⟩ := Command.step_eq hstep
  exact ⟨fun _ _ h => h, fun _ _ _ h => h⟩

theorem Command.held (hn : Numbered db) {j : ℕ} {v : VersionId}
    (h : Held j v db) : Held j v db' := by
  have hnumbers := Command.numbers hstep
  obtain ⟨nextVersion, holder, deleteLock, rfl⟩ := Command.step_eq hstep
  refine ⟨?_, h.2⟩
  rcases hnumbers with ⟨-, hholder⟩ | ⟨i, w, -, -, hholder⟩
  · rw [hholder]
    exact h.1
  · have hne : v ≠ (w.1, w.2, db.nextVersion w + 1) := by
      rintro rfl
      have hle := hn.given _ j h.1
      exact absurd hle (Nat.not_succ_le_self _)
    rw [hholder, update_of_ne hne]
    exact h.1

end

theorem held_of_incr {i : ℕ} {w : WorkerId} {n : ℕ} (hn : Numbered db)
    (hstep : Command.Step (.incrNextVersion i w) db n db') : Held i (w.1, w.2, n) db' := by
  obtain ⟨rfl, rfl⟩ := hstep
  refine ⟨update_self .., ?_⟩
  cases hissued : db.issued (w.1, w.2, db.nextVersion w + 1) with
  | none => rfl
  | some m => exact absurd (hn.issued _ m hissued) (Nat.not_succ_le_self _)

end Commands

end Wdl.Control
