/-
What the deletion of a run does to the invocation that executes it.

Nothing in the worker looks for a row that is gone; it stops because whatever it does next
with the row raises.  How soon depends on where it stands: a check finds no row to refresh, a
chunk with events or a new clock has a row to update, and a chunk with neither writes nothing
and goes on to the next check.  `stepsWhenGone` bounds what is left at every point.
-/
import SpurApi.Proofs.Cancellation
import SpurApi.Proofs.Gone

namespace SpurApi

open Transition

section

variable {μ : Type} {env : Env μ} {s₀ m s s' : State μ} {a : Action} {run : Uuid}
  {tr tr₁ tr₂ : List (Entry (State μ) Action)} {e : Entry (State μ) Action}

/-! ### The invocation of a run that is gone -/

/-- How many steps of the runner are left at most, once its run is gone. -/
def RunPoint.stepsWhenGone : RunPoint μ → Nat
  | .building | .advancing _ => 5
  | .starting _ | .flushing _ .chunk => 4
  | .logging _ => 3
  | .asking _ | .flushing _ .cancelled | .flushing _ .final | .finished _ | .raised _ => 2

/-- How many steps of the invocation are left at most, once its run is gone. -/
def WorkerPoint.stepsWhenGone : WorkerPoint μ → Nat
  | .loadingProject _ => 7
  | .marking _ _ => 6
  | .running _ p => p.stepsWhenGone
  | .loading | .handling _ _ | .finishing _ _ => 1
  | .returned | .raised _ => 0

theorem WorkerPoint.stepsWhenGone_le (p : WorkerPoint μ) : p.stepsWhenGone ≤ 7 := by
  cases p with
  | running w q =>
      cases q with
      | flushing l place => cases place <;> simp [stepsWhenGone, RunPoint.stepsWhenGone]
      | _ => simp [stepsWhenGone, RunPoint.stepsWhenGone]
  | _ => simp [stepsWhenGone]

theorem WorkerPoint.ended_of_stepsWhenGone {p : WorkerPoint μ} (h : p.stepsWhenGone = 0) :
    p.ended = true := by
  cases p with
  | running w q =>
      cases q with
      | flushing l place => cases place <;> simp [stepsWhenGone, RunPoint.stepsWhenGone] at h
      | _ => simp [stepsWhenGone, RunPoint.stepsWhenGone] at h
  | returned | raised => rfl
  | _ => simp [stepsWhenGone] at h

theorem settle_stepsWhenGone (w : WorkerSession) {p : RunPoint μ} {n : Nat} (hn : 1 ≤ n)
    (h : (∀ outcome, p ≠ .finished outcome) → (∀ e, p ≠ .raised e) → p.stepsWhenGone ≤ n) :
    (w.settle p).stepsWhenGone ≤ n := by
  cases p with
  | finished outcome | raised e => exact hn
  | _ => exact h (by simp) (by simp)

theorem Loop.head_stepsWhenGone (spur : Spur μ) (l : Loop μ) : (l.head spur).stepsWhenGone ≤ 3 := by
  rw [Loop.head]
  split <;> simp [RunPoint.stepsWhenGone]

/-- The calls of the model bring the runner nearer to a statement about the row. -/
theorem RunPoint.advance_stepsWhenGone {spur : Spur μ} {runner : SpurRunner} {settings : Settings}
    {entropy : Nat} {p : RunPoint μ} (hask : ∀ l, p ≠ .asking l)
    (hflush : ∀ l place, p ≠ .flushing l place) (w : WorkerSession) :
    (w.settle (runner.advance spur settings entropy p)).stepsWhenGone < p.stepsWhenGone := by
  cases p with
  | building | advancing | logging =>
      simp only [SpurRunner.advance]
      split <;> simp [WorkerSession.settle, WorkerPoint.stepsWhenGone, RunPoint.stepsWhenGone]
  | starting model =>
      refine Nat.lt_succ_of_le (settle_stepsWhenGone w (by decide) fun _ hraised => ?_)
      simp only [SpurRunner.advance] at hraised ⊢
      split
      · simp [RunPoint.stepsWhenGone]
      · split
        · simp [RunPoint.stepsWhenGone]
        · split
          · simp [RunPoint.stepsWhenGone]
          · exact Loop.head_stepsWhenGone _ _
  | asking l => exact absurd rfl (hask l)
  | flushing l place => exact absurd rfl (hflush l place)
  | finished outcome | raised e => exact Nat.lt_succ_self 1

/-- **Every step brings the invocation of a run that is gone nearer to its end.** -/
theorem WorkerMove.stepsWhenGone_lt {project : Option ProjectRow} {io : Io}
    {p p' : WorkerPoint μ} {d : RunSlice} (hmove : WorkerMove env project io .blank p p' d) :
    p'.stepsWhenGone < p.stepsWhenGone := by
  cases hmove with
  | loaded hrow | loadedBare hrow | asked _ hrow => simp [RunSlice.blank] at hrow
  | flushRaised =>
      rename_i w l place e h
      cases place <;> simp [WorkerPoint.stepsWhenGone, RunPoint.stepsWhenGone]
  | @flushed w w' l place _ hchunk =>
      cases place with
      | chunk =>
          exact Nat.lt_succ_of_le
            (settle_stepsWhenGone w' (by decide) fun _ _ => Loop.head_stepsWhenGone _ _)
      | cancelled | final => exact Nat.lt_succ_self 1
  | advanced hask hflush => exact RunPoint.advance_stepsWhenGone hask hflush _
  | _ => simp [WorkerPoint.stepsWhenGone, RunPoint.stepsWhenGone]

/-! ### The other runs -/

/-- The rows and events of every run but those that are deleted stay. -/
theorem DeleteCommits.others (h : DeleteCommits s a run) (hstep : s.step env a = some s')
    {other : Uuid} (hne : other ≠ run) (hkept : ¬ DeleteCommits s a other) :
    s'.slice other = s.slice other := by
  rcases h.db hstep with hdb | ⟨project, -, hall, hdb⟩
  · rw [State.slice, hdb]
    simp [State.slice, Db.deleteRun, Db.setRun, Db.setEvents, hne]
  · have hof : s.backend.db.runOf project other = false := by
      rw [← Bool.not_eq_true]
      exact fun hof => hkept (hall other hof)
    rw [State.slice, hdb]
    simp [State.slice, Db.deleteProject, hof]

/-! ### After the deletion -/

/-- What is left to do for the run: its job may not have been delivered yet. -/
def stepsWhenGone : Option (WorkerPoint μ) → Nat
  | none => 7
  | some p => p.stepsWhenGone

/-- What holds from the deletion of a run on, in a history `tr` that begins behind it. -/
structure StaysDeleted (env : Env μ) (tr : List (Entry (State μ) Action)) (s : State μ)
    (run : Uuid) : Prop where
  /-- no row has the id of the run, and no event refers to it -/
  blank : s.slice run = .blank
  /-- at most one more call of `model.run` starts -/
  runs : modelRuns run tr ≤ 1
  /-- the invocation goes on until it ends, which it does in seven steps -/
  ends : ∀ p, s.workers run = some p → p.ended = true ∨
    works run tr < 7 ∧ ∀ io, (s.step env (.work run io)).isSome
  /-- and changes no other run -/
  others : ∀ e ∈ tr, ∀ io, e.act = .work run io → ∀ other ≠ run,
    e.post.slice other = e.pre.slice other

private theorem counts_of_gone (hm : IdsApart m) (hgone : Gone m run)
    (h : Exec (system env) m tr s) : IdsApart s ∧ Gone s run ∧
      works run tr + stepsWhenGone (s.workers run) ≤ 7 ∧
      modelRuns run tr + (if (s.workers run).any WorkerPoint.runsNext then 1 else 0) ≤ 1 := by
  induction h with
  | nil =>
      refine ⟨hm, hgone, ?_, ?_⟩
      · simp only [works, List.countP_nil, Nat.zero_add]
        cases m.workers run with
        | none => exact Nat.le_refl 7
        | some p => exact p.stepsWhenGone_le
      · simp only [modelRuns, List.countP_nil, Nat.zero_add]
        split <;> decide
  | @snoc tr s s' a h hstep ih =>
      obtain ⟨hapart, hgone, hworks, hruns⟩ := ih
      refine ⟨hapart.step hstep, hgone.step hapart hstep, ?_⟩
      cases step_run hapart hstep run with
      | client hact hworker =>
          rw [works_snoc_other hact, modelRuns_snoc_other hact, hworker]
          exact ⟨hworks, hruns⟩
      | inserted _ hreq hsub hid =>
          exact absurd (List.mem_map.mpr ⟨_, hsub, hid⟩) (hgone.notPending.2 _ _ hreq)
      | delivered ha _ hworker hworker' =>
          have hact : ∀ io, a ≠ .work run io := by simp [ha]
          rw [hworker] at hworks hruns
          rw [works_snoc_other hact, modelRuns_snoc_other hact, hworker']
          simp only [stepsWhenGone, WorkerPoint.stepsWhenGone] at hworks ⊢
          exact ⟨by omega, hruns⟩
      | @worked io p p' ha hp hp' hpstep =>
          subst ha
          have hmove := workerMove_of_step hpstep
          rw [hgone.blank] at hmove
          have hlt := hmove.stepsWhenGone_lt
          have hnext : p'.runsNext = false := hmove.runsNext fun row hrow => by
            simp [RunSlice.blank] at hrow
          rw [hp] at hworks hruns
          rw [works_snoc_work, modelRuns_snoc_work hp, hp']
          simp only [stepsWhenGone] at hworks ⊢
          refine ⟨by omega, ?_⟩
          rw [Option.any_some] at hruns
          rw [Option.any_some, hnext]
          exact hruns

/-- **Deleting a run is final and stops its work**, wherever its invocation stands, and touches no
run but those that are deleted. -/
theorem deletion_is_final (h₀ : s₀.Initial) (h : Exec (system env) s₀ (tr₁ ++ e :: tr₂) s)
    (hdeleted : DeleteCommits e.pre e.act run) : StaysDeleted env tr₂ s run ∧
      ∀ other ≠ run, ¬ DeleteCommits e.pre e.act other →
        e.post.slice other = e.pre.slice other := by
  obtain ⟨hpre, hstep, hrest⟩ := h.split_at
  have hapart := IdsApart.exec h₀ hpre
  obtain ⟨-, hgone, hworks, hruns⟩ :=
    counts_of_gone (hapart.step hstep) (hdeleted.gone hapart hstep) hrest
  refine ⟨⟨hgone.blank, by omega, fun p hp => ?_, fun e' he' io ha other hne => ?_⟩,
    fun other hne hkept => hdeleted.others hstep hne hkept⟩
  · rw [hp, stepsWhenGone] at hworks
    cases hended : p.ended with
    | true => exact .inl rfl
    | false =>
        have hleft : p.stepsWhenGone ≠ 0 := fun hzero => by
          simp [WorkerPoint.ended_of_stepsWhenGone hzero] at hended
        refine .inr ⟨by omega, fun io => ?_⟩
        have hsome : (workerStep env (s.liveProject p) io (s.slice run) p).isSome :=
          workerStep_isSome hended
        obtain ⟨r, hr⟩ := Option.isSome_iff_exists.mp hsome
        obtain ⟨s', hs', -⟩ := step_work hp hr
        exact Option.isSome_iff_exists.mpr ⟨s', hs'⟩
  · obtain ⟨_, _, _, _, hstep', _⟩ := hrest.of_mem he'
    rw [ha] at hstep'
    exact slice_of_work_ne hstep' hne

end

/-- A run is deleted between a check and the chunk behind it. -/
def deletedRun : List (Entry (State Int) Action) × State Int :=
  (system clockEnv).played State.empty (submitOne (.single (some 2) (some 1)) ++ executeOne 5 ++
    [.arrive 2 (.deleteRun 3 .received), .request 2 {}, .request 2 {}, .work 3 {}, .work 3 {},
      .work 3 {}]) (by decide)

/-- The chunk is run, its commit raises, and the invocation ends. -/
theorem deletion_of_a_running_run : ∃ e : Entry (State Int) Action,
    DeleteCommits e.pre e.act 3 ∧ modelRuns 3 (deletedRun.1.drop 18) = 1 ∧
      (deletedRun.2.workers 3).map WorkerPoint.ended = some true ∧
      StaysDeleted clockEnv (deletedRun.1.drop 18) deletedRun.2 3 ∧
      ∀ other ≠ 3, ¬ DeleteCommits e.pre e.act other →
        e.post.slice other = e.pre.slice other := by
  have hlt : 17 < deletedRun.1.length := by decide
  have hexec : Exec (system clockEnv) State.empty
      (deletedRun.1.take 17 ++ deletedRun.1[17] :: deletedRun.1.drop 18) deletedRun.2 := by
    rw [← List.drop_eq_getElem_cons, List.take_append_drop]
    exact Machine.played_exec _
  have hdeleted : DeleteCommits deletedRun.1[17].pre deletedRun.1[17].act 3 :=
    .run rfl rfl rfl
  exact ⟨_, hdeleted, rfl, rfl, deletion_is_final State.empty_initial hexec hdeleted⟩

end SpurApi
