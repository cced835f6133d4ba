/-
A row with two of its columns null.

The migrations that added `until_target` and `spec_snapshot` left them null in the rows
that were there.  A step of the worker reads the first where it makes its runner and the
second where it loads the row, and writes neither, so a step commutes with forgetting
them as long as the runner's own fallbacks lead to the same target.  Only the first step
goes another way: without a snapshot it leads to a query for the project.
-/
import SpurApi.Proofs.Invocations
import SpurApi.Proofs.Reruns

namespace SpurApi

open Transition

/-! ### Forgetting the two columns -/

/-- Which of the columns a migration left null. -/
structure NullColumns where
  untilTarget : Bool
  specSnapshot : Bool

/-- The row from before the migration. -/
def SimulationRunRow.without (k : NullColumns) (row : SimulationRunRow) : SimulationRunRow :=
  { row with
    untilTarget := if k.untilTarget then none else row.untilTarget
    specSnapshot := if k.specSnapshot then none else row.specSnapshot }

def RunSlice.without (k : NullColumns) (d : RunSlice) : RunSlice :=
  ⟨d.row.map (SimulationRunRow.without k), d.events⟩

def WorkerSession.without (k : NullColumns) (w : WorkerSession) : WorkerSession :=
  { w with row := w.row.without k }

section

variable {μ : Type}

/-- The point of an invocation that loaded the row from before the migration. -/
def WorkerPoint.without (k : NullColumns) : WorkerPoint μ → WorkerPoint μ
  | .loading => .loading
  | .loadingProject row => .loadingProject (row.without k)
  | .marking row spec => .marking (row.without k) spec
  | .running w p => .running (w.without k) p
  | .handling w e => .handling (w.without k) e
  | .finishing w outcome => .finishing (w.without k) outcome
  | .returned => .returned
  | .raised e => .raised e

def Invocation.without (k : NullColumns) (i : Invocation μ) : Invocation μ :=
  ⟨i.point.without k, i.slice.without k⟩

variable (k : NullColumns)

theorem WorkerSession.without_row (w : WorkerSession) : (w.without k).row = w.row.without k := rfl

theorem markRunning_without (now : Time) (row : SimulationRunRow) :
    markRunning now (row.without k) = (markRunning now row).without k := rfl

theorem markProgress_without (t : Int) (row : SimulationRunRow) :
    markProgress t (row.without k) = (markProgress t row).without k := rfl

theorem markFailed_without (now : Time) (e : Exn) (row : SimulationRunRow) :
    markFailed now e (row.without k) = (markFailed now e row).without k := rfl

theorem markFinished_without (now : Time) (outcome : Outcome) (row : SimulationRunRow) :
    markFinished now outcome (row.without k) = (markFinished now outcome row).without k := rfl

/-! ### What does not notice -/

variable (io : Io) (loaded assigned : SimulationRunRow)
  (added : List RunEventRow) (db : RunSlice) (w : WorkerSession)

theorem updateRun_without (stored : Option SimulationRunRow) :
    updateRun (loaded.without k) (assigned.without k) (stored.map (SimulationRunRow.without k)) =
      (updateRun loaded assigned stored).map (Option.map (SimulationRunRow.without k)) := by
  have hdirty : SimulationRunRow.dirty (loaded.without k) (assigned.without k) =
      SimulationRunRow.dirty loaded assigned := rfl
  unfold updateRun
  rw [hdirty]
  cases SimulationRunRow.dirty loaded assigned <;> cases stored <;> rfl

theorem insertEvents_without (run : Option SimulationRunRow) (stored : List RunEventRow) :
    insertEvents (run.map (SimulationRunRow.without k)) stored added =
      insertEvents run stored added := by
  cases run <;> rfl

theorem commitRun_without :
    commitRun io (loaded.without k) (assigned.without k) added (db.without k) =
      (commitRun io loaded assigned added db).map (RunSlice.without k) := by
  obtain ⟨stored, events⟩ := db
  unfold commitRun
  cases io.fault with
  | some f => rfl
  | none =>
      simp only [RunSlice.without, updateRun_without]
      cases updateRun loaded assigned stored with
      | error e => rfl
      | ok row =>
          simp only [Except.map, insertEvents_without]
          cases insertEvents row events added <;> rfl

theorem isCancelled_without :
    isCancelled io (db.without k) (w.without k) =
      match isCancelled io db w with
      | .error (e, w') => .error (e, w'.without k)
      | .ok w' => .ok (w'.without k) := by
  obtain ⟨stored, events⟩ := db
  unfold isCancelled
  cases io.fault with
  | some f => rfl
  | none => cases stored <;> rfl

theorem onChunk_without (t : Int) (es : List SimEvent) :
    onChunk io (db.without k) (w.without k) t es =
      (onChunk io db w t es).map fun r => (r.1.without k, r.2.without k) := by
  have hseq : (w.without k).seq = w.seq := rfl
  simp only [onChunk, WorkerSession.without_row, markProgress_without, hseq, commitRun_without]
  cases commitRun io w.row (markProgress t w.row) (eventRows w.seq es) db <;> rfl

theorem settle_without (p : RunPoint μ) : (w.without k).settle p = (w.settle p).without k := by
  cases p <;> rfl

end

/-! ### Where the fallbacks lead -/

/-- On this spec the run goes to this target: it is stored, it was requested if anything was, and
else it is derived from the spec. -/
structure Submission.GoesTo (settings : Settings) (spec : Json.Object) (target : Int)
    (sub : Submission) : Prop where
  snapshot : sub.specSnapshot = some spec
  seeded : sub.seed.isSome
  stored : sub.untilTarget = some target
  requested : ∀ t, sub.requestedUntil = some t → t = target
  derived : sub.requestedUntil = none → deriveUntil settings spec = .ok target

section

variable {settings : Settings} {spec : Json.Object} {target : Int} {row : SimulationRunRow}
  {sub : Submission}

/-- What the worker passes on is the target or nothing, whichever columns are null. -/
theorem Submission.GoesTo.passed (h : row.submission.GoesTo settings spec target)
    (k : NullColumns) :
    ((row.without k).runner spec).untilTime = some target ∨
      ((row.without k).runner spec).untilTime = none ∧ row.requestedUntil = none := by
  have hstored : row.untilTarget = some target := h.stored
  cases hk : k.untilTarget with
  | false =>
      simp [SimulationRunRow.runner, WorkerSession.runner, SimulationRunRow.without, hk, hstored]
  | true =>
      cases hrequested : row.requestedUntil with
      | none =>
          simp [SimulationRunRow.runner, WorkerSession.runner, SimulationRunRow.without, hk,
            hrequested]
      | some t =>
          obtain rfl := h.requested t hrequested
          simp [SimulationRunRow.runner, WorkerSession.runner, SimulationRunRow.without, hk,
            hrequested]

/-- So the runner goes there. -/
theorem Submission.GoesTo.untilTarget (h : row.submission.GoesTo settings spec target)
    (k : NullColumns) : ((row.without k).runner spec).untilTarget settings = .ok target := by
  rcases h.passed k with hpassed | ⟨hpassed, hrequested⟩
  · exact SpurRunner.untilTarget_some hpassed
  · simp only [SpurRunner.untilTarget, hpassed]
    exact h.derived hrequested

/-- The runner looks at its target only where it works it out. -/
theorem SpurRunner.advance_congr {μ : Type} {spur : Spur μ} {runner runner' : SpurRunner}
    (hdict : runner'.projectDict = runner.projectDict) (hseed : runner'.seed = runner.seed)
    (hsize : runner'.chunkSize = runner.chunkSize)
    (htarget : runner'.untilTarget settings = runner.untilTarget settings) (entropy : Nat)
    (p : RunPoint μ) :
    runner'.advance spur settings entropy p = runner.advance spur settings entropy p := by
  cases p with
  | building => simp only [advance, buildModel, hdict, hseed]
  | starting model => simp only [advance, chunk, htarget, hsize]
  | _ => rfl

/-! ### One step -/

variable {μ : Type} {env : Env μ} {project : Option ProjectRow} {io : Io} {db : RunSlice}
  {k : NullColumns}

theorem advance_without {w : WorkerSession} (hgoes : sub.GoesTo env.settings spec target)
    (hw : w.row.submission = sub ∧ w.spec = spec) (p : RunPoint μ) :
    (w.without k).runner.advance env.spur env.settings io.entropy p =
      w.runner.advance env.spur env.settings io.entropy p := by
  obtain ⟨rfl, rfl⟩ := hw
  have hfull : w.runner.untilTarget env.settings = .ok target :=
    SpurRunner.untilTarget_some (by simp [WorkerSession.runner, show w.row.untilTarget = _ from
      hgoes.stored])
  have hless : (w.without k).runner.untilTarget env.settings = .ok target := hgoes.untilTarget k
  refine SpurRunner.advance_congr ?_ ?_ ?_ (hless.trans hfull.symm) _ p <;> rfl

theorem runnerStep_without {w : WorkerSession} (hgoes : sub.GoesTo env.settings spec target)
    (hw : w.row.submission = sub ∧ w.spec = spec) (p : RunPoint μ) :
    runnerStep env io (db.without k) (w.without k) p =
      ((runnerStep env io db w p).1.without k, (runnerStep env io db w p).2.without k) := by
  cases p with
  | asking l =>
      simp only [runnerStep, isCancelled_without]
      cases isCancelled io db w with
      | error r => rfl
      | ok w' => exact Prod.ext (settle_without k w' _) rfl
  | flushing l place =>
      simp only [runnerStep, onChunk_without]
      cases onChunk io db w (env.spur.now l.model) l.eventsBatch with
      | error e => rfl
      | ok r => exact Prod.ext (settle_without k r.1 _) rfl
  | _ =>
      refine Prod.ext ?_ rfl
      simp only [runnerStep]
      rw [advance_without hgoes hw, settle_without]

/-- Every step after the first commutes with forgetting the columns. -/
theorem workerStep_without {p : WorkerPoint μ} (hgoes : sub.GoesTo env.settings spec target)
    (hp : p.Carries sub spec) (hloading : p ≠ .loading) :
    workerStep env project io (db.without k) (p.without k) =
      (workerStep env project io db p).map fun r => (r.1.without k, r.2.without k) := by
  cases p with
  | loading => exact absurd rfl hloading
  | loadingProject row => exact absurd hp.2 (by simp [hgoes.snapshot])
  | marking row spec' =>
      simp only [workerStep, WorkerPoint.without, markRunning_without, commitRun_without]
      cases commitRun io row (markRunning io.now row) [] db <;> rfl
  | running w p => exact congrArg some (runnerStep_without hgoes hp p)
  | handling w e =>
      have husable : (w.without k).usable = w.usable := rfl
      simp only [workerStep, WorkerPoint.without, WorkerSession.without_row, markFailed_without,
        commitRun_without, husable]
      split
      · cases commitRun io w.row (markFailed io.now e w.row) [] db <;> rfl
      · rfl
  | finishing w outcome =>
      simp only [workerStep, WorkerPoint.without, WorkerSession.without_row,
        markFinished_without, commitRun_without]
      cases commitRun io w.row (markFinished io.now outcome w.row) [] db <;> rfl
  | returned => rfl
  | raised e => rfl

/-- The first step leads the other row's invocation to the query for its project. -/
def WorkerPoint.loadedWithout (k : NullColumns) : WorkerPoint μ → WorkerPoint μ
  | .marking row spec =>
      if k.specSnapshot then .loadingProject (row.without k) else .marking (row.without k) spec
  | p => p.without k

theorem workerStep_loading_without
    (hrow : ∀ row, db.row = some row → row.submission.GoesTo env.settings spec target) :
    workerStep env project io (db.without k) .loading =
      (workerStep env project io db .loading).map fun r =>
        (r.1.loadedWithout k, r.2.without k) := by
  obtain ⟨stored, events⟩ := db
  simp only [workerStep, RunSlice.without]
  cases io.fault with
  | some f => rfl
  | none =>
      cases stored with
      | none => rfl
      | some row =>
          have hspec : row.specSnapshot = some spec := (hrow row rfl).snapshot
          cases hk : k.specSnapshot <;>
            simp [SimulationRunRow.without, WorkerPoint.loadedWithout, hspec, hk]

end

end SpurApi
