/-
What an invocation carries, and where its histories come from.

The copies of the row that an invocation holds may be old, but what the submission fixed
is in all of them, and the spec it runs is its run's.  `history_of_exec` is the
connection to the service: whatever else happens in it, and however the rows were made,
what an execution does to one run under its worker is a history of the invocation, with
the same steps of the worker.
-/
import SpurApi.Invocation
import SpurApi.Proofs.Trail

namespace SpurApi

open Transition

section

variable {μ : Type} {env : Env μ} {project : Option ProjectRow} {i j : Invocation μ} {turn : Turn}
  {sub : Submission} {spec : Json.Object} {io : Io} {db db' : RunSlice}

/-! ### What an invocation carries -/

/-- Every copy of the row at this point is of this submission, and the spec is this one. -/
def WorkerPoint.Carries (sub : Submission) (spec : Json.Object) : WorkerPoint μ → Prop
  | .loadingProject row => row.submission = sub ∧ sub.specSnapshot = none
  | .marking row spec' => row.submission = sub ∧ spec' = spec
  | .running w _ | .handling w _ | .finishing w _ => w.row.submission = sub ∧ w.spec = spec
  | _ => True

/-- The stored row, if there is one, is of this submission too. -/
structure Invocation.Carries (sub : Submission) (spec : Json.Object) (i : Invocation μ) : Prop where
  row : ∀ row, i.slice.row = some row → row.submission = sub
  point : i.point.Carries sub spec

theorem WorkerSession.settle_carries {w : WorkerSession}
    (h : w.row.submission = sub ∧ w.spec = spec) (p : RunPoint μ) :
    (w.settle p).Carries sub spec := by
  cases p <;> exact h

/-- A commit changes nothing that the submission fixed. -/
theorem commitRun_submission {loaded assigned : SimulationRunRow} {added : List RunEventRow}
    (hrow : ∀ row, db.row = some row → row.submission = sub)
    (h : commitRun io loaded assigned added db = .ok db') :
    ∀ row, db'.row = some row → row.submission = sub := by
  obtain ⟨stored, events⟩ := db
  cases stored with
  | none =>
      rw [commitRun_ok_none h]
      exact fun row hnone => absurd hnone (by simp)
  | some stored =>
      rw [commitRun_ok h]
      rintro row ⟨⟩
      exact hrow stored rfl

theorem WorkerMove.carries {p p' : WorkerPoint μ}
    (hsnapshot : ∀ s, sub.specSnapshot = some s → s = spec)
    (hproject : ∀ q, project = some q → q.spec = spec)
    (h : Invocation.Carries sub spec ⟨p, db⟩) (hmove : WorkerMove env project io db p p' db') :
    Invocation.Carries sub spec ⟨p', db'⟩ := by
  obtain ⟨hrow, hpoint⟩ := h
  cases hmove with
  | loaded hstored hspec =>
      have hsub := hrow _ hstored
      refine ⟨hrow, hsub, hsnapshot _ ?_⟩
      rw [← hsub]
      exact hspec
  | loadedBare hstored hspec =>
      have hsub := hrow _ hstored
      refine ⟨hrow, hsub, ?_⟩
      rw [← hsub]
      exact hspec
  | projectLoaded hq => exact ⟨hrow, hpoint.1, hproject _ hq⟩
  | marked hcommit => exact ⟨commitRun_submission hrow hcommit, hpoint⟩
  | askRaised hask =>
      obtain ⟨hcopy, hspec, -⟩ := row_of_isCancelled_error hask
      refine ⟨hrow, ?_, hspec.trans hpoint.2⟩
      rw [hcopy]
      exact hpoint.1
  | @asked w l stored =>
      refine ⟨hrow, ?_⟩
      split <;> exact hpoint
  | flushRaised => exact ⟨hrow, hpoint⟩
  | flushed hchunk =>
      refine ⟨?_, WorkerSession.settle_carries ?_ _⟩
      · exact commitRun_submission hrow (commitRun_of_onChunk hchunk)
      · rw [onChunk_session hchunk]
        exact hpoint
  | advanced => exact ⟨hrow, WorkerSession.settle_carries hpoint _⟩
  | handled _ hcommit | finished hcommit => exact ⟨commitRun_submission hrow hcommit, trivial⟩
  | _ => exact ⟨hrow, trivial⟩

/-- **No turn changes what an invocation carries.** -/
theorem Invocation.Carries.step (hsnapshot : ∀ s, sub.specSnapshot = some s → s = spec)
    (hproject : ∀ q, project = some q → q.spec = spec) (h : i.Carries sub spec)
    (hstep : (invocation env project).step i turn = some j) : j.Carries sub spec := by
  cases turn with
  | work io =>
      simp only [invocation, Invocation.step] at hstep
      split at hstep
      · simp at hstep
      · rename_i hworker
        rw [Option.some.injEq] at hstep
        exact hstep ▸ (workerMove_of_step hworker).carries hsnapshot hproject h
  | write name cancelRequested arqJobId =>
      simp only [invocation, Invocation.step, Option.some.injEq] at hstep
      subst hstep
      refine ⟨fun row hrow => ?_, h.point⟩
      obtain ⟨stored, hstored, rfl⟩ := Option.map_eq_some_iff.mp hrow
      exact h.row stored hstored
  | delete =>
      simp only [invocation, Invocation.step, Option.some.injEq] at hstep
      subst hstep
      exact ⟨fun row hrow => absurd hrow (by simp), h.point⟩

/-! ### Histories of a deterministic model -/

/-- A deterministic model leaves an invocation of a run with a seed no choice. -/
theorem Invocation.step_plain (hdet : env.spur.Deterministic) (hseed : sub.seed.isSome)
    (hi : i.Carries sub spec) (turn : Turn) :
    (invocation env project).step i turn.plain = (invocation env project).step i turn := by
  cases turn with
  | work io =>
      obtain ⟨point, slice⟩ := i
      simp only [invocation, Turn.plain, step]
      cases point with
      | running w p =>
          cases p with
          | building =>
              have hsome : w.runner.seed.isSome := by
                have hrow : w.row.seed = sub.seed := congrArg Submission.seed hi.point.1
                exact (congrArg Option.isSome hrow).trans hseed
              have hbuild : w.runner.advance env.spur env.settings 0 .building = _ :=
                SpurRunner.advance_entropy hdet hsome 0 io.entropy .building
              simp only [workerStep, runnerStep, hbuild]
          | _ => rfl
      | _ => rfl
  | _ => rfl

end

/-! ### Histories out of the service -/

/-- What the outside decides at a step of the run's worker. -/
def workOn {μ : Type} (run : Uuid) (e : Entry (State μ) Action) : Option Io :=
  match e.act with
  | .work r io => if r = run then some io else none
  | _ => none

/-- And at a step of the invocation. -/
def workIn {μ : Type} (e : Entry (Invocation μ) Turn) : Option Io :=
  match e.act with
  | .work io => some io
  | _ => none

section

variable {μ : Type} {env : Env μ} {m s s' : State μ} {a : Action} {run : Uuid}
  {tr : List (Entry (State μ) Action)} {sub : Submission} {spec : Json.Object}
  {project : ProjectRow}

theorem workOn_other {e : Entry (State μ) Action} (h : ∀ io, e.act ≠ .work run io) :
    workOn run e = none := by
  unfold workOn
  split
  · rename_i r io hact
    refine if_neg ?_
    rintro rfl
    exact h io hact
  · rfl

/-- Of the project a step of the worker reads the spec only. -/
theorem workerStep_project {q q' : Option ProjectRow} {io : Io} {db : RunSlice} {p : WorkerPoint μ}
    (h : ∀ row, p = .loadingProject row → q.map ProjectRow.spec = q'.map ProjectRow.spec) :
    workerStep env q io db p = workerStep env q' io db p := by
  cases p with
  | loadingProject row =>
      have hspec := h row rfl
      cases hfault : io.fault <;> cases q <;> cases q' <;> simp_all [workerStep]
  | _ => rfl

/-- What clients do to a run in one step is one turn at most. -/
theorem RunTouch.history {cancels : Prop} {d d' : RunSlice} (h : RunTouch cancels d d')
    (env : Env μ) (q : Option ProjectRow) (p : WorkerPoint μ) :
    ∃ tr, Exec (invocation env q) ⟨p, d⟩ tr ⟨p, d'⟩ ∧ shown workIn tr = [] := by
  cases h with
  | same => exact ⟨[], Exec.nil, rfl⟩
  | @edited row row' events hedit =>
      have hwritten : row.written row'.name row'.cancelRequested row'.arqJobId = row' :=
        Eq.symm hedit.same
      refine ⟨_, Exec.single (a := .write row'.name row'.cancelRequested row'.arqJobId) ?_, rfl⟩
      simp only [invocation, Invocation.step, Option.map_some, hwritten]
  | deleted => exact ⟨_, Exec.single (a := .delete) rfl, rfl⟩

/-- **What the service does to a run under its worker is a history of its invocation.** -/
theorem history_of_exec (hapart : IdsApart m) (h : Exec (system env) m tr s)
    {p : WorkerPoint μ} (hworker : m.workers run = some p)
    (hsnapshot : ∀ t, sub.specSnapshot = some t → t = project.spec)
    (hcarries : Invocation.Carries sub project.spec ⟨p, m.slice run⟩)
    (hproject : ∀ e ∈ tr,
      (e.pre.backend.db.projects sub.projectId).map ProjectRow.spec = some project.spec) :
    ∃ tr' p', Exec (invocation env (some project)) ⟨p, m.slice run⟩ tr' ⟨p', s.slice run⟩ ∧
      s.workers run = some p' ∧ shown workIn tr' = shown (workOn run) tr := by
  suffices IdsApart s ∧ ∃ tr' p',
      Exec (invocation env (some project)) ⟨p, m.slice run⟩ tr' ⟨p', s.slice run⟩ ∧
        s.workers run = some p' ∧ shown workIn tr' = shown (workOn run) tr ∧
          Invocation.Carries sub project.spec ⟨p', s.slice run⟩ by
    obtain ⟨-, tr', p', hexec, hworker', hshown, -⟩ := this
    exact ⟨tr', p', hexec, hworker', hshown⟩
  induction h with
  | nil => exact ⟨hapart, [], p, Exec.nil, hworker, rfl, hcarries⟩
  | @snoc tr s s' a h hstep ih =>
      have hlive := hproject ⟨s, a, s'⟩ (by simp)
      obtain ⟨hapart', tr', p', hexec, hworker', hshown, hcarries'⟩ :=
        ih fun e he => hproject e (List.mem_append_left _ he)
      refine ⟨hapart'.step hstep, ?_⟩
      rw [shown_append, shown_single, ← hshown]
      -- a step of the worker is a turn; of the other steps only those of clients matter
      cases step_run hapart' hstep run with
      | client hact hsame htouch =>
          obtain ⟨tr₂, hexec₂, hshown₂⟩ := htouch.history env (some project) p'
          refine ⟨tr' ++ tr₂, p', hexec.append hexec₂, hsame.trans hworker', ?_, ?_⟩
          · rw [shown_append, hshown₂, workOn_other hact]
            rfl
          · exact hexec₂.invariant hcarries' fun _ _ _ hi hturn =>
              hi.step hsnapshot (fun _ hq => Option.some.inj hq ▸ rfl) hturn
      | inserted _ _ _ _ _ hnone => rw [hworker'] at hnone; simp at hnone
      | delivered _ _ hnone => rw [hworker'] at hnone; simp at hnone
      | @worked io q q' ha hq hq' hwork =>
          rw [hworker', Option.some.injEq] at hq
          subst hq
          have hsame : workerStep env (s.liveProject p') io (s.slice run) p' =
              workerStep env (some project) io (s.slice run) p' := by
            refine workerStep_project fun row hpoint => ?_
            subst hpoint
            have hpid : row.projectId = sub.projectId :=
              congrArg Submission.projectId hcarries'.point.1
            rw [State.liveProject, hpid]
            exact hlive
          have hturn : (invocation env (some project)).step ⟨p', s.slice run⟩ (.work io) =
              some ⟨q', s'.slice run⟩ := by
            simp only [invocation, Invocation.step, ← hsame, hwork]
          refine ⟨_, q', Exec.snoc hexec hturn, hq', ?_, ?_⟩
          · rw [shown_append, shown_single]
            simp [workIn, workOn, ha]
          · exact hcarries'.step hsnapshot (fun _ hq => Option.some.inj hq ▸ rfl) hturn

end

end SpurApi
