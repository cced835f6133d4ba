/-
How a failing run ends.

`except Exception as e` writes the failure with the same session that the failing
call used.  Where the exception comes from a flush or a commit, or from a query that
aborted the transaction, that session refuses the handler's own commit, and the run
stays `running`.  From everywhere else the handler's write goes through.
-/
import SpurApi.Proofs.LifeCycle

namespace SpurApi

open Transition

section

variable {μ : Type} {env : Env μ} {s₀ s s' : State μ} {a : Action} {run : Uuid}
  {tr : List (Entry (State μ) Action)}

/-- By this entry an exception leaves `runner.run`, which stood at the point `p`. -/
def RaisedAt (e : Entry (State μ) Action) (run : Uuid) (p : RunPoint μ) (io : Io) (exn : Exn) :
    Prop :=
  ∃ w w', e.act = .work run io ∧ e.pre.workers run = some (.running w p) ∧
    e.post.workers run = some (.handling w' exn)

/-- The exception comes from the flush or the commit of `on_chunk`, or from a refresh of
`is_cancelled` whose failure aborted the transaction. -/
def BreaksSession (p : RunPoint μ) (io : Io) : Prop :=
  (∃ l place, p = .flushing l place) ∨
    (∃ l, p = .asking l) ∧ ∃ f, io.fault = some f ∧ f.aborts = true

/-- What the steps of a worker do to its session before it is in the handler. -/
private theorem usable_of_running {project : Option ProjectRow} {io : Io} {p : WorkerPoint μ}
    {w' : WorkerSession} {q' : RunPoint μ} {db db' : RunSlice}
    (h : ∀ w q, p = .running w q → w.usable = true)
    (hmove : WorkerMove env project io db p (.running w' q') db') : w'.usable = true := by
  generalize hp' : WorkerPoint.running w' q' = p' at hmove
  cases hmove with
  | marked =>
      rw [WorkerPoint.running.injEq] at hp'
      rw [hp'.1]
  | @asked w l =>
      rw [WorkerPoint.running.injEq] at hp'
      rw [hp'.1]
      exact h w (.asking l) rfl
  | @flushed w w₁ l place _ hchunk =>
      have hw₁ : w₁.usable = w.usable := by rw [onChunk_session hchunk]
      generalize (RunPoint.flushing l place).flushed env.spur = q at hp'
      cases q <;> simp only [WorkerSession.settle, WorkerPoint.running.injEq, reduceCtorEq] at hp'
      all_goals
        rw [hp'.1, hw₁]
        exact h _ _ rfl
  | @advanced w p₁ =>
      generalize w.runner.advance env.spur env.settings io.entropy p₁ = q at hp'
      cases q <;> simp only [WorkerSession.settle, WorkerPoint.running.injEq, reduceCtorEq] at hp'
      all_goals
        rw [hp'.1]
        exact h _ _ rfl
  | _ => simp at hp'

/-- The session in the handler can be used exactly when the exception did not break it. -/
private theorem usable_of_handling {project : Option ProjectRow} {io : Io} {w w' : WorkerSession}
    {q : RunPoint μ} {exn : Exn} {db db' : RunSlice} (h : w.usable = true)
    (hmove : WorkerMove env project io db (.running w q) (.handling w' exn) db') :
    w'.usable = true ↔ ¬ BreaksSession q io := by
  generalize hp' : WorkerPoint.handling w' exn = p' at hmove
  cases hmove with
  | @askRaised _ w₁ l _ hask =>
      rw [WorkerPoint.handling.injEq] at hp'
      rw [hp'.1]
      unfold isCancelled at hask
      split at hask
      · rename_i f hfault
        simp only [Except.error.injEq, Prod.mk.injEq] at hask
        rw [← hask.2]
        simp [BreaksSession, h, hfault]
      · rename_i hfault
        split at hask
        · simp only [Except.error.injEq, Prod.mk.injEq] at hask
          rw [← hask.2]
          simp [BreaksSession, h, hfault]
        · simp at hask
  | @flushRaised _ l place =>
      rw [WorkerPoint.handling.injEq] at hp'
      rw [hp'.1]
      simp [BreaksSession]
  | @flushed _ w₁ l place =>
      exfalso
      cases place with
      | chunk =>
          simp only [RunPoint.flushed, Loop.head] at hp'
          split at hp' <;> simp [WorkerSession.settle] at hp'
      | cancelled | final => simp [RunPoint.flushed, WorkerSession.settle] at hp'
  | @advanced _ _ hask hflush =>
      have hnot : ¬ BreaksSession q io := by
        rintro (⟨l, place, rfl⟩ | ⟨⟨l, rfl⟩, -⟩)
        · exact hflush l place rfl
        · exact hask l rfl
      generalize w.runner.advance env.spur env.settings io.entropy q = q₁ at hp'
      cases q₁ <;> simp only [WorkerSession.settle, WorkerPoint.handling.injEq,
        reduceCtorEq] at hp'
      rw [hp'.1]
      simp [h, hnot]
  | asked => simp at hp'

/-- The handler is entered from the runner, and left only with the invocation. -/
private theorem point_of_move {project : Option ProjectRow} {io : Io} {p p' : WorkerPoint μ}
    {db db' : RunSlice} (hmove : WorkerMove env project io db p p' db') : p.ended = false ∧
      ((∃ w q, p = .running w q) ∨ (∃ w exn, p = .handling w exn) ∧ p'.ended = true ∨
        (∀ w exn, p ≠ .handling w exn) ∧ ∀ w exn, p' ≠ .handling w exn) := by
  cases hmove with
  | handlerLost | handlerRaised | handled => exact ⟨rfl, .inr (.inl ⟨⟨_, _, rfl⟩, rfl⟩)⟩
  | askRaised | asked | flushRaised | flushed | advanced => exact ⟨rfl, .inl ⟨_, _, rfl⟩⟩
  | _ => exact ⟨rfl, .inr (.inr ⟨by simp, by simp⟩)⟩

/-- Where the worker of a run stands, against the exceptions that left its runner. -/
private structure RaiseInv (tr : List (Entry (State μ) Action)) (s : State μ) (run : Uuid) :
    Prop where
  usable : ∀ w q, s.workers run = some (.running w q) → w.usable = true
  before : (∀ p, s.workers run = some p → p.ended = false ∧ ∀ w exn, p ≠ .handling w exn) →
    ∀ e ∈ tr, ∀ q io exn, ¬ RaisedAt e run q io exn
  handling : ∀ w exn, s.workers run = some (.handling w exn) →
    ∀ e ∈ tr, ∀ q io exn', RaisedAt e run q io exn' →
      exn' = exn ∧ (w.usable = true ↔ ¬ BreaksSession q io)

/-- A step of another actor. -/
private theorem RaiseInv.other (h : RaiseInv tr s run) (hact : ∀ io, a ≠ .work run io)
    (hworker : s'.workers run = s.workers run ∨
      s.workers run = none ∧ s'.workers run = some .loading) :
    RaiseInv (tr ++ [⟨s, a, s'⟩]) s' run := by
  have hnew : ∀ q io exn, ¬ RaisedAt ⟨s, a, s'⟩ run q io exn := by
    rintro q io exn ⟨w, w', ha, -⟩
    exact hact io ha
  refine ⟨fun w q hw => ?_, fun hp e he q io exn => ?_, fun w exn hw e he q io exn' => ?_⟩
  · rcases hworker with hworker | ⟨-, hloading⟩
    · exact h.usable w q (hworker ▸ hw)
    · simp [hloading] at hw
  · rcases List.mem_append.mp he with he | he
    · refine h.before (fun p hp' => ?_) e he q io exn
      rcases hworker with hworker | ⟨hnone, -⟩
      · exact hp p (hworker ▸ hp')
      · simp [hnone] at hp'
    · rw [List.mem_singleton] at he
      exact he ▸ hnew q io exn
  · intro hraised
    rcases List.mem_append.mp he with he | he
    · rcases hworker with hworker | ⟨-, hloading⟩
      · exact h.handling w exn (hworker ▸ hw) e he q io exn' hraised
      · simp [hloading] at hw
    · rw [List.mem_singleton] at he
      exact absurd (he ▸ hraised) (hnew q io exn')

private theorem RaiseInv.worked (h : RaiseInv tr s run) {project : Option ProjectRow} {io : Io}
    {p p' : WorkerPoint μ} {db db' : RunSlice} (ha : a = .work run io)
    (hp : s.workers run = some p) (hp' : s'.workers run = some p')
    (hmove : WorkerMove env project io db p p' db') : RaiseInv (tr ++ [⟨s, a, s'⟩]) s' run := by
  obtain ⟨hended, hpoint⟩ := point_of_move hmove
  have hnone : (∀ w exn, p ≠ .handling w exn) → ∀ e ∈ tr, ∀ q io exn,
      ¬ RaisedAt e run q io exn := by
    intro hnot
    refine h.before fun p₁ hp₁ => ?_
    rw [hp, Option.some.injEq] at hp₁
    exact hp₁ ▸ ⟨hended, hnot⟩
  refine ⟨fun w q hw => ?_, fun hq e he q io' exn => ?_, fun w exn hw e he q io' exn' => ?_⟩
  · rw [hp', Option.some.injEq] at hw
    subst hw
    exact usable_of_running (fun w₁ q₁ heq => h.usable w₁ q₁ (heq ▸ hp)) hmove
  · obtain ⟨hended', hnot'⟩ := hq p' hp'
    rcases List.mem_append.mp he with he | he
    · refine hnone (fun w exn heq => ?_) e he q io' exn
      rcases hpoint with ⟨_, _, hrun⟩ | ⟨-, hend⟩ | ⟨hnot, -⟩
      · simp [hrun] at heq
      · simp [hend] at hended'
      · exact hnot w exn heq
    · rw [List.mem_singleton] at he
      subst he
      rintro ⟨_, w', -, -, hpost⟩
      rw [hp', Option.some.injEq] at hpost
      exact hnot' w' exn hpost
  · rw [hp', Option.some.injEq] at hw
    subst hw
    obtain ⟨w₁, q₁, rfl⟩ : ∃ w₁ q₁, p = .running w₁ q₁ := by
      rcases hpoint with hrun | ⟨-, hend⟩ | ⟨-, hnot⟩
      · exact hrun
      · simp [WorkerPoint.ended] at hend
      · exact absurd rfl (hnot w exn)
    rintro hraised
    rcases List.mem_append.mp he with he | he
    · exact absurd hraised (hnone (by simp) e he q io' exn')
    · rw [List.mem_singleton] at he
      subst he
      obtain ⟨w₂, w', hact, hpre, hpost⟩ := hraised
      rw [hp, Option.some.injEq, WorkerPoint.running.injEq] at hpre
      rw [hp', Option.some.injEq, WorkerPoint.handling.injEq] at hpost
      rw [ha, Action.work.injEq] at hact
      obtain ⟨rfl, rfl⟩ := hpre
      obtain ⟨rfl, rfl⟩ := hpost
      obtain ⟨-, rfl⟩ := hact
      exact ⟨rfl, usable_of_handling (h.usable _ _ hp) hmove⟩

private theorem raiseInv_of_exec (h₀ : s₀.Initial) (h : Exec (system env) s₀ tr s) (run : Uuid) :
    RaiseInv tr s run := by
  induction h with
  | nil => exact ⟨by simp [h₀.workers], by simp, by simp⟩
  | snoc h hstep ih =>
      cases step_run (IdsApart.exec h₀ h) hstep run with
      | client hact hworker => exact ih.other hact (.inl hworker)
      | inserted hact _ _ _ _ hnone hnone' => exact ih.other hact (.inl (hnone'.trans hnone.symm))
      | delivered ha _ hnone hloading => exact ih.other (by simp [ha]) (.inr ⟨hnone, hloading⟩)
      | worked ha hp hp' hpstep => exact ih.worked ha hp hp' (workerMove_of_step hpstep)

/-- The run is committed as failed with this exception. -/
def FailedWith (row : SimulationRunRow) (exn : Exn) : Prop :=
  row.status = .failed ∧ row.finishedAt.isSome ∧ row.errorMessage = some exn.text

/-- **When a failing run is committed as failed.**  An exception left the runner, the row is still
there and the database fails at nothing more: then the next step of the worker ends the
invocation, and the run is `failed` exactly if the exception did not break the session. -/
theorem failing_run_iff (h₀ : s₀.Initial) (h : Exec (system env) s₀ tr s)
    {e : Entry (State μ) Action} {p : RunPoint μ} {io io' : Io} {exn : Exn} (he : e ∈ tr)
    (hraised : RaisedAt e run p io exn)
    (hhandling : ∃ w exn', s.workers run = some (.handling w exn'))
    (hrow : (s.slice run).row.isSome) (hfault : io'.fault = none) :
    ∃ s' row' q, s.step env (.work run io') = some s' ∧ s'.workers run = some q ∧
      q.ended = true ∧ (s'.slice run).row = some row' ∧
        (FailedWith row' exn ↔ ¬ BreaksSession p io) := by
  obtain ⟨w, exn', hw⟩ := hhandling
  obtain ⟨rfl, husable⟩ := (raiseInv_of_exec h₀ h run).handling w exn' hw e he p io exn hraised
  obtain ⟨row, hrow⟩ := Option.isSome_iff_exists.mp hrow
  have hok := (RunsOk.exec h₀ h).runs run row hrow
  rw [hw] at hok
  obtain ⟨-, hrunning, hcopy⟩ := hok
  rw [← husable]
  cases hu : w.usable with
  | false =>
      have hpoint : workerStep env (s.liveProject (.handling w exn)) io' (s.slice run)
          (.handling w exn) = some (.raised pendingRollback, s.slice run) := by
        simp [workerStep, hu]
      obtain ⟨s', hstep, hw', hslice⟩ := step_work hw hpoint
      refine ⟨s', row, _, hstep, hw', rfl, hslice ▸ hrow, ?_⟩
      simp [FailedWith, hrunning.status]
  | true =>
      have hcommit : commitRun io' w.row (markFailed io'.now exn w.row) []
          ⟨some row, (s.slice run).events⟩ = _ := commitRun_succeeds hfault (.inl rfl)
      rw [flush_markFailed hcopy.same] at hcommit
      have hslice₀ : s.slice run = ⟨some row, (s.slice run).events⟩ := by rw [← hrow]
      have hpoint : workerStep env (s.liveProject (.handling w exn)) io' (s.slice run)
          (.handling w exn) = some (.returned,
            ⟨some (markFailed io'.now exn row), (s.slice run).events ++ []⟩) := by
        simp only [workerStep, hu, if_true]
        rw [hslice₀, hcommit]
      obtain ⟨s', hstep, hw', hslice⟩ := step_work hw hpoint
      refine ⟨s', _, _, hstep, hw', rfl, congrArg RunSlice.row hslice, ?_⟩
      simp [FailedWith, markFailed]

end

/-- A model whose `run` emits its events and raises. -/
def raisingEnv : Env Int :=
  ⟨{ Spur.clock with run := fun m u => ⟨Spur.ticks m u, .error ⟨.other, "collision"⟩⟩ }, {}⟩

def collision : List (Entry (State Int) Action) × State Int :=
  (system raisingEnv).played State.empty
    (submitOne (.single (some 2) (some 1)) ++ executeOne 6) (by decide)

/-- An exception of the model is committed. -/
theorem collision_is_committed : ∃ s' row', collision.2.step raisingEnv (.work 3 {}) = some s' ∧
    (s'.slice 3).row = some row' ∧ FailedWith row' ⟨.other, "collision"⟩ := by
  have hfault : ({} : Io).fault = none := rfl
  have hraised : RaisedAt (collision.1.get ⟨15, by decide⟩) 3 (.advancing ⟨0, [], 2, 1⟩) {}
      ⟨.other, "collision"⟩ := ⟨_, _, rfl, rfl, rfl⟩
  obtain ⟨s', row', _, hstep, -, -, hrow', hfailed⟩ := failing_run_iff State.empty_initial
    (Machine.played_exec (M := system raisingEnv) _) (List.get_mem _ _) hraised ⟨_, _, rfl⟩ rfl
    hfault
  exact ⟨s', row', hstep, hrow', hfailed.mpr (by simp [BreaksSession])⟩

/-- The connection to the database is lost in the flush of the first chunk, and is there again
at the next step. -/
def lostConnection : Io := { fault := some ⟨⟨.other, "connection is closed"⟩, true⟩ }

def stuckRun : List (Entry (State Int) Action) × State Int :=
  (system clockEnv).played State.empty
    (submitOne (.single (some 2) (some 1)) ++ executeOne 6 ++
      [.work 3 lostConnection, .work 3 {}]) (by decide)

/-- The invocation is over, and the run is `running`. -/
theorem stuck_run_stays_running :
    Exec (system clockEnv) State.empty stuckRun.1 stuckRun.2 ∧
      (∃ e ∈ stuckRun.1, ∃ p exn, RaisedAt e 3 p lostConnection exn) ∧
      (stuckRun.2.workers 3).map WorkerPoint.ended = some true ∧
      (stuckRun.2.slice 3).row.map (fun row => (row.status, row.finishedAt, row.errorMessage)) =
        some (.running, none, none) :=
  ⟨Machine.played_exec _, ⟨_, List.get_mem stuckRun.1 ⟨16, by decide⟩, _, _, _, _, rfl, rfl, rfl⟩,
    rfl, rfl⟩

end SpurApi
