/-
What one step of a worker can do.

`workerMove_of_step` lists the steps of an invocation of `run_simulation`, and
`commitRun_ok` says what a commit of its session leaves: the row with the assigned
columns, provided the copy it holds is up to date in them, and the new events after
the old ones.
-/
import SpurApi.Proofs.RunRows

namespace SpurApi

/-! ### Commits of the worker's session -/

section

variable {row stored : SimulationRunRow}

theorem flush_markRunning (h : SameButClient row stored) (now : Time) :
    SimulationRunRow.flush row (markRunning now row) stored = markRunning now stored := by
  rw [h]
  simp [SimulationRunRow.flush, markRunning, Column.flush_current]

theorem flush_markProgress (h : SameButClient row stored) (t : Int) :
    SimulationRunRow.flush row (markProgress t row) stored = markProgress t stored := by
  rw [h]
  simp [SimulationRunRow.flush, markProgress, Column.flush_current]

theorem flush_markFailed (h : SameButClient row stored) (now : Time) (e : Exn) :
    SimulationRunRow.flush row (markFailed now e row) stored = markFailed now e stored := by
  rw [h]
  simp [SimulationRunRow.flush, markFailed, Column.flush_current]

theorem flush_markFinished (h : SameButClient row stored) (now : Time) (outcome : Outcome) :
    SimulationRunRow.flush row (markFinished now outcome row) stored =
      markFinished now outcome stored := by
  rw [h]
  simp [SimulationRunRow.flush, markFinished, Column.flush_current]

end

section

variable {io : Io} {loaded assigned : SimulationRunRow} {added events : List RunEventRow}
  {db db' : RunSlice}

private theorem insertEvents_ok {run : Option SimulationRunRow} {events' : List RunEventRow}
    (h : insertEvents run events added = .ok events') : events' = events ++ added := by
  unfold insertEvents at h
  split at h
  · rename_i hempty
    rw [List.isEmpty_iff] at hempty
    simp only [Except.ok.injEq] at h
    rw [hempty, List.append_nil, h]
  · split at h
    · simp at h
    · split at h
      · simp only [Except.ok.injEq] at h
        exact h.symm
      · simp at h

/-- What a commit leaves of a run that is there. -/
theorem commitRun_ok {row : SimulationRunRow}
    (h : commitRun io loaded assigned added ⟨some row, events⟩ = .ok db') :
    db' = ⟨some (SimulationRunRow.flush loaded assigned row), events ++ added⟩ := by
  unfold commitRun at h
  split at h
  · simp at h
  · rw [updateRun_some] at h
    dsimp only at h
    split at h
    · simp at h
    · rename_i hinsert
      simp only [Except.ok.injEq] at h
      rw [← h, insertEvents_ok hinsert]

/-- A commit brings no run back that is gone. -/
theorem commitRun_ok_none (h : commitRun io loaded assigned added ⟨none, events⟩ = .ok db') :
    db' = ⟨none, events⟩ := by
  unfold commitRun updateRun insertEvents at h
  split at h
  · simp at h
  · split at h
    · simp at h
    · rename_i hrow
      split at hrow
      · simp at hrow
      · simp only [Except.ok.injEq] at hrow
        subst hrow
        split at h
        · simp at h
        · rename_i hevents
          split at hevents
          · simp only [Except.ok.injEq] at hevents h
            rw [← h, hevents]
          · simp at hevents

/-- A commit that meets no failure, no missing row and no event number twice succeeds. -/
theorem commitRun_succeeds {row : SimulationRunRow} (hfault : io.fault = none)
    (hnodup : added = [] ∨ ((events ++ added).map RunEventRow.seq).Nodup) :
    commitRun io loaded assigned added ⟨some row, events⟩ =
      .ok ⟨some (SimulationRunRow.flush loaded assigned row), events ++ added⟩ := by
  unfold commitRun
  rw [hfault]
  dsimp only
  rw [updateRun_some]
  dsimp only
  unfold insertEvents
  cases added with
  | nil => simp
  | cons e es =>
      have hnodup := hnodup.resolve_left (by simp)
      simp only [List.isEmpty_cons, Option.isNone_some, Bool.false_eq_true, if_false, hnodup,
        if_true]

/-- A commit that inserts events has met no event number twice. -/
theorem nodup_of_commitRun {row : SimulationRunRow} (hadded : added ≠ [])
    (h : commitRun io loaded assigned added ⟨some row, events⟩ = .ok db') :
    ((events ++ added).map RunEventRow.seq).Nodup := by
  unfold commitRun at h
  split at h
  · simp at h
  · rw [updateRun_some] at h
    dsimp only at h
    unfold insertEvents at h
    by_contra hnodup
    simp only [List.isEmpty_iff, hadded, Option.isNone_some, Bool.false_eq_true, if_false, hnodup,
      reduceCtorEq] at h

/-- What `on_chunk` changes in the session when it returns. -/
theorem onChunk_session {w w' : WorkerSession} {t : Int} {es : List SimEvent}
    (h : onChunk io db w t es = .ok (w', db')) :
    w' = { w with row := markProgress t w.row, seq := w.seq + es.length } := by
  unfold onChunk at h
  split at h
  · simp at h
  · simp only [Except.ok.injEq, Prod.mk.injEq] at h
    exact h.1.symm

/-- It returns when its commit has succeeded. -/
theorem commitRun_of_onChunk {w w' : WorkerSession} {t : Int} {es : List SimEvent}
    (h : onChunk io db w t es = .ok (w', db')) :
    commitRun io w.row (markProgress t w.row) (eventRows w.seq es) db = .ok db' := by
  unfold onChunk at h
  split at h
  · simp at h
  · rename_i hcommit
    simp only [Except.ok.injEq, Prod.mk.injEq] at h
    rw [← h.2]
    exact hcommit

/-- A chunk that is committed has met no event number twice. -/
theorem nodup_of_onChunk {w w' : WorkerSession} {t : Int} {es : List SimEvent}
    {row : SimulationRunRow} (h : onChunk io ⟨some row, events⟩ w t es = .ok (w', db'))
    (hes : es ≠ []) : ((events ++ eventRows w.seq es).map RunEventRow.seq).Nodup := by
  refine nodup_of_commitRun ?_ (commitRun_of_onChunk h)
  cases es with
  | nil => exact absurd rfl hes
  | cons e es => simp [eventRows]

end

/-! ### The steps -/

/-- What one step of an invocation can do. -/
inductive WorkerMove {μ : Type} (env : Env μ) (project : Option ProjectRow) (io : Io)
    (db : RunSlice) : WorkerPoint μ → WorkerPoint μ → RunSlice → Prop
  | loadRaised {e : Exn} (h : io.fault ≠ none ∨ db.row = none) :
      WorkerMove env project io db .loading (.raised e) db
  | loaded {row : SimulationRunRow} {spec : Json.Object} (hrow : db.row = some row)
      (hspec : row.specSnapshot = some spec) :
      WorkerMove env project io db .loading (.marking row spec) db
  | loadedBare {row : SimulationRunRow} (hrow : db.row = some row)
      (hspec : row.specSnapshot = none) :
      WorkerMove env project io db .loading (.loadingProject row) db
  | projectRaised {row : SimulationRunRow} {e : Exn} :
      WorkerMove env project io db (.loadingProject row) (.raised e) db
  | projectLoaded {row : SimulationRunRow} {p : ProjectRow} (hp : project = some p) :
      WorkerMove env project io db (.loadingProject row) (.marking row p.spec) db
  | markRaised {row : SimulationRunRow} {spec : Json.Object} {e : Exn}
      (h : commitRun io row (markRunning io.now row) [] db = .error e) :
      WorkerMove env project io db (.marking row spec) (.raised e) db
  | marked {row : SimulationRunRow} {spec : Json.Object} {db' : RunSlice}
      (h : commitRun io row (markRunning io.now row) [] db = .ok db') :
      WorkerMove env project io db (.marking row spec)
        (.running ⟨markRunning io.now row, spec, 0, true⟩ .building) db'
  | askRaised {w w' : WorkerSession} {l : Loop μ} {e : Exn}
      (h : isCancelled io db w = .error (e, w')) :
      WorkerMove env project io db (.running w (.asking l)) (.handling w' e) db
  | asked {w : WorkerSession} {l : Loop μ} {row : SimulationRunRow} (hfault : io.fault = none)
      (hrow : db.row = some row) :
      WorkerMove env project io db (.running w (.asking l))
        (.running { w with row := { w.row with cancelRequested := row.cancelRequested } }
          (if row.cancelRequested then .flushing l .cancelled else .advancing l)) db
  | flushRaised {w : WorkerSession} {l : Loop μ} {place : Flush} {e : Exn}
      (h : onChunk io db w (env.spur.now l.model) l.eventsBatch = .error e) :
      WorkerMove env project io db (.running w (.flushing l place))
        (.handling { w with usable := false } e) db
  | flushed {w w' : WorkerSession} {l : Loop μ} {place : Flush} {db' : RunSlice}
      (h : onChunk io db w (env.spur.now l.model) l.eventsBatch = .ok (w', db')) :
      WorkerMove env project io db (.running w (.flushing l place))
        (w'.settle ((RunPoint.flushing l place).flushed env.spur)) db'
  | advanced {w : WorkerSession} {p : RunPoint μ} (hask : ∀ l, p ≠ .asking l)
      (hflush : ∀ l place, p ≠ .flushing l place) :
      WorkerMove env project io db (.running w p)
        (w.settle (w.runner.advance env.spur env.settings io.entropy p)) db
  | handlerLost {w : WorkerSession} {e : Exn} (hlost : w.usable = false) :
      WorkerMove env project io db (.handling w e) (.raised pendingRollback) db
  | handlerRaised {w : WorkerSession} {e e' : Exn} (husable : w.usable = true)
      (h : commitRun io w.row (markFailed io.now e w.row) [] db = .error e') :
      WorkerMove env project io db (.handling w e) (.raised e') db
  | handled {w : WorkerSession} {e : Exn} {db' : RunSlice} (husable : w.usable = true)
      (h : commitRun io w.row (markFailed io.now e w.row) [] db = .ok db') :
      WorkerMove env project io db (.handling w e) .returned db'
  | finishRaised {w : WorkerSession} {outcome : Outcome} {e : Exn}
      (h : commitRun io w.row (markFinished io.now outcome w.row) [] db = .error e) :
      WorkerMove env project io db (.finishing w outcome) (.raised e) db
  | finished {w : WorkerSession} {outcome : Outcome} {db' : RunSlice}
      (h : commitRun io w.row (markFinished io.now outcome w.row) [] db = .ok db') :
      WorkerMove env project io db (.finishing w outcome) .returned db'

section

variable {μ : Type} {env : Env μ} {project : Option ProjectRow} {io : Io} {db db' : RunSlice}

private theorem runnerStep_move {w : WorkerSession} {p : RunPoint μ} {p' : WorkerPoint μ}
    (h : runnerStep env io db w p = (p', db')) :
    WorkerMove env project io db (.running w p) p' db' := by
  cases p with
  | asking l =>
      rw [runnerStep] at h
      cases hask : isCancelled io db w with
      | error r =>
          simp only [hask, Prod.mk.injEq] at h
          obtain ⟨rfl, rfl⟩ := h
          exact .askRaised hask
      | ok w' =>
          simp only [hask, Prod.mk.injEq] at h
          obtain ⟨rfl, rfl⟩ := h
          unfold isCancelled at hask
          split at hask
          · simp at hask
          · rename_i hfault
            split at hask
            · simp at hask
            · rename_i row hrow
              simp only [Except.ok.injEq] at hask
              subst hask
              have hmove : WorkerMove env project io db (.running w (.asking l)) _ db :=
                .asked hfault hrow
              cases hflag : row.cancelRequested <;> simpa [WorkerSession.settle,
                RunPoint.answered, hflag] using hmove
  | flushing l place =>
      rw [runnerStep] at h
      cases hchunk : onChunk io db w (env.spur.now l.model) l.eventsBatch with
      | error e =>
          simp only [hchunk, Prod.mk.injEq] at h
          obtain ⟨rfl, rfl⟩ := h
          exact .flushRaised hchunk
      | ok r =>
          simp only [hchunk, Prod.mk.injEq] at h
          obtain ⟨rfl, rfl⟩ := h
          exact .flushed hchunk
  | _ =>
      simp only [runnerStep, Prod.mk.injEq] at h
      obtain ⟨rfl, rfl⟩ := h
      exact .advanced (by simp) (by simp)

/-- **What one step of a worker can do.** -/
theorem workerMove_of_step {p p' : WorkerPoint μ}
    (h : workerStep env project io db p = some (p', db')) :
    WorkerMove env project io db p p' db' := by
  cases p with
  | loading =>
      rw [workerStep] at h
      split at h
      · simp only [Option.some.injEq, Prod.mk.injEq] at h
        obtain ⟨rfl, rfl⟩ := h
        exact .loadRaised (.inl (Option.ne_none_iff_exists'.mpr ⟨_, ‹_›⟩))
      · simp only [Option.some.injEq, Prod.mk.injEq] at h
        obtain ⟨rfl, rfl⟩ := h
        exact .loadRaised (.inr ‹_›)
      · rename_i row _ hrow
        split at h <;> simp only [Option.some.injEq, Prod.mk.injEq] at h <;>
          obtain ⟨rfl, rfl⟩ := h
        · exact .loaded hrow ‹_›
        · exact .loadedBare hrow ‹_›
  | loadingProject row =>
      simp only [workerStep] at h
      split at h <;> simp only [Option.some.injEq, Prod.mk.injEq] at h <;> obtain ⟨rfl, rfl⟩ := h
      · exact .projectRaised
      · exact .projectRaised
      · exact .projectLoaded rfl
  | marking row spec =>
      rw [workerStep] at h
      split at h <;> simp only [Option.some.injEq, Prod.mk.injEq] at h <;> obtain ⟨rfl, rfl⟩ := h
      · exact .markRaised ‹_›
      · exact .marked ‹_›
  | running w p =>
      simp only [workerStep, Option.some.injEq] at h
      exact runnerStep_move h
  | handling w e =>
      rw [workerStep] at h
      cases husable : w.usable with
      | false =>
          simp only [husable, Bool.false_eq_true, if_false, Option.some.injEq,
            Prod.mk.injEq] at h
          obtain ⟨rfl, rfl⟩ := h
          exact .handlerLost husable
      | true =>
          simp only [husable, if_true] at h
          split at h <;> simp only [Option.some.injEq, Prod.mk.injEq] at h <;>
            obtain ⟨rfl, rfl⟩ := h
          · exact .handlerRaised husable ‹_›
          · exact .handled husable ‹_›
  | finishing w outcome =>
      rw [workerStep] at h
      split at h <;> simp only [Option.some.injEq, Prod.mk.injEq] at h <;> obtain ⟨rfl, rfl⟩ := h
      · exact .finishRaised ‹_›
      · exact .finished ‹_›
  | returned => simp [workerStep] at h
  | raised e => simp [workerStep] at h

/-- A step of a worker keeps the run, and the events it has. -/
theorem WorkerMove.extends {p p' : WorkerPoint μ} {row : SimulationRunRow}
    {events : List RunEventRow} (h : WorkerMove env project io ⟨some row, events⟩ p p' db') :
    ∃ row', db'.row = some row' ∧ events <+: db'.events := by
  cases h with
  | marked hcommit | handled _ hcommit | finished hcommit =>
      rw [commitRun_ok hcommit]
      exact ⟨_, rfl, List.prefix_append ..⟩
  | flushed hchunk =>
      rw [commitRun_ok (commitRun_of_onChunk hchunk)]
      exact ⟨_, rfl, List.prefix_append ..⟩
  | _ => exact ⟨row, rfl, List.prefix_rfl⟩

/-- No step of a worker touches the cancel flag, whatever copy of the row it holds. -/
theorem WorkerMove.cancelRequested {p p' : WorkerPoint μ} {row row' : SimulationRunRow}
    {events : List RunEventRow} (h : WorkerMove env project io ⟨some row, events⟩ p p' db')
    (hrow' : db'.row = some row') : row'.cancelRequested = row.cancelRequested := by
  cases h with
  | marked hcommit | handled _ hcommit | finished hcommit =>
      rw [commitRun_ok hcommit, Option.some.injEq] at hrow'
      rw [← hrow']
      exact Column.flush_unassigned ..
  | flushed hchunk =>
      rw [commitRun_ok (commitRun_of_onChunk hchunk), Option.some.injEq] at hrow'
      rw [← hrow']
      exact Column.flush_unassigned ..
  | _ =>
      rw [Option.some.injEq] at hrow'
      rw [hrow']

/-- Nor what the submission fixed. -/
theorem WorkerMove.submission {p p' : WorkerPoint μ} {row row' : SimulationRunRow}
    {events : List RunEventRow} (h : WorkerMove env project io ⟨some row, events⟩ p p' db')
    (hrow' : db'.row = some row') : row'.submission = row.submission := by
  cases h with
  | marked hcommit | handled _ hcommit | finished hcommit =>
      rw [commitRun_ok hcommit, Option.some.injEq] at hrow'
      rw [← hrow']
      rfl
  | flushed hchunk =>
      rw [commitRun_ok (commitRun_of_onChunk hchunk), Option.some.injEq] at hrow'
      rw [← hrow']
      rfl
  | _ =>
      rw [Option.some.injEq] at hrow'
      rw [hrow']

end

end SpurApi
