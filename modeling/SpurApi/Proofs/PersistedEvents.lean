/-
The persisted events of a run are the emitted ones.

`Progress` is what is stored, in every state; this module reads it off in the words of
the tables: the numbers of the rows, their fields, and the column `sim_time_now`.  A
call of the model that raises ends the flushing, so what it emitted is not stored.
-/
import SpurApi.Proofs.Progress

namespace SpurApi

open Transition

section

variable {μ : Type} {env : Env μ} {s₀ m s s' : State μ} {a : Action} {run : Uuid}
  {tr : List (Entry (State μ) Action)}

/-- The invocation flushes no more. -/
private def IsPast : Option (WorkerPoint μ) → Prop
  | some (.handling _ _) | some .returned | some (.raised _) => True
  | _ => False

private theorem isPast_of_move {project : Option ProjectRow} {io : Io} {p p' : WorkerPoint μ}
    {db db' : RunSlice} (h : IsPast (some p)) (hmove : WorkerMove env project io db p p' db') :
    IsPast (some p') ∧ p.flushes env.spur p' = none := by
  cases hmove with
  | handlerLost | handlerRaised | handled => exact ⟨trivial, rfl⟩
  | _ => exact h.elim

/-- What was flushed stays as it is from the exception on. -/
private theorem flushed_of_isPast (hm : IdsApart m) (h : Exec (system env) m tr s)
    (hpast : IsPast (m.workers run)) (pr : Progress) : IsPast (s.workers run) ∧
      (tr.foldl (Progress.entry env run) pr).flushed = pr.flushed := by
  induction h with
  | nil => exact ⟨hpast, rfl⟩
  | @snoc tr s s' a h hstep ih =>
      obtain ⟨hs, hflushed⟩ := ih
      rw [List.foldl_append, List.foldl_cons, List.foldl_nil]
      have hapart : IdsApart s := h.invariant hm fun _ _ _ hI hstep => hI.step hstep
      cases step_run hapart hstep run with
      | client hact hworker =>
          rw [Progress.entry_other hact, hworker]
          exact ⟨hs, hflushed⟩
      | inserted _ _ _ _ _ hworker | delivered _ _ hworker =>
          rw [hworker] at hs
          exact hs.elim
      | @worked io p p' ha hp hp' hpstep =>
          subst ha
          rw [Progress.entry_work hp hp', hp']
          rw [hp] at hs
          obtain ⟨hs', hquiet⟩ := isPast_of_move hs (workerMove_of_step hpstep)
          exact ⟨hs', (Progress.next_of_flushes hquiet).1.trans hflushed⟩

/-- An exception that leaves the runner ends the flushing. -/
private theorem flushed_of_raisedAt (h₀ : s₀.Initial)
    {tr₁ tr₂ : List (Entry (State μ) Action)} {e : Entry (State μ) Action}
    (h : Exec (system env) s₀ (tr₁ ++ e :: tr₂) s) {p : RunPoint μ} {io : Io} {exn : Exn}
    (hraised : RaisedAt e run p io exn) :
    (progress env run (tr₁ ++ e :: tr₂)).flushed = (progress env run tr₁).flushed := by
  obtain ⟨w, w', hact, hpre, hpost⟩ := hraised
  obtain ⟨h₁, hstep, h₂⟩ := h.split_at
  have hentry : (progress env run tr₁).entry env run e =
      (progress env run tr₁).next env.spur (.running w p) (.handling w' exn) := by
    obtain ⟨pre, act, post⟩ := e
    subst hact
    exact Progress.entry_work hpre hpost
  have hquiet : WorkerPoint.flushes env.spur (.running w p) (.handling w' exn) = none := by
    cases p <;> rfl
  have hpast : IsPast (e.post.workers run) := by
    rw [hpost]
    trivial
  rw [progress, List.foldl_append, List.foldl_cons,
    (flushed_of_isPast ((IdsApart.exec h₀ h₁).step hstep) h₂ hpast _).2]
  exact (congrArg Progress.flushed hentry).trans (Progress.next_of_flushes hquiet).1

/-- What is stored of a run, in the words of its tables. -/
structure PersistsEmitted (env : Env μ) (tr : List (Entry (State μ) Action)) (s : State μ)
    (run : Uuid) (row : SimulationRunRow) : Prop where
  /-- the rows are numbered from 0 -/
  seq : (s.slice run).events.map RunEventRow.seq =
    List.range (progress env run tr).flushed.length
  /-- in this order they are the events emitted up to the last chunk that was committed -/
  events : (s.slice run).events.map eventFromRow = (progress env run tr).flushed
  /-- and the clock of that chunk is committed with them -/
  simTimeNow : row.simTimeNow = (progress env run tr).simTimeNow
  first : (progress env run tr).flushed <+: (progress env run tr).emitted
  all : row.status = .completed ∨ row.status = .cancelled →
    (s.slice run).events.map eventFromRow = (progress env run tr).emitted
  /-- an exception of the model, or any other, leaves what was flushed before it -/
  raised : ∀ tr₁ e tr₂ p io exn, tr = tr₁ ++ e :: tr₂ → RaisedAt e run p io exn →
    (s.slice run).events.map eventFromRow = (progress env run tr₁).flushed
  sorted : (progress env run tr).emitted.Pairwise (fun e e' => e.time ≤ e'.time) →
    (s.slice run).events.Pairwise fun r r' => r.time ≤ r'.time

/-- **The persisted events are the emitted events**, in every state of every history. -/
theorem persists_emitted (h₀ : s₀.Initial) (h : Exec (system env) s₀ tr s)
    {row : SimulationRunRow} (hrow : (s.slice run).row = some row) :
    PersistsEmitted env tr s run row := by
  have hp := persisted_of_exec h₀ h run
  obtain ⟨hstored, hnow⟩ := hp.stored row hrow
  have hevents : (s.slice run).events.map eventFromRow = (progress env run tr).flushed := by
    rw [hstored, eventFromRow_eventRows]
  have hfirst : (progress env run tr).flushed <+: (progress env run tr).emitted := by
    have hbatched := hp.batched
    generalize s.workers run = worker at hbatched
    cases worker with
    | none =>
        rw [show progress env run tr = .start from hbatched]
        exact List.nil_prefix
    | some p => exact hbatched.isPrefix
  refine ⟨?_, hevents, hnow, hfirst, fun hended => ?_, fun tr₁ e tr₂ p io exn htr hraised => ?_,
    fun hsorted => ?_⟩
  · rw [hstored, eventRows_seq]
    simp
  · have hterminal : row.status.terminal = true := by
      rcases hended with hstatus | hstatus <;> rw [hstatus] <;> rfl
    have hreturned := returned_of_terminal (RunsOk.exec h₀ h) hrow hterminal
    refine hevents.trans (hp.returned hreturned row hrow fun hfailed => ?_)
    simp [hfailed] at hended
  · subst htr
    exact hevents.trans (flushed_of_raisedAt h₀ h hraised)
  · have hpair := hsorted.sublist hfirst.sublist
    rw [← hevents] at hpair
    exact (List.pairwise_map.mp hpair).imp id

end

/-- The events of a run in two chunks, the last of them from `log_current_state`. -/
theorem events_of_short_run : ∃ row, (shortRun.2.slice 3).row = some row ∧
    (shortRun.2.slice 3).events.map eventFromRow = [Spur.tick 1, Spur.tick 2, Spur.tick 2] ∧
      PersistsEmitted clockEnv shortRun.1 shortRun.2 3 row := by
  obtain ⟨row, hrow⟩ : ∃ row, (shortRun.2.slice 3).row = some row := ⟨_, rfl⟩
  exact ⟨row, hrow, rfl, persists_emitted State.empty_initial (Machine.played_exec _) hrow⟩

end SpurApi
