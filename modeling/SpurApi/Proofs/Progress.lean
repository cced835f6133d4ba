/-
What the model emitted, and how much of it is committed.

`Progress` reads an invocation's history: every event the model emitted, how many of
them had been emitted when the last chunk was committed, and the clock at that chunk.
It looks only at the model's calls and at the commits of `on_chunk`, not at the batch
or at the counter of the worker, so that the two can be compared: the batch is what
was emitted and not flushed, and the counter is how much was flushed.
-/
import SpurApi.Proofs.FailingRuns

namespace SpurApi

open Transition

/-! ### Reading a history -/

/-- What the model emits in a step of the worker from this point. -/
def RunPoint.emits {μ : Type} (spur : Spur μ) : RunPoint μ → List SimEvent
  | .starting model => (spur.start model).emitted
  | .advancing l => (spur.run l.model (l.nextCheckpoint spur)).emitted
  | .logging l => (spur.logCurrentState l.model).emitted
  | _ => []

/-- The clock at which a step of the worker commits a chunk, if it does. -/
def WorkerPoint.flushes {μ : Type} (spur : Spur μ) (p p' : WorkerPoint μ) : Option Int :=
  match p, p' with
  | .running _ (.flushing _ _), .handling _ _ => none
  | .running _ (.flushing l _), _ => some (spur.now l.model)
  | _, _ => none

structure Progress where
  /-- every event the model emitted -/
  emitted : List SimEvent
  /-- what it had emitted when the last chunk was committed -/
  flushed : List SimEvent
  /-- its clock then -/
  simTimeNow : Option Int

def Progress.start : Progress := ⟨[], [], none⟩

/-- A step of the worker. -/
def Progress.next {μ : Type} (spur : Spur μ) (pr : Progress) (p p' : WorkerPoint μ) : Progress :=
  match p.flushes spur p' with
  | some t => ⟨pr.emitted, pr.emitted, some t⟩
  | none =>
      match p with
      | .running _ q => { pr with emitted := pr.emitted ++ q.emits spur }
      | _ => pr

/-- A step of the service: only the worker of this run counts. -/
def Progress.entry {μ : Type} (env : Env μ) (run : Uuid) (pr : Progress)
    (e : Entry (State μ) Action) : Progress :=
  match e.act with
  | .work run' _ =>
      if run' = run then
        match e.pre.workers run, e.post.workers run with
        | some p, some p' => pr.next env.spur p p'
        | _, _ => pr
      else pr
  | _ => pr

/-- The progress of a run in a history. -/
def progress {μ : Type} (env : Env μ) (run : Uuid) (tr : List (Entry (State μ) Action)) :
    Progress := tr.foldl (Progress.entry env run) .start

/-! ### The batch of the runner -/

section

variable {μ : Type} {spur : Spur μ}

/-- What is emitted and not flushed is in the batch. -/
def RunPoint.Batched (flushed emitted : List SimEvent) : RunPoint μ → Prop
  | .building | .starting _ => flushed = [] ∧ emitted = []
  | .asking l | .advancing l | .flushing l _ | .logging l => flushed ++ l.eventsBatch = emitted
  | .finished _ => flushed = emitted
  | .raised _ => flushed <+: emitted

theorem RunPoint.Batched.isPrefix {flushed emitted : List SimEvent} {p : RunPoint μ}
    (h : p.Batched flushed emitted) : flushed <+: emitted := by
  cases p with
  | building | starting => rw [h.1]; exact List.nil_prefix
  | asking l | advancing l | flushing l place | logging l => exact ⟨_, h⟩
  | finished outcome =>
      have heq : flushed = emitted := h
      exact heq ▸ List.prefix_rfl
  | raised e => exact h

theorem Loop.head_batched {flushed emitted : List SimEvent} {l : Loop μ}
    (h : flushed ++ l.eventsBatch = emitted) : (l.head spur).Batched flushed emitted := by
  rw [Loop.head]
  split <;> exact h

/-- A call of the model adds what it emits to the batch. -/
theorem RunPoint.Batched.advance {flushed emitted : List SimEvent} {p : RunPoint μ}
    {runner : SpurRunner} {settings : Settings} {entropy : Nat} (h : p.Batched flushed emitted) :
    (runner.advance spur settings entropy p).Batched flushed (emitted ++ p.emits spur) := by
  have hraised : flushed <+: emitted ++ p.emits spur := h.isPrefix.trans (List.prefix_append ..)
  cases p with
  | building =>
      rw [SpurRunner.advance]
      split
      · exact hraised
      · simp only [RunPoint.emits, List.append_nil]
        exact h
  | starting model =>
      obtain ⟨rfl, rfl⟩ := h
      rw [SpurRunner.advance]
      split
      · exact hraised
      · split
        · exact hraised
        · split
          · exact hraised
          · exact Loop.head_batched rfl
  | advancing l | logging l =>
      rw [SpurRunner.advance]
      split
      · exact hraised
      · rw [← show flushed ++ l.eventsBatch = emitted from h, List.append_assoc]
        rfl
  | _ => simpa [SpurRunner.advance, RunPoint.emits] using h

/-- A flush leaves nothing to flush. -/
theorem RunPoint.Batched.flushed {emitted : List SimEvent} (l : Loop μ) (place : Flush) :
    ((RunPoint.flushing l place).flushed spur).Batched emitted emitted := by
  cases place with
  | chunk => exact Loop.head_batched (List.append_nil _)
  | cancelled | final => rfl

end

/-! ### The worker -/

section

variable {μ : Type} {env : Env μ}

/-- Where the worker stands against its progress. -/
def WorkerPoint.Batched (pr : Progress) : WorkerPoint μ → Prop
  | .loading | .loadingProject _ | .marking _ _ => pr = .start
  | .running w p => p.Batched pr.flushed pr.emitted ∧ w.seq = pr.flushed.length
  | .finishing _ _ => pr.flushed = pr.emitted
  | .handling _ _ | .returned | .raised _ => pr.flushed <+: pr.emitted

theorem WorkerPoint.Batched.isPrefix {pr : Progress} {p : WorkerPoint μ} (h : p.Batched pr) :
    pr.flushed <+: pr.emitted := by
  cases p with
  | loading | loadingProject | marking => rw [show pr = .start from h]; exact List.nil_prefix
  | running w p => exact h.1.isPrefix
  | finishing w outcome =>
      have heq : pr.flushed = pr.emitted := h
      exact heq ▸ List.prefix_rfl
  | handling | returned | raised => exact h

theorem settle_batched {pr : Progress} {w : WorkerSession} {q : RunPoint μ}
    (h : q.Batched pr.flushed pr.emitted) (hseq : w.seq = pr.flushed.length) :
    (w.settle q).Batched pr := by
  cases q with
  | finished outcome => exact h
  | raised e => exact h
  | _ => exact ⟨h, hseq⟩

/-- The runner goes on after a chunk, so the chunk counts as flushed. -/
theorem flushes_settle (w w' : WorkerSession) (l : Loop μ) (place : Flush) :
    WorkerPoint.flushes env.spur (.running w (.flushing l place))
      (w'.settle ((RunPoint.flushing l place).flushed env.spur)) = some (env.spur.now l.model) := by
  cases place with
  | chunk =>
      simp only [RunPoint.flushed, Loop.head]
      split <;> rfl
  | cancelled | final => rfl

theorem flushes_running {w : WorkerSession} {q : RunPoint μ} {p' : WorkerPoint μ}
    (h : ∀ l place, q ≠ .flushing l place) :
    WorkerPoint.flushes env.spur (.running w q) p' = none := by
  cases q with
  | flushing l place => exact absurd rfl (h l place)
  | _ => rfl

/-- **The worker flushes what the model emitted, in order, each event once.** -/
theorem WorkerPoint.Batched.step {pr : Progress} {project : Option ProjectRow} {io : Io}
    {p p' : WorkerPoint μ} {db db' : RunSlice} (h : p.Batched pr)
    (hmove : WorkerMove env project io db p p' db') : p'.Batched (pr.next env.spur p p') := by
  cases hmove with
  | loadRaised | projectRaised | markRaised =>
      rw [show pr = .start from h]
      exact List.nil_prefix
  | loaded | loadedBare | projectLoaded => exact h
  | marked =>
      rw [show pr = .start from h]
      exact ⟨⟨rfl, rfl⟩, rfl⟩
  | askRaised | flushRaised => simpa [Progress.next, WorkerPoint.flushes, RunPoint.emits,
      WorkerPoint.Batched] using h.1.isPrefix
  | @asked w l row =>
      obtain ⟨hbatch, hseq⟩ := h
      have hnext : pr.next env.spur (.running w (.asking l)) (.running
          { w with row := { w.row with cancelRequested := row.cancelRequested } }
          (if row.cancelRequested then .flushing l .cancelled else .advancing l)) = pr := by
        simp [Progress.next, WorkerPoint.flushes, RunPoint.emits]
      rw [hnext]
      refine ⟨?_, hseq⟩
      split <;> exact hbatch
  | @flushed w w' l place _ hchunk =>
      obtain ⟨hbatch, hseq⟩ := h
      have hnext : pr.next env.spur (.running w (.flushing l place))
          (w'.settle ((RunPoint.flushing l place).flushed env.spur)) =
            ⟨pr.emitted, pr.emitted, some (env.spur.now l.model)⟩ := by
        simp only [Progress.next, flushes_settle]
      rw [hnext]
      refine settle_batched (RunPoint.Batched.flushed l place) ?_
      rw [onChunk_session hchunk, ← show pr.flushed ++ l.eventsBatch = pr.emitted from hbatch,
        List.length_append, hseq]
  | @advanced w q hask hflush =>
      have hnext : pr.next env.spur (.running w q)
          (w.settle (w.runner.advance env.spur env.settings io.entropy q)) =
            { pr with emitted := pr.emitted ++ q.emits env.spur } := by
        simp only [Progress.next, flushes_running hflush]
      rw [hnext]
      exact settle_batched h.1.advance h.2
  | handlerLost | handlerRaised | handled => exact h
  | finishRaised | finished => exact WorkerPoint.Batched.isPrefix (p := .finishing _ _) h

/-! ### The database -/

theorem eventFromRow_eventRows (es : List SimEvent) :
    ∀ n, (eventRows n es).map eventFromRow = es := by
  induction es with
  | nil => exact fun _ => rfl
  | cons e es ih =>
      intro n
      rw [eventRows, List.map_cons, ih]
      rfl

/-- What is stored of a run, against its progress. -/
structure Persisted (pr : Progress) (d : RunSlice) (worker : Option (WorkerPoint μ)) : Prop where
  batched : match worker with
    | none => pr = .start
    | some p => p.Batched pr
  stored : ∀ row, d.row = some row →
    d.events = eventRows 0 pr.flushed ∧ row.simTimeNow = pr.simTimeNow
  returned : worker = some .returned → ∀ row, d.row = some row → row.status ≠ .failed →
    pr.flushed = pr.emitted

/-- A step that commits no chunk flushes nothing. -/
theorem Progress.next_of_flushes {pr : Progress} {p p' : WorkerPoint μ}
    (hquiet : p.flushes env.spur p' = none) : (pr.next env.spur p p').flushed = pr.flushed ∧
      (pr.next env.spur p p').simTimeNow = pr.simTimeNow := by
  unfold Progress.next
  rw [hquiet]
  cases p <;> exact ⟨rfl, rfl⟩

private theorem stored_of_quiet {pr : Progress} {p p' : WorkerPoint μ} {row : SimulationRunRow}
    {events : List RunEventRow}
    (h : events = eventRows 0 pr.flushed ∧ row.simTimeNow = pr.simTimeNow)
    (hquiet : p.flushes env.spur p' = none) :
    events = eventRows 0 (pr.next env.spur p p').flushed ∧
      row.simTimeNow = (pr.next env.spur p p').simTimeNow := by
  rw [(Progress.next_of_flushes hquiet).1, (Progress.next_of_flushes hquiet).2]
  exact h

private theorem stored_of_move {pr : Progress} {project : Option ProjectRow} {io : Io}
    {p p' : WorkerPoint μ} {row row' : SimulationRunRow} {events : List RunEventRow}
    {db' : RunSlice} (hok : p.Ok env.spur row events) (hbatch : p.Batched pr)
    (h : events = eventRows 0 pr.flushed ∧ row.simTimeNow = pr.simTimeNow)
    (hmove : WorkerMove env project io ⟨some row, events⟩ p p' db')
    (hrow' : db'.row = some row') :
    db'.events = eventRows 0 (pr.next env.spur p p').flushed ∧
      row'.simTimeNow = (pr.next env.spur p p').simTimeNow := by
  cases hmove with
  | marked hcommit =>
      rw [commitRun_ok hcommit, flush_markRunning hok.2.2.1.same] at hrow' ⊢
      rw [Option.some.injEq] at hrow'
      have hsame : row'.simTimeNow = row.simTimeNow := by rw [← hrow']; rfl
      rw [List.append_nil, hsame]
      exact stored_of_quiet h rfl
  | handled _ hcommit =>
      rw [commitRun_ok hcommit, flush_markFailed hok.2.same] at hrow' ⊢
      rw [Option.some.injEq] at hrow'
      have hsame : row'.simTimeNow = row.simTimeNow := by rw [← hrow']; rfl
      rw [List.append_nil, hsame]
      exact stored_of_quiet h rfl
  | finished hcommit =>
      rw [commitRun_ok hcommit, flush_markFinished hok.2.1.same] at hrow' ⊢
      rw [Option.some.injEq] at hrow'
      have hsame : row'.simTimeNow = row.simTimeNow := by rw [← hrow']; rfl
      rw [List.append_nil, hsame]
      exact stored_of_quiet h rfl
  | @flushed w w' l place _ hchunk =>
      obtain ⟨-, hcopy, -, -, -, -⟩ := hok
      obtain ⟨-, rfl⟩ := onChunk_ok hcopy.same hchunk
      rw [Option.some.injEq] at hrow'
      subst hrow'
      obtain ⟨hbatch, hseq⟩ := hbatch
      rw [Progress.next, flushes_settle]
      refine ⟨?_, rfl⟩
      rw [← show pr.flushed ++ l.eventsBatch = pr.emitted from hbatch, eventRows_append, h.1, hseq,
        Nat.zero_add]
  | advanced hask hflush =>
      rw [Option.some.injEq] at hrow'
      exact hrow' ▸ stored_of_quiet h (flushes_running hflush)
  | _ =>
      rw [Option.some.injEq] at hrow'
      exact hrow' ▸ stored_of_quiet h rfl

/-- The invocation returns after the commit of the failure, or of the outcome. -/
private theorem returned_of_move {pr : Progress} {project : Option ProjectRow} {io : Io}
    {p : WorkerPoint μ} {row row' : SimulationRunRow} {events : List RunEventRow}
    {db' : RunSlice} (hok : p.Ok env.spur row events) (hbatch : p.Batched pr)
    (hmove : WorkerMove env project io ⟨some row, events⟩ p .returned db')
    (hrow' : db'.row = some row') (hstatus : row'.status ≠ .failed) :
    (pr.next env.spur p .returned).flushed = (pr.next env.spur p .returned).emitted := by
  generalize hp' : (WorkerPoint.returned : WorkerPoint μ) = p' at hmove
  cases hmove with
  | handled _ hcommit =>
      rw [commitRun_ok hcommit, flush_markFailed hok.2.same, Option.some.injEq] at hrow'
      exact absurd (by rw [← hrow']; rfl) hstatus
  | finished => exact hbatch
  | @flushed w w' l place =>
      exfalso
      cases place with
      | chunk =>
          simp only [RunPoint.flushed, Loop.head] at hp'
          split at hp' <;> simp [WorkerSession.settle] at hp'
      | cancelled | final => simp [RunPoint.flushed, WorkerSession.settle] at hp'
  | @advanced w q =>
      exfalso
      generalize w.runner.advance env.spur env.settings io.entropy q = q₁ at hp'
      cases q₁ <;> simp [WorkerSession.settle] at hp'
  | _ => simp at hp'

/-! ### The service -/

variable {s₀ s s' : State μ} {a : Action} {run : Uuid} {tr : List (Entry (State μ) Action)}

theorem progress_snoc (e : Entry (State μ) Action) :
    progress env run (tr ++ [e]) = (progress env run tr).entry env run e := by
  rw [progress, List.foldl_append]
  rfl

/-- A step that is not the worker's. -/
theorem Progress.entry_other {pr : Progress} {e : Entry (State μ) Action}
    (h : ∀ io, e.act ≠ .work run io) : pr.entry env run e = pr := by
  unfold Progress.entry
  split
  · rename_i run' io hact
    split
    · rename_i heq
      exact absurd (heq ▸ hact) (h io)
    · rfl
  · rfl

theorem Progress.entry_work {pr : Progress} {io : Io} {p p' : WorkerPoint μ}
    (hp : s.workers run = some p) (hp' : s'.workers run = some p') :
    pr.entry env run ⟨s, .work run io, s'⟩ = pr.next env.spur p p' := by
  simp only [Progress.entry, hp, hp', if_true]

/-- **What is stored of a run is its progress**, in every state that is reached. -/
theorem persisted_of_exec (h₀ : s₀.Initial) (h : Exec (system env) s₀ tr s) (run : Uuid) :
    Persisted (progress env run tr) (s.slice run) (s.workers run) := by
  induction h with
  | nil =>
      have hnone : (s₀.slice run).row = none := h₀.runs run
      refine ⟨?_, by simp [hnone], by simp [h₀.workers]⟩
      rw [h₀.workers]
      rfl
  | @snoc tr s s' a h hstep ih =>
      have hok := RunsOk.exec h₀ h
      rw [progress_snoc]
      cases step_run hok.apart hstep run with
      | client hact hworker ht =>
          rw [Progress.entry_other hact, hworker]
          generalize s.slice run = d at ih ht
          generalize s'.slice run = d' at ht
          cases ht with
          | same => exact ih
          | deleted => exact ⟨ih.batched, by simp [RunSlice.blank], by simp [RunSlice.blank]⟩
          | @edited row row' events hedit =>
              have hnow : row'.simTimeNow = row.simTimeNow := by rw [hedit.same]
              have hstatus : row'.status = row.status := by rw [hedit.same]
              refine ⟨ih.batched, fun row'' hrow'' => ?_, fun hw row'' hrow'' => ?_⟩
              all_goals
                rw [Option.some.injEq] at hrow''
                subst hrow''
              · rw [hnow]
                exact ih.stored row rfl
              · rw [hstatus]
                exact ih.returned hw row rfl
      | @inserted r project body rows sub hact hreq hsub _ _ hworker hworker' hslice =>
          have hstart : progress env run tr = .start := by
            have hbatched := ih.batched
            rwa [hworker] at hbatched
          rw [Progress.entry_other hact, hworker', hslice, hstart]
          refine ⟨rfl, fun row hrow => ?_, by simp⟩
          rw [Option.some.injEq] at hrow
          subst hrow
          obtain ⟨read, hnew⟩ := hok.pending r project body rows hreq sub hsub
          exact ⟨rfl, hnew.isQueued.simTimeNow⟩
      | delivered ha _ hworker hworker' hslice =>
          have hact : ∀ io, a ≠ .work run io := by simp [ha]
          have hbatched := ih.batched
          rw [hworker] at hbatched
          rw [Progress.entry_other hact, hworker', hslice]
          exact ⟨hbatched, ih.stored, by simp⟩
      | @worked io p p' ha hp hp' hpstep =>
          subst ha
          rw [Progress.entry_work hp hp', hp']
          have hmove := workerMove_of_step hpstep
          have hbatched := ih.batched
          have hrun := hok.runs run
          have hstored := ih.stored
          rw [hp] at hbatched hrun
          generalize s.slice run = d at hmove hrun hstored
          generalize s'.slice run = d' at hmove
          obtain ⟨_ | row, events⟩ := d
          · rw [hmove.row_none]
            exact ⟨hbatched.step hmove, by simp, by simp⟩
          · obtain ⟨-, hpok⟩ := hrun row rfl
            refine ⟨hbatched.step hmove, fun row' hrow' => ?_, fun hret row' hrow' hstatus => ?_⟩
            · exact stored_of_move hpok hbatched (hstored row rfl) hmove hrow'
            · rw [Option.some.injEq] at hret
              subst hret
              exact returned_of_move hpok hbatched hmove hrow' hstatus

end

end SpurApi
