/-
Concurrent writers of a run's row.

Four kinds of sessions hold copies of a row and flush them: the submission, its worker, renames
and cancel requests.  No two kinds assign the same column, so each column is a register with
writers of one kind, and what it holds is read off the history of those writers alone: the
worker's five columns from its own steps, the name from the renames that issued an `UPDATE`,
the flag from the cancel requests, the job id from the submission.
-/
import SpurApi.Proofs.Cancellation
import SpurApi.Proofs.ClientWrites
import SpurApi.Proofs.Finality
import SpurApi.Proofs.Origins
import SpurApi.Proofs.Progress

namespace SpurApi

open Transition

/-! ### What the worker wrote -/

/-- The columns that the worker writes. -/
structure WorkerColumns where
  status : RunStatus
  startedAt : Option Time
  simTimeNow : Option Int
  errorMessage : Option String
  finishedAt : Option Time

def SimulationRunRow.workerColumns (row : SimulationRunRow) : WorkerColumns :=
  ⟨row.status, row.startedAt, row.simTimeNow, row.errorMessage, row.finishedAt⟩

/-- What a submission gives them. -/
def WorkerColumns.queued : WorkerColumns := ⟨.queued, none, none, none, none⟩

/-- What a step of the worker commits, read off the points it leads from and to. -/
def WorkerColumns.next {μ : Type} (spur : Spur μ) (io : Io) (c : WorkerColumns)
    (p p' : WorkerPoint μ) : WorkerColumns :=
  match p, p' with
  | .marking _ _, .running _ _ => { c with status := .running, startedAt := some io.now }
  | .handling _ e, .returned =>
      { c with status := .failed, errorMessage := some e.text, finishedAt := some io.now }
  | .finishing _ outcome, .returned =>
      { c with status := outcome.status, finishedAt := some io.now }
  | p, p' =>
      match p.flushes spur p' with
      | some t => { c with simTimeNow := some t }
      | none => c

section

variable {μ : Type} {env : Env μ} {s₀ m s s' : State μ} {a : Action} {run : Uuid}
  {tr tr₁ tr₂ : List (Entry (State μ) Action)} {row row' : SimulationRunRow} {r : RequestId}

def WorkerColumns.entry (env : Env μ) (run : Uuid) (c : WorkerColumns)
    (e : Entry (State μ) Action) : WorkerColumns :=
  match e.act with
  | .work run' io =>
      if run' = run then
        match e.pre.workers run, e.post.workers run with
        | some p, some p' => c.next env.spur io p p'
        | _, _ => c
      else c
  | _ => c

/-- What the worker of the run last committed to its columns in a history. -/
def workerWrote (env : Env μ) (run : Uuid) (tr : List (Entry (State μ) Action)) :
    WorkerColumns := tr.foldl (WorkerColumns.entry env run) .queued

theorem workerWrote_snoc (e : Entry (State μ) Action) :
    workerWrote env run (tr ++ [e]) = (workerWrote env run tr).entry env run e := by
  rw [workerWrote, List.foldl_append]
  rfl

theorem WorkerColumns.entry_other {c : WorkerColumns} {e : Entry (State μ) Action}
    (h : ∀ io, e.act ≠ .work run io) : c.entry env run e = c := by
  unfold WorkerColumns.entry
  split
  · rename_i run' io hact
    split
    · rename_i heq
      exact absurd (heq ▸ hact) (h io)
    · rfl
  · rfl

theorem WorkerColumns.entry_work {c : WorkerColumns} {io : Io} {p p' : WorkerPoint μ}
    (hp : s.workers run = some p) (hp' : s'.workers run = some p') :
    c.entry env run ⟨s, .work run io, s'⟩ = c.next env.spur io p p' := by
  simp only [entry, hp, hp', if_true]

theorem SameButClient.workerColumns (h : SameButClient row row') :
    row'.workerColumns = row.workerColumns := by
  rw [h]
  rfl

theorem WorkerColumns.next_quiet {spur : Spur μ} {io : Io} {c : WorkerColumns}
    {p p' : WorkerPoint μ} (hmark : ∀ copy spec, p ≠ .marking copy spec)
    (hended : p' ≠ .returned) (hquiet : p.flushes spur p' = none) : c.next spur io p p' = c := by
  unfold next
  split
  · exact absurd rfl (hmark _ _)
  · exact absurd rfl hended
  · exact absurd rfl hended
  · rw [hquiet]

/-- The runner goes on, so the invocation has not returned. -/
theorem settle_ne_returned (w : WorkerSession) (q : RunPoint μ) : w.settle q ≠ .returned := by
  cases q <;> simp [WorkerSession.settle]

/-- **The worker's commits write what it means to write**, whatever clients did to the row. -/
theorem WorkerMove.workerColumns {project : Option ProjectRow} {io : Io} {p p' : WorkerPoint μ}
    {events : List RunEventRow} {d : RunSlice} (hcopies : p.Copies row)
    (hmove : WorkerMove env project io ⟨some row, events⟩ p p' d) (hrow' : d.row = some row') :
    row'.workerColumns = row.workerColumns.next env.spur io p p' := by
  cases hmove with
  | marked hcommit =>
      rw [commitRun_ok hcommit, flush_markRunning hcopies, Option.some.injEq] at hrow'
      rw [← hrow']
      rfl
  | handled _ hcommit =>
      rw [commitRun_ok hcommit, flush_markFailed hcopies, Option.some.injEq] at hrow'
      rw [← hrow']
      rfl
  | finished hcommit =>
      rw [commitRun_ok hcommit, flush_markFinished hcopies, Option.some.injEq] at hrow'
      rw [← hrow']
      rfl
  | @flushed w w' l place _ hchunk =>
      obtain ⟨-, rfl⟩ := onChunk_ok hcopies hchunk
      rw [Option.some.injEq] at hrow'
      rw [← hrow']
      have hnext : row.workerColumns.next env.spur io (.running w (.flushing l place))
          (w'.settle ((RunPoint.flushing l place).flushed env.spur)) =
            { row.workerColumns with simTimeNow := some (env.spur.now l.model) } := by
        unfold WorkerColumns.next
        split
        · simp at *
        · simp at *
        · simp at *
        · rw [flushes_settle]
      rw [hnext]
      rfl
  | advanced hask hflush =>
      rw [Option.some.injEq] at hrow'
      rw [← hrow', WorkerColumns.next_quiet (by simp) (settle_ne_returned _ _)
        (flushes_running hflush)]
  | _ =>
      rw [Option.some.injEq] at hrow'
      rw [← hrow']
      rfl

/-- **The worker's columns hold what the worker last committed.** -/
theorem workerColumns_of_exec (h₀ : s₀.Initial) (h : Exec (system env) s₀ tr s) :
    (s.workers run = none → workerWrote env run tr = .queued) ∧
      ∀ row, (s.slice run).row = some row → row.workerColumns = workerWrote env run tr := by
  induction h with
  | nil =>
      have hnone : (s₀.slice run).row = none := h₀.runs run
      exact ⟨fun _ => rfl, by simp [hnone]⟩
  | @snoc tr s s' a h hstep ih =>
      obtain ⟨hnone, hcolumns⟩ := ih
      have hok := RunsOk.exec h₀ h
      rw [workerWrote_snoc]
      refine ⟨fun hworker' => ?_, fun row' hrow' => ?_⟩
      · cases step_run hok.apart hstep run with
        | client hact hworker =>
            rw [WorkerColumns.entry_other hact]
            exact hnone (hworker ▸ hworker')
        | inserted hact _ _ _ _ hworker =>
            rw [WorkerColumns.entry_other hact]
            exact hnone hworker
        | delivered _ _ _ hsome | worked _ _ hsome => simp [hworker'] at hsome
      · cases run_change hok hstep hrow' with
        | inserted hact _ _ _ _ hnew _ hworker =>
            rw [WorkerColumns.entry_other hact, hnone hworker]
            obtain ⟨_, _, _, _, rfl⟩ := hnew
            rfl
        | edited hact hrow _ _ hedit =>
            rw [WorkerColumns.entry_other hact, ← hcolumns _ hrow]
            exact hedit.same.workerColumns
        | delivered hact _ _ hslice =>
            rw [WorkerColumns.entry_other hact]
            exact hcolumns row' (hslice ▸ hrow')
        | worked ha hrow hp hp' hpok hmove =>
            subst ha
            rw [WorkerColumns.entry_work hp hp', ← hcolumns _ hrow]
            exact hmove.workerColumns hpok.copies hrow'

/-! ### Names -/

/-- The name that an entry writes to the run: a rename is committed, and its copy has another
name, so that an `UPDATE` is issued. -/
def renameOf (run : Uuid) (e : Entry (State μ) Action) : Option (Option String) :=
  match e.act with
  | .request r _ =>
      match e.pre.requests r, e.post.requests r with
      | some (.editRun run' (.rename name) (.loaded copy)), some (.editRun _ _ .committed) =>
          if run' = run ∧ copy.name ≠ name then some name else none
      | _, _ => none
  | _ => none

/-- The names that renames wrote to the run, in the order of their commits. -/
def renames (run : Uuid) (tr : List (Entry (State μ) Action)) : List (Option String) :=
  tr.filterMap (renameOf run)

theorem renames_snoc (e : Entry (State μ) Action) (name : Option String) :
    (renames run (tr ++ [e])).getLastD name =
      (renameOf run e).getD ((renames run tr).getLastD name) := by
  rw [renames, List.filterMap_append]
  cases hname : renameOf run e with
  | none => simp [hname, renames]
  | some name => simp [hname]

/-- An edit stays the edit it is. -/
theorem editRun_step {io : Io} {edit : RunEdit} {q : EditRun} {q' : Request}
    (hstep : s.step env (.request r io) = some s')
    (hreq : s.requests r = some (.editRun run edit q)) (hreq' : s'.requests r = some q') :
    ∃ q₁, q' = .editRun run edit q₁ := by
  obtain ⟨q₂, hqstep, hreq₂⟩ := step_of_request hstep hreq
  rw [hreq', Option.some.injEq] at hreq₂
  subst hreq₂
  simp only [Request.step, Option.map_eq_some_iff, Prod.exists, Prod.mk.injEq] at hqstep
  obtain ⟨q₁, _, _, rfl, _⟩ := hqstep
  exact ⟨q₁, rfl⟩

theorem renameOf_none (hstep : s.step env a = some s')
    (h : ∀ edit copy, ¬ EditCommits s a s' run edit copy) : renameOf run ⟨s, a, s'⟩ = none := by
  unfold renameOf
  split
  · rename_i r io ha
    split
    · rename_i run' name copy run₁ edit₁ hpre hpost
      split
      · rename_i hname
        obtain ⟨rfl, -⟩ := hname
        simp only at ha hpre hpost
        subst ha
        obtain ⟨q₁, heq⟩ := editRun_step hstep hpre hpost
        rw [Request.editRun.injEq] at heq
        obtain ⟨rfl, rfl, -⟩ := heq
        exact absurd ⟨r, io, rfl, hpre, hpost⟩ (h (.rename name) copy)
      · rfl
    · rfl
  · rfl

theorem renameOf_edit {edit : RunEdit} {copy : SimulationRunRow}
    (h : EditCommits s a s' run edit copy) (stored : SimulationRunRow) :
    (SimulationRunRow.flush copy (edit.apply copy) stored).name =
      (renameOf run ⟨s, a, s'⟩).getD stored.name := by
  obtain ⟨r, io, rfl, hpre, hpost⟩ := h
  cases edit with
  | cancel =>
      simp only [renameOf, hpre, RunEdit.apply, SimulationRunRow.flush_cancel, Option.getD_none]
  | rename name =>
      simp only [renameOf, hpre, hpost, RunEdit.apply, SimulationRunRow.flush_name, true_and]
      by_cases hname : copy.name = name
      · simp [Column.flush, hname]
      · simp [Column.flush, hname, Ne.symm hname]

/-- What a step of its worker writes to a run that stays. -/
private theorem write_of_work (hok : RunsOk env.spur s) {io : Io}
    (hstep : s.step env (.work run io) = some s') (hrow : (s.slice run).row = some row)
    (hrow' : (s'.slice run).row = some row') : ∃ p : WorkerPoint μ, WorkerWrite row p row' := by
  cases run_change hok hstep hrow' with
  | inserted hact | edited hact | delivered hact => exact absurd rfl (hact io)
  | worked _ hold _ _ hpok hmove =>
      rw [hrow, Option.some.injEq] at hold
      subst hold
      exact ⟨_, hmove.write hpok.copies hrow'⟩

/-- **A step writes the name that a rename commits in it**, and no other. -/
theorem name_step (hok : RunsOk env.spur s) (hstep : s.step env a = some s')
    (hrow : (s.slice run).row = some row) (hrow' : (s'.slice run).row = some row') :
    row'.name = (renameOf run ⟨s, a, s'⟩).getD row.name := by
  rcases a.client_or_work run with hact | ⟨io, rfl⟩
  · cases client_write hok.apart hstep hact hrow with
    | same hquiet h =>
        rw [h, hrow, Option.some.injEq] at hrow'
        rw [renameOf_none hstep hquiet, ← hrow']
        rfl
    | edited hedit h =>
        rw [h, Option.some.injEq] at hrow'
        rw [← hrow']
        exact renameOf_edit hedit row
    | recorded hquiet _ h =>
        rw [h, Option.some.injEq] at hrow'
        rw [renameOf_none hstep hquiet, ← hrow', assigned_eq, SimulationRunRow.flush_jobId]
        rfl
    | deleted hdeleted =>
        rw [(hdeleted.gone hok.apart hstep).row_none] at hrow'
        simp at hrow'
  · obtain ⟨p, hwrite⟩ := write_of_work hok hstep hrow hrow'
    have hname : row'.name = row.name := by cases hwrite <;> rfl
    simpa [renameOf] using hname

/-- Nobody has renamed a run whose insert is due. -/
theorem renames_of_pending (h₀ : s₀.Initial) (h : Exec (system env) s₀ tr s) {q : Request}
    (hreq : s.requests r = some q) (hpending : run ∈ q.pending) : renames run tr = [] := by
  rw [renames, List.filterMap_eq_nil_iff]
  intro e he
  obtain ⟨tr₁, tr₂, rfl, hpre, hstep, hrest⟩ := h.of_mem he
  refine renameOf_none hstep fun edit copy hedit => ?_
  obtain ⟨r', io, -, hloaded, -⟩ := hedit
  have hnot := (knowsFlag_of_exec h₀ hpre r' run edit copy hloaded).1
  exact ((hnot.step hstep).exec hrest).2 r q hreq hpending

/-- **The name of a run** is the submitted one, or that of the last rename that issued an
`UPDATE`. -/
theorem name_of_exec (h₀ : s₀.Initial) (h : Exec (system env) s₀ tr s) :
    ∀ row, (s.slice run).row = some row → ∃ r project body q,
      s.requests r = some (.submitRun project body q) ∧ CreatedBy tr r run ∧
        row.name = (renames run tr).getLastD body.name := by
  induction h with
  | nil =>
      intro row hrow
      exact (h₀.not_row hrow).elim
  | @snoc tr s s' a h hstep ih =>
      intro row' hrow'
      have hok := RunsOk.exec h₀ h
      have hstep : s.step env a = some s' := hstep
      cases hold : (s.slice run).row with
      | some row =>
          obtain ⟨r, project, body, q, hreq, hcreated, hname⟩ := ih row hold
          obtain ⟨q', hreq'⟩ := submitRun_step hstep hreq
          refine ⟨r, project, body, q', hreq', hcreated.snoc, ?_⟩
          rw [name_step hok hstep hold hrow', hname, renames_snoc]
      | none =>
          cases run_change hok hstep hrow' with
          | edited _ hrow | worked _ hrow => simp [hold] at hrow
          | delivered _ _ _ hslice =>
              rw [hslice, hold] at hrow'
              simp at hrow'
          | @inserted r project body rows sub _ hact hreq hsub hid hrow =>
              have hmem : run ∈ rows.map Submitted.id := List.mem_map.mpr ⟨sub, hsub, hid⟩
              have hsome : (s'.slice run).row.isSome := by rw [hrow']; rfl
              obtain ⟨io, rfl⟩ := request_of_created hok.apart hstep hreq hmem hsome
              obtain ⟨q', hreq'⟩ := submitRun_step hstep hreq
              refine ⟨r, project, body, q', hreq', ⟨_, List.mem_append_right _
                (List.mem_singleton.mpr rfl), io, rfl, hold, hsome⟩, ?_⟩
              have hquiet : ∀ edit copy, ¬ EditCommits s (.request r io) s' run edit copy := by
                rintro edit copy ⟨r', io', ha, hedit, -⟩
                rw [Action.request.injEq] at ha
                rw [← ha.1, hreq] at hedit
                simp at hedit
              rw [renames_snoc, renameOf_none hstep hquiet, renames_of_pending h₀ h hreq hmem]
              obtain ⟨e, -, w, -, rfl⟩ := built_of_inserting h₀ h hreq
              obtain ⟨_, _, -, rfl⟩ := Build.mem_rows_iff.mp hsub
              rw [← hrow]
              rfl

/-! ### Job ids -/

/-- Nobody has recorded a job id of the run. -/
def Submitted.Clear (s : State μ) (sub : Submitted) : Prop :=
  sub.row.arqJobId = none ∧ ∀ row, (s.slice sub.id).row = some row → row.arqJobId = none

/-- The run has its job, and the copy its id. -/
def Submitted.HasJob (s : State μ) (sub : Submitted) : Prop :=
  ∃ jobId, sub.jobId = some jobId ∧ ⟨jobId, sub.id⟩ ∈ s.backend.jobs

/-- The row of the run, if it is there, has the id of a job of the run. -/
def Recorded (s : State μ) (id : Uuid) : Prop :=
  ∀ row, (s.slice id).row = some row →
    ∃ j ∈ s.backend.jobs, j.run = id ∧ row.arqJobId = some j.id

/-- What a submission has recorded, by the point it is at. -/
def SubmitRun.Records (tr : List (Entry (State μ) Action)) (s : State μ) (r : RequestId) :
    SubmitRun → Prop
  | .received | .inserting _ | .answered (.error _) => True
  | .refreshing done next todo | .enqueueing done next todo =>
      (∀ sub ∈ done ++ next :: todo, sub.Clear s) ∧ ∀ sub ∈ done, sub.HasJob s
  | .recording rows => (∀ sub ∈ rows, sub.Clear s) ∧ ∀ sub ∈ rows, sub.HasJob s
  | .reloading _ | .answered (.ok _) => ∀ id, CreatedBy tr r id → Recorded s id

theorem SubmitRun.records_loop {done todo : List Submitted}
    (hclear : ∀ sub ∈ done ++ todo, sub.Clear s) (hjobs : ∀ sub ∈ done, sub.HasJob s) :
    (SubmitRun.loop done todo).Records tr s r := by
  cases todo with
  | nil => exact ⟨fun sub hsub => hclear sub (List.mem_append_left _ hsub), hjobs⟩
  | cons next todo => exact ⟨hclear, hjobs⟩

/-- A step writes the job id of a run only if a submission commits it. -/
theorem jobId_step (hok : RunsOk env.spur s) (hstep : s.step env a = some s')
    (hquiet : ∀ sub, ¬ JobIdCommits s a run sub) (hrow : (s.slice run).row = some row)
    (hrow' : (s'.slice run).row = some row') : row'.arqJobId = row.arqJobId := by
  rcases a.client_or_work run with hact | ⟨io, rfl⟩
  · cases client_write hok.apart hstep hact hrow with
    | same _ h =>
        rw [h, hrow, Option.some.injEq] at hrow'
        rw [hrow']
    | @edited edit copy _ h =>
        rw [h, Option.some.injEq] at hrow'
        rw [← hrow']
        cases edit with
        | rename name => rw [RunEdit.apply, SimulationRunRow.flush_name]
        | cancel => rw [RunEdit.apply, SimulationRunRow.flush_cancel]
    | recorded _ hrecords => exact absurd hrecords (hquiet _)
    | deleted hdeleted =>
        rw [(hdeleted.gone hok.apart hstep).row_none] at hrow'
        simp at hrow'
  · obtain ⟨p, hwrite⟩ := write_of_work hok hstep hrow hrow'
    cases hwrite <;> rfl

theorem jobs_mono (hstep : s.step env a = some s') {j : Job} (h : j ∈ s.backend.jobs) :
    j ∈ s'.backend.jobs := by
  cases jobs_step hstep with
  | same hsame => rwa [hsame]
  | enqueued _ _ _ happended =>
      rw [happended]
      exact List.mem_append_left _ h

theorem Submitted.HasJob.step {sub : Submitted} (h : sub.HasJob s)
    (hstep : s.step env a = some s') : sub.HasJob s' := by
  obtain ⟨jobId, hjob, hmem⟩ := h
  exact ⟨jobId, hjob, jobs_mono hstep hmem⟩

theorem Submitted.Clear.step {sub : Submitted} (h : sub.Clear s) (hok : RunsOk env.spur s)
    (hstep : s.step env a = some s') (hquiet : ∀ sub', ¬ JobIdCommits s a sub.id sub') :
    sub.Clear s' := by
  refine ⟨h.1, fun row' hrow' => ?_⟩
  cases hold : (s.slice sub.id).row with
  | some row => exact (jobId_step hok hstep hquiet hold hrow').trans (h.2 row hold)
  | none =>
      cases run_change hok hstep hrow' with
      | inserted _ _ _ _ _ hnew =>
          obtain ⟨_, _, _, _, rfl⟩ := hnew
          rfl
      | edited _ hrow | worked _ hrow => simp [hold] at hrow
      | delivered _ _ _ hslice =>
          rw [hslice, hold] at hrow'
          simp at hrow'

theorem Recorded.step {id : Uuid} (h : Recorded s id) (hok : RunsOk env.spur s)
    (hnot : NotPending s id) (hstep : s.step env a = some s')
    (hquiet : ∀ sub, ¬ JobIdCommits s a id sub) : Recorded s' id := by
  intro row' hrow'
  obtain ⟨row, hrow⟩ := row_of_step hok.toRunsApart hnot hstep hrow'
  obtain ⟨j, hj, hrun, hid⟩ := h row hrow
  exact ⟨j, jobs_mono hstep hj, hrun, (jobId_step hok hstep hquiet hrow hrow').trans hid⟩

/-- Only the request that holds a run commits its job id. -/
theorem not_jobIdCommits {id : Uuid} (hheld : HeldBy s r id) (hact : ∀ io, a ≠ .request r io)
    (sub : Submitted) : ¬ JobIdCommits s a id sub := by
  rintro ⟨r', io, project, body, rows, ha, hreq, hsub, rfl⟩
  have hr : r' ≠ r := by
    rintro rfl
    exact hact io ha
  exact hheld.2 r' hr _ hreq (List.mem_map_of_mem hsub)

/-- A request that holds a run holds it alone. -/
theorem IdsApart.heldBy (h : IdsApart s) {q : Request} (hreq : s.requests r = some q) {id : Uuid}
    (hid : id ∈ q.ids) : HeldBy s r id :=
  ⟨h.ids r q hreq id hid, fun r' hr q' hreq' => h.disjoint r r' q q' (Ne.symm hr) hreq hreq' id hid⟩

/-- A step of somebody else. -/
private theorem SubmitRun.Records.other {project : Uuid} {body : RunCreate} {q : SubmitRun}
    (h : q.Records tr s r) (hreq : s.requests r = some (.submitRun project body q))
    (htracks : q.Tracks tr s r body.seeds) (hok : RunsOk env.spur s)
    (hact : ∀ io, a ≠ .request r io) (hstep : s.step env a = some s') :
    q.Records (tr ++ [⟨s, a, s'⟩]) s' r := by
  have hclear : ∀ sub : Submitted, sub.id ∈ q.ids → sub.Clear s → sub.Clear s' := by
    intro sub hid hsub
    exact hsub.step hok hstep (not_jobIdCommits (hok.apart.heldBy hreq hid) hact)
  have hrecorded : (∃ ids, Batch tr s r body.seeds ids []) → q.ids = [] →
      (∀ id, CreatedBy tr r id → Recorded s id) →
        ∀ id, CreatedBy (tr ++ [⟨s, a, s'⟩]) r id → Recorded s' id := by
    rintro ⟨ids, hbatch⟩ hnone hall id hcreated
    rw [createdBy_snoc_iff fun hown => hact _ hown.choose_spec.1] at hcreated
    have hheld := hbatch.held id ((hbatch.created id).mp hcreated)
    have hnot : NotPending s id := by
      refine ⟨hheld.1, fun r' q' hreq' hpending => ?_⟩
      by_cases hr : r' = r
      · subst hr
        rw [hreq, Option.some.injEq] at hreq'
        subst hreq'
        have hid : id ∈ q.ids := Request.pending_subset _ hpending
        simp [hnone] at hid
      · exact hheld.2 r' hr q' hreq' (q'.pending_subset hpending)
    exact (hall id hcreated).step hok hnot hstep (not_jobIdCommits hheld hact)
  cases q with
  | received | inserting => trivial
  | refreshing done next todo | enqueueing done next todo =>
      exact ⟨fun sub hsub => hclear sub (List.mem_map_of_mem hsub) (h.1 sub hsub),
        fun sub hsub => (h.2 sub hsub).step hstep⟩
  | recording rows =>
      exact ⟨fun sub hsub => hclear sub (List.mem_map_of_mem hsub) (h.1 sub hsub),
        fun sub hsub => (h.2 sub hsub).step hstep⟩
  | reloading id => exact hrecorded htracks.2 rfl h
  | answered answer =>
      cases answer with
      | ok run => exact hrecorded htracks.2 rfl h
      | error e => trivial

/-- What the commit of the job ids records. -/
private theorem recorded_of_commit {rows : List Submitted} {b' : Backend}
    (hclear : ∀ sub ∈ rows, sub.Clear s) (hjobs : ∀ sub ∈ rows, sub.HasJob s)
    (hnodup : (rows.map Submitted.id).Nodup) (hb : s'.backend = b')
    (hcommit : s.backend.commitJobIds rows = .ok b') {sub : Submitted} (hsub : sub ∈ rows) :
    Recorded s' sub.id := by
  intro row' hrow'
  obtain ⟨jobId, hjob, hmem⟩ := hjobs sub hsub
  have hslice := (commitJobIds_runs hcommit hnodup).2 sub hsub
  have hrow : (s.backend.db.runs sub.id).map (SimulationRunRow.flush sub.row sub.assigned) =
      some row' := by
    rw [State.slice, hb] at hrow'
    exact (congrArg RunSlice.row hslice).symm.trans hrow'
  obtain ⟨row, hold, rfl⟩ := Option.map_eq_some_iff.mp hrow
  obtain ⟨hcopy, hstored⟩ := hclear sub hsub
  refine ⟨⟨jobId, sub.id⟩, ?_, rfl, ?_⟩
  · rw [hb, commitJobIds_jobs hcommit]
    exact hmem
  · rw [Submitted.assigned, hjob, SimulationRunRow.flush_jobId]
    simp [hcopy, Column.flush]

/-- A step of the request itself. -/
private theorem SubmitRun.Records.own {io : Io} {project : Uuid} {body : RunCreate}
    {q q' : SubmitRun} (h : q.Records tr s r) (htracks : q.Tracks tr s r body.seeds)
    (hok : RunsOk env.spur s) (hreq : s.requests r = some (.submitRun project body q))
    (hstep : s.step env (.request r io) = some s')
    (hmove : SubmitMove env.spur env.settings project body io s.backend q q' s'.backend) :
    q'.Records (tr ++ [⟨s, .request r io, s'⟩]) s' r := by
  -- nothing is created by a request that is past its insert
  have hcreated : (∀ rows, q ≠ .inserting rows) → ∀ id,
      CreatedBy (tr ++ [⟨s, .request r io, s'⟩]) r id ↔ CreatedBy tr r id := by
    refine fun hq id => createdBy_snoc_iff ?_
    rintro ⟨_, -, hpre, hpost⟩
    obtain ⟨project', body', rows, hreq', -⟩ := inserting_of_created hok.apart hstep hpre hpost
    rw [hreq, Option.some.injEq, Request.submitRun.injEq] at hreq'
    exact hq rows hreq'.2.2
  generalize hb : s'.backend = b' at hmove
  have hslice : ∀ id, s'.backend.slice id = b'.slice id := fun id => by rw [hb]
  cases hmove with
  | missing | invalid | noTarget | built | unstorable | insertRefused | flushRaised
  | refreshRaised | enqueueRaised | commitRaised | reloadFailed => trivial
  | @inserted rows =>
      refine SubmitRun.records_loop (fun sub hsub => ?_) (by simp)
      obtain ⟨read, hnew⟩ := hok.pending r project body rows hreq sub hsub
      have hnone : sub.row.arqJobId = none := by
        obtain ⟨_, _, _, _, hrow⟩ := hnew
        rw [hrow]
        rfl
      refine ⟨hnone, fun row' hrow' => ?_⟩
      have hset := (hslice sub.id).trans
        (insertRuns_of_mem hsub (hok.apart.nodup r _ hreq))
      have hrow := (congrArg RunSlice.row hset).symm.trans hrow'
      simp only [Option.some.injEq] at hrow
      rw [← hrow, hnone]
  | @refreshed done todo next row _ hrow =>
      have hkept : ∀ sub : Submitted, sub.Clear s → sub.Clear s' := fun sub hsub =>
        ⟨hsub.1, fun row' hrow' => hsub.2 row' (by rw [State.slice, ← hb]; exact hrow')⟩
      refine ⟨fun sub hsub => ?_, fun sub hsub => ?_⟩
      · rcases List.mem_append.mp hsub with hsub | hsub
        · exact hkept sub (h.1 sub (List.mem_append_left _ hsub))
        · rcases List.mem_cons.mp hsub with rfl | hsub
          · have hnext := h.1 next (by simp)
            exact ⟨hnext.2 row hrow, (hkept next hnext).2⟩
          · exact hkept sub (h.1 sub (by simp [hsub]))
      · exact (h.2 sub hsub).step hstep
  | @enqueued done todo next =>
      have hkept : ∀ sub : Submitted, sub.Clear s → sub.Clear s' := fun sub hsub =>
        ⟨hsub.1, fun row' hrow' => hsub.2 row' (by rw [State.slice, hb] at hrow'; exact hrow')⟩
      refine SubmitRun.records_loop (fun sub hsub => ?_) fun sub hsub => ?_
      · rw [List.append_assoc, List.singleton_append] at hsub
        rcases List.mem_append.mp hsub with hsub | hsub
        · exact hkept sub (h.1 sub (List.mem_append_left _ hsub))
        · rcases List.mem_cons.mp hsub with rfl | hsub
          · exact hkept next (h.1 next (by simp))
          · exact hkept sub (h.1 sub (by simp [hsub]))
      · rcases List.mem_append.mp hsub with hsub | hsub
        · exact (h.2 sub hsub).step hstep
        · rw [List.mem_singleton] at hsub
          exact ⟨io.jobId, by rw [hsub], by rw [hb, hsub]; simp⟩
  | @recorded sub rest _ hcommit =>
      intro id hid
      rw [hcreated (by simp)] at hid
      have hmem : id ∈ (sub :: rest).map Submitted.id := by
        simpa using (htracks.2.created id).mp hid
      obtain ⟨sub', hsub', rfl⟩ := List.mem_map.mp hmem
      exact recorded_of_commit h.1 h.2 (hok.apart.nodup r _ hreq) hb hcommit hsub'
  | reloaded =>
      intro id hid row' hrow'
      rw [hcreated (by simp)] at hid
      rw [State.slice, hb] at hrow'
      rw [hb]
      exact h id hid row' hrow'

/-- **What a submission has recorded**, in every state that is reached. -/
theorem SubmitRun.records (h₀ : s₀.Initial) (h : Exec (system env) s₀ tr s) :
    ∀ {project : Uuid} {body : RunCreate} {q : SubmitRun},
      s.requests r = some (.submitRun project body q) → q.Records tr s r := by
  induction h with
  | nil =>
      intro project body q hq
      simp [h₀.requests] at hq
  | @snoc tr s s' a h hstep ih =>
      intro project body q hq
      have hok := RunsOk.exec h₀ h
      cases request_step hstep hq with
      | kept hact hpre => exact (ih hpre).other hpre (SubmitRun.tracks h₀ h hpre) hok hact hstep
      | arrived _ _ hreceived =>
          cases q with
          | received => trivial
          | _ => simp [Request.isReceived] at hreceived
      | @stepped io q₀ ha hpre hqstep =>
          subst ha
          obtain ⟨point, rfl, hmove⟩ := submitMove_of_request hqstep
          exact (ih hpre).own (SubmitRun.tracks h₀ h hpre) hok hpre hstep hmove

/-! ### No writer undoes another -/

/-- The flag is set exactly when a cancel request was committed. -/
theorem cancelRequested_iff (h₀ : s₀.Initial) (h : Exec (system env) s₀ tr s)
    (hrow : (s.slice run).row = some row) :
    row.cancelRequested = true ↔ ∃ e ∈ tr, CancelCommits e.pre e.act e.post run := by
  refine ⟨fun hflag => exists_cancelCommits h₀ h ⟨row, hrow, hflag⟩, ?_⟩
  rintro ⟨e, he, hcommits⟩
  obtain ⟨tr₁, tr₂, rfl, hpre, hstep, hrest⟩ := h.of_mem he
  have hknows := knowsFlag_of_exec h₀ hpre
  have hnot : NotPending e.pre run := by
    obtain ⟨r, io, copy, -, hloaded, -⟩ := hcommits
    exact (hknows r run .cancel copy hloaded).1
  have hpost := hpre.snoc hstep
  have hapart := (RunsOk.exec h₀ hpost).toRunsApart
  obtain ⟨row₀, hrow₀⟩ := row_of_later hapart (hnot.step hstep) hrest hrow
  have hflagged : e.post.Flagged run :=
    ⟨row₀, hrow₀, flagged_of_cancelCommits hknows hstep hcommits hrow₀⟩
  exact (modelRuns_of_flagged h₀ hpost hrest hflagged row hrow).1

/-- A job is put in Redis by a submission that has committed its run. -/
theorem created_of_enqueued (h₀ : s₀.Initial) (h : Exec (system env) s₀ tr s)
    (hstep : s.step env a = some s') {job : Job}
    (hjobs : s'.backend.jobs = s.backend.jobs ++ [job]) : ∃ r, CreatedBy tr r job.run := by
  cases jobs_step hstep with
  | same hsame =>
      rw [hsame] at hjobs
      simp at hjobs
  | @enqueued r io q ha hq job' hid happended =>
      rw [happended, List.append_cancel_left_eq, List.cons.injEq] at hjobs
      obtain ⟨rfl, -⟩ := hjobs
      subst ha
      obtain ⟨q', hqstep, -⟩ := step_of_request hstep hq
      cases q with
      | submitRun project body point =>
          simp only [Request.step, Option.map_eq_some_iff, Prod.exists, Prod.mk.injEq] at hqstep
          obtain ⟨_, _, hpoint, -, hb⟩ := hqstep
          have htracks := SubmitRun.tracks h₀ h hq
          cases point with
          | refreshing done next todo | enqueueing done next todo =>
              refine ⟨r, (htracks.2.created job'.run).mpr ?_⟩
              rw [← List.map_append]
              exact hid
          | recording rows =>
              refine ⟨r, (htracks.2.created job'.run).mpr ?_⟩
              rw [List.append_nil]
              exact hid
          | inserting rows =>
              cases submitMove_of_step hpoint with
              | unstorable | insertRefused => simp [hb] at happended
              | inserted =>
                  rw [← hb, insertRuns_jobs] at happended
                  simp at happended
          | received | reloading | answered => simp [Request.ids, SubmitRun.ids] at hid
      | _ => simp [Request.ids] at hid

/-- The row of a run holds what each of its writers last wrote. -/
structure KeepsWrites (env : Env μ) (tr : List (Entry (State μ) Action)) (s : State μ)
    (run : Uuid) (row : SimulationRunRow) : Prop where
  worker : row.workerColumns = workerWrote env run tr
  cancelRequested : row.cancelRequested = true ↔
    ∃ e ∈ tr, CancelCommits e.pre e.act e.post run
  /-- the submitted name, or that of the last rename that issued an `UPDATE` -/
  name : ∃ r project body q, s.requests r = some (.submitRun project body q) ∧
    CreatedBy tr r run ∧ row.name = (renames run tr).getLastD body.name
  /-- the id of the one job of the run, once its submission has ended normally -/
  arqJobId : ∀ r project body answer,
    s.requests r = some (.submitRun project body (.answered (.ok answer))) → CreatedBy tr r run →
      ∃ job, s.backend.jobs.filter (fun j => j.run == run) = [job] ∧ row.arqJobId = some job.id

/-- Every job that was put in Redis names a run whose row was committed before; it is there, unless
it was deleted in between. -/
def JobsNameRows (tr : List (Entry (State μ) Action)) : Prop :=
  ∀ tr₁ e tr₂ job, tr = tr₁ ++ e :: tr₂ → e.post.backend.jobs = e.pre.backend.jobs ++ [job] →
    (∃ r, CreatedBy tr₁ r job.run) ∧ ((e.pre.slice job.run).row.isSome ∨
      ∃ e' ∈ tr₁, DeleteCommits e'.pre e'.act job.run)

/-- **No writer of a run undoes another**, in any interleaving of the submission, the worker,
renames and cancel requests. -/
theorem writers_undo_nothing (h₀ : s₀.Initial) (h : Exec (system env) s₀ tr s) :
    JobsNameRows tr ∧ ∀ run row, (s.slice run).row = some row → KeepsWrites env tr s run row := by
  refine ⟨fun tr₁ e tr₂ job htr hjobs => ?_, fun run row hrow =>
    ⟨(workerColumns_of_exec h₀ h).2 row hrow, cancelRequested_iff h₀ h hrow,
      name_of_exec h₀ h row hrow, fun r project body answer hreq hcreated => ?_⟩⟩
  · subst htr
    obtain ⟨hpre, hstep, -⟩ := h.split_at
    obtain ⟨r, hcreated⟩ := created_of_enqueued h₀ hpre hstep hjobs
    refine ⟨⟨r, hcreated⟩, ?_⟩
    obtain ⟨e', he', _, -, -, hsome⟩ := hcreated
    obtain ⟨tr₃, tr₄, rfl, hpre', hstep', hrest⟩ := hpre.of_mem he'
    obtain ⟨row, hrow⟩ := Option.isSome_iff_exists.mp hsome
    cases hnow : (e.pre.slice job.run).row with
    | some row' => exact .inl rfl
    | none =>
        have hapart := (IdsApart.exec h₀ hpre').step hstep'
        obtain ⟨e'', he'', hdeleted⟩ := exists_deleteCommits hapart hrest hrow hnow
        exact .inr ⟨e'', by simp [he''], hdeleted⟩
  · obtain ⟨-, ids, hbatch⟩ := SubmitRun.tracks h₀ h hreq
    have hmem : run ∈ ids := by simpa using (hbatch.created run).mp hcreated
    have hone : jobsOf s run = 1 := hbatch.jobs run hmem
    rw [jobsOf, List.countP_eq_length_filter, List.length_eq_one_iff] at hone
    obtain ⟨job, hjob⟩ := hone
    obtain ⟨j, hj, hrun, hid⟩ := SubmitRun.records h₀ h hreq run hcreated row hrow
    have hfilter : j ∈ s.backend.jobs.filter fun j => j.run == run :=
      List.mem_filter.mpr ⟨hj, by simpa using hrun⟩
    rw [hjob, List.mem_singleton] at hfilter
    exact ⟨job, hjob, hfilter ▸ hid⟩

end

/-- A run is renamed and cancelled, and its job id recorded, while its worker runs it. -/
def writtenRun : List (Entry (State Int) Action) × State Int :=
  (system clockEnv).played State.empty ((submitOne (.single (some 2) (some 1))).dropLast ++
    [.arrive 2 (renameRun 3 (some "B")), .request 2 {}, .deliver 3, .work 3 {}, .request 1 {},
      .work 3 {}, .arrive 3 (requestCancel 3), .request 3 {}, .work 3 {}, .request 2 {},
      .work 3 {}, .request 3 {}] ++ List.replicate 3 (.work 3 {}) ++ [.request 1 {}]) (by decide)

/-- Each of them finds its write in the end. -/
theorem written_run_keeps : JobsNameRows writtenRun.1 ∧ ∃ row,
    (writtenRun.2.slice 3).row = some row ∧ row.name = some "B" ∧ row.cancelRequested = true ∧
      row.status = .cancelled ∧ row.arqJobId = some "job" ∧
        KeepsWrites clockEnv writtenRun.1 writtenRun.2 3 row := by
  have hexec : Exec (system clockEnv) State.empty writtenRun.1 writtenRun.2 :=
    Machine.played_exec _
  obtain ⟨hjobs, hkeeps⟩ := writers_undo_nothing State.empty_initial hexec
  exact ⟨hjobs, _, rfl, rfl, rfl, rfl, rfl, hkeeps 3 _ rfl⟩

end SpurApi
