/-
The run service: submitting runs, changing them, and reading their results.

`submit_run` commits the rows of its batch first and then, run by run, reads the
row again and enqueues its job; the ids of the jobs are committed at the end.  The
reads are functions of what their queries return, so that a reader that makes
several queries can be given the states it made them in.
-/
import SpurApi.Lib.Paging
import SpurApi.Services.Projects
import SpurApi.Worker.Runner

namespace SpurApi

/-- `_to_schema` of a run row. -/
def toRun (id : Uuid) (row : SimulationRunRow) : Run where
  id := id
  projectId := row.projectId
  name := row.name
  projectVersion := row.projectVersion
  status := row.status
  requestedUntil := row.requestedUntil
  untilTarget := row.untilTarget
  seed := row.seed
  batchId := row.batchId
  simTimeNow := row.simTimeNow
  errorMessage := row.errorMessage
  startedAt := row.startedAt
  finishedAt := row.finishedAt

/-! ### `submit_run` -/

/-- The row of one run of a submission, as it is inserted. -/
def newRun (projectId : Uuid) (project : ProjectRow) (body : RunCreate) (untilTarget seed : Int)
    (batchId : Option Uuid) : SimulationRunRow where
  projectId := projectId
  status := .queued
  name := body.name
  requestedUntil := body.untilTime
  untilTarget := some untilTarget
  chunkSize := body.chunkSize
  seed := some seed
  batchId := batchId
  specSnapshot := some project.spec
  projectVersion := some project.version
  simTimeNow := none
  arqJobId := none
  errorMessage := none
  cancelRequested := false
  startedAt := none
  finishedAt := none

/-- A run of the batch in the session: its id and the copy of its row, with the job id that
was assigned to it. -/
structure Submitted where
  id : Uuid
  row : SimulationRunRow
  jobId : Option String := none

/-- `run_row.arq_job_id = job.job_id`. -/
def Submitted.assigned (s : Submitted) : SimulationRunRow :=
  match s.jobId with
  | none => s.row
  | some j => { s.row with arqJobId := some j }

/-- `secrets.randbelow(MAX_SEED + 2 - seeds)` can return this. -/
def drawable (seeds : Nat) (draw : Int) : Bool := 0 ≤ draw && draw < maxSeed + 2 - seeds

/-- The first seed: the one asked for, or one that is drawn. -/
def firstSeed (body : RunCreate) (draw : Int) : Int :=
  match body.seed with
  | some s => s
  | none => draw

/-- `until if until is not None else derive_until(project_row.spec)`. -/
def submittedTarget (settings : Settings) (project : ProjectRow) (body : RunCreate) :
    Except Exn Int :=
  match body.untilTime with
  | some t => .ok t
  | none => deriveUntil settings project.spec

/-- `run_rows`: one row for each of the ids, with consecutive seeds. -/
def runRows (projectId : Uuid) (project : ProjectRow) (body : RunCreate) (untilTarget : Int)
    (batchId : Option Uuid) : (seed : Int) → List Uuid → List Submitted
  | _, [] => []
  | seed, id :: ids =>
      ⟨id, newRun projectId project body untilTarget seed batchId, none⟩ ::
        runRows projectId project body untilTarget batchId (seed + 1) ids

/-- The error for a project that cannot be run. -/
def projectInvalid (id : Uuid) (result : ValidationResult) : ApiError :=
  let errors := (result.issues.filter fun i => i.severity == "error").length
  .projectInvalid s!"Project {id.text} has {errors} error(s), so it can't be run" result.issues

/-- Insert the rows of a batch. -/
def Backend.insertRuns (b : Backend) : List Submitted → Backend
  | [] => b
  | s :: rest => (b.setRun s.id (some s.row)).insertRuns rest

/-- The commit of the job ids: every changed row is updated, or the commit raises. -/
def Backend.commitJobIds (b : Backend) : List Submitted → Except Exn Backend
  | [] => .ok b
  | s :: rest =>
      match updateRun s.row s.assigned (b.db.runs s.id) with
      | .error e => .error e
      | .ok row => (b.setRun s.id row).commitJobIds rest

/-- Where a `POST /v1/projects/{id}/runs` stands. -/
inductive SubmitRun
  | received
  /-- the rows are built; about to commit them -/
  | inserting (rows : List Submitted)
  /-- about to `refresh` the row of `next`; the jobs of `done` are enqueued -/
  | refreshing (done : List Submitted) (next : Submitted) (todo : List Submitted)
  /-- about to enqueue the job of `next` -/
  | enqueueing (done : List Submitted) (next : Submitted) (todo : List Submitted)
  /-- every job is enqueued; about to commit the job ids -/
  | recording (rows : List Submitted)
  | reloading (id : Uuid)
  | answered (answer : Except ApiError Run)

/-- `for run_row in run_rows`: the next run, or on to the commit. -/
def SubmitRun.loop (done : List Submitted) : List Submitted → SubmitRun
  | [] => .recording done
  | next :: todo => .refreshing done next todo

/-- `refresh` flushes first: the job id of the run before this one is updated, which raises
when that run is gone. -/
def autoflush (db : Db) (done : List Submitted) : Except Exn Unit :=
  match done.getLast? with
  | none => .ok ()
  | some s =>
      match updateRun s.row s.assigned (db.runs s.id) with
      | .error e => .error e
      | .ok _ => .ok ()

/-- One step of `POST /v1/projects/{id}/runs`.  No job id is passed to `enqueue_job`, so it
makes a new one and does not return `None`. -/
def SubmitRun.step {μ : Type} (spur : Spur μ) (settings : Settings) (id : Uuid)
    (body : RunCreate) (io : Io) (b : Backend) : SubmitRun → Option (SubmitRun × Backend)
  | .received =>
      match b.db.projects id with
      | none => some (.answered (.error (projectNotFound id)), b)
      | some project =>
          if (spur.validate project.spec).valid then
            match submittedTarget settings project body with
            | .error e => some (.answered (.error (.unhandled e)), b)
            | .ok untilTarget =>
                match io.ids with
                | batch :: ids =>
                    if b.fresh (batch :: ids) && ids.length == body.seeds &&
                        drawable body.seeds io.draw then
                      some (.inserting (runRows id project body untilTarget
                        (if 1 < body.seeds then some batch else none)
                        (firstSeed body io.draw) ids), b.mint (batch :: ids))
                    else none
                | [] => none
          else
            some (.answered (.error (projectInvalid id (spur.validate project.spec))), b)
  | .inserting rows =>
      if rows.all fun s => s.row.holds then
        match b.db.projects id with
        | none =>
            some (.answered (.error (.unhandled (missingReference "simulation_runs"))), b)
        | some _ => some (SubmitRun.loop [] rows, b.insertRuns rows)
      else some (.answered (.error (.unhandled dataError)), b)
  | .refreshing done next todo =>
      match autoflush b.db done with
      | .error e => some (.answered (.error (.unhandled e)), b)
      | .ok () =>
          match b.db.runs next.id with
          | none => some (.answered (.error (.unhandled refreshFailed)), b)
          | some row => some (.enqueueing done { next with row := row } todo, b)
  | .enqueueing done next todo =>
      match io.fault with
      | some f => some (.answered (.error (.unhandled f.exn)), b)
      | none =>
          some (SubmitRun.loop (done ++ [{ next with jobId := some io.jobId }]) todo,
            { b with jobs := b.jobs ++ [⟨io.jobId, next.id⟩] })
  | .recording rows =>
      match b.commitJobIds rows with
      | .error e => some (.answered (.error (.unhandled e)), b)
      | .ok b' =>
          match rows with
          | [] => none
          | s :: _ => some (.reloading s.id, b')
  | .reloading first =>
      match b.db.runs first with
      | none => some (.answered (.error (.unhandled refreshFailed)), b)
      | some row => some (.answered (.ok (toRun first row)), b)
  | .answered _ => none

/-! ### `rename_run` and `request_cancel`

Both load a copy of the row, assign one column, commit and read the row again.
-/

/-- What a client assigns to a run. -/
inductive RunEdit
  | rename (name : Option String)
  | cancel

/-- The assignment. -/
def RunEdit.apply : RunEdit → SimulationRunRow → SimulationRunRow
  | .rename name, row => { row with name := name }
  | .cancel, row => { row with cancelRequested := true }

/-- The column holds what is assigned to it. -/
def RunEdit.holds : RunEdit → Bool
  | .rename name => name.all holdsText
  | .cancel => true

/-- Where a request that edits a run stands. -/
inductive EditRun
  | received
  | loaded (row : SimulationRunRow)
  | committed
  | answered (answer : Except ApiError Run)

/-- One step of a request that edits a run. -/
def EditRun.step (id : Uuid) (edit : RunEdit) (b : Backend) :
    EditRun → Option (EditRun × Backend)
  | .received =>
      match b.db.runs id with
      | none => some (.answered (.error (runNotFound id)), b)
      | some row => some (.loaded row, b)
  | .loaded row =>
      if SimulationRunRow.dirty row (edit.apply row) && !edit.holds then
        some (.answered (.error (.unhandled dataError)), b)
      else
        match updateRun row (edit.apply row) (b.db.runs id) with
        | .error e => some (.answered (.error (.unhandled e)), b)
        | .ok stored => some (.committed, b.setRun id stored)
  | .committed =>
      match b.db.runs id with
      | none => some (.answered (.error (.unhandled refreshFailed)), b)
      | some row => some (.answered (.ok (toRun id row)), b)
  | .answered _ => none

/-! ### `delete_run` -/

/-- Where a `DELETE /v1/runs/{id}` stands. -/
inductive DeleteRun
  | received
  | deleting
  | answered (answer : Except ApiError Unit)

/-- One step of `DELETE /v1/runs/{id}`. -/
def DeleteRun.step (id : Uuid) (b : Backend) : DeleteRun → Option (DeleteRun × Backend)
  | .received =>
      match b.db.runs id with
      | none => some (.answered (.error (runNotFound id)), b)
      | some _ => some (.deleting, b)
  | .deleting => some (.answered (.ok ()), { b with db := b.db.deleteRun id })
  | .answered _ => none

/-! ### Reading results -/

/-- `get_run`, from what the query for the run found. -/
def getRun (id : Uuid) (row : Option SimulationRunRow) : Except ApiError Run :=
  match row with
  | none => .error (runNotFound id)
  | some row => .ok (toRun id row)

/-- The filters of `list_runs`. -/
structure RunFilter where
  projectId : Option Uuid := none
  status : Option RunStatus := none
  batchId : Option Uuid := none

/-- The `where` clauses: a filter that is not given lets every row through. -/
def RunFilter.accepts (filter : RunFilter) (row : SimulationRunRow) : Bool :=
  filter.projectId.all (fun id => row.projectId == id) &&
    filter.status.all (fun status => row.status == status) &&
    filter.batchId.all (fun batch => row.batchId == some batch)

/-- `list_runs`, of the rows that are stored; the query asks for no order. -/
def listRuns (rows : List (Uuid × SimulationRunRow)) (filter : RunFilter) : List Run :=
  (rows.filter fun r => filter.accepts r.2).map fun r => toRun r.1 r.2

/-- `order_by(RunEventRow.seq)`. -/
def orderBySeq (rows : List RunEventRow) : List RunEventRow :=
  rows.mergeSort fun a b => a.seq ≤ b.seq

/-- The filters of `get_run_events`; `eventType` is the value of a `SimEventType`. -/
structure EventFilter where
  sinceTime : Option Int := none
  trainUid : Option String := none
  componentUid : Option String := none
  eventType : Option String := none

/-- The `where` clauses: a filter that is not given lets every row through. -/
def EventFilter.accepts (filter : EventFilter) (row : RunEventRow) : Bool :=
  filter.sinceTime.all (fun t => t ≤ row.time) &&
    filter.trainUid.all (fun uid => row.trainUid == uid) &&
    filter.componentUid.all (fun uid => row.componentUid == uid) &&
    filter.eventType.all (fun event => row.event == event)

/-- Postgres refuses a negative `LIMIT`. -/
def negativeLimit : Exn := ⟨.other, "LIMIT must not be negative"⟩

/-- `get_run_events`: `row` is what the query for the run found, `rows` are the events that the
later query can find. -/
def getRunEvents (id : Uuid) (row : Option SimulationRunRow) (rows : List RunEventRow)
    (filter : EventFilter) (limit : Int) (offset : Nat) : Except ApiError (List SimEvent) :=
  match row with
  | none => .error (runNotFound id)
  | some _ =>
      if limit < 0 then .error (.unhandled negativeLimit)
      else
        .ok ((Paging.page (orderBySeq (rows.filter filter.accepts)) offset limit.toNat).map
          eventFromRow)

/-- One row of `analysis.visits`; `figures` are its other fields. -/
structure Visit (ρ : Type) where
  trainUid : String
  componentUid : String
  figures : ρ

/-- What `spur.analysis.analyze` returns. -/
structure Analysis (ρ : Type) where
  run : ρ
  components : List ρ
  trains : List ρ
  visits : List (Visit ρ)

/-- `analyze(events, spec, on_time_threshold)`. -/
abbrev Analyze (ρ : Type) :=
  List SimEvent → Json.Object → Int → Except Exn (Analysis ρ)

/-- `_analyze_run`: `row` is what the query for the run found, `project` the one for its project,
`rows` the one for its events. -/
def analyzeRun {ρ : Type} (analyze : Analyze ρ) (id : Uuid) (row : Option SimulationRunRow)
    (project : Option ProjectRow) (rows : List RunEventRow) (threshold : Int) :
    Except ApiError (RunStatus × Analysis ρ) :=
  match row with
  | none => .error (runNotFound id)
  | some row =>
      if row.status = .queued then
        .error (.runNotReady s!"Run {id.text} is still queued and has no results yet")
      else
        match row.specSnapshot.orElse fun _ => project.map ProjectRow.spec with
        | none => .error (.unhandled ⟨.attributeError, "'NoneType' object has no attribute"⟩)
        | some spec =>
            match analyze ((orderBySeq rows).map eventFromRow) spec threshold with
            | .ok analysis => .ok (row.status, analysis)
            | .error e =>
                if e.kind = .inputMismatchError then
                  .error
                    (.runAnalysis s!"Run {id.text}'s events do not match its project: {e.text}")
                else .error (.unhandled e)

/-- `RunSummary`. -/
structure RunSummary (ρ : Type) where
  status : RunStatus
  run : ρ
  components : List ρ
  trains : List ρ

/-- `get_run_summary`, from what `_analyze_run` returned. -/
def getRunSummary {ρ : Type} (analyzed : Except ApiError (RunStatus × Analysis ρ)) :
    Except ApiError (RunSummary ρ) :=
  match analyzed with
  | .error e => .error e
  | .ok (status, analysis) =>
      .ok ⟨status, analysis.run, analysis.components, analysis.trains⟩

/-- The threshold `get_run_visits` analyses with. -/
def visitsThreshold : Int := 120

/-- `get_run_visits`, from what `_analyze_run` returned at `visitsThreshold`. -/
def getRunVisits {ρ : Type} (analyzed : Except ApiError (RunStatus × Analysis ρ))
    (trainUid componentUid : Option String) (limit offset : Nat) :
    Except ApiError (List (Visit ρ)) :=
  match analyzed with
  | .error e => .error e
  | .ok (_, analysis) =>
      let byTrain :=
        match trainUid with
        | none => analysis.visits
        | some t => analysis.visits.filter fun v => v.trainUid == t
      let byComponent :=
        match componentUid with
        | none => byTrain
        | some c => byTrain.filter fun v => v.componentUid == c
      .ok ((byComponent.drop offset).take limit)

end SpurApi
