/-
`run_simulation`: the job that runs one simulation and persists what it emits.

An invocation has one session for its whole life.  `WorkerSession` is what it keeps
between two steps: its copy of the run row, the spec it runs, the number of the
next event, and whether the session can still be used — a session whose flush or
commit raised refuses every further flush and commit until it is rolled back, and
nothing here rolls it back.

A step is one `await` on the database or one call of the model, so every place
where another session can come in between, or where the process can die, is a
boundary between two steps.
-/
import SpurApi.Db.Session
import SpurApi.Worker.Runner

namespace SpurApi

/-- What the database holds of one run: its row and its events. -/
structure RunSlice where
  row : Option SimulationRunRow
  events : List RunEventRow

/-- The rows of `run_events` for a chunk, numbered from `seq`. -/
def eventRows (seq : Nat) : List SimEvent → List RunEventRow
  | [] => []
  | e :: es =>
      ⟨seq, e.time, e.event, e.trainUid, e.componentUid, e.componentType⟩ ::
        eventRows (seq + 1) es

/-- A commit of the worker's session: the changed run row is updated, the new event rows are
inserted, or nothing is and an exception is raised. -/
def commitRun (io : Io) (loaded assigned : SimulationRunRow) (added : List RunEventRow)
    (db : RunSlice) : Except Exn RunSlice :=
  match io.fault with
  | some f => .error f.exn
  | none =>
      match updateRun loaded assigned db.row with
      | .error e => .error e
      | .ok row =>
          match insertEvents row db.events added with
          | .error e => .error e
          | .ok events => .ok ⟨row, events⟩

/-- What an invocation keeps between two steps, once the run is marked as running. -/
structure WorkerSession where
  /-- `run_row`, as last loaded, refreshed or committed -/
  row : SimulationRunRow
  spec : Json.Object
  seq : Nat
  usable : Bool

/-- The runner that `run_simulation` makes; `until_target` is null only for runs from before
the column existed. -/
def WorkerSession.runner (w : WorkerSession) : SpurRunner where
  projectDict := w.spec
  untilTime :=
    match w.row.untilTarget with
    | some t => some t
    | none => w.row.requestedUntil
  chunkSize := w.row.chunkSize
  seed := w.row.seed

/-- Where an invocation of `run_simulation` stands. -/
inductive WorkerPoint (μ : Type)
  | loading
  /-- the run has no snapshot: about to read the live project -/
  | loadingProject (row : SimulationRunRow)
  /-- about to commit `RUNNING` -/
  | marking (row : SimulationRunRow) (spec : Json.Object)
  /-- inside `runner.run` -/
  | running (w : WorkerSession) (p : RunPoint μ)
  /-- inside `except Exception as e`, about to commit `FAILED` -/
  | handling (w : WorkerSession) (e : Exn)
  /-- about to commit the terminal status -/
  | finishing (w : WorkerSession) (outcome : Outcome)
  | returned
  /-- an exception left `run_simulation` -/
  | raised (e : Exn)

/-- The invocation is over. -/
def WorkerPoint.ended {μ : Type} : WorkerPoint μ → Bool
  | .returned => true
  | .raised _ => true
  | _ => false

/-- `runner.run` returned, raised, or goes on. -/
def WorkerSession.settle {μ : Type} (w : WorkerSession) : RunPoint μ → WorkerPoint μ
  | .finished outcome => .finishing w outcome
  | .raised e => .handling w e
  | p => .running w p

/-- `run_row.status = RUNNING`, `run_row.started_at = now`. -/
def markRunning (now : Time) (row : SimulationRunRow) : SimulationRunRow :=
  { row with status := .running, startedAt := some now }

/-- `on_chunk`'s assignment to the row. -/
def markProgress (simTimeNow : Int) (row : SimulationRunRow) : SimulationRunRow :=
  { row with simTimeNow := some simTimeNow }

/-- The assignments of `except Exception as e`. -/
def markFailed (now : Time) (e : Exn) (row : SimulationRunRow) : SimulationRunRow :=
  { row with status := .failed, errorMessage := some e.text, finishedAt := some now }

/-- The status of an outcome. -/
def Outcome.status : Outcome → RunStatus
  | .completed => .completed
  | .cancelled => .cancelled

/-- The assignments after `runner.run` returned. -/
def markFinished (now : Time) (outcome : Outcome) (row : SimulationRunRow) :
    SimulationRunRow :=
  { row with status := outcome.status, finishedAt := some now }

/-- `is_cancelled`: the one column is read again.  A failed `SELECT` may leave the transaction
aborted. -/
def isCancelled (io : Io) (db : RunSlice) (w : WorkerSession) :
    Except (Exn × WorkerSession) WorkerSession :=
  match io.fault with
  | some f => .error (f.exn, { w with usable := w.usable && !f.aborts })
  | none =>
      match db.row with
      | none => .error (⟨.invalidRequestError, "Could not refresh instance"⟩, w)
      | some row => .ok { w with row := { w.row with cancelRequested := row.cancelRequested } }

/-- `on_chunk(sim_time_now, events)`. -/
def onChunk (io : Io) (db : RunSlice) (w : WorkerSession) (simTimeNow : Int)
    (events : List SimEvent) : Except Exn (WorkerSession × RunSlice) :=
  match commitRun io w.row (markProgress simTimeNow w.row) (eventRows w.seq events) db with
  | .error e => .error e
  | .ok db' =>
      .ok ({ w with row := markProgress simTimeNow w.row, seq := w.seq + events.length }, db')

/-- `NoneType` has no such attribute: the row is gone. -/
def rowGone : Exn := ⟨.attributeError, "'NoneType' object has no attribute"⟩

/-- What a session that cannot be used answers to a commit. -/
def pendingRollback : Exn :=
  ⟨.pendingRollbackError, "This Session's transaction has been rolled back"⟩

/-- The environment of a worker: the installed `spur` and the settings. -/
structure Env (μ : Type) where
  spur : Spur μ
  settings : Settings

/-- One step inside `runner.run`. -/
def runnerStep {μ : Type} (env : Env μ) (io : Io) (db : RunSlice) (w : WorkerSession) :
    RunPoint μ → WorkerPoint μ × RunSlice
  | .asking l =>
      match isCancelled io db w with
      | .error (e, w') => (.handling w' e, db)
      | .ok w' => (w'.settle ((RunPoint.asking l).answered w'.row.cancelRequested), db)
  | .flushing l place =>
      match onChunk io db w (env.spur.now l.model) l.eventsBatch with
      | .error e => (.handling { w with usable := false } e, db)
      | .ok (w', db') => (w'.settle ((RunPoint.flushing l place).flushed env.spur), db')
  | p => (w.settle (w.runner.advance env.spur env.settings io.entropy p), db)

/-- One step of an invocation of `run_simulation`; `project` is what a query for the run's
project finds. -/
def workerStep {μ : Type} (env : Env μ) (project : Option ProjectRow) (io : Io)
    (db : RunSlice) : WorkerPoint μ → Option (WorkerPoint μ × RunSlice)
  | .loading =>
      match io.fault, db.row with
      | some f, _ => some (.raised f.exn, db)
      | none, none => some (.raised rowGone, db)
      | none, some row =>
          match row.specSnapshot with
          | some spec => some (.marking row spec, db)
          | none => some (.loadingProject row, db)
  | .loadingProject row =>
      match io.fault, project with
      | some f, _ => some (.raised f.exn, db)
      | none, none => some (.raised rowGone, db)
      | none, some p => some (.marking row p.spec, db)
  | .marking row spec =>
      match commitRun io row (markRunning io.now row) [] db with
      | .error e => some (.raised e, db)
      | .ok db' => some (.running ⟨markRunning io.now row, spec, 0, true⟩ .building, db')
  | .running w p => some (runnerStep env io db w p)
  | .handling w e =>
      if w.usable then
        match commitRun io w.row (markFailed io.now e w.row) [] db with
        | .error e' => some (.raised e', db)
        | .ok db' => some (.returned, db')
      else some (.raised pendingRollback, db)
  | .finishing w outcome =>
      match commitRun io w.row (markFinished io.now outcome w.row) [] db with
      | .error e => some (.raised e, db)
      | .ok db' => some (.returned, db')
  | .returned => none
  | .raised _ => none

end SpurApi
