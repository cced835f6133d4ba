/-
The tables: rows of `projects`, `simulation_runs` and `run_events`, what a flush of
a changed row writes, and what the constraints of the schema do.

A table of rows with an id is a partial function of the id.  The events of a run
are the rows of `run_events` with that `run_id`, in the order they were inserted.
Columns that no code reads back (`run_events.id`, `simulation_runs.created_at`) are
left out.
-/
import SpurApi.Lib.Column
import Mathlib.Logic.Function.Basic
import Mathlib.Data.List.Nodup
import SpurApi.Db.Values
import SpurApi.Schemas.Project
import SpurApi.Schemas.Run
import SpurApi.Spur

namespace SpurApi

/-- A row of `projects`. -/
structure ProjectRow where
  owner : Option String
  name : Option String
  spurVersion : String
  spec : Json.Object
  /-- Counts saves: 1 when created, one more each time the project is replaced. -/
  version : Int
  /-- The version at which what a simulation reads last changed. -/
  inputsVersion : Int
  baseProjectId : Option Uuid
  createdAt : Time
  updatedAt : Time

/-- The columns that a client fills hold what it sent, and the counter its next value. -/
def ProjectRow.holds (row : ProjectRow) : Bool :=
  row.name.all holdsText && holdsText row.spurVersion && holdsJson (.obj row.spec.fields) &&
    holdsInteger row.version

/-- A row of `simulation_runs`. -/
structure SimulationRunRow where
  projectId : Uuid
  status : RunStatus
  name : Option String
  requestedUntil : Option Int
  untilTarget : Option Int
  chunkSize : Option Int
  seed : Option Int
  batchId : Option Uuid
  specSnapshot : Option Json.Object
  projectVersion : Option Int
  simTimeNow : Option Int
  arqJobId : Option String
  errorMessage : Option String
  cancelRequested : Bool
  startedAt : Option Time
  finishedAt : Option Time

/-- The columns that a client fills hold what it sent or what was derived from it. -/
def SimulationRunRow.holds (row : SimulationRunRow) : Bool :=
  row.name.all holdsText && row.requestedUntil.all holdsInteger &&
    row.untilTarget.all holdsInteger && row.chunkSize.all holdsInteger

/-- A row of `run_events`, of the run it is listed under. -/
structure RunEventRow where
  seq : Nat
  time : Int
  event : String
  trainUid : String
  componentUid : String
  componentType : String
deriving DecidableEq, Repr

/-- `_event_from_row` -/
def eventFromRow (row : RunEventRow) : SimEvent :=
  ⟨row.time, row.event, row.trainUid, row.componentUid, row.componentType⟩

/-- What is committed in Postgres. -/
structure Db where
  projects : Uuid → Option ProjectRow
  runs : Uuid → Option SimulationRunRow
  events : Uuid → List RunEventRow

/-! ### Flushing a changed run row -/

namespace SimulationRunRow

/-- The row after a flush.  The columns listed are those that some code assigns after the
row was inserted; the others always keep what is stored. -/
def flush (loaded assigned stored : SimulationRunRow) : SimulationRunRow :=
  { stored with
    status := Column.flush loaded.status assigned.status stored.status
    name := Column.flush loaded.name assigned.name stored.name
    simTimeNow := Column.flush loaded.simTimeNow assigned.simTimeNow stored.simTimeNow
    arqJobId := Column.flush loaded.arqJobId assigned.arqJobId stored.arqJobId
    errorMessage := Column.flush loaded.errorMessage assigned.errorMessage stored.errorMessage
    cancelRequested :=
      Column.flush loaded.cancelRequested assigned.cancelRequested stored.cancelRequested
    startedAt := Column.flush loaded.startedAt assigned.startedAt stored.startedAt
    finishedAt := Column.flush loaded.finishedAt assigned.finishedAt stored.finishedAt }

/-- Whether a flush issues an `UPDATE` at all. -/
def dirty (loaded assigned : SimulationRunRow) : Bool :=
  loaded.status ≠ assigned.status || loaded.name ≠ assigned.name ||
    loaded.simTimeNow ≠ assigned.simTimeNow || loaded.arqJobId ≠ assigned.arqJobId ||
    loaded.errorMessage ≠ assigned.errorMessage ||
    loaded.cancelRequested ≠ assigned.cancelRequested ||
    loaded.startedAt ≠ assigned.startedAt || loaded.finishedAt ≠ assigned.finishedAt

/-- A flush with nothing to update leaves the row. -/
theorem flush_of_not_dirty {loaded assigned : SimulationRunRow}
    (h : dirty loaded assigned = false) (stored : SimulationRunRow) :
    flush loaded assigned stored = stored := by
  simp only [dirty, Bool.or_eq_false_iff, decide_eq_false_iff_not, not_not] at h
  obtain ⟨⟨⟨⟨⟨⟨⟨h1, h2⟩, h3⟩, h4⟩, h5⟩, h6⟩, h7⟩, h8⟩ := h
  simp only [flush, ← h1, ← h2, ← h3, ← h4, ← h5, ← h6, ← h7, ← h8, Column.flush_unassigned]

end SimulationRunRow

/-- `UPDATE ... WHERE id = ...` for a changed copy of a run row.  An `UPDATE` that matches no
row raises; where nothing changed none is issued. -/
def updateRun (loaded assigned : SimulationRunRow) (stored : Option SimulationRunRow) :
    Except Exn (Option SimulationRunRow) :=
  if SimulationRunRow.dirty loaded assigned then
    match stored with
    | none => .error (staleData "simulation_runs")
    | some row => .ok (some (SimulationRunRow.flush loaded assigned row))
  else .ok stored

/-- On a row that is still there the flush is what is stored afterwards. -/
theorem updateRun_some (loaded assigned row : SimulationRunRow) :
    updateRun loaded assigned (some row) =
      .ok (some (SimulationRunRow.flush loaded assigned row)) := by
  unfold updateRun
  cases hd : SimulationRunRow.dirty loaded assigned with
  | true => rfl
  | false => simp [SimulationRunRow.flush_of_not_dirty hd]

/-! ### What the schema's constraints do -/

namespace Db

def setProject (db : Db) (id : Uuid) (row : Option ProjectRow) : Db :=
  { db with projects := Function.update db.projects id row }

def setRun (db : Db) (id : Uuid) (row : Option SimulationRunRow) : Db :=
  { db with runs := Function.update db.runs id row }

def setEvents (db : Db) (id : Uuid) (rows : List RunEventRow) : Db :=
  { db with events := Function.update db.events id rows }

/-- `DELETE` of a run: its events go with it (`ON DELETE CASCADE`). -/
def deleteRun (db : Db) (id : Uuid) : Db := (db.setRun id none).setEvents id []

/-- Whether the run with this id belongs to the project. -/
def runOf (db : Db) (project run : Uuid) : Bool :=
  match db.runs run with
  | some row => row.projectId == project
  | none => false

/-- `DELETE` of a project: its runs and their events go with it (`ON DELETE CASCADE`), and its
scenarios become projects of their own (`ON DELETE SET NULL`). -/
def deleteProject (db : Db) (id : Uuid) : Db where
  projects p :=
    if p = id then none
    else (db.projects p).map fun row =>
      if row.baseProjectId = some id then { row with baseProjectId := none } else row
  runs r := if db.runOf id r then none else db.runs r
  events r := if db.runOf id r then [] else db.events r

end Db

/-- Inserting rows into `run_events` of one run.  The unique index on `(run_id, seq)` refuses a
`seq` that is already there, the foreign key a run that is not. -/
def insertEvents (run : Option SimulationRunRow) (stored added : List RunEventRow) :
    Except Exn (List RunEventRow) :=
  if added.isEmpty then .ok stored
  else if run.isNone then .error (missingReference "run_events")
  else if ((stored ++ added).map RunEventRow.seq).Nodup then .ok (stored ++ added)
  else .error (duplicateKey "ix_run_events_run_id_seq")

end SpurApi
