/-
What the service is for, without sessions, copies and locks: a store whose operations
happen at once.

An operation reads the rows that are stored when it happens and writes them at once, or
it cannot happen.  Nothing here is translated from the code; the code is many steps of
many sessions, each with copies that can be old.  `Proofs.Refinement` says that every history
of the service is a history of this store, so what is proved of one operation here holds
of the service in any interleaving.
-/
import SpurApi.Lib.Transition
import SpurApi.Services.Runs
import SpurApi.Worker.Tasks

namespace SpurApi

open Transition

/-- What can happen to the store. -/
inductive Op
  | create (id : Uuid) (body : ProjectSpec) (owner : Option String) (base : Option Uuid)
      (now : Time)
  | save (id : Uuid) (body : ProjectSpec) (now : Time)
  | deleteProject (id : Uuid)
  | submit (project : Uuid) (runs : List (Uuid × SimulationRunRow))
  /-- the runs get the ids of their jobs -/
  | record (jobs : List (Uuid × String))
  | edit (run : Uuid) (e : RunEdit)
  | deleteRun (run : Uuid)
  | start (run : Uuid) (now : Time)
  | report (run : Uuid) (simTimeNow : Int) (events : List SimEvent)
  | fail (run : Uuid) (now : Time) (e : Exn)
  | finish (run : Uuid) (now : Time) (outcome : Outcome)

/-- A run as it is submitted, of a version of the project up to this one. -/
def SimulationRunRow.isNew (project : Uuid) (version : Int) (row : SimulationRunRow) : Bool :=
  row.projectId == project && row.projectVersion.any (fun v => 1 ≤ v && v ≤ version) &&
    row.specSnapshot.isSome && row.untilTarget.isSome && row.status == .queued &&
    row.startedAt.isNone && row.simTimeNow.isNone && row.finishedAt.isNone &&
    row.errorMessage.isNone && row.arqJobId.isNone && !row.cancelRequested

namespace Db

/-- Change the row of a run that is there and passes the test. -/
def modify (db : Db) (run : Uuid) (test : SimulationRunRow → Bool)
    (f : SimulationRunRow → SimulationRunRow) : Option Db :=
  match db.runs run with
  | none => none
  | some row => if test row then some (db.setRun run (some (f row))) else none

/-- Whether these runs can be submitted: their ids are new and apart. -/
def admits (db : Db) (project : Uuid) (version : Int) (runs : List (Uuid × SimulationRunRow)) :
    Bool :=
  decide (runs.map Prod.fst).Nodup && runs.all fun r =>
    (db.runs r.1).isNone && (db.events r.1).isEmpty && r.2.isNew project version

def insert (db : Db) : List (Uuid × SimulationRunRow) → Db
  | [] => db
  | (run, row) :: rest => (db.setRun run (some row)).insert rest

/-- Give every run of the list its job id, or none if one of them is gone. -/
def record (db : Db) : List (Uuid × String) → Option Db
  | [] => some db
  | (run, jobId) :: rest =>
      match db.modify run (fun _ => true) fun row => { row with arqJobId := some jobId } with
      | none => none
      | some db' => db'.record rest

end Db

/-- What an operation does; `none` when it cannot happen. -/
def Op.apply (db : Db) : Op → Option Db
  | .create id body owner base now =>
      if (db.projects id).isNone && db.hasBase base then
        some (db.setProject id (some (newProject body owner base now)))
      else none
  | .save id body now =>
      (db.projects id).map fun row => db.setProject id (some (row.saved body now))
  | .deleteProject id => if (db.projects id).isSome then some (db.deleteProject id) else none
  | .submit project runs =>
      match db.projects project with
      | none => none
      | some row => if db.admits project row.version runs then some (db.insert runs) else none
  | .record jobs => db.record jobs
  | .edit run e => db.modify run (fun _ => true) e.apply
  | .deleteRun run => if (db.runs run).isSome then some (db.deleteRun run) else none
  | .start run now => db.modify run (fun row => row.status == .queued) (markRunning now)
  | .report run simTimeNow events =>
      (db.modify run (fun row => row.status == .running) (markProgress simTimeNow)).map fun db' =>
        db'.setEvents run (db.events run ++ eventRows (db.events run).length events)
  | .fail run now e => db.modify run (fun row => row.status == .running) (markFailed now e)
  | .finish run now outcome =>
      db.modify run (fun row => row.status == .running) (markFinished now outcome)

/-- The store as a machine. -/
def store : Machine Db Op := ⟨Op.apply⟩

/-! ### When jobs are delivered again -/

/-- A run that was started before is marked running again, also when it is over. -/
structure Restart where
  run : Uuid
  now : Time

def Restart.apply (db : Db) (r : Restart) : Option Db :=
  db.modify r.run (fun row => row.status != .queued) (markRunning r.now)

/-- The store whose runs can be started again. -/
def restartingStore : Machine Db (Op ⊕ Restart) := store.or ⟨Restart.apply⟩

end SpurApi
