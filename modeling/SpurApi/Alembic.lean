/-
The migrations in `alembic/versions`, and how the service reads the tables they leave.

Each revision is its `upgrade` and its `downgrade`, change by change.  The id of a row is
its primary key, and a table's other columns are its `cols`.  Postgres names the references
that `create_table` does not name itself.  For a column of an `Enum`, `create_table` creates
the type first; `drop_table` is told of no columns, and drops no type.
-/
import SpurApi.System
import SpurApi.Lib.Migration

namespace SpurApi

open Relational

/-- The types of columns that the migrations use; `integer` has 32 bits and `bigInteger` 64. -/
inductive SqlType
  | uuid
  | string
  | jsonb
  | dateTime
  | integer
  | bigInteger
  | boolean
  | runstatus
deriving DecidableEq

/-- A value in a column.  The documents that are stored are objects. -/
inductive SqlValue
  | null
  | uuid (u : Uuid)
  | string (s : String)
  | jsonb (d : Json.Object)
  | dateTime (t : Time)
  | int (n : Int)
  | bool (b : Bool)
  | status (s : RunStatus)

/-- A primary key. -/
inductive SqlKey
  | uuid (u : Uuid)
  | int (n : Int)
deriving DecidableEq

def SqlValue.isNull : SqlValue → Bool
  | .null => true
  | _ => false

def SqlType.has : SqlType → SqlValue → Bool
  | .uuid, .uuid _ => true
  | .string, .string _ => true
  | .jsonb, .jsonb _ => true
  | .dateTime, .dateTime _ => true
  | .integer, .int n => decide (-2147483648 ≤ n ∧ n ≤ 2147483647)
  | .bigInteger, .int n => decide (-9223372036854775808 ≤ n ∧ n ≤ 9223372036854775807)
  | .boolean, .bool _ => true
  | .runstatus, .status _ => true
  | _, _ => false

def SqlValue.key : SqlValue → Option SqlKey
  | .uuid u => some (.uuid u)
  | .int n => some (.int n)
  | _ => none

def SqlKey.value : SqlKey → SqlValue
  | .uuid u => .uuid u
  | .int n => .int n

/-- Postgres, as far as the migrations use it. -/
def postgres : Domain SqlType SqlValue SqlKey where
  null := .null
  isNull := SqlValue.isNull
  ofType := SqlType.has
  key := SqlValue.key
  keyOf type k := type.has k.value
  isNull_iff v := by cases v <;> simp [SqlValue.isNull]
  key_null := rfl

abbrev SqlOp := Relational.Op SqlType SqlValue

abbrev SqlRevision := Revision SqlType SqlValue

/-- `sa.Column(name, type, nullable=False)` -/
def required (name : String) (type : SqlType) : Col SqlType := ⟨name, type, false, none⟩

/-- `sa.Column(name, type, nullable=True)` -/
def optional (name : String) (type : SqlType) : Col SqlType := ⟨name, type, true, none⟩

/-- A required column with `server_default`. -/
def defaulted (name : String) (type : SqlType) (text : String) : Col SqlType :=
  ⟨name, type, false, some text⟩

/-! ### The revisions -/

namespace Alembic

def initialTables : SqlRevision where
  id := "695c06727c20"
  downRevision := none
  upgrade := [
    .createTable "projects" {
      idType := .uuid
      cols := [optional "owner" .string, optional "name" .string, required "spur_version" .string,
        required "spec" .jsonb, defaulted "created_at" .dateTime "now()",
        defaulted "updated_at" .dateTime "now()"] },
    .createType "runstatus",
    .createTable "simulation_runs" {
      idType := .uuid
      cols := [required "project_id" .uuid, required "status" .runstatus,
        optional "requested_until" .integer, optional "chunk_size" .integer,
        optional "sim_time_now" .integer, optional "arq_job_id" .string,
        optional "error_message" .string, required "cancel_requested" .boolean,
        defaulted "created_at" .dateTime "now()", optional "started_at" .dateTime,
        optional "finished_at" .dateTime]
      refs := [⟨"simulation_runs_project_id_fkey", "project_id", "projects", .cascade⟩] },
    .createTable "run_events" {
      idType := .integer
      cols := [required "run_id" .uuid, required "seq" .integer, required "time" .integer,
        required "event" .string, required "train_uid" .string, required "component_uid" .string,
        required "component_type" .string]
      refs := [⟨"run_events_run_id_fkey", "run_id", "simulation_runs", .cascade⟩] },
    .createIndex "run_events" ⟨"ix_run_events_run_id_component_uid", ["run_id", "component_uid"],
      false⟩,
    .createIndex "run_events" ⟨"ix_run_events_run_id_seq", ["run_id", "seq"], true⟩,
    .createIndex "run_events" ⟨"ix_run_events_run_id_train_uid", ["run_id", "train_uid"], false⟩]
  downgrade := [.dropIndex "run_events" "ix_run_events_run_id_train_uid",
    .dropIndex "run_events" "ix_run_events_run_id_seq",
    .dropIndex "run_events" "ix_run_events_run_id_component_uid", .dropTable "run_events",
    .dropTable "simulation_runs", .dropTable "projects"]

def addSeed : SqlRevision where
  id := "891fb8be331c"
  downRevision := some "695c06727c20"
  upgrade := [.addColumn "simulation_runs" (optional "seed" .bigInteger) .null]
  downgrade := [.dropColumn "simulation_runs" "seed"]

def addSpecSnapshot : SqlRevision where
  id := "a738e8e522d3"
  downRevision := some "891fb8be331c"
  upgrade := [.addColumn "simulation_runs" (optional "spec_snapshot" .jsonb) .null]
  downgrade := [.dropColumn "simulation_runs" "spec_snapshot"]

def addUntilTarget : SqlRevision where
  id := "01be612f1e22"
  downRevision := some "a738e8e522d3"
  upgrade := [.addColumn "simulation_runs" (optional "until_target" .integer) .null]
  downgrade := [.dropColumn "simulation_runs" "until_target"]

def addName : SqlRevision where
  id := "c41d7a9e2b63"
  downRevision := some "01be612f1e22"
  upgrade := [.addColumn "simulation_runs" (optional "name" .string) .null]
  downgrade := [.dropColumn "simulation_runs" "name"]

/-- Existing projects start at version 1; which version existing runs ran is not known. -/
def addProjectVersions : SqlRevision where
  id := "d5e8f1a3c720"
  downRevision := some "c41d7a9e2b63"
  upgrade := [.addColumn "projects" (defaulted "version" .integer "1") (.int 1),
    .addColumn "simulation_runs" (optional "project_version" .integer) .null]
  downgrade := [.dropColumn "simulation_runs" "project_version", .dropColumn "projects" "version"]

/-- Which earlier save last changed the inputs is not known, so it is taken to be the latest. -/
def addInputsVersion : SqlRevision where
  id := "e7b2c94d1f05"
  downRevision := some "d5e8f1a3c720"
  upgrade := [.addColumn "projects" (defaulted "inputs_version" .integer "1") (.int 1),
    .copyColumn "projects" "inputs_version" "version"]
  downgrade := [.dropColumn "projects" "inputs_version"]

def addBatchId : SqlRevision where
  id := "f3a9c0d47e18"
  downRevision := some "e7b2c94d1f05"
  upgrade := [.addColumn "simulation_runs" (optional "batch_id" .uuid) .null,
    .createIndex "simulation_runs" ⟨"ix_simulation_runs_batch_id", ["batch_id"], false⟩]
  downgrade := [.dropIndex "simulation_runs" "ix_simulation_runs_batch_id",
    .dropColumn "simulation_runs" "batch_id"]

def addBaseProjectId : SqlRevision where
  id := "a4c1e9b27d36"
  downRevision := some "f3a9c0d47e18"
  upgrade := [.addColumn "projects" (optional "base_project_id" .uuid) .null,
    .createIndex "projects" ⟨"ix_projects_base_project_id", ["base_project_id"], false⟩,
    .createForeignKey "projects"
      ⟨"fk_projects_base_project_id_projects", "base_project_id", "projects", .setNull⟩]
  downgrade := [.dropConstraint "projects" "fk_projects_base_project_id_projects",
    .dropIndex "projects" "ix_projects_base_project_id",
    .dropColumn "projects" "base_project_id"]

/-- The files of `alembic/versions`, by their names. -/
def versions : List SqlRevision :=
  [addUntilTarget, initialTables, addSeed, addBaseProjectId, addSpecSnapshot, addName,
    addProjectVersions, addInputsVersion, addBatchId]

end Alembic

/-! ### The tables as `db/models.py` declares them -/

/-- `Base.metadata`. -/
def metadata : Schema SqlType where
  tables := [("projects", {
      idType := .uuid
      cols := [optional "owner" .string, optional "name" .string, required "spur_version" .string,
        required "spec" .jsonb, defaulted "version" .integer "1",
        defaulted "inputs_version" .integer "1", optional "base_project_id" .uuid,
        defaulted "created_at" .dateTime "now()", defaulted "updated_at" .dateTime "now()"]
      refs := [⟨"projects_base_project_id_fkey", "base_project_id", "projects", .setNull⟩]
      indexes := [⟨"ix_projects_base_project_id", ["base_project_id"], false⟩] }),
    ("simulation_runs", {
      idType := .uuid
      cols := [required "project_id" .uuid, required "status" .runstatus, optional "name" .string,
        optional "requested_until" .integer, optional "until_target" .integer,
        optional "chunk_size" .integer, optional "seed" .bigInteger, optional "batch_id" .uuid,
        optional "spec_snapshot" .jsonb, optional "project_version" .integer,
        optional "sim_time_now" .integer, optional "arq_job_id" .string,
        optional "error_message" .string, required "cancel_requested" .boolean,
        defaulted "created_at" .dateTime "now()", optional "started_at" .dateTime,
        optional "finished_at" .dateTime]
      refs := [⟨"simulation_runs_project_id_fkey", "project_id", "projects", .cascade⟩]
      indexes := [⟨"ix_simulation_runs_batch_id", ["batch_id"], false⟩] }),
    ("run_events", {
      idType := .integer
      cols := [required "run_id" .uuid, required "seq" .integer, required "time" .integer,
        required "event" .string, required "train_uid" .string, required "component_uid" .string,
        required "component_type" .string]
      refs := [⟨"run_events_run_id_fkey", "run_id", "simulation_runs", .cascade⟩]
      indexes := [⟨"ix_run_events_run_id_seq", ["run_id", "seq"], true⟩,
        ⟨"ix_run_events_run_id_train_uid", ["run_id", "train_uid"], false⟩,
        ⟨"ix_run_events_run_id_component_uid", ["run_id", "component_uid"], false⟩] })]
  types := ["runstatus"]

/-! ### What the service reads -/

namespace SqlValue

def asUuid : SqlValue → Option Uuid
  | .uuid u => some u
  | _ => none

def asString : SqlValue → Option String
  | .string s => some s
  | _ => none

def asObject : SqlValue → Option Json.Object
  | .jsonb d => some d
  | _ => none

def asTime : SqlValue → Option Time
  | .dateTime t => some t
  | _ => none

def asInt : SqlValue → Option Int
  | .int n => some n
  | _ => none

def asBool : SqlValue → Option Bool
  | .bool b => some b
  | _ => none

def asStatus : SqlValue → Option RunStatus
  | .status s => some s
  | _ => none

end SqlValue

/-- A `ProjectRow`, as a session loads it. -/
def readProject (row : Row SqlValue) : Option ProjectRow := do
  let spurVersion ← (row "spur_version").asString
  let spec ← (row "spec").asObject
  let version ← (row "version").asInt
  let inputsVersion ← (row "inputs_version").asInt
  let createdAt ← (row "created_at").asTime
  let updatedAt ← (row "updated_at").asTime
  return {
    owner := (row "owner").asString
    name := (row "name").asString
    spurVersion := spurVersion
    spec := spec
    version := version
    inputsVersion := inputsVersion
    baseProjectId := (row "base_project_id").asUuid
    createdAt := createdAt
    updatedAt := updatedAt }

/-- A `SimulationRunRow`. -/
def readRun (row : Row SqlValue) : Option SimulationRunRow := do
  let projectId ← (row "project_id").asUuid
  let status ← (row "status").asStatus
  let cancelRequested ← (row "cancel_requested").asBool
  return {
    projectId := projectId
    status := status
    name := (row "name").asString
    requestedUntil := (row "requested_until").asInt
    untilTarget := (row "until_target").asInt
    chunkSize := (row "chunk_size").asInt
    seed := (row "seed").asInt
    batchId := (row "batch_id").asUuid
    specSnapshot := (row "spec_snapshot").asObject
    projectVersion := (row "project_version").asInt
    simTimeNow := (row "sim_time_now").asInt
    arqJobId := (row "arq_job_id").asString
    errorMessage := (row "error_message").asString
    cancelRequested := cancelRequested
    startedAt := (row "started_at").asTime
    finishedAt := (row "finished_at").asTime }

/-- A `RunEventRow`; the worker counts `seq` from 0. -/
def readEvent (row : Row SqlValue) : Option RunEventRow := do
  let seq ← (row "seq").asInt
  let seq ← seq.toNat?
  let time ← (row "time").asInt
  let event ← (row "event").asString
  let trainUid ← (row "train_uid").asString
  let componentUid ← (row "component_uid").asString
  let componentType ← (row "component_type").asString
  return ⟨seq, time, event, trainUid, componentUid, componentType⟩

abbrev SqlDatabase := Database SqlType SqlValue SqlKey

/-- What the service finds in a database. -/
def readDb (db : SqlDatabase) : Db where
  projects id := ((db.rows "projects").lookup (.uuid id)).bind readProject
  runs id := ((db.rows "simulation_runs").lookup (.uuid id)).bind readRun
  events run := (db.rows "run_events").filterMap fun r =>
    if (r.2 "run_id").asUuid = some run then readEvent r.2 else none

/-- The service as it starts over a database, with an empty Redis. -/
def serving {μ : Type} (db : SqlDatabase) : State μ where
  backend := {
    db := readDb db
    locks := fun _ => none
    jobs := []
    minted := (db.rows "projects").filterMap fun r => r.1.value.asUuid }
  requests := fun _ => none
  workers := fun _ => none

end SpurApi
