/-
The project service: saving, creating and deleting projects.

A request is a machine that stops at every `await` that reads or writes the
database.  Between two of them it only computes, and what it computes is a function
of its own here, under the name of the code: `checkVersion` and `replaceSpec` are
`update_project` before and after the version check.
-/
import Mathlib.Data.List.Dedup
import SpurApi.Db.Session
import SpurApi.Lib.Paging
import SpurApi.Routers.Projects

namespace SpurApi

/-! ### Comparing the inputs of two specs -/

mutual

/-- `_without_nulls`: null-valued keys are dropped, at any depth; list items stay. -/
def withoutNulls : Json → Json
  | .obj fields => .obj (withoutNullsFields fields)
  | .arr items => .arr (withoutNullsItems items)
  | value => value

def withoutNullsItems : List Json → List Json
  | [] => []
  | x :: xs => withoutNulls x :: withoutNullsItems xs

def withoutNullsFields : List (String × Json) → List (String × Json)
  | [] => []
  | (_, .null) :: fs => withoutNullsFields fs
  | (k, v) :: fs => (k, withoutNulls v) :: withoutNullsFields fs

end

/-- `_inputs_differ`. -/
def inputsDiffer (old new : Json.Object) : Bool :=
  simulationInputs.any fun s => !(withoutNulls (old.get s)).pyEq (withoutNulls (new.get s))

/-! ### Reading -/

/-- `_to_schema`. -/
def toProject (id : Uuid) (row : ProjectRow) : Project where
  spec := row.spec
  id := id
  owner := row.owner
  version := row.version
  inputsVersion := row.inputsVersion
  baseProjectId := row.baseProjectId
  createdAt := row.createdAt
  updatedAt := row.updatedAt

/-- `get_project`. -/
def getProject (db : Db) (id : Uuid) : Except ApiError Project :=
  match db.projects id with
  | none => .error (projectNotFound id)
  | some row => .ok (toProject id row)

/-- `coalesce(jsonb_array_length(spec[section]), 0)`; Postgres raises for what is no array. -/
def sectionCount (spec : Json.Object) (name : String) : Except Exn Nat :=
  match spec.fields.lookup name with
  | none => .ok 0
  | some (.arr items) => .ok items.length
  | some _ => .error ⟨.other, "cannot get array length of a non-array"⟩

/-- One row of the result of `list_projects`. -/
def toSummary (id : Uuid) (row : ProjectRow) : Except Exn ProjectSummary := do
  let components ← sectionCount row.spec "components"
  let routes ← sectionCount row.spec "routes"
  let tours ← sectionCount row.spec "tours"
  let trains ← sectionCount row.spec "trains"
  return {
    id := id
    name := row.name
    spurVersion := row.spurVersion
    owner := row.owner
    baseProjectId := row.baseProjectId
    createdAt := row.createdAt
    updatedAt := row.updatedAt
    counts := ⟨components, routes, tours, trains⟩ }

/-- `order_by(created_at.desc(), id)`. -/
def newestFirst (a b : Uuid × ProjectRow) : Bool :=
  b.2.createdAt < a.2.createdAt || (a.2.createdAt == b.2.createdAt && a.1.toNat ≤ b.1.toNat)

/-- The rows that `list_projects` selects, in their order. -/
def selectProjects (rows : List (Uuid × ProjectRow)) (base : Option Uuid) :
    List (Uuid × ProjectRow) :=
  (match base with
    | none => rows
    | some b => rows.filter fun p => p.2.baseProjectId == some b).mergeSort newestFirst

/-- `list_projects`, of the rows that are stored. -/
def listProjects (rows : List (Uuid × ProjectRow)) (limit offset : Nat) (base : Option Uuid) :
    Except ApiError (List ProjectSummary) :=
  match (Paging.page (selectProjects rows base) offset limit).mapM fun p => toSummary p.1 p.2 with
  | .error e => .error (.unhandled e)
  | .ok summaries => .ok summaries

/-- The rows of `projects`.  Every id was given by `uuid4` once. -/
def Backend.projectRows (b : Backend) : List (Uuid × ProjectRow) :=
  b.minted.dedup.filterMap fun id => (b.db.projects id).map fun row => (id, row)

/-- `db.refresh(row)` found no row. -/
def refreshFailed : Exn := ⟨.invalidRequestError, "Could not refresh instance"⟩

/-! ### `update_project` -/

/-- The answer to a save from a copy that is no longer the latest. -/
def staleProject (id : Uuid) (current expected : Int) : ApiError :=
  .staleProject s!"Project {id.text} is at version {current}, not {expected}" current

/-- The version check: with `expected`, the save goes ahead only if that is still the
project's version. -/
def checkVersion (id : Uuid) (row : ProjectRow) (expected : Option Int) :
    Except ApiError Unit :=
  match expected with
  | none => .ok ()
  | some n =>
      if n ≠ row.version then .error (staleProject id row.version n) else .ok ()

/-- The row as the save assigns it. -/
def replaceSpec (row : ProjectRow) (body : ProjectSpec) : ProjectRow :=
  let version := row.version + 1
  let newSpec := body.dump
  { row with
    version := version
    inputsVersion := if inputsDiffer row.spec newSpec then version else row.inputsVersion
    name := body.name
    spurVersion := body.spurVersion
    spec := newSpec }

/-- The stored row after the flush of a save; `updated_at` is the database's clock.  A spec is
compared by `==`, so one that equals the spec it replaces is not written. -/
def ProjectRow.flush (loaded assigned stored : ProjectRow) (now : Time) : ProjectRow :=
  { stored with
    version := Column.flush loaded.version assigned.version stored.version
    inputsVersion :=
      Column.flush loaded.inputsVersion assigned.inputsVersion stored.inputsVersion
    name := Column.flush loaded.name assigned.name stored.name
    spurVersion := Column.flush loaded.spurVersion assigned.spurVersion stored.spurVersion
    spec := Column.flushBy Json.Object.pyEq loaded.spec assigned.spec stored.spec
    updatedAt := now }

/-- The row as a save leaves it that nobody else wrote to. -/
def ProjectRow.saved (row : ProjectRow) (body : ProjectSpec) (now : Time) : ProjectRow :=
  row.flush (replaceSpec row body) row now

section

variable (row : ProjectRow) (body : ProjectSpec) (now : Time)

/-- It is the row that was assigned, but for a spec that equals the old one. -/
theorem ProjectRow.saved_eq : row.saved body now = { replaceSpec row body with
    spec := Column.flushBy Json.Object.pyEq row.spec body.dump row.spec, updatedAt := now } := by
  simp only [ProjectRow.saved, ProjectRow.flush, replaceSpec, Column.flush_current]

@[simp] theorem ProjectRow.saved_version : (row.saved body now).version = row.version + 1 := by
  rw [saved_eq, replaceSpec]

@[simp] theorem ProjectRow.saved_name : (row.saved body now).name = body.name := by
  rw [saved_eq, replaceSpec]

@[simp] theorem ProjectRow.saved_spurVersion :
    (row.saved body now).spurVersion = body.spurVersion := by
  rw [saved_eq, replaceSpec]

theorem ProjectRow.saved_inputsVersion : (row.saved body now).inputsVersion =
    if inputsDiffer row.spec body.dump then row.version + 1 else row.inputsVersion := by
  rw [saved_eq, replaceSpec]

theorem ProjectRow.saved_spec : (row.saved body now).spec =
    Column.flushBy Json.Object.pyEq row.spec body.dump row.spec := by
  rw [saved_eq]

/-- Python cannot tell the spec that is stored from the one that was sent. -/
theorem ProjectRow.saved_spec_pyEq : (row.saved body now).spec.pyEq body.dump = true := by
  rw [saved_spec]
  exact Column.eq_flushBy _ Json.Object.pyEq_refl Json.Object.pyEq_symm _ _

end

/-- The `UPDATE` of a project matched no row. -/
def projectRowGone : Exn := staleData "projects"

/-- Where a `PUT` stands. -/
inductive UpdateProject
  | received
  /-- before the locked read -/
  | reading (expected : Option Int)
  /-- the lock is held and the version check passed -/
  | checked (expected : Option Int) (row : ProjectRow)
  /-- the lock is held until the session closes -/
  | refused (e : ApiError)
  /-- committed, which released the lock; the row is about to be read again -/
  | saved
  | answered (answer : Except ApiError Project)

/-- One step of `PUT /v1/projects/{id}`. -/
def UpdateProject.step (r : RequestId) (id : Uuid) (ifMatch : Option HeaderValue)
    (body : ProjectSpec) (io : Io) (b : Backend) :
    UpdateProject → Option (UpdateProject × Backend)
  | .received =>
      match versionFrom ifMatch with
      | .error e => some (.answered (.error e), b)
      | .ok expected => some (.reading expected, b)
  | .reading expected =>
      -- `SELECT ... FOR UPDATE` waits for the session that holds the lock
      if (b.locks id).isSome then none
      else
        match b.db.projects id with
        | none => some (.answered (.error (projectNotFound id)), b)
        | some row =>
            match checkVersion id row expected with
            | .error e => some (.refused e, b.lock id r)
            | .ok () => some (.checked expected row, b.lock id r)
  | .checked _ row =>
      if (replaceSpec row body).holds then
        match b.db.projects id with
        | none => some (.answered (.error (.unhandled projectRowGone)), b.unlock id)
        | some stored =>
            some (.saved,
              (b.setProject id (row.flush (replaceSpec row body) stored io.now)).unlock id)
      else some (.answered (.error (.unhandled dataError)), b.unlock id)
  | .refused e => some (.answered (.error e), b.unlock id)
  | .saved =>
      match b.db.projects id with
      | none => some (.answered (.error (.unhandled refreshFailed)), b)
      | some row => some (.answered (.ok (toProject id row)), b)
  | .answered _ => none

/-! ### `create_project` -/

/-- Where a `POST /v1/projects` stands. -/
inductive CreateProject
  | received
  /-- before the insert; the base the scenario will point at, if it is one -/
  | inserting (baseId : Option Uuid)
  | created (id : Uuid)
  | answered (answer : Except ApiError Project)

/-- The row `create_project` inserts. -/
def newProject (body : ProjectSpec) (owner : Option String) (baseId : Option Uuid) (now : Time) :
    ProjectRow where
  owner := owner
  name := body.name
  spurVersion := body.spurVersion
  spec := body.dump
  version := 1
  inputsVersion := 1
  baseProjectId := baseId
  createdAt := now
  updatedAt := now

/-- The foreign key of `base_project_id`. -/
def Db.hasBase (db : Db) : Option Uuid → Bool
  | none => true
  | some base => (db.projects base).isSome

/-- One step of `POST /v1/projects`, with `?base_project_id=` or without. -/
def CreateProject.step (body : ProjectSpec) (owner : Option String) (base : Option Uuid)
    (io : Io) (b : Backend) : CreateProject → Option (CreateProject × Backend)
  | .received =>
      match base with
      | none => some (.inserting none, b)
      | some baseProjectId =>
          match b.db.projects baseProjectId with
          | none => some (.answered (.error (projectNotFound baseProjectId)), b)
          | some row => some (.inserting (some (row.baseProjectId.getD baseProjectId)), b)
  | .inserting baseId =>
      match io.ids with
      | [id] =>
          if b.fresh [id] then
            if !(newProject body owner baseId io.now).holds then
              some (.answered (.error (.unhandled dataError)), b.mint [id])
            else if b.db.hasBase baseId then
              some (.created id,
                (b.mint [id]).setProject id (newProject body owner baseId io.now))
            else
              some (.answered (.error (.unhandled (missingReference "projects"))), b.mint [id])
          else none
      | _ => none
  | .created id =>
      match b.db.projects id with
      | none => some (.answered (.error (.unhandled refreshFailed)), b)
      | some row => some (.answered (.ok (toProject id row)), b)
  | .answered _ => none

/-! ### `delete_project` -/

/-- Where a `DELETE /v1/projects/{id}` stands. -/
inductive DeleteProject
  | received
  | deleting
  | answered (answer : Except ApiError Unit)

/-- One step of `DELETE /v1/projects/{id}`.  The `DELETE` waits for a save that holds the lock;
a row that is gone by then is only warned about. -/
def DeleteProject.step (id : Uuid) (b : Backend) :
    DeleteProject → Option (DeleteProject × Backend)
  | .received =>
      match b.db.projects id with
      | none => some (.answered (.error (projectNotFound id)), b)
      | some _ => some (.deleting, b)
  | .deleting =>
      if (b.locks id).isSome then none
      else some (.answered (.ok ()), { b with db := b.db.deleteProject id })
  | .answered _ => none

end SpurApi
