/-
The project resource: what a client sends and what it is answered.

`ProjectSpec` is spur's own type, and what it asks of the items of a section is not known
here.  A value of it is taken as the dict that `model_dump(exclude_unset=True)` makes of it,
together with the proof that it has the shape that every `ProjectSpec` has: the fields of
`ProjectEnvelope`, and four sections that are lists.
-/
import SpurApi.Basic
import SpurApi.Lib.Json

namespace SpurApi

/-- The sections of a project that a simulation reads. -/
def simulationInputs : List String := ["components", "routes", "tours", "trains"]

private def isArr : Json → Bool
  | .arr _ => true
  | _ => false

/-- The shape of a `ProjectSpec`: the type tag, a version text, an optional name, an optional
object of extensions and the four sections as lists.  spur may refuse a dict of this shape. -/
def hasSpecShape (d : Json.Object) : Bool :=
  (match d.get "type" with
    | .str t => t == "SpurProject"
    | _ => false) &&
  (match d.get "spur_version" with
    | .str _ => true
    | _ => false) &&
  (match d.get "name" with
    | .str _ => true
    | .null => true
    | _ => false) &&
  (match d.get "extensions" with
    | .obj _ => true
    | .null => true
    | _ => false) &&
  simulationInputs.all fun s => isArr (d.get s)

/-- A dict of this shape has a list in every section. -/
theorem section_of_hasSpecShape {d : Json.Object} (h : hasSpecShape d = true) {name : String}
    (hname : name ∈ simulationInputs) : ∃ items, d.get name = .arr items := by
  have hall := (Bool.and_eq_true_iff.mp h).2
  have harr : isArr (d.get name) = true := List.all_eq_true.mp hall name hname
  cases hvalue : d.get name with
  | arr items => exact ⟨items, rfl⟩
  | _ => simp [hvalue, isArr] at harr

/-- `ProjectSpec`, and so `ProjectCreate` and `ProjectUpdate`. -/
structure ProjectSpec where
  /-- `model_dump(exclude_unset=True)` -/
  dump : Json.Object
  shape : hasSpecShape dump = true

/-- `spec.name`, `None` when it was left unset. -/
def ProjectSpec.name (spec : ProjectSpec) : Option String :=
  match spec.dump.get "name" with
  | .str s => some s
  | _ => none

/-- `spec.spur_version`. -/
def ProjectSpec.spurVersion (spec : ProjectSpec) : String :=
  match spec.dump.get "spur_version" with
  | .str s => s
  | _ => ""

theorem ProjectSpec.name_eq_some_iff (spec : ProjectSpec) {s : String} :
    spec.name = some s ↔ spec.dump.get "name" = .str s := by
  unfold ProjectSpec.name
  cases spec.dump.get "name" <;> simp

/-- There always is one. -/
theorem ProjectSpec.get_spurVersion (spec : ProjectSpec) :
    spec.dump.get "spur_version" = .str spec.spurVersion := by
  have hshape : hasSpecShape spec.dump = true := spec.shape
  unfold ProjectSpec.spurVersion
  cases hvalue : spec.dump.get "spur_version" with
  | str s => rfl
  | _ => simp [hasSpecShape, hvalue] at hshape

/-- A spec with a name and nothing in its sections. -/
def ProjectSpec.blank (name : String) : ProjectSpec where
  dump := ⟨[("type", .str "SpurProject"), ("spur_version", .str "1"), ("name", .str name),
    ("components", .arr []), ("routes", .arr []), ("tours", .arr []), ("trains", .arr [])], rfl⟩
  shape := rfl

example : (ProjectSpec.blank "A").name = some "A" := by rfl

/-- `Project`: the answer that describes a stored project, its spec and its metadata. -/
structure Project where
  spec : Json.Object
  id : Uuid
  owner : Option String
  version : Int
  inputsVersion : Int
  baseProjectId : Option Uuid
  createdAt : Time
  updatedAt : Time

/-- `project.name`, `None` when its spec leaves it unset. -/
def Project.name (project : Project) : Option String :=
  match project.spec.get "name" with
  | .str s => some s
  | _ => none

/-- `project.spur_version`. -/
def Project.spurVersion (project : Project) : String :=
  match project.spec.get "spur_version" with
  | .str s => s
  | _ => ""

/-- The length of one of the four sections of the project. -/
def Project.sectionLength (project : Project) (name : String) : Nat :=
  match project.spec.get name with
  | .arr items => items.length
  | _ => 0

/-- `ProjectCounts` -/
structure ProjectCounts where
  components : Nat
  routes : Nat
  tours : Nat
  trains : Nat
deriving DecidableEq

/-- `ProjectSummary`: a project in a list, without its spec. -/
structure ProjectSummary where
  id : Uuid
  name : Option String
  spurVersion : String
  owner : Option String
  baseProjectId : Option Uuid
  createdAt : Time
  updatedAt : Time
  counts : ProjectCounts
deriving DecidableEq

end SpurApi
