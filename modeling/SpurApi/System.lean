/-
The whole service: any number of requests and worker invocations over one Postgres
and one Redis.

An action says whose step comes next and what the outside decides in it, so an
execution of `system` is one interleaving of the steps of all requests and all
workers.  A job is executed at most once: a worker takes the job of a run only
while no invocation of that run exists.
-/
import SpurApi.Lib.Transition
import SpurApi.Services.Runs
import SpurApi.Worker.Tasks

namespace SpurApi

/-- A request that can change something, and where it stands. -/
inductive Request
  | updateProject (id : Uuid) (ifMatch : Option HeaderValue) (body : ProjectSpec)
      (point : UpdateProject)
  | createProject (body : ProjectSpec) (owner : Option String) (base : Option Uuid)
      (point : CreateProject)
  | deleteProject (id : Uuid) (point : DeleteProject)
  | submitRun (project : Uuid) (body : RunCreate) (point : SubmitRun)
  | editRun (run : Uuid) (edit : RunEdit) (point : EditRun)
  | deleteRun (run : Uuid) (point : DeleteRun)

/-- `PATCH /v1/runs/{id}` as it arrives. -/
def renameRun (run : Uuid) (name : Option String) : Request :=
  .editRun run (.rename name) .received

/-- `POST /v1/runs/{id}/cancel` as it arrives. -/
def requestCancel (run : Uuid) : Request := .editRun run .cancel .received

/-- The request has not taken a step yet. -/
def Request.isReceived : Request → Bool
  | .updateProject _ _ _ .received => true
  | .createProject _ _ _ .received => true
  | .deleteProject _ .received => true
  | .submitRun _ _ .received => true
  | .editRun _ _ .received => true
  | .deleteRun _ .received => true
  | _ => false

/-- One step of a request. -/
def Request.step {μ : Type} (env : Env μ) (r : RequestId) (io : Io) (b : Backend) :
    Request → Option (Request × Backend)
  | .updateProject id ifMatch body point =>
      (point.step r id ifMatch body io b).map fun (p, b') =>
        (.updateProject id ifMatch body p, b')
  | .createProject body owner base point =>
      (point.step body owner base io b).map fun (p, b') => (.createProject body owner base p, b')
  | .deleteProject id point => (point.step id b).map fun (p, b') => (.deleteProject id p, b')
  | .submitRun project body point =>
      (point.step env.spur env.settings project body io b).map fun (p, b') =>
        (.submitRun project body p, b')
  | .editRun run edit point => (point.step run edit b).map fun (p, b') => (.editRun run edit p, b')
  | .deleteRun run point => (point.step run b).map fun (p, b') => (.deleteRun run p, b')

/-- The state of the service. -/
structure State (μ : Type) where
  backend : Backend
  requests : RequestId → Option Request
  /-- the invocation of `run_simulation` for a run, once a worker took its job -/
  workers : Uuid → Option (WorkerPoint μ)

/-- Whose step comes next. -/
inductive Action
  | arrive (r : RequestId) (q : Request)
  | request (r : RequestId) (io : Io)
  /-- any `GET`: it takes no lock and writes nothing -/
  | read
  | deliver (run : Uuid)
  | work (run : Uuid) (io : Io)

section

variable {μ : Type}

/-- What the database holds of a run. -/
def State.slice (s : State μ) (run : Uuid) : RunSlice :=
  ⟨s.backend.db.runs run, s.backend.db.events run⟩

/-- What a worker's query for the live project finds. -/
def State.liveProject (s : State μ) : WorkerPoint μ → Option ProjectRow
  | .loadingProject row => s.backend.db.projects row.projectId
  | _ => none

def State.setRequest (s : State μ) (r : RequestId) (q : Request) (b : Backend) : State μ :=
  { s with backend := b, requests := Function.update s.requests r (some q) }

def State.setWorker (s : State μ) (run : Uuid) (p : WorkerPoint μ) : State μ :=
  { s with workers := Function.update s.workers run (some p) }

def State.setSlice (s : State μ) (run : Uuid) (slice : RunSlice) : State μ :=
  { s with backend := { s.backend with
      db := (s.backend.db.setRun run slice.row).setEvents run slice.events } }

/-- One step of the service. -/
def State.step (env : Env μ) (s : State μ) : Action → Option (State μ)
  | .arrive r q =>
      if (s.requests r).isNone && q.isReceived then some (s.setRequest r q s.backend) else none
  | .request r io =>
      match s.requests r with
      | none => none
      | some q =>
          match q.step env r io s.backend with
          | none => none
          | some (q', b) => some (s.setRequest r q' b)
  | .read => some s
  | .deliver run =>
      if (s.backend.jobs.any fun j => j.run == run) && (s.workers run).isNone then
        some (s.setWorker run .loading)
      else none
  | .work run io =>
      match s.workers run with
      | none => none
      | some p =>
          match workerStep env (s.liveProject p) io (s.slice run) p with
          | none => none
          | some (p', slice) => some ((s.setSlice run slice).setWorker run p')

/-- The service as a machine. -/
def system (env : Env μ) : Transition.Machine (State μ) Action := ⟨State.step env⟩

/-- Before the first request: projects as the migrations left them, with
`inputs_version = version`, and nothing in flight.  There are no runs yet: a run whose row is
older than the column has no snapshot of its spec and may have no target, as every run has that
is submitted.  What does not rest on that is proved from `State.Resting`, where such runs are. -/
structure State.Initial (s : State μ) : Prop where
  requests : ∀ r, s.requests r = none
  workers : ∀ run, s.workers run = none
  runs : ∀ run, s.backend.db.runs run = none
  events : ∀ run, s.backend.db.events run = []
  jobs : s.backend.jobs = []
  locks : ∀ p, s.backend.locks p = none
  minted : ∀ p row, s.backend.db.projects p = some row → p ∈ s.backend.minted
  versions : ∀ p row, s.backend.db.projects p = some row →
    row.inputsVersion = row.version ∧ 1 ≤ row.version
  bases : ∀ p row base, s.backend.db.projects p = some row → row.baseProjectId = some base →
    ∃ baseRow, s.backend.db.projects base = some baseRow ∧ baseRow.baseProjectId = none

/-- The empty service. -/
def State.empty : State μ where
  backend := ⟨⟨fun _ => none, fun _ => none, fun _ => []⟩, fun _ => none, [], []⟩
  requests := fun _ => none
  workers := fun _ => none

/-- The service with the model `Spur.clock` and the default settings. -/
def clockEnv : Env Int := ⟨Spur.clock, {}⟩

theorem State.empty_initial : (State.empty : State μ).Initial :=
  ⟨by simp [empty], by simp [empty], by simp [empty], by simp [empty], by simp [empty],
    by simp [empty], by simp [empty], by simp [empty], by simp [empty]⟩

end

end SpurApi
