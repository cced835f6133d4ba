/-
The application: the routes of `create_app`, behind authentication.

A call is refused before it is a request of the service: its principal is asked for
first, and its body is read after that.  Only a body that is no JSON at all is refused
before both.  What gets through arrives at the service as a `Request`, with the id of the
principal as the owner of what it creates.
-/
import SpurApi.Auth
import SpurApi.Schemas.RunBody
import SpurApi.System

namespace SpurApi

open Transition

/-- The body of a call. -/
inductive RawBody
  | absent
  | malformed
  | json (value : Json.Object)
  /-- some other JSON value -/
  | other

/-- A route and what is sent to it.  Ids and projects are given as they were read; `rejected`
is a call in which FastAPI or `ProjectSpec` refuses one of these, and `malformed` one whose
project is no JSON at all. -/
inductive Route
  | createProject (body : ProjectSpec) (base : Option Uuid)
  | updateProject (id : Uuid) (ifMatch : Option HeaderValue) (body : ProjectSpec)
  | deleteProject (id : Uuid)
  | submitRun (project : Uuid) (body : RawBody)
  | renameRun (run : Uuid) (body : RawBody)
  | cancelRun (run : Uuid)
  | deleteRun (run : Uuid)
  | get
  | rejected (errors : List FieldError)
  | malformed

/-- A call as it comes in. -/
structure HttpCall where
  authorization : Option HeaderValue
  route : Route

/-- What a call is answered with that never becomes a request. -/
inductive Refusal
  | authError (e : AuthError)
  | invalidJson
  | invalid (errors : List FieldError)
deriving DecidableEq

/-- The status code of the answer. -/
def Refusal.status : Refusal → Nat
  | .authError (.httpException statusCode _) => statusCode
  | .authError (.unhandled _) => 500
  | .invalidJson => 422
  | .invalid _ => 422

/-- The body of the call is not JSON. -/
def Route.isMalformed : Route → Bool
  | .submitRun _ .malformed => true
  | .renameRun _ .malformed => true
  | .malformed => true
  | _ => false

/-- Read a body that has to be an object. -/
def RawBody.read {α : Type} (read : Json.Object → Except (List FieldError) α) :
    RawBody → Except Refusal α
  | .absent => .error (.invalid [⟨["body"], .missing⟩])
  | .malformed => .error .invalidJson
  | .other => .error (.invalid [⟨["body"], .notAnObject⟩])
  | .json d =>
      match read d with
      | .ok a => .ok a
      | .error errors => .error (.invalid errors)

/-- The request that the route makes of a call; a `GET` changes nothing and is none. -/
def Route.request (readInt : ReadInt) (principal : StaticPrincipal) :
    Route → Except Refusal (Option Request)
  | .createProject body base =>
      .ok (some (.createProject body (some principal.id) base .received))
  | .updateProject id ifMatch body => .ok (some (.updateProject id ifMatch body .received))
  | .deleteProject id => .ok (some (.deleteProject id .received))
  | .submitRun project body =>
      match body.read (RunCreate.ofObject readInt) with
      | .error e => .error e
      | .ok body => .ok (some (.submitRun project body .received))
  | .renameRun run body =>
      match body.read runUpdate with
      | .error e => .error e
      | .ok name => .ok (some (SpurApi.renameRun run name))
  | .cancelRun run => .ok (some (requestCancel run))
  | .deleteRun run => .ok (some (.deleteRun run .received))
  | .get => .ok none
  | .rejected errors => .error (.invalid errors)
  | .malformed => .error .invalidJson

/-- What the application reads of its surroundings. -/
structure AppSettings where
  auth : AuthSettings
  readInt : ReadInt

/-- What becomes of a call. -/
def HttpCall.dispatch (settings : AppSettings) (call : HttpCall) :
    Except Refusal (Option Request) :=
  if call.route.isMalformed then .error .invalidJson
  else
    match currentPrincipal settings.auth call.authorization with
    | .error e => .error (.authError e)
    | .ok principal => call.route.request settings.readInt principal

/-- The service behind its routes. -/
structure AppState (μ : Type) where
  service : State μ
  /-- the calls that were refused -/
  refused : RequestId → Option Refusal

/-- A call comes in, or the service takes a step of its own. -/
inductive AppAction
  | call (r : RequestId) (c : HttpCall)
  | serve (a : Action)

/-- A request arrives only through a call, and a read is one. -/
def Action.isServed : Action → Bool
  | .arrive _ _ => false
  | .read => false
  | _ => true

section

variable {μ : Type}

/-- Where a call leads, from what became of it. -/
def AppState.answer (env : Env μ) (s : AppState μ) (r : RequestId) :
    Except Refusal (Option Request) → Option (AppState μ)
  | .error e => some { s with refused := Function.update s.refused r (some e) }
  | .ok none => some s
  | .ok (some q) => (s.service.step env (.arrive r q)).map fun t => { s with service := t }

/-- One step of the application. -/
def AppState.step (settings : AppSettings) (env : Env μ) (s : AppState μ) :
    AppAction → Option (AppState μ)
  | .call r c =>
      if (s.refused r).isNone && (s.service.requests r).isNone then
        s.answer env r (c.dispatch settings)
      else none
  | .serve a =>
      if a.isServed then (s.service.step env a).map fun t => { s with service := t } else none

/-- The application as a machine. -/
def app (settings : AppSettings) (env : Env μ) : Machine (AppState μ) AppAction :=
  ⟨AppState.step settings env⟩

/-- Before the first call. -/
structure AppState.Initial (s : AppState μ) : Prop where
  service : s.service.Initial
  refused : ∀ r, s.refused r = none

/-- The empty service behind its routes. -/
def AppState.empty : AppState μ := ⟨State.empty, fun _ => none⟩

theorem AppState.empty_initial : (AppState.empty : AppState μ).Initial :=
  ⟨State.empty_initial, fun _ => rfl⟩

end

end SpurApi
