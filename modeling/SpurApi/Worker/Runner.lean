/-
`SpurRunner.run`: one project run to completion or cancellation, chunk by chunk.

The runner knows nothing of the database.  It awaits two callbacks of its caller,
`is_cancelled` before each chunk and `on_chunk` after it, and between two awaits it
only calls the model.  So its run is a machine over the points where it stands:
`advance` makes the next call of the model, `answered` takes what `is_cancelled`
returned, `flushed` goes on after `on_chunk` returned.
-/
import SpurApi.Spur

namespace SpurApi

/-- The settings the runner reads. -/
structure Settings where
  defaultChunkCount : Int := 100
  defaultRunHorizon : Int := 86400

/-- `t["deletion_time"]`, an integer as spur's schema of a tour has it.  A spec that was not
checked can have anything there; a float is taken for an error, as other things are. -/
def deletionTime : Json → Except Exn Int
  | .obj fields =>
      match fields.lookup "deletion_time" with
      | some (.int n) => .ok n
      | some (.bool b) => .ok (if b then 1 else 0)
      | some _ => .error ⟨.typeError, "deletion_time is not an integer"⟩
      | none => .error ⟨.keyError, "'deletion_time'"⟩
  | _ => .error ⟨.typeError, "tour is not an object"⟩

/-- What `for t in project_dict.get("tours", [])` goes through: of an object the keys, of a string
the characters. -/
def toursOf (projectDict : Json.Object) : Except Exn (List Json) :=
  match projectDict.fields.lookup "tours" with
  | none => .ok []
  | some (.arr tours) => .ok tours
  | some (.obj fields) => .ok (fields.map fun field => .str field.1)
  | some (.str s) => .ok (s.toList.map fun c => .str c.toString)
  | some _ => .error ⟨.typeError, "tours is not iterable"⟩

/-- `derive_until`: the latest tour deletion time, or the default horizon without tours. -/
def deriveUntil (settings : Settings) (projectDict : Json.Object) : Except Exn Int :=
  match toursOf projectDict with
  | .error e => .error e
  | .ok tours =>
      match tours.mapM deletionTime with
      | .error e => .error e
      | .ok [] => .ok settings.defaultRunHorizon
      | .ok (t :: ts) => .ok (ts.foldl max t)

/-- The arguments of a `SpurRunner`. -/
structure SpurRunner where
  projectDict : Json.Object
  untilTime : Option Int
  chunkSize : Option Int
  seed : Option Int

/-- A runner of a project with nothing in it. -/
def SpurRunner.bare (untilTime chunkSize : Option Int) : SpurRunner :=
  ⟨⟨[], rfl⟩, untilTime, chunkSize, some 7⟩

/-- `_build_model`. -/
def SpurRunner.buildModel {μ : Type} (runner : SpurRunner) (spur : Spur μ) (entropy : Nat) :
    Except Exn μ :=
  match spur.fromProjectDictionary entropy runner.projectDict runner.seed with
  | .ok model => .ok model
  | .error e =>
      match e.kind with
      | .spurError | .keyError | .valueError | .typeError =>
          .error ⟨.invalidProjectError, s!"Could not build a model from project: {e.text}"⟩
      | _ => .error e

/-- `until_target`. -/
def SpurRunner.untilTarget (runner : SpurRunner) (settings : Settings) : Except Exn Int :=
  match runner.untilTime with
  | some t => .ok t
  | none => deriveUntil settings runner.projectDict

/-- `self.chunk_size or max(1, until_target // settings.default_chunk_count)`. -/
def SpurRunner.chunk (runner : SpurRunner) (settings : Settings) (untilTarget : Int) :
    Except Exn Int :=
  let derived :=
    if settings.defaultChunkCount = 0 then
      .error ⟨.zeroDivisionError, "integer division or modulo by zero"⟩
    else .ok (max 1 (untilTarget.fdiv settings.defaultChunkCount))
  match runner.chunkSize with
  | some c => if c = 0 then derived else .ok c
  | none => derived

/-- The variables of `SpurRunner.run` once its loop is reached. -/
structure Loop (μ : Type) where
  model : μ
  eventsBatch : List SimEvent
  untilTarget : Int
  chunk : Int

/-- At which of its three places the runner awaits `on_chunk`. -/
inductive Flush
  | chunk
  | cancelled
  | final
deriving DecidableEq

/-- What `SpurRunner.run` returns. -/
inductive Outcome
  | completed
  | cancelled
deriving DecidableEq

/-- Where `SpurRunner.run` stands. -/
inductive RunPoint (μ : Type)
  | building
  | starting (model : μ)
  /-- awaiting `is_cancelled()` -/
  | asking (l : Loop μ)
  /-- about to call `model.run` -/
  | advancing (l : Loop μ)
  /-- awaiting `on_chunk(model.now, list(events_batch))` -/
  | flushing (l : Loop μ) (place : Flush)
  /-- past the loop, about to call `log_current_state` -/
  | logging (l : Loop μ)
  | finished (outcome : Outcome)
  | raised (e : Exn)

section

variable {μ : Type} (spur : Spur μ)

/-- `while model.now < until_target`. -/
def Loop.head (l : Loop μ) : RunPoint μ :=
  if spur.now l.model < l.untilTarget then .asking l else .logging l

/-- `min(model.now + chunk, until_target)`. -/
def Loop.nextCheckpoint (l : Loop μ) : Int := min (spur.now l.model + l.chunk) l.untilTarget

/-- What the code does between two awaits: one call of the model and what follows it. -/
def SpurRunner.advance (runner : SpurRunner) (settings : Settings) (entropy : Nat) :
    RunPoint μ → RunPoint μ
  | .building =>
      match runner.buildModel spur entropy with
      | .error e => .raised e
      | .ok model => .starting model
  | .starting model =>
      match (spur.start model).result with
      | .error e => .raised e
      | .ok model' =>
          match runner.untilTarget settings with
          | .error e => .raised e
          | .ok target =>
              match runner.chunk settings target with
              | .error e => .raised e
              | .ok chunk => Loop.head spur ⟨model', (spur.start model).emitted, target, chunk⟩
  | .advancing l =>
      match (spur.run l.model (l.nextCheckpoint spur)).result with
      | .error e => .raised e
      | .ok model' =>
          .flushing { l with
            model := model'
            eventsBatch :=
              l.eventsBatch ++ (spur.run l.model (l.nextCheckpoint spur)).emitted } .chunk
  | .logging l =>
      match (spur.logCurrentState l.model).result with
      | .error e => .raised e
      | .ok model' =>
          .flushing { l with
            model := model'
            eventsBatch := l.eventsBatch ++ (spur.logCurrentState l.model).emitted } .final
  | p => p

/-- `is_cancelled()` returned. -/
def RunPoint.answered (cancelled : Bool) : RunPoint μ → RunPoint μ
  | .asking l => if cancelled then .flushing l .cancelled else .advancing l
  | p => p

/-- `on_chunk(...)` returned: the batch is cleared in the loop only. -/
def RunPoint.flushed : RunPoint μ → RunPoint μ
  | .flushing l .chunk => Loop.head spur { l with eventsBatch := [] }
  | .flushing _ .cancelled => .finished .cancelled
  | .flushing _ .final => .finished .completed
  | p => p

end

example : deriveUntil {} ⟨[("tours", .arr [.obj [("deletion_time", .int 5)],
    .obj [("deletion_time", .int 9)]])], by decide⟩ = .ok 9 := by rfl

end SpurApi
