/-
One invocation of `run_simulation`, on its own.

Of all that happens in the service an invocation meets little: between two of its
steps clients write three columns of its run's row, or the run is deleted.  Here these
are turns of a machine, so a history of turns is one order in which all this can
happen, and with it every answer that `is_cancelled` can be given.  The project of the
run is what a query for it finds, the same one at any time.
-/
import SpurApi.Lib.Simulation
import SpurApi.System

namespace SpurApi

open Transition

/-- An invocation, and what the database holds of its run. -/
structure Invocation (μ : Type) where
  point : WorkerPoint μ
  slice : RunSlice

/-- What comes next. -/
inductive Turn
  | work (io : Io)
  /-- clients write the columns that are theirs -/
  | write (name : Option String) (cancelRequested : Bool) (arqJobId : Option String)
  /-- the run is deleted, with its events -/
  | delete

/-- The row with what clients write. -/
def SimulationRunRow.written (name : Option String) (cancelRequested : Bool)
    (arqJobId : Option String) (row : SimulationRunRow) : SimulationRunRow :=
  { row with name := name, cancelRequested := cancelRequested, arqJobId := arqJobId }

section

variable {μ : Type}

/-- The invocation takes the job of a run of which this is stored. -/
def Invocation.ofSlice (slice : RunSlice) : Invocation μ := ⟨.loading, slice⟩

/-- One turn. -/
def Invocation.step (env : Env μ) (project : Option ProjectRow) (i : Invocation μ) :
    Turn → Option (Invocation μ)
  | .work io =>
      match workerStep env project io i.slice i.point with
      | none => none
      | some (point, slice) => some ⟨point, slice⟩
  | .write name cancelRequested arqJobId =>
      some { i with slice := { i.slice with
        row := i.slice.row.map (SimulationRunRow.written name cancelRequested arqJobId) } }
  | .delete => some { i with slice := ⟨none, []⟩ }

/-- The invocation as a machine. -/
def invocation (env : Env μ) (project : Option ProjectRow) : Machine (Invocation μ) Turn :=
  ⟨Invocation.step env project⟩

/-! ### What a history shows -/

/-- The turn without what only a model depends on that is not deterministic. -/
def Turn.plain : Turn → Turn
  | .work io => .work { io with entropy := 0 }
  | turn => turn

/-- The turn of an entry.  A query for the project that finds it counts for nothing: only an
invocation of a run without a snapshot makes one. -/
def turnOf (e : Entry (Invocation μ) Turn) : Option Turn :=
  match e.pre.point, e.act with
  | .loadingProject _, .work io => if io.fault.isNone then none else some e.act.plain
  | _, _ => some e.act.plain

/-- What the runner was made of, and where it stood when it took a step. -/
def ranAt (e : Entry (Invocation μ) Turn) : Option (Json.Object × Option Int × RunPoint μ) :=
  match e.pre.point, e.act with
  | .running w p, .work _ => some (w.spec, w.row.seed, p)
  | _, _ => none

/-- The turns of a history. -/
def turns (tr : List (Entry (Invocation μ) Turn)) : List Turn := shown turnOf tr

/-- What the runner did in a history: the spec and the seed the model is built from, its target,
and every chunk with the events that came out of it. -/
def ran (tr : List (Entry (Invocation μ) Turn)) : List (Json.Object × Option Int × RunPoint μ) :=
  shown ranAt tr

end

end SpurApi
