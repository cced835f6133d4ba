/-
The service when a job can be delivered more than once.

The service of `System` executes a job at most once.  arq delivers a job again when
its invocation was cut short: the process died, or a shutdown of the worker raised
`asyncio.CancelledError`, which `except Exception` does not catch, at an await.  What
the session had not committed is gone then, and everything else is as it was.

The last await comes after the last commit: the session is closed, whether the
invocation returns or an exception leaves it, and only then does arq take the job off
its queue.  So an invocation can be cut short when its run has a terminal status.
-/
import SpurApi.System

namespace SpurApi

open Transition

/-- The invocation for this run is cut short: where it stands between two steps, or while its
session is closed. -/
structure Cut where
  run : Uuid

section

variable {μ : Type}

/-- Nothing is left of the invocation.  The job is in Redis still, so it can be delivered as any
job that no invocation has. -/
def State.cutShort (s : State μ) (cut : Cut) : Option (State μ) :=
  match s.workers cut.run with
  | none => none
  | some _ => some { s with workers := Function.update s.workers cut.run none }

/-- The service with redelivery. -/
def redelivering (env : Env μ) : Machine (State μ) (Action ⊕ Cut) :=
  (system env).or ⟨State.cutShort⟩

end

end SpurApi
