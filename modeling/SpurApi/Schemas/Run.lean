/-
The run resource: its status, the request that submits runs, and the answer that
describes one.
-/
import SpurApi.Basic
import Mathlib.Data.Int.Notation

namespace SpurApi

/-- The largest seed, `2**63 - 1`: the column is a signed 64-bit integer. -/
def maxSeed : Int := 9223372036854775807

/-- How many runs one submission can ask for. -/
def maxSeeds : Nat := 100

inductive RunStatus
  | queued
  | running
  | completed
  | failed
  | cancelled
deriving DecidableEq, Repr

/-- A run in one of these is over. -/
def RunStatus.terminal : RunStatus → Bool
  | .queued | .running => false
  | .completed | .failed | .cancelled => true

/-- `RunCreate`, a body that passed its validation. -/
structure RunCreate where
  untilTime : Option Int
  chunkSize : Option Int
  seed : Option Int
  seeds : Nat
  name : Option String
  seed_range : ∀ s, seed = some s → 0 ≤ s ∧ s ≤ maxSeed
  seeds_range : 1 ≤ seeds ∧ seeds ≤ maxSeeds
  /-- `_seeds_fit` -/
  seeds_fit : ∀ s, seed = some s → s + seeds - 1 ≤ maxSeed

/-- So many runs, from seed 7 on. -/
def RunCreate.fromSeven (untilTime chunkSize : Option Int) (seeds : Nat)
    (h : 1 ≤ seeds ∧ seeds ≤ maxSeeds) : RunCreate where
  untilTime := untilTime
  chunkSize := chunkSize
  seed := some 7
  seeds := seeds
  name := none
  seed_range := fun s hs => by
    rw [Option.some.injEq] at hs
    subst hs
    decide
  seeds_range := h
  seeds_fit := fun s hs => by
    rw [Option.some.injEq] at hs
    subst hs
    simp only [maxSeeds, maxSeed] at h ⊢
    omega

/-- One run with seed 7. -/
def RunCreate.single (untilTime chunkSize : Option Int) : RunCreate :=
  .fromSeven untilTime chunkSize 1 (by decide)

/-- A batch of two runs, with seeds 7 and 8. -/
def RunCreate.pair (untilTime chunkSize : Option Int) : RunCreate :=
  .fromSeven untilTime chunkSize 2 (by decide)

/-- `Run`: the answer that describes a run. -/
structure Run where
  id : Uuid
  projectId : Uuid
  name : Option String
  projectVersion : Option Int
  status : RunStatus
  requestedUntil : Option Int
  untilTarget : Option Int
  seed : Option Int
  batchId : Option Uuid
  simTimeNow : Option Int
  errorMessage : Option String
  startedAt : Option Time
  finishedAt : Option Time
deriving DecidableEq

end SpurApi
