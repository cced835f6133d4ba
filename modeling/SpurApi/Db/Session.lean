/-
What requests and workers share, and what the outside decides at a step.

Every request and every worker invocation has a session of its own, and the
database runs at READ COMMITTED: a query sees what was committed before it, a
commit writes at once what the session flushed.  So a session is seen by the
others only at its commits, and the shared state is what is committed, the row
locks taken by `SELECT ... FOR UPDATE`, and the jobs put in Redis.

Other row locks are not modelled: an `UPDATE` or a `DELETE` that would wait for
another session's commit may come first here, which only adds interleavings.
-/
import SpurApi.Db.Models

namespace SpurApi

/-- A request in flight, and the session it runs in. -/
abbrev RequestId := Nat

/-- A job in Redis: `run_simulation` for one run. -/
structure Job where
  id : String
  run : Uuid
deriving DecidableEq

/-- Postgres and Redis, as every session sees them. -/
structure Backend where
  db : Db
  /-- which session holds the lock on a row of `projects` -/
  locks : Uuid → Option RequestId
  /-- every job ever put in Redis -/
  jobs : List Job
  /-- every id `uuid4` has given -/
  minted : List Uuid

namespace Backend

def lock (b : Backend) (id : Uuid) (r : RequestId) : Backend :=
  { b with locks := Function.update b.locks id (some r) }

def unlock (b : Backend) (id : Uuid) : Backend :=
  { b with locks := Function.update b.locks id none }

def setProject (b : Backend) (id : Uuid) (row : ProjectRow) : Backend :=
  { b with db := b.db.setProject id (some row) }

def setRun (b : Backend) (id : Uuid) (row : Option SimulationRunRow) : Backend :=
  { b with db := b.db.setRun id row }

/-- New ids: `uuid4` never gives one twice. -/
def fresh (b : Backend) (ids : List Uuid) : Bool :=
  decide ids.Nodup && ids.all fun id => !b.minted.contains id

def mint (b : Backend) (ids : List Uuid) : Backend := { b with minted := ids ++ b.minted }

end Backend

/-- A failure that comes from outside at a step.  `aborts`: it left the session's transaction
aborted, so that Postgres refuses every statement until a rollback. -/
structure Fault where
  exn : Exn
  aborts : Bool
deriving DecidableEq

/-- What the outside decides at a step: the clock, new ids, the random draw, the id of a job
that is enqueued, whatever else a model depends on, and whether the call fails. -/
structure Io where
  now : Time := 0
  ids : List Uuid := []
  draw : Int := 0
  jobId : String := ""
  entropy : Nat := 0
  fault : Option Fault := none

end SpurApi
