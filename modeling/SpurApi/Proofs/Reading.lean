/-
What a `GET` is answered with.

The queries of a `GET` are made one after another, and anything may be committed between
them.  None of them fails for it: a stored run has its own copy of the spec, so its project
is not asked for, and the sections of a stored spec are lists.  What can fail is a query with
a parameter that Postgres does not take, for the routes do not check them all: a page of
events may be asked for with a negative size.  And spur's analysis may raise anything;
`_analyze_run` takes care of an `InputMismatchError` only.
-/
import SpurApi.Proofs.RunLists
import SpurApi.Proofs.Scenarios

namespace SpurApi

open Transition

/-- A `GET` of projects, of a run or of its results, with the parameters that its route lets
through. -/
inductive Read
  | project (id : Uuid)
  | projects (limit offset : Nat) (base : Option Uuid)
  | run (id : Uuid)
  | events (id : Uuid) (filter : EventFilter) (limit : Int) (offset : Nat)
  | summary (id : Uuid) (threshold : Int)
  | visits (id : Uuid) (trainUid componentUid : Option String) (limit offset : Nat)

/-- Which parameters of a query Postgres and its driver take; they raise for any other. -/
structure Driver where
  takesInt : Int → Bool
  takesText : String → Bool

def EventFilter.taken (driver : Driver) (filter : EventFilter) : Bool :=
  filter.sinceTime.all driver.takesInt && filter.trainUid.all driver.takesText &&
    filter.componentUid.all driver.takesText

/-- The parameters of its queries are taken; ids are. -/
def Read.taken (driver : Driver) : Read → Bool
  | .projects limit offset _ => driver.takesInt limit && driver.takesInt offset
  | .events _ filter limit offset =>
      filter.taken driver && driver.takesInt limit && driver.takesInt offset
  | _ => true

/-- The status code of an answer. -/
def statusOf {α : Type} : Except ApiError α → Nat
  | .ok _ => 200
  | .error e => e.status

/-- `_analyze_run`, whose queries find what is stored at these times. -/
def analyzedAt {ρ : Type} (analyze : Analyze ρ) (b₁ b₂ b₃ : Backend) (run : Uuid)
    (threshold : Int) : Except ApiError (RunStatus × Analysis ρ) :=
  analyzeRun analyze run (b₁.db.runs run)
    ((b₁.db.runs run).bind fun row => b₂.db.projects row.projectId) (b₃.db.events run) threshold

/-- `list_projects`, with its query. -/
def listedAt (driver : Driver) (b : Backend) (limit offset : Nat) (base : Option Uuid) :
    Except ApiError (List ProjectSummary) :=
  if (Read.projects limit offset base).taken driver then
    listProjects b.projectRows limit offset base
  else .error (.unhandled dataError)

/-- `get_run_events`, with its queries: the one for the events is made when there is a run. -/
def eventsAt (driver : Driver) (b₁ b₂ : Backend) (id : Uuid) (filter : EventFilter) (limit : Int)
    (offset : Nat) : Except ApiError (List SimEvent) :=
  if (b₁.db.runs id).isSome && !(Read.events id filter limit offset).taken driver then
    .error (.unhandled dataError)
  else getRunEvents id (b₁.db.runs id) (b₂.db.events id) filter limit offset

/-- The status code of a `GET` whose queries are made at these times. -/
def Read.status {ρ : Type} (analyze : Analyze ρ) (driver : Driver) (b₁ b₂ b₃ : Backend) :
    Read → Nat
  | .project id => statusOf (getProject b₁.db id)
  | .projects limit offset base => statusOf (listedAt driver b₁ limit offset base)
  | .run id => statusOf (getRun id (b₁.db.runs id))
  | .events id filter limit offset => statusOf (eventsAt driver b₁ b₂ id filter limit offset)
  | .summary id threshold => statusOf (getRunSummary (analyzedAt analyze b₁ b₂ b₃ id threshold))
  | .visits id trainUid componentUid limit offset =>
      statusOf (getRunVisits (analyzedAt analyze b₁ b₂ b₃ id visitsThreshold) trainUid
        componentUid limit offset)

/-- The run that is asked about. -/
def Read.ofRun : Read → Option Uuid
  | .run id => some id
  | .events id _ _ _ => some id
  | .summary id _ => some id
  | .visits id _ _ _ _ => some id
  | _ => none

/-- What is asked for is not there. -/
def Read.Missing (db : Db) (q : Read) : Prop :=
  (∃ id, q = .project id ∧ db.projects id = none) ∨ ∃ id, q.ofRun = some id ∧ db.runs id = none

/-- Postgres does not take a query of it. -/
def Read.Untaken (driver : Driver) (db : Db) (q : Read) : Prop :=
  ¬ q.Missing db ∧ (q.taken driver = false ∨
    ∃ id filter limit offset, q = .events id filter limit offset ∧ limit < 0)

/-- The run that is analysed, and with which threshold. -/
def Read.analyzed : Read → Option (Uuid × Int)
  | .summary id threshold => some (id, threshold)
  | .visits id _ _ _ _ => some (id, visitsThreshold)
  | _ => none

/-- Results are asked for of a run that is still queued. -/
def Read.Early (db : Db) (q : Read) : Prop :=
  ∃ id threshold row, q.analyzed = some (id, threshold) ∧ db.runs id = some row ∧
    row.status = .queued

/-- The analysis of the events, with what the run ran, raises an exception. -/
def Read.Raises {ρ : Type} (analyze : Analyze ρ) (db db' : Db) (q : Read) (e : Exn) : Prop :=
  ∃ id threshold row spec, q.analyzed = some (id, threshold) ∧ db.runs id = some row ∧
    row.status ≠ .queued ∧ row.specSnapshot = some spec ∧
      analyze ((orderBySeq (db'.events id)).map eventFromRow) spec threshold = .error e

/-- The events of the run do not match what it ran. -/
def Read.Mismatch {ρ : Type} (analyze : Analyze ρ) (db db' : Db) (q : Read) : Prop :=
  ∃ e, q.Raises analyze db db' e ∧ e.kind = .inputMismatchError

/-- The analysis fails, and not because of that. -/
def Read.Crash {ρ : Type} (analyze : Analyze ρ) (db db' : Db) (q : Read) : Prop :=
  ∃ e, q.Raises analyze db db' e ∧ e.kind ≠ .inputMismatchError

/-- The status code says which of these it was, or that it was none. -/
structure Read.Answered {ρ : Type} (analyze : Analyze ρ) (driver : Driver) (db db' : Db) (q : Read)
    (status : Nat) : Prop where
  missing : status = 404 ↔ q.Missing db
  early : status = 409 ↔ q.Early db
  mismatch : status = 422 ↔ q.Mismatch analyze db db'
  failed : status = 500 ↔ q.Untaken driver db ∨ q.Crash analyze db db'
  found : status = 200 ↔ ¬ q.Missing db ∧ ¬ q.Early db ∧ ¬ q.Mismatch analyze db db' ∧
    ¬ q.Untaken driver db ∧ ¬ q.Crash analyze db db'

section

variable {μ ρ : Type} {env : Env μ} {s₀ s : State μ} {tr : List (Entry (State μ) Action)}
  {analyze : Analyze ρ} {driver : Driver} {b₁ b₂ b₃ : Backend} {run : Uuid} {threshold : Int}

/-- A run that was submitted has its snapshot. -/
theorem snapshot_of_row (h₀ : s₀.Initial) (h : Exec (system env) s₀ tr s)
    {row : SimulationRunRow} (hrow : s.backend.db.runs run = some row) :
    ∃ spec, row.specSnapshot = some spec := by
  obtain ⟨r, project, body, w, sub, horigin⟩ := origin_of_row h₀ h row hrow
  obtain ⟨i, id, -, rfl⟩ := Build.mem_rows_iff.mp horigin.mem
  exact ⟨w.read.spec, congrArg Submission.specSnapshot horigin.submission⟩

/-- A summary or visits. -/
theorem analyzed_answered {q : Read} (hq : q.analyzed = some (run, threshold))
    (hsnapshot : ∀ row, b₁.db.runs run = some row → ∃ spec, row.specSnapshot = some spec) :
    q.Answered analyze driver b₁.db b₃.db
      (statusOf (analyzedAt analyze b₁ b₂ b₃ run threshold)) := by
  have hof : q.ofRun = some run := by
    cases q <;> simp_all [Read.analyzed, Read.ofRun]
  have hproject : ∀ id, q ≠ .project id := by
    rintro id rfl
    cases hq
  have htaken : q.taken driver = true := by
    cases q with
    | summary | visits => rfl
    | _ => cases hq
  have hevents : ∀ id filter limit offset, q ≠ .events id filter limit offset := by
    rintro id filter limit offset rfl
    cases hq
  have hmissing : q.Missing b₁.db ↔ b₁.db.runs run = none := by
    simp [Read.Missing, hof, hproject]
  have hearly : q.Early b₁.db ↔ ∃ row, b₁.db.runs run = some row ∧ row.status = .queued := by
    simp [Read.Early, hq]
  have hraises : ∀ e, q.Raises analyze b₁.db b₃.db e ↔ ∃ row, b₁.db.runs run = some row ∧
      row.status ≠ .queued ∧ ∃ spec, row.specSnapshot = some spec ∧
        analyze ((orderBySeq (b₃.db.events run)).map eventFromRow) spec threshold = .error e := by
    simp [Read.Raises, hq]
  have huntaken : ¬ q.Untaken driver b₁.db := by simp [Read.Untaken, htaken, hevents]
  rw [analyzedAt]
  cases hrow : b₁.db.runs run with
  | none =>
      show Read.Answered analyze driver b₁.db b₃.db q 404
      constructor <;> simp [Read.Mismatch, Read.Crash, hraises, hmissing, hearly, huntaken, hrow]
  | some row =>
      by_cases hqueued : row.status = .queued
      · have hnotReady : ∃ detail, analyzeRun analyze run (some row)
            ((some row).bind fun row => b₂.db.projects row.projectId) (b₃.db.events run)
              threshold = .error (.runNotReady detail) := ⟨_, if_pos hqueued⟩
        obtain ⟨detail, hdetail⟩ := hnotReady
        rw [hdetail]
        show Read.Answered analyze driver b₁.db b₃.db q 409
        constructor <;>
          simp [Read.Mismatch, Read.Crash, hraises, hmissing, hearly, huntaken, hrow, hqueued]
      · obtain ⟨spec, hspec⟩ := hsnapshot row hrow
        simp only [analyzeRun, if_neg hqueued, hspec, Option.orElse_some]
        cases hanalyze : analyze ((orderBySeq (b₃.db.events run)).map eventFromRow) spec
            threshold with
        | error exn =>
            by_cases hkind : exn.kind = .inputMismatchError
            · simp only [if_pos hkind]
              show Read.Answered analyze driver b₁.db b₃.db q 422
              constructor <;> simp [Read.Mismatch, Read.Crash, hraises, hmissing, hearly, huntaken,
                hrow, hqueued, hspec, hanalyze, hkind]
            · simp only [if_neg hkind]
              show Read.Answered analyze driver b₁.db b₃.db q 500
              constructor <;> simp [Read.Mismatch, Read.Crash, hraises, hmissing, hearly, huntaken,
                hrow, hqueued, hspec, hanalyze, hkind]
        | ok analysis =>
            show Read.Answered analyze driver b₁.db b₃.db q 200
            constructor <;>
              simp [Read.Mismatch, Read.Crash, hraises, hmissing, hearly, huntaken, hrow, hqueued,
                hspec, hanalyze]

/-- A read that analyses nothing. -/
theorem Read.Answered.plain {q : Read} {db db' : Db} {status : Nat} (hplain : q.analyzed = none)
    (hstatus : status = 200 ∨ status = 404 ∨ status = 500)
    (hmissing : status = 404 ↔ q.Missing db) (huntaken : status = 500 ↔ q.Untaken driver db) :
    q.Answered analyze driver db db' status := by
  have hearly : ¬ q.Early db := by
    rintro ⟨id, threshold, row, hanalyzed, -⟩
    rw [hplain] at hanalyzed
    cases hanalyzed
  have hraises : ∀ e, ¬ q.Raises analyze db db' e := by
    rintro e ⟨id, threshold, row, spec, hanalyzed, -⟩
    rw [hplain] at hanalyzed
    cases hanalyzed
  have hmismatch : ¬ q.Mismatch analyze db db' := fun ⟨e, he, _⟩ => hraises e he
  have hcrash : ¬ q.Crash analyze db db' := fun ⟨e, he, _⟩ => hraises e he
  refine ⟨hmissing, ?_, ?_, by rw [huntaken, or_iff_left hcrash], ?_⟩
  · simp only [hearly, iff_false]
    omega
  · simp only [hmismatch, iff_false]
    omega
  · rw [← hmissing, ← huntaken]
    simp only [hearly, hmismatch, hcrash, not_false_eq_true, true_and, and_true]
    omega

theorem statusOf_getRunSummary (analyzed : Except ApiError (RunStatus × Analysis ρ)) :
    statusOf (getRunSummary analyzed) = statusOf analyzed := by
  cases analyzed <;> rfl

theorem statusOf_getRunVisits (analyzed : Except ApiError (RunStatus × Analysis ρ))
    (trainUid componentUid : Option String) (limit offset : Nat) :
    statusOf (getRunVisits analyzed trainUid componentUid limit offset) = statusOf analyzed := by
  cases analyzed <;> rfl

/-- Every list of projects is answered. -/
theorem statusOf_listProjects (hspecs : SpecsShaped s₀)
    (h : Exec (system env) s₀ tr s) (limit offset : Nat) (base : Option Uuid) :
    statusOf (listProjects s.backend.projectRows limit offset base) = 200 := by
  have hshaped : SpecsShaped s :=
    h.invariant (I := fun s => SpecsShaped s) hspecs fun _ _ _ hI hstep => hI.step hstep
  have hsummary : ∀ p ∈ s.backend.projectRows, ∃ summary, toSummary p.1 p.2 = .ok summary := by
    intro p hp
    obtain ⟨-, hstored⟩ := mem_projectRows_iff.mp (show (p.1, p.2) ∈ _ from hp)
    exact toSummary_of_shape (hshaped p.1 p.2 hstored) p.1
  obtain ⟨page, hpage⟩ := listProjects_isOk hsummary limit offset base
  rw [hpage]
  rfl

/-- **A read says what there is, and does not fail**: in every state that is reached, and whatever
is committed between its queries, its status code is the one for what it found, unless Postgres
does not take what was asked for. -/
theorem reads_answer (h₀ : s₀.Initial) (hspecs : SpecsShaped s₀)
    (h : Exec (system env) s₀ tr s) (q : Read) :
    q.Answered analyze driver s.backend.db b₃.db (q.status analyze driver s.backend b₂ b₃) := by
  cases q with
  | project id =>
      rw [Read.status, getProject]
      cases hrow : s.backend.db.projects id with
      | none =>
          show Read.Answered analyze driver s.backend.db b₃.db _ 404
          refine .plain rfl (by simp) ?_ (by simp [Read.Untaken, Read.taken])
          simp [Read.Missing, hrow]
      | some row =>
          show Read.Answered analyze driver s.backend.db b₃.db _ 200
          refine .plain rfl (by simp) ?_ (by simp [Read.Untaken, Read.taken])
          simp [Read.Missing, Read.ofRun, hrow]
  | projects limit offset base =>
      rw [Read.status, listedAt]
      cases htaken : (Read.projects limit offset base).taken driver with
      | true =>
          rw [if_pos rfl, statusOf_listProjects hspecs h]
          refine .plain rfl (by simp) (by simp [Read.Missing, Read.ofRun]) ?_
          simp [Read.Untaken, Read.Missing, Read.ofRun, htaken]
      | false =>
          show Read.Answered analyze driver s.backend.db b₃.db _ 500
          refine .plain rfl (by simp) (by simp [Read.Missing, Read.ofRun]) ?_
          simp [Read.Untaken, Read.Missing, Read.ofRun, htaken]
  | run id =>
      rw [Read.status]
      cases hrow : s.backend.db.runs id with
      | none =>
          show Read.Answered analyze driver s.backend.db b₃.db _ 404
          refine .plain rfl (by simp) ?_ (by simp [Read.Untaken, Read.taken])
          simp [Read.Missing, Read.ofRun, hrow]
      | some row =>
          show Read.Answered analyze driver s.backend.db b₃.db _ 200
          refine .plain rfl (by simp) ?_ (by simp [Read.Untaken, Read.taken])
          simp [Read.Missing, Read.ofRun, hrow]
  | events id filter limit offset =>
      rw [Read.status, eventsAt]
      cases hrow : s.backend.db.runs id with
      | none =>
          show Read.Answered analyze driver s.backend.db b₃.db _ 404
          refine .plain rfl (by simp) ?_ ?_
          · simp [Read.Missing, Read.ofRun, hrow]
          · simp [Read.Untaken, Read.Missing, Read.ofRun, hrow]
      | some row =>
          have hfound : ¬ (Read.events id filter limit offset).Missing s.backend.db := by
            simp [Read.Missing, Read.ofRun, hrow]
          cases htaken : (Read.events id filter limit offset).taken driver with
          | false =>
              show Read.Answered analyze driver s.backend.db b₃.db _ 500
              refine .plain rfl (by simp) (by simp [hfound]) ?_
              simp [Read.Untaken, hfound, htaken]
          | true =>
              by_cases hlimit : limit < 0
              · have hfails : getRunEvents id (some row) (b₂.db.events id) filter limit offset =
                    .error (.unhandled negativeLimit) := if_pos hlimit
                simp only [Option.isSome_some, Bool.not_true, Bool.and_false, Bool.false_eq_true,
                  if_false, hfails]
                show Read.Answered analyze driver s.backend.db b₃.db _ 500
                refine .plain rfl (by simp) (by simp [hfound]) ?_
                simp [Read.Untaken, hfound, hlimit]
              · have hpage : ∃ page, getRunEvents id (some row) (b₂.db.events id) filter limit
                    offset = .ok page := ⟨_, if_neg hlimit⟩
                obtain ⟨page, hpage⟩ := hpage
                simp only [Option.isSome_some, Bool.not_true, Bool.and_false, Bool.false_eq_true,
                  if_false, hpage]
                show Read.Answered analyze driver s.backend.db b₃.db _ 200
                refine .plain rfl (by simp) (by simp [hfound]) ?_
                simp [Read.Untaken, hlimit, htaken]
  | summary id threshold =>
      rw [Read.status, statusOf_getRunSummary]
      exact analyzed_answered rfl fun row hrow => snapshot_of_row h₀ h hrow
  | visits id trainUid componentUid limit offset =>
      rw [Read.status, statusOf_getRunVisits]
      exact analyzed_answered rfl fun row hrow => snapshot_of_row h₀ h hrow

end

/-- An analysis without figures. -/
def noFigures : Analyze Unit := fun _ _ _ => .ok ⟨(), [], [], []⟩

/-- Integers of 32 bits, and texts without the character 0. -/
def int4 : Driver where
  takesInt n := decide (-2147483648 ≤ n ∧ n ≤ 2147483647)
  takesText s := !s.toList.contains (Char.ofNat 0)

/-- The pair that was submitted is still queued; its events cannot be read in a page of size -1. -/
theorem queued_pair_answers : ∃ b : Backend, b = submittedPair.2.backend ∧
    (∀ q : Read, q.Answered noFigures int4 b.db b.db (q.status noFigures int4 b b b)) ∧
      (Read.summary 3 120).status noFigures int4 b b b = 409 ∧
        (Read.events 3 {} (-1) 0).status noFigures int4 b b b = 500 := by
  have hspecs : SpecsShaped (State.empty : State Int) := by
    intro p row hrow
    simp [State.empty] at hrow
  have hexec : Exec (system clockEnv) State.empty submittedPair.1 submittedPair.2 :=
    Machine.played_exec _
  exact ⟨_, rfl, reads_answer State.empty_initial hspecs hexec, rfl, rfl⟩

end SpurApi
