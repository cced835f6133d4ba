/-
What one step of a request can do.

`putMove_of_step`, `createMove_of_step`, `submitMove_of_step` and `editMove_of_step` list the
steps of a save, of a creation, of a submission and of an edit of a run, each with the guards
that allow it.  Whatever is proved of such a request is proved by cases of its moves; the step
functions are not unfolded again.
-/
import SpurApi.Services.Runs

namespace SpurApi

/-! ### Saving a project -/

/-- What one step of a `PUT` can do. -/
inductive PutMove (r : RequestId) (id : Uuid) (ifMatch : Option HeaderValue)
    (body : ProjectSpec) (io : Io) (b : Backend) :
    UpdateProject → UpdateProject → Backend → Prop
  | badHeader {e : ApiError} (h : versionFrom ifMatch = .error e) :
      PutMove r id ifMatch body io b .received (.answered (.error e)) b
  | parsed {expected : Option Int} (h : versionFrom ifMatch = .ok expected) :
      PutMove r id ifMatch body io b .received (.reading expected) b
  | missing {expected : Option Int} (hfree : b.locks id = none) (h : b.db.projects id = none) :
      PutMove r id ifMatch body io b (.reading expected)
        (.answered (.error (projectNotFound id))) b
  | stale {n : Int} {row : ProjectRow} (hfree : b.locks id = none)
      (h : b.db.projects id = some row) (hn : n ≠ row.version) :
      PutMove r id ifMatch body io b (.reading (some n))
        (.refused (staleProject id row.version n)) (b.lock id r)
  | passed {expected : Option Int} {row : ProjectRow} (hfree : b.locks id = none)
      (h : b.db.projects id = some row) (hn : ∀ n, expected = some n → n = row.version) :
      PutMove r id ifMatch body io b (.reading expected) (.checked expected row) (b.lock id r)
  | unstorable {expected : Option Int} {row : ProjectRow}
      (h : (replaceSpec row body).holds = false) :
      PutMove r id ifMatch body io b (.checked expected row)
        (.answered (.error (.unhandled dataError))) (b.unlock id)
  | vanished {expected : Option Int} {row : ProjectRow} (h : b.db.projects id = none) :
      PutMove r id ifMatch body io b (.checked expected row)
        (.answered (.error (.unhandled projectRowGone))) (b.unlock id)
  | saved {expected : Option Int} {row stored : ProjectRow}
      (h : b.db.projects id = some stored) (hholds : (replaceSpec row body).holds = true) :
      PutMove r id ifMatch body io b (.checked expected row) .saved
        ((b.setProject id (row.flush (replaceSpec row body) stored io.now)).unlock id)
  | closed {e : ApiError} :
      PutMove r id ifMatch body io b (.refused e) (.answered (.error e)) (b.unlock id)
  | reloadFailed (h : b.db.projects id = none) :
      PutMove r id ifMatch body io b .saved (.answered (.error (.unhandled refreshFailed))) b
  | reloaded {row : ProjectRow} (h : b.db.projects id = some row) :
      PutMove r id ifMatch body io b .saved (.answered (.ok (toProject id row))) b

theorem putMove_of_step {r : RequestId} {id : Uuid} {ifMatch : Option HeaderValue}
    {body : ProjectSpec} {io : Io} {b b' : Backend} {p p' : UpdateProject}
    (h : p.step r id ifMatch body io b = some (p', b')) :
    PutMove r id ifMatch body io b p p' b' := by
  cases p with
  | received =>
      cases hv : versionFrom ifMatch with
      | error e =>
          simp only [UpdateProject.step, hv, Option.some.injEq, Prod.mk.injEq] at h
          obtain ⟨rfl, rfl⟩ := h
          exact .badHeader hv
      | ok expected =>
          simp only [UpdateProject.step, hv, Option.some.injEq, Prod.mk.injEq] at h
          obtain ⟨rfl, rfl⟩ := h
          exact .parsed hv
  | reading expected =>
      simp only [UpdateProject.step] at h
      split at h
      · simp at h
      · have hfree : b.locks id = none := by simpa using ‹¬(b.locks id).isSome = true›
        split at h
        · simp only [Option.some.injEq, Prod.mk.injEq] at h
          obtain ⟨rfl, rfl⟩ := h
          exact .missing hfree ‹_›
        · rename_i row hrow
          cases expected with
          | none =>
              simp only [checkVersion, Option.some.injEq, Prod.mk.injEq] at h
              obtain ⟨rfl, rfl⟩ := h
              exact .passed hfree hrow (by simp)
          | some n =>
              by_cases hn : n = row.version
              · subst hn
                simp only [checkVersion, ne_eq, not_true_eq_false, if_false, Option.some.injEq,
                  Prod.mk.injEq] at h
                obtain ⟨rfl, rfl⟩ := h
                exact .passed hfree hrow fun m hm => (Option.some.inj hm).symm
              · simp only [checkVersion, ne_eq, hn, not_false_eq_true, if_true,
                  Option.some.injEq, Prod.mk.injEq] at h
                obtain ⟨rfl, rfl⟩ := h
                exact .stale hfree hrow hn
  | checked expected row =>
      simp only [UpdateProject.step] at h
      split at h
      · split at h <;> simp only [Option.some.injEq, Prod.mk.injEq] at h <;>
          obtain ⟨rfl, rfl⟩ := h
        · exact .vanished ‹_›
        · exact .saved ‹_› ‹_›
      · simp only [Option.some.injEq, Prod.mk.injEq] at h
        obtain ⟨rfl, rfl⟩ := h
        exact .unstorable (Bool.not_eq_true _ ▸ ‹_›)
  | refused e =>
      simp only [UpdateProject.step, Option.some.injEq, Prod.mk.injEq] at h
      obtain ⟨rfl, rfl⟩ := h
      exact .closed
  | saved =>
      simp only [UpdateProject.step] at h
      split at h <;> simp only [Option.some.injEq, Prod.mk.injEq] at h <;>
        obtain ⟨rfl, rfl⟩ := h
      · exact .reloadFailed ‹_›
      · exact .reloaded ‹_›
  | answered a => simp [UpdateProject.step] at h

/-! ### Creating a project -/

/-- What one step of a `POST /v1/projects` can do. -/
inductive CreateMove (body : ProjectSpec) (owner : Option String) (base : Option Uuid) (io : Io)
    (b : Backend) : CreateProject → CreateProject → Backend → Prop
  | alone (hbase : base = none) : CreateMove body owner base io b .received (.inserting none) b
  | missing {named : Uuid} (hbase : base = some named) (h : b.db.projects named = none) :
      CreateMove body owner base io b .received (.answered (.error (projectNotFound named))) b
  | named {named : Uuid} {read : ProjectRow} (hbase : base = some named)
      (h : b.db.projects named = some read) :
      CreateMove body owner base io b .received
        (.inserting (some (read.baseProjectId.getD named))) b
  | unstorable {baseId : Option Uuid} {id : Uuid} (hfresh : id ∉ b.minted)
      (h : (newProject body owner baseId io.now).holds = false) :
      CreateMove body owner base io b (.inserting baseId)
        (.answered (.error (.unhandled dataError))) (b.mint [id])
  | inserted {baseId : Option Uuid} {id : Uuid} (hfresh : id ∉ b.minted)
      (hbase : b.db.hasBase baseId = true)
      (hholds : (newProject body owner baseId io.now).holds = true) :
      CreateMove body owner base io b (.inserting baseId) (.created id)
        ((b.mint [id]).setProject id (newProject body owner baseId io.now))
  | baseGone {baseId : Option Uuid} {id : Uuid} (hfresh : id ∉ b.minted)
      (hbase : b.db.hasBase baseId = false) :
      CreateMove body owner base io b (.inserting baseId)
        (.answered (.error (.unhandled (missingReference "projects")))) (b.mint [id])
  | reloadFailed {id : Uuid} (h : b.db.projects id = none) :
      CreateMove body owner base io b (.created id)
        (.answered (.error (.unhandled refreshFailed))) b
  | reloaded {id : Uuid} {row : ProjectRow} (h : b.db.projects id = some row) :
      CreateMove body owner base io b (.created id) (.answered (.ok (toProject id row))) b

theorem createMove_of_step {body : ProjectSpec} {owner : Option String} {base : Option Uuid}
    {io : Io} {b b' : Backend} {p p' : CreateProject}
    (h : p.step body owner base io b = some (p', b')) :
    CreateMove body owner base io b p p' b' := by
  cases p with
  | received =>
      cases base with
      | none =>
          simp only [CreateProject.step, Option.some.injEq, Prod.mk.injEq] at h
          obtain ⟨rfl, rfl⟩ := h
          exact .alone rfl
      | some named =>
          simp only [CreateProject.step] at h
          split at h <;> simp only [Option.some.injEq, Prod.mk.injEq] at h <;>
            obtain ⟨rfl, rfl⟩ := h
          · exact .missing rfl ‹_›
          · exact .named rfl ‹_›
  | inserting baseId =>
      rw [CreateProject.step] at h
      split at h
      · split at h
        · have hfresh := ‹b.fresh _ = true›
          simp only [Backend.fresh, List.all_cons, List.all_nil, Bool.and_true, Bool.and_eq_true,
            Bool.not_eq_true', List.contains_eq_mem, decide_eq_false_iff_not] at hfresh
          split at h
          · simp only [Option.some.injEq, Prod.mk.injEq] at h
            obtain ⟨rfl, rfl⟩ := h
            exact .unstorable hfresh.2 (by simpa using ‹(!_) = true›)
          · have hholds := ‹¬(!_) = true›
            rw [Bool.not_eq_true, Bool.not_eq_false'] at hholds
            split at h <;> simp only [Option.some.injEq, Prod.mk.injEq] at h <;>
              obtain ⟨rfl, rfl⟩ := h
            · exact .inserted hfresh.2 ‹_› hholds
            · exact .baseGone hfresh.2 (Bool.not_eq_true _ ▸ ‹_›)
        · simp at h
      · simp at h
  | created id =>
      simp only [CreateProject.step] at h
      split at h <;> simp only [Option.some.injEq, Prod.mk.injEq] at h <;>
        obtain ⟨rfl, rfl⟩ := h
      · exact .reloadFailed ‹_›
      · exact .reloaded ‹_›
  | answered answer => simp [CreateProject.step] at h

/-! ### Submitting runs -/

/-- What one step of a submission can do. -/
inductive SubmitMove {μ : Type} (spur : Spur μ) (settings : Settings) (id : Uuid)
    (body : RunCreate) (io : Io) (b : Backend) : SubmitRun → SubmitRun → Backend → Prop
  | missing (h : b.db.projects id = none) :
      SubmitMove spur settings id body io b .received (.answered (.error (projectNotFound id))) b
  | invalid {project : ProjectRow} (h : b.db.projects id = some project)
      (hvalid : (spur.validate project.spec).valid = false) :
      SubmitMove spur settings id body io b .received
        (.answered (.error (projectInvalid id (spur.validate project.spec)))) b
  | noTarget {project : ProjectRow} {e : Exn} (h : b.db.projects id = some project)
      (htarget : submittedTarget settings project body = .error e) :
      SubmitMove spur settings id body io b .received (.answered (.error (.unhandled e))) b
  | built {project : ProjectRow} {untilTarget : Int} {batch : Uuid} {ids : List Uuid}
      (h : b.db.projects id = some project)
      (htarget : submittedTarget settings project body = .ok untilTarget)
      (hfresh : b.fresh (batch :: ids) = true) (hlen : ids.length = body.seeds) :
      SubmitMove spur settings id body io b .received
        (.inserting (runRows id project body untilTarget
          (if 1 < body.seeds then some batch else none) (firstSeed body io.draw) ids))
        (b.mint (batch :: ids))
  | unstorable {rows : List Submitted} (h : (rows.all fun s => s.row.holds) = false) :
      SubmitMove spur settings id body io b (.inserting rows)
        (.answered (.error (.unhandled dataError))) b
  | insertRefused {rows : List Submitted} {e : Exn} (h : b.db.projects id = none) :
      SubmitMove spur settings id body io b (.inserting rows)
        (.answered (.error (.unhandled e))) b
  | inserted {rows : List Submitted} {project : ProjectRow}
      (h : b.db.projects id = some project) (hholds : (rows.all fun s => s.row.holds) = true) :
      SubmitMove spur settings id body io b (.inserting rows) (SubmitRun.loop [] rows)
        (b.insertRuns rows)
  | flushRaised {done todo : List Submitted} {next : Submitted} {e : Exn}
      (h : autoflush b.db done = .error e) :
      SubmitMove spur settings id body io b (.refreshing done next todo)
        (.answered (.error (.unhandled e))) b
  | refreshRaised {done todo : List Submitted} {next : Submitted} {e : Exn}
      (h : b.db.runs next.id = none) :
      SubmitMove spur settings id body io b (.refreshing done next todo)
        (.answered (.error (.unhandled e))) b
  | refreshed {done todo : List Submitted} {next : Submitted} {row : SimulationRunRow}
      (hflush : autoflush b.db done = .ok ()) (h : b.db.runs next.id = some row) :
      SubmitMove spur settings id body io b (.refreshing done next todo)
        (.enqueueing done { next with row := row } todo) b
  | enqueueRaised {done todo : List Submitted} {next : Submitted} {f : Fault}
      (h : io.fault = some f) :
      SubmitMove spur settings id body io b (.enqueueing done next todo)
        (.answered (.error (.unhandled f.exn))) b
  | enqueued {done todo : List Submitted} {next : Submitted} (h : io.fault = none) :
      SubmitMove spur settings id body io b (.enqueueing done next todo)
        (SubmitRun.loop (done ++ [{ next with jobId := some io.jobId }]) todo)
        { b with jobs := b.jobs ++ [⟨io.jobId, next.id⟩] }
  | commitRaised {rows : List Submitted} {e : Exn} (h : b.commitJobIds rows = .error e) :
      SubmitMove spur settings id body io b (.recording rows)
        (.answered (.error (.unhandled e))) b
  | recorded {s : Submitted} {rest : List Submitted} {b' : Backend}
      (h : b.commitJobIds (s :: rest) = .ok b') :
      SubmitMove spur settings id body io b (.recording (s :: rest)) (.reloading s.id) b'
  | reloadFailed {first : Uuid} {e : Exn} (h : b.db.runs first = none) :
      SubmitMove spur settings id body io b (.reloading first)
        (.answered (.error (.unhandled e))) b
  | reloaded {first : Uuid} {row : SimulationRunRow} (h : b.db.runs first = some row) :
      SubmitMove spur settings id body io b (.reloading first)
        (.answered (.ok (toRun first row))) b

section

variable {μ : Type} {spur : Spur μ} {settings : Settings} {id : Uuid} {body : RunCreate} {io : Io}
  {b b' : Backend}

private theorem submitMove_of_received {p' : SubmitRun}
    (h : SubmitRun.step spur settings id body io b .received = some (p', b')) :
    SubmitMove spur settings id body io b .received p' b' := by
  rw [SubmitRun.step] at h
  cases hrow : b.db.projects id with
  | none =>
      simp only [hrow, Option.some.injEq, Prod.mk.injEq] at h
      obtain ⟨rfl, rfl⟩ := h
      exact .missing hrow
  | some project =>
      simp only [hrow] at h
      cases hvalid : (spur.validate project.spec).valid with
      | false =>
          simp only [hvalid, Bool.false_eq_true, if_false, Option.some.injEq,
            Prod.mk.injEq] at h
          obtain ⟨rfl, rfl⟩ := h
          exact .invalid hrow hvalid
      | true =>
          simp only [hvalid, if_true] at h
          cases htarget : submittedTarget settings project body with
          | error e =>
              simp only [htarget, Option.some.injEq, Prod.mk.injEq] at h
              obtain ⟨rfl, rfl⟩ := h
              exact .noTarget hrow htarget
          | ok untilTarget =>
              simp only [htarget] at h
              split at h
              · split at h
                · rename_i hguard
                  simp only [Option.some.injEq, Prod.mk.injEq] at h
                  obtain ⟨rfl, rfl⟩ := h
                  simp only [Bool.and_eq_true, beq_iff_eq] at hguard
                  exact .built hrow htarget hguard.1.1 hguard.1.2
                · simp at h
              · simp at h

theorem submitMove_of_step {p p' : SubmitRun}
    (h : p.step spur settings id body io b = some (p', b')) :
    SubmitMove spur settings id body io b p p' b' := by
  cases p with
  | received => exact submitMove_of_received h
  | inserting rows =>
      rw [SubmitRun.step] at h
      split at h
      · split at h <;> simp only [Option.some.injEq, Prod.mk.injEq] at h <;>
          obtain ⟨rfl, rfl⟩ := h
        · exact .insertRefused ‹_›
        · exact .inserted ‹_› ‹_›
      · simp only [Option.some.injEq, Prod.mk.injEq] at h
        obtain ⟨rfl, rfl⟩ := h
        exact .unstorable (Bool.not_eq_true _ ▸ ‹_›)
  | refreshing done next todo =>
      rw [SubmitRun.step] at h
      split at h
      · simp only [Option.some.injEq, Prod.mk.injEq] at h
        obtain ⟨rfl, rfl⟩ := h
        exact .flushRaised ‹_›
      · rename_i hflush
        split at h <;> simp only [Option.some.injEq, Prod.mk.injEq] at h <;>
          obtain ⟨rfl, rfl⟩ := h
        · exact .refreshRaised ‹_›
        · exact .refreshed hflush ‹_›
  | enqueueing done next todo =>
      rw [SubmitRun.step] at h
      split at h <;> simp only [Option.some.injEq, Prod.mk.injEq] at h <;> obtain ⟨rfl, rfl⟩ := h
      · exact .enqueueRaised ‹_›
      · exact .enqueued ‹_›
  | recording rows =>
      rw [SubmitRun.step] at h
      split at h
      · simp only [Option.some.injEq, Prod.mk.injEq] at h
        obtain ⟨rfl, rfl⟩ := h
        exact .commitRaised ‹_›
      · rename_i hcommit
        cases rows with
        | nil => simp at h
        | cons s rest =>
            simp only [Option.some.injEq, Prod.mk.injEq] at h
            obtain ⟨rfl, rfl⟩ := h
            exact .recorded hcommit
  | reloading first =>
      rw [SubmitRun.step] at h
      split at h <;> simp only [Option.some.injEq, Prod.mk.injEq] at h <;> obtain ⟨rfl, rfl⟩ := h
      · exact .reloadFailed ‹_›
      · exact .reloaded ‹_›
  | answered a => simp [SubmitRun.step] at h

/-- A submission is about to insert rows only when it has just built them. -/
theorem SubmitMove.of_inserting {p p' : SubmitRun} {rows : List Submitted}
    (h : SubmitMove spur settings id body io b p p' b') (hp : p' = .inserting rows) :
    ∃ project target batch seed ids, b.db.projects id = some project ∧
      b'.db = b.db ∧ rows = runRows id project body target batch seed ids := by
  cases h with
  | built hrow =>
      rw [SubmitRun.inserting.injEq] at hp
      exact ⟨_, _, _, _, _, hrow, rfl, hp.symm⟩
  | @inserted rows => cases rows <;> simp [SubmitRun.loop] at hp
  | @enqueued done todo => cases todo <;> simp [SubmitRun.loop] at hp
  | _ => simp at hp

end

/-! ### Editing a run -/

/-- What one step of a request that edits a run can do. -/
inductive EditMove (id : Uuid) (edit : RunEdit) (b : Backend) : EditRun → EditRun → Backend → Prop
  | missing (h : b.db.runs id = none) :
      EditMove id edit b .received (.answered (.error (runNotFound id))) b
  | loaded {row : SimulationRunRow} (h : b.db.runs id = some row) :
      EditMove id edit b .received (.loaded row) b
  | unstorable {row : SimulationRunRow}
      (hdirty : SimulationRunRow.dirty row (edit.apply row) = true) (h : edit.holds = false) :
      EditMove id edit b (.loaded row) (.answered (.error (.unhandled dataError))) b
  | updateRaised {row : SimulationRunRow} {e : Exn}
      (hholds : SimulationRunRow.dirty row (edit.apply row) = true → edit.holds = true)
      (h : updateRun row (edit.apply row) (b.db.runs id) = .error e) :
      EditMove id edit b (.loaded row) (.answered (.error (.unhandled e))) b
  | committed {row : SimulationRunRow} {stored : Option SimulationRunRow}
      (hholds : SimulationRunRow.dirty row (edit.apply row) = true → edit.holds = true)
      (h : updateRun row (edit.apply row) (b.db.runs id) = .ok stored) :
      EditMove id edit b (.loaded row) .committed (b.setRun id stored)
  | reloadFailed (h : b.db.runs id = none) :
      EditMove id edit b .committed (.answered (.error (.unhandled refreshFailed))) b
  | reloaded {row : SimulationRunRow} (h : b.db.runs id = some row) :
      EditMove id edit b .committed (.answered (.ok (toRun id row))) b

theorem editMove_of_step {id : Uuid} {edit : RunEdit} {b b' : Backend} {p p' : EditRun}
    (h : p.step id edit b = some (p', b')) : EditMove id edit b p p' b' := by
  cases p with
  | received =>
      rw [EditRun.step] at h
      split at h <;> simp only [Option.some.injEq, Prod.mk.injEq] at h <;> obtain ⟨rfl, rfl⟩ := h
      · exact .missing ‹_›
      · exact .loaded ‹_›
  | loaded row =>
      rw [EditRun.step] at h
      split at h
      · rename_i hrefused
        rw [Bool.and_eq_true, Bool.not_eq_true'] at hrefused
        simp only [Option.some.injEq, Prod.mk.injEq] at h
        obtain ⟨rfl, rfl⟩ := h
        exact .unstorable hrefused.1 hrefused.2
      · rename_i hissued
        have hholds : SimulationRunRow.dirty row (edit.apply row) = true → edit.holds = true := by
          intro hdirty
          simpa [hdirty] using hissued
        split at h <;> simp only [Option.some.injEq, Prod.mk.injEq] at h <;> obtain ⟨rfl, rfl⟩ := h
        · exact .updateRaised hholds ‹_›
        · exact .committed hholds ‹_›
  | committed =>
      rw [EditRun.step] at h
      split at h <;> simp only [Option.some.injEq, Prod.mk.injEq] at h <;> obtain ⟨rfl, rfl⟩ := h
      · exact .reloadFailed ‹_›
      · exact .reloaded ‹_›
  | answered a => simp [EditRun.step] at h

end SpurApi
