/-
Every history of the service is a history of the store.

A step of a session is at most one operation: the one it commits.  The operation acts on
the rows as they are stored at that step, although the session computed it from a copy:
the lock of a save, the fresh ids of a submission and the columns that only one kind of
session assigns make the copy as good as the stored row.  An edit that assigns what its
copy already has issues no `UPDATE`, so it happens when the copy is loaded.
-/
import SpurApi.Lib.Simulation
import SpurApi.Proofs.Integrity
import SpurApi.Proofs.Writers
import SpurApi.Proofs.OutOfDate

namespace SpurApi

open Transition

/-! ### Which operation a step is -/

/-- The operation of a step of a request, from where it stands before and after it. -/
def Request.op (db : Db) (io : Io) : Request → Request → Option Op
  | .updateProject id _ body (.checked _ _), .updateProject _ _ _ .saved =>
      some (.save id body io.now)
  | .createProject body owner _ (.inserting base), .createProject _ _ _ (.created id) =>
      some (.create id body owner base io.now)
  | .deleteProject id .deleting, _ =>
      if (db.projects id).isSome then some (.deleteProject id) else none
  | .submitRun _ _ (.inserting _), .submitRun _ _ (.answered _) => none
  | .submitRun project _ (.inserting rows), _ =>
      some (.submit project (rows.map fun s => (s.id, s.row)))
  | .submitRun _ _ (.recording rows), .submitRun _ _ (.reloading _) =>
      some (.record (rows.filterMap fun s => s.jobId.map fun j => (s.id, j)))
  | .editRun run e .received, .editRun _ _ (.loaded copy) =>
      if SimulationRunRow.dirty copy (e.apply copy) then none else some (.edit run e)
  | .editRun run e (.loaded copy), .editRun _ _ .committed =>
      if SimulationRunRow.dirty copy (e.apply copy) then some (.edit run e) else none
  | .deleteRun run .deleting, _ => if (db.runs run).isSome then some (.deleteRun run) else none
  | _, _ => none

/-- The operation of a step of a worker whose run is there. -/
def WorkerPoint.op {μ : Type} (spur : Spur μ) (run : Uuid) (io : Io) (p p' : WorkerPoint μ) :
    Option Op :=
  match p, p' with
  | .marking _ _, .running _ _ => some (.start run io.now)
  | .running _ (.flushing _ _), .handling _ _ => none
  | .running _ (.flushing l _), _ => some (.report run (spur.now l.model) l.eventsBatch)
  | .handling _ e, .returned => some (.fail run io.now e)
  | .finishing _ outcome, .returned => some (.finish run io.now outcome)
  | _, _ => none

section

variable {μ : Type} {env : Env μ} {s₀ s s' : State μ} {a : Action}
  {tr : List (Entry (State μ) Action)}

/-- The operation of an entry of a history. -/
def opOf (env : Env μ) (e : Entry (State μ) Action) : Option Op :=
  match e.act with
  | .request r io =>
      match e.pre.requests r, e.post.requests r with
      | some q, some q' => q.op e.pre.backend.db io q'
      | _, _ => none
  | .work run io =>
      match e.pre.workers run, e.post.workers run, e.pre.backend.db.runs run with
      | some p, some p', some _ => p.op env.spur run io p'
      | _, _, _ => none
  | _ => none

/-- The operations of a history, in the order they happened. -/
def ops (env : Env μ) (tr : List (Entry (State μ) Action)) : List Op := shown (opOf env) tr

/-- One operation happens, or none. -/
def Takes (db : Db) (op : Option Op) (db' : Db) : Prop :=
  match op with
  | none => db' = db
  | some op => op.apply db = some db'

theorem Takes.none {db : Db} : Takes db none db := rfl

theorem takes_ite {c : Prop} [Decidable c] {db db' : Db} {op op' : Option Op}
    (h : c → Takes db op db') (h' : ¬c → Takes db op' db') :
    Takes db (if c then op else op') db' := by
  split
  · exact h ‹_›
  · exact h' ‹_›

/-! ### The requests -/

theorem PutMove.takes {r : RequestId} {id : Uuid} {ifMatch : Option HeaderValue}
    {body : ProjectSpec} {io : Io} {b b' : Backend} {q q' : UpdateProject}
    (h : PutMove r id ifMatch body io b q q' b')
    (hsame : ∀ expected row stored, q = .checked expected row →
      b.db.projects id = some stored → SameButBase row stored) :
    Takes b.db (Request.op b.db io (.updateProject id ifMatch body q)
      (.updateProject id ifMatch body q')) b'.db := by
  cases h with
  | @saved expected row stored hstored =>
      have hbase := hsame expected row stored rfl hstored
      simp only [Request.op, Takes, Op.apply, hstored, Option.map_some, Option.some.injEq,
        flush_eq_saved hbase body io.now]
      rfl
  | _ => exact .none

theorem CreateMove.takes {body : ProjectSpec} {owner : Option String} {base : Option Uuid}
    {io : Io} {b b' : Backend} {q q' : CreateProject} (h : CreateMove body owner base io b q q' b')
    (hminted : ∀ p row, b.db.projects p = some row → p ∈ b.minted) :
    Takes b.db (Request.op b.db io (.createProject body owner base q)
      (.createProject body owner base q')) b'.db := by
  cases h with
  | @inserted baseId id hfresh hbase =>
      have hnone : b.db.projects id = none := by
        cases hrow : b.db.projects id with
        | none => rfl
        | some row => exact absurd (hminted id row hrow) hfresh
      simp only [Request.op, Takes, Op.apply, hnone, hbase, Option.isNone_none, Bool.and_self,
        if_true]
      rfl
  | _ => exact .none

/-- Deleting a project that is not there deletes nothing: nothing refers to it. -/
theorem Db.Sound.deleteProject_of_none {db : Db} (h : db.Sound) {id : Uuid}
    (hnone : db.projects id = none) : db.deleteProject id = db := by
  have hruns : ∀ run, db.runOf id run = false := by
    intro run
    rw [Db.runOf]
    split
    · rename_i row hrow
      obtain ⟨project, -, hproject, -⟩ := h.runs hrow
      rw [beq_eq_false_iff_ne]
      rintro rfl
      simp [hnone] at hproject
    · rfl
  have hprojects : ∀ p, (db.deleteProject id).projects p = db.projects p := by
    intro p
    by_cases hp : p = id
    · simp [Db.deleteProject, hp, hnone]
    · cases hrow : db.projects p with
      | none => simp [Db.deleteProject, hrow]
      | some row =>
          have hbase : row.baseProjectId ≠ some id := by
            intro hbase
            obtain ⟨baseRow, hbaseRow⟩ := h.bases hrow hbase
            simp [hnone] at hbaseRow
          simp [Db.deleteProject, hp, hrow, hbase]
  cases db
  simp only [Db.deleteProject, Db.mk.injEq]
  exact ⟨funext hprojects, funext fun run => by simp [hruns run],
    funext fun run => by simp [hruns run]⟩

/-- Nor does deleting a run that is not there. -/
theorem Db.Sound.deleteRun_of_none {db : Db} (h : db.Sound) {run : Uuid}
    (hnone : db.runs run = none) : db.deleteRun run = db := by
  have hevents := h.orphans hnone
  rw [Db.deleteRun, Db.setRun, Db.setEvents]
  cases db
  simp only [Db.mk.injEq, true_and]
  exact ⟨by rw [← hnone, Function.update_eq_self], by rw [← hevents, Function.update_eq_self]⟩

theorem DeleteProject.takes {id : Uuid} {io : Io} {b b' : Backend} {q q' : DeleteProject}
    (h : q.step id b = some (q', b')) (hsound : b.db.Sound) :
    Takes b.db (Request.op b.db io (.deleteProject id q) (.deleteProject id q')) b'.db := by
  cases q with
  | received =>
      rw [DeleteProject.step] at h
      split at h <;> simp only [Option.some.injEq, Prod.mk.injEq] at h <;> obtain ⟨-, rfl⟩ := h <;>
        exact .none
  | deleting =>
      rw [DeleteProject.step, Option.ite_none_left_eq_some, Option.some.injEq,
        Prod.mk.injEq] at h
      obtain ⟨-, -, rfl⟩ := h
      refine takes_ite (fun hrow => ?_) fun hnone => ?_
      · simp only [Takes, Op.apply, hrow, if_true]
      · exact hsound.deleteProject_of_none (by simpa using hnone)
  | answered a => simp [DeleteProject.step] at h

theorem DeleteRun.takes {run : Uuid} {io : Io} {b b' : Backend} {q q' : DeleteRun}
    (h : q.step run b = some (q', b')) (hsound : b.db.Sound) :
    Takes b.db (Request.op b.db io (.deleteRun run q) (.deleteRun run q')) b'.db := by
  cases q with
  | received =>
      rw [DeleteRun.step] at h
      split at h <;> simp only [Option.some.injEq, Prod.mk.injEq] at h <;> obtain ⟨-, rfl⟩ := h <;>
        exact .none
  | deleting =>
      rw [DeleteRun.step, Option.some.injEq, Prod.mk.injEq] at h
      obtain ⟨-, rfl⟩ := h
      refine takes_ite (fun hrow => ?_) fun hnone => ?_
      · simp only [Takes, Op.apply, hrow, if_true]
      · exact hsound.deleteRun_of_none (by simpa using hnone)
  | answered a => simp [DeleteRun.step] at h

theorem RunEdit.dirty_rename (name : Option String) (row : SimulationRunRow) :
    SimulationRunRow.dirty row ((RunEdit.rename name).apply row) = true ↔ row.name ≠ name := by
  simp only [SimulationRunRow.dirty, RunEdit.apply, ne_eq, not_true_eq_false, decide_false,
    Bool.or_false, Bool.false_or]
  exact decide_eq_true_iff

theorem RunEdit.dirty_cancel (row : SimulationRunRow) :
    SimulationRunRow.dirty row (RunEdit.cancel.apply row) = true ↔ row.cancelRequested = false := by
  simp [SimulationRunRow.dirty, RunEdit.apply]

/-- An edit that changes nothing. -/
theorem RunEdit.apply_of_clean {e : RunEdit} {row : SimulationRunRow}
    (h : SimulationRunRow.dirty row (e.apply row) = false) : e.apply row = row := by
  cases e with
  | rename name =>
      rw [← Bool.not_eq_true, RunEdit.dirty_rename, not_not] at h
      rw [RunEdit.apply, ← h]
  | cancel =>
      rw [← Bool.not_eq_true, RunEdit.dirty_cancel, Bool.not_eq_false] at h
      rw [RunEdit.apply, ← h]

/-- An edit that issues an `UPDATE` edits what is stored, however old the copy is. -/
theorem RunEdit.flush_of_dirty {e : RunEdit} {copy : SimulationRunRow}
    (h : SimulationRunRow.dirty copy (e.apply copy) = true) (row : SimulationRunRow) :
    SimulationRunRow.flush copy (e.apply copy) row = e.apply row := by
  cases e with
  | rename name =>
      rw [RunEdit.dirty_rename] at h
      rw [RunEdit.apply, SimulationRunRow.flush_name, Column.flush, if_neg (Ne.symm h)]
      rfl
  | cancel =>
      rw [RunEdit.dirty_cancel] at h
      rw [RunEdit.apply, SimulationRunRow.flush_cancel, Column.flush, if_neg (by simp [h])]
      rfl

theorem Db.setRun_self (db : Db) (run : Uuid) : db.setRun run (db.runs run) = db := by
  rw [Db.setRun, Function.update_eq_self]

theorem EditMove.takes {run : Uuid} {e : RunEdit} {io : Io} {b b' : Backend} {q q' : EditRun}
    (h : EditMove run e b q q' b') :
    Takes b.db (Request.op b.db io (.editRun run e q) (.editRun run e q')) b'.db := by
  cases h with
  | @loaded row hrow =>
      refine takes_ite (fun _ => .none) fun hclean => ?_
      rw [Takes, Op.apply, Db.modify_of_row hrow rfl,
        RunEdit.apply_of_clean (by simpa using hclean), ← hrow, Db.setRun_self]
  | @committed copy stored _ hupdate =>
      unfold updateRun at hupdate
      refine takes_ite (fun hdirty => ?_) fun hclean => ?_
      · rw [if_pos hdirty] at hupdate
        split at hupdate
        · simp at hupdate
        · rename_i row hrow
          rw [Except.ok.injEq, RunEdit.flush_of_dirty hdirty] at hupdate
          rw [Takes, Op.apply, Db.modify_of_row hrow rfl, hupdate]
          rfl
      · rw [if_neg hclean, Except.ok.injEq] at hupdate
        rw [← hupdate]
        exact Db.setRun_self _ _
  | _ => exact .none

/-! ### Submissions -/

theorem insertRuns_db (rows : List Submitted) :
    ∀ b : Backend, (b.insertRuns rows).db = b.db.insert (rows.map fun s => (s.id, s.row)) := by
  induction rows with
  | nil => exact fun _ => rfl
  | cons s rest ih => exact fun b => ih (b.setRun s.id (some s.row))

/-- A commit of job ids that were assigned to copies without one records them. -/
theorem commitJobIds_db {rows : List Submitted} :
    ∀ {b b' : Backend}, b.commitJobIds rows = .ok b' →
      (∀ s ∈ rows, s.row.arqJobId = none ∧ ∃ jobId, s.jobId = some jobId) →
      b.db.record (rows.filterMap fun s => s.jobId.map fun j => (s.id, j)) = some b'.db := by
  induction rows with
  | nil =>
      intro b b' h _
      rw [Backend.commitJobIds, Except.ok.injEq] at h
      rw [← h]
      rfl
  | cons s rest ih =>
      intro b b' h hrows
      obtain ⟨hclear, jobId, hjob⟩ := hrows s List.mem_cons_self
      have hassigned : s.assigned = { s.row with arqJobId := some jobId } := by
        rw [Submitted.assigned, hjob]
      have hdirty : SimulationRunRow.dirty s.row s.assigned = true := by
        simp [hassigned, SimulationRunRow.dirty, hclear]
      rw [Backend.commitJobIds] at h
      unfold updateRun at h
      rw [if_pos hdirty] at h
      cases hrow : b.db.runs s.id with
      | none => simp [hrow] at h
      | some row =>
          have hflush : SimulationRunRow.flush s.row s.assigned row =
              { row with arqJobId := some jobId } := by
            rw [hassigned, SimulationRunRow.flush_jobId, Column.flush, if_neg (by simp [hclear])]
          simp only [hrow, hflush] at h
          rw [List.filterMap_cons_some (by rw [hjob, Option.map_some]), Db.record,
            Db.modify_of_row hrow rfl]
          exact ih h fun s' hs' => hrows s' (List.mem_cons_of_mem _ hs')

theorem IsNewRun.isNew {project : Uuid} {read : ProjectRow} {row : SimulationRunRow}
    (h : IsNewRun project read row) {v version : Int} (hv : row.projectVersion = some v)
    (hpos : 1 ≤ v) (hle : v ≤ version) : row.isNew project version = true := by
  obtain ⟨body, target, seed, batch, rfl⟩ := h
  simp [SimulationRunRow.isNew, hv, hpos, hle]
  simp [newRun]

theorem SubmitMove.takes {spur : Spur μ} {settings : Settings} {id : Uuid} {body : RunCreate}
    {io : Io} {b b' : Backend} {q q' : SubmitRun}
    (h : SubmitMove spur settings id body io b q q' b')
    (hinsert : ∀ rows project, q = .inserting rows → b.db.projects id = some project →
      b.db.admits id project.version (rows.map fun s => (s.id, s.row)) = true)
    (hrecord : ∀ rows, q = .recording rows →
      ∀ s ∈ rows, s.row.arqJobId = none ∧ ∃ jobId, s.jobId = some jobId) :
    Takes b.db (Request.op b.db io (.submitRun id body q) (.submitRun id body q')) b'.db := by
  cases h with
  | @inserted rows project hproject =>
      have hadmits := hinsert rows project rfl hproject
      have hop : Request.op b.db io (.submitRun id body (.inserting rows))
          (.submitRun id body (SubmitRun.loop [] rows)) =
            some (.submit id (rows.map fun s => (s.id, s.row))) := by
        cases rows <;> rfl
      rw [hop, Takes, Op.apply, hproject]
      simp only [hadmits, if_true, insertRuns_db]
  | recorded hcommit => exact commitJobIds_db hcommit (hrecord _ rfl)
  | _ => exact .none

/-- A version that a project had is at least 1, and at most the one it has. -/
theorem HadSpec.version_le (h₀ : s₀.Initial) (h : Exec (system env) s₀ tr s) {p : Uuid} {v : Int}
    {spec : Json.Object} (had : HadSpec tr s p v spec) {row : ProjectRow}
    (hrow : s.projectRow p = some row) : 1 ≤ v ∧ v ≤ row.version := by
  obtain ⟨row₀, k, hrow₀, hk, hv, -⟩ := had.revision h₀ h
  obtain ⟨row₁, hrow₁, hversion⟩ := version_of_row h₀ h hrow
  rw [hrow₀, Option.some.injEq] at hrow₁
  subst hrow₁
  rw [Revision.Doc.version_after_take hk] at hv
  rw [length_savedSpecs] at hk
  have hfirst := ((lineage h₀ h p).first row₀ hrow₀).2.1
  have hdoc : row₀.doc.version = row₀.version := rfl
  omega

/-- What a submission is about to insert can be inserted, when it is of a version of the project. -/
theorem admits_of_pending (hapart : RunsApart s) {r : RequestId} {project : Uuid}
    {body : RunCreate} {rows : List Submitted} {row : ProjectRow}
    (hreq : s.requests r = some (.submitRun project body (.inserting rows)))
    (hversions : ∀ sub ∈ rows, ∃ v, sub.row.projectVersion = some v ∧ 1 ≤ v ∧ v ≤ row.version) :
    s.backend.db.admits project row.version (rows.map fun s => (s.id, s.row)) = true := by
  have hnodup : (rows.map Submitted.id).Nodup := hapart.apart.nodup r _ hreq
  simp only [Db.admits, List.map_map, Function.comp_def, List.all_map, Bool.and_eq_true,
    decide_eq_true_eq, List.all_eq_true, Option.isNone_iff_eq_none, List.isEmpty_iff]
  refine ⟨hnodup, fun sub hsub => ?_⟩
  obtain ⟨hblank, -⟩ := hapart.apart.pending r _ hreq sub.id (List.mem_map_of_mem hsub)
  obtain ⟨read, hnew⟩ := hapart.pending r project body rows hreq sub hsub
  obtain ⟨v, hv, hpos, hle⟩ := hversions sub hsub
  exact ⟨⟨congrArg RunSlice.row hblank, congrArg RunSlice.events hblank⟩, hnew.isNew hv hpos hle⟩

theorem admits_of_inserting (h₀ : s₀.Initial) (h : Exec (system env) s₀ tr s) {r : RequestId}
    {project : Uuid} {body : RunCreate} {rows : List Submitted} {row : ProjectRow}
    (hreq : s.requests r = some (.submitRun project body (.inserting rows)))
    (hrow : s.backend.db.projects project = some row) :
    s.backend.db.admits project row.version (rows.map fun s => (s.id, s.row)) = true := by
  have hapart := (RunsOk.exec h₀ h).toRunsApart
  refine admits_of_pending hapart hreq fun sub hsub => ?_
  obtain ⟨read, _, _, _, _, hnew⟩ := hapart.pending r project body rows hreq sub hsub
  obtain ⟨spec, v, -, hv, had⟩ := (snapshots h₀ h).pending r project body rows hreq sub hsub
  have hid : sub.row.submission.projectId = project := by
    rw [hnew]
    rfl
  rw [hid] at had
  exact ⟨v, hv, had.version_le h₀ h hrow⟩

/-! ### The workers -/

/-- What is stored when a worker's step left this of its run. -/
def Db.setSlice (db : Db) (run : Uuid) (d : RunSlice) : Db :=
  (db.setRun run d.row).setEvents run d.events

theorem Db.setSlice_self (db : Db) (run : Uuid) : db.setSlice run (db.slice run) = db := by
  simp only [setSlice, slice, setRun, setEvents, Function.update_eq_self]

theorem Db.setSlice_row (db : Db) (run : Uuid) (row : Option SimulationRunRow) :
    db.setSlice run ⟨row, db.events run⟩ = db.setRun run row := by
  simp only [setSlice, setRun, setEvents, Function.update_eq_self]

/-- The run is queued; or it may not be, where `again` says that an invocation of it was cut
short. -/
def CanStart (again : Prop) (row : SimulationRunRow) : Prop :=
  row.status = .queued ∨ again

/-- What a worker relies on when it commits, whichever delivery of its job it has. -/
def WorkerPoint.Resumes (again : Prop) (row : SimulationRunRow) (events : List RunEventRow) :
    WorkerPoint μ → Prop
  | .loading => CanStart again row
  | .loadingProject copy | .marking copy _ => CanStart again row ∧ SameButClient copy row
  | .running w _ =>
      row.status = .running ∧ SameButClient w.row row ∧ w.seq ≤ events.length
  | .handling w _ | .finishing w _ => row.status = .running ∧ SameButClient w.row row
  | .returned | .raised _ => True

theorem WorkerPoint.Ok.resumes {spur : Spur μ} {row : SimulationRunRow}
    {events : List RunEventRow} {p : WorkerPoint μ} (h : p.Ok spur row events) :
    p.Resumes False row events := by
  cases p with
  | loading => exact .inl h.1.status
  | loadingProject => exact h.elim
  | marking => exact ⟨.inl h.1.status, h.2.2.1.same⟩
  | running w =>
      obtain ⟨hrunning, hcopy, -, -, hseq, -⟩ := h
      have hlen : events.length = w.seq := by simpa using congrArg List.length hseq
      exact ⟨hrunning.status, hcopy.same, by omega⟩
  | handling => exact ⟨h.1.status, h.2.same⟩
  | finishing => exact ⟨h.1.status, h.2.1.same⟩
  | returned | raised => trivial

/-- A chunk that is inserted goes on from the events that are stored: the numbers of another
delivery are taken. -/
theorem seq_of_nodup {events : List RunEventRow} {n : Nat} {es : List SimEvent}
    (hseq : events.map RunEventRow.seq = List.range events.length) (hle : n ≤ events.length)
    (hnodup : es ≠ [] → ((events ++ eventRows n es).map RunEventRow.seq).Nodup) :
    eventRows n es = eventRows events.length es := by
  cases es with
  | nil => rfl
  | cons e es =>
      have hnodup := hnodup (by simp)
      rw [List.map_append, hseq, eventRows, List.map_cons] at hnodup
      have hnot : n ∉ List.range events.length := fun hmem =>
        (List.nodup_append.mp hnodup).2.2 n hmem n List.mem_cons_self rfl
      have heq : n = events.length := by
        rw [List.mem_range] at hnot
        omega
      rw [heq]

section

variable {project : Option ProjectRow} {io : Io} {p p' : WorkerPoint μ} {d : RunSlice} {db : Db}
  {run : Uuid} {row : SimulationRunRow} {again : Prop}

/-- A step of a worker whose run is there is the operation it commits. -/
theorem WorkerMove.takes (hrow : db.runs run = some row)
    (hseq : (db.events run).map RunEventRow.seq = List.range (db.events run).length)
    (hresumes : p.Resumes again row (db.events run))
    (hmark : ∀ copy spec w q, p = .marking copy spec → p' = .running w q → row.status = .queued)
    (hmove : WorkerMove env project io ⟨some row, db.events run⟩ p p' d) :
    Takes db (p.op env.spur run io p') (db.setSlice run d) := by
  have hself : db.setSlice run ⟨some row, db.events run⟩ = db := by
    rw [Db.setSlice_row, ← hrow, Db.setRun_self]
  cases hmove with
  | marked hcommit =>
      rw [commitRun_ok hcommit, flush_markRunning hresumes.2, List.append_nil, Db.setSlice_row]
      exact Db.modify_of_row hrow (by simp [hmark _ _ _ _ rfl rfl])
  | handled _ hcommit =>
      rw [commitRun_ok hcommit, flush_markFailed hresumes.2, List.append_nil, Db.setSlice_row]
      exact Db.modify_of_row hrow (by simp [hresumes.1])
  | finished hcommit =>
      rw [commitRun_ok hcommit, flush_markFinished hresumes.2, List.append_nil,
        Db.setSlice_row]
      exact Db.modify_of_row hrow (by simp [hresumes.1])
  | @flushed w w' l place _ hchunk =>
      obtain ⟨hrunning, hcopy, hle⟩ := hresumes
      have hrows := seq_of_nodup hseq hle (nodup_of_onChunk hchunk)
      obtain ⟨-, rfl⟩ := onChunk_ok hcopy hchunk
      have hop : WorkerPoint.op env.spur run io (.running w (.flushing l place))
          (w'.settle ((RunPoint.flushing l place).flushed env.spur)) =
            some (.report run (env.spur.now l.model) l.eventsBatch) := by
        cases place with
        | chunk =>
            simp only [RunPoint.flushed, Loop.head]
            split <;> rfl
        | cancelled | final => rfl
      rw [hop, Takes, Op.apply, Db.modify_of_row hrow (by simp [hrunning]), hrows]
      rfl
  | flushRaised => exact hself
  | @advanced w q _ hflush =>
      have hop : WorkerPoint.op env.spur run io (.running w q)
          (w.settle (w.runner.advance env.spur env.settings io.entropy q)) = none := by
        cases q with
        | flushing l place => exact absurd rfl (hflush l place)
        | _ => rfl
      rw [hop]
      exact hself
  | _ => exact hself

/-- A run that was started before is marked running again. -/
theorem WorkerMove.restarts {copy : SimulationRunRow} {spec : Json.Object} {w : WorkerSession}
    {q : RunPoint μ} (hrow : db.runs run = some row) (hcopy : SameButClient copy row)
    (hstarted : row.status ≠ .queued)
    (hmove : WorkerMove env project io ⟨some row, db.events run⟩ (.marking copy spec)
      (.running w q) d) : Restart.apply db ⟨run, io.now⟩ = some (db.setSlice run d) := by
  cases hmove with
  | marked hcommit =>
      rw [commitRun_ok hcommit, flush_markRunning hcopy, List.append_nil, Db.setSlice_row]
      exact Db.modify_of_row hrow (by simpa using hstarted)

/-- A worker whose run is gone changes nothing. -/
theorem WorkerMove.takes_none {io : Io} (hrow : db.runs run = none)
    (hmove : WorkerMove env project io ⟨none, db.events run⟩ p p' d) : db.setSlice run d = db := by
  rw [hmove.row_none, ← hrow]
  exact Db.setSlice_self db run

end

/-! ### The steps of requests -/

/-- A step of a request is the operation it commits. -/
theorem Request.takes {r : RequestId} {io : Io} {q q' : Request} {b : Backend}
    (hsound : s.backend.db.Sound) (hputs : ∀ p, PutsHold s p) (hreq : s.requests r = some q)
    (hadmits : ∀ project body rows row, q = .submitRun project body (.inserting rows) →
      s.backend.db.projects project = some row →
        s.backend.db.admits project row.version (rows.map fun s => (s.id, s.row)) = true)
    (hrecord : ∀ project body rows, q = .submitRun project body (.recording rows) →
      ∀ sub ∈ rows, sub.row.arqJobId = none ∧ ∃ jobId, sub.jobId = some jobId)
    (hqstep : q.step env r io s.backend = some (q', b)) :
    Takes s.backend.db (q.op s.backend.db io q') b.db := by
  cases q with
  | updateProject id ifMatch body point =>
      simp only [Request.step, Option.map_eq_some_iff, Prod.exists, Prod.mk.injEq] at hqstep
      obtain ⟨_, _, hpoint, rfl, rfl⟩ := hqstep
      refine (putMove_of_step hpoint).takes fun expected row stored hq hstored => ?_
      exact (hputs id).sameButBase (hq ▸ hreq) hstored
  | createProject body owner base point =>
      simp only [Request.step, Option.map_eq_some_iff, Prod.exists, Prod.mk.injEq] at hqstep
      obtain ⟨_, _, hpoint, rfl, rfl⟩ := hqstep
      exact (createMove_of_step hpoint).takes fun p => (hputs p).minted
  | deleteProject id point =>
      simp only [Request.step, Option.map_eq_some_iff, Prod.exists, Prod.mk.injEq] at hqstep
      obtain ⟨_, _, hpoint, rfl, rfl⟩ := hqstep
      exact DeleteProject.takes hpoint hsound
  | submitRun project body point =>
      simp only [Request.step, Option.map_eq_some_iff, Prod.exists, Prod.mk.injEq] at hqstep
      obtain ⟨_, _, hpoint, rfl, rfl⟩ := hqstep
      refine (submitMove_of_step hpoint).takes (fun rows row hq hrow => ?_) fun rows hq => ?_
      · exact hadmits project body rows row (by rw [hq]) hrow
      · exact hrecord project body rows (by rw [hq])
  | editRun run edit point =>
      simp only [Request.step, Option.map_eq_some_iff, Prod.exists, Prod.mk.injEq] at hqstep
      obtain ⟨_, _, hpoint, rfl, rfl⟩ := hqstep
      exact (editMove_of_step hpoint).takes
  | deleteRun run point =>
      simp only [Request.step, Option.map_eq_some_iff, Prod.exists, Prod.mk.injEq] at hqstep
      obtain ⟨_, _, hpoint, rfl, rfl⟩ := hqstep
      exact DeleteRun.takes hpoint hsound

/-! ### One step, and a history -/

theorem opOf_request {r : RequestId} {io : Io} {q q' : Request} {b : Backend}
    (hreq : s.requests r = some q) :
    opOf env ⟨s, .request r io, s.setRequest r q' b⟩ = q.op s.backend.db io q' := by
  simp only [opOf, hreq, State.setRequest_requests_self]

/-- **A step of the service is an operation of the store, or none.** -/
theorem step_takes (h₀ : s₀.Initial) (h : Exec (system env) s₀ tr s)
    (hsound : s.backend.db.Sound) (hstep : s.step env a = some s') :
    Takes s.backend.db (opOf env ⟨s, a, s'⟩) s'.backend.db := by
  have hok := RunsOk.exec h₀ h
  cases service_step hstep with
  | arrive | read | deliver => exact .none
  | @request r io q q' b hreq hqstep =>
      rw [opOf_request hreq]
      refine Request.takes hsound (fun p => (h₀.putsHold p).exec h) hreq ?_ ?_ hqstep
      · rintro project body rows row rfl hrow
        exact admits_of_inserting h₀ h hreq hrow
      · rintro project body rows rfl sub hsub
        obtain ⟨hclear, hjobs⟩ := SubmitRun.records h₀ h hreq
        obtain ⟨jobId, hjob, -⟩ := hjobs sub hsub
        exact ⟨(hclear sub hsub).1, jobId, hjob⟩
  | @work run io p p' d hworker hpstep =>
      have hmove := workerMove_of_step hpstep
      have hworker' : ((s.setSlice run d).setWorker run p').workers run = some p' :=
        Function.update_self ..
      show Takes s.backend.db _ (s.backend.db.setSlice run d)
      cases hrow : s.backend.db.runs run with
      | none =>
          rw [State.slice, hrow] at hmove
          simp only [opOf, hworker, hworker', hrow]
          exact hmove.takes_none hrow
      | some row =>
          have hslice : s.slice run = ⟨some row, s.backend.db.events run⟩ := by
            rw [State.slice, hrow]
          obtain ⟨-, hpok⟩ := hok.runs run row (congrArg RunSlice.row hslice)
          rw [hworker, hslice] at hpok
          rw [hslice] at hmove
          simp only [opOf, hworker, hworker', hrow]
          refine hmove.takes hrow (hsound.events run) hpok.resumes ?_
          rintro copy spec w q rfl -
          exact hpok.1.status

/-- The store mirrors the service: a step shows the operation it is. -/
private theorem store_mirrors (h₀ : s₀.Initial) :
    Mirrors store (system env)
      (fun db s => db = s.backend.db ∧ db.Sound ∧ ∃ tr, Exec (system env) s₀ tr s)
      (fun e => some e.act) (opOf env) := by
  rintro db s a s' ⟨rfl, hsound, tr, h⟩ hstep
  have htakes := step_takes h₀ h hsound hstep
  have hreached : ∃ tr, Exec (system env) s₀ tr s' := ⟨_, h.snoc hstep⟩
  cases hop : opOf env ⟨s, a, s'⟩ with
  | none =>
      rw [hop] at htakes
      have hdb : s'.backend.db = s.backend.db := htakes
      exact ⟨[], _, Exec.nil, ⟨hdb.symm, hsound, hreached⟩, rfl⟩
  | some op =>
      rw [hop] at htakes
      have happly : op.apply s.backend.db = some s'.backend.db := htakes
      exact ⟨_, _, Exec.single (M := store) happly, ⟨rfl, hsound.apply happly, hreached⟩, rfl⟩

/-- **The service refines the store.**  In every interleaving of any number of requests and
workers, what is stored is what the operations of the history, happening one after another and
each at once, leave. -/
theorem exists_store_exec (h₀ : s₀.Initial) (h : Exec (system env) s₀ tr s) :
    ∃ tr', Exec store s₀.backend.db tr' s.backend.db ∧ tr'.map Entry.act = ops env tr := by
  obtain ⟨tr', db, hexec, ⟨rfl, -⟩, hshown⟩ :=
    Mirrors.exec (store_mirrors h₀) ⟨rfl, h₀.sound, [], Exec.nil⟩ h
  exact ⟨tr', hexec, by rw [← List.filterMap_eq_map]; exact hshown⟩

/-- So each step of a history is one, or none. -/
theorem takes_of_exec (h₀ : s₀.Initial) (h : Exec (system env) s₀ tr s)
    (hstep : s.step env a = some s') :
    Takes s.backend.db (opOf env ⟨s, a, s'⟩) s'.backend.db := by
  obtain ⟨tr', hexec, -⟩ := exists_store_exec h₀ h
  exact step_takes h₀ h (h₀.sound.exec hexec) hstep

end

end SpurApi
