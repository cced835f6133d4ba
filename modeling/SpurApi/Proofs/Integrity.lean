/-
What every history of the store keeps.

An operation acts on each row by itself: what becomes of a project or of a run depends
on that row and on the operation alone.  So a row is what the operations of the history,
taken one after another, made of it, and an invariant of the store is proved by cases of
the operations, without the rows they leave alone.
-/
import SpurApi.Proofs.RunInvariant
import SpurApi.Store

namespace SpurApi

open Transition

/-! ### What an operation does to one row -/

/-- What an operation makes of a project. -/
def Op.onProject (p : Uuid) (row : Option ProjectRow) : Op → Option ProjectRow
  | .create id body owner base now => if id = p then some (newProject body owner base now) else row
  | .save id body now =>
      if id = p then row.map fun row => row.saved body now else row
  | .deleteProject id =>
      if id = p then none
      else row.map fun row =>
        if row.baseProjectId = some id then { row with baseProjectId := none } else row
  | _ => row

def RunSlice.mapRow (d : RunSlice) (f : SimulationRunRow → SimulationRunRow) : RunSlice :=
  { d with row := d.row.map f }

/-- What the list of a submission makes of a run. -/
def RunSlice.submitted (run : Uuid) (d : RunSlice) (r : Uuid × SimulationRunRow) : RunSlice :=
  if r.1 = run then { d with row := some r.2 } else d

/-- What the list of job ids makes of a run. -/
def RunSlice.recorded (run : Uuid) (d : RunSlice) (job : Uuid × String) : RunSlice :=
  if job.1 = run then d.mapRow fun row => { row with arqJobId := some job.2 } else d

/-- What an operation makes of a run and its events. -/
def Op.onRun (run : Uuid) (d : RunSlice) : Op → RunSlice
  | .deleteProject id => if d.row.any (fun row => row.projectId == id) then .blank else d
  | .submit _ runs => runs.foldl (RunSlice.submitted run) d
  | .record jobs => jobs.foldl (RunSlice.recorded run) d
  | .edit id e => if id = run then d.mapRow e.apply else d
  | .deleteRun id => if id = run then .blank else d
  | .start id now => if id = run then d.mapRow (markRunning now) else d
  | .report id simTimeNow events =>
      if id = run then
        ⟨d.row.map (markProgress simTimeNow), d.events ++ eventRows d.events.length events⟩
      else d
  | .fail id now e => if id = run then d.mapRow (markFailed now e) else d
  | .finish id now outcome => if id = run then d.mapRow (markFinished now outcome) else d
  | _ => d

/-- What the store holds of a run. -/
def Db.slice (db : Db) (run : Uuid) : RunSlice := ⟨db.runs run, db.events run⟩

section

variable {db db' : Db} {run p : Uuid} {op : Op}

/-! ### Changing rows -/

theorem Db.modify_eq_some {test : SimulationRunRow → Bool}
    {f : SimulationRunRow → SimulationRunRow} (h : db.modify run test f = some db') :
    ∃ row, db.runs run = some row ∧ test row = true ∧ db' = db.setRun run (some (f row)) := by
  rw [Db.modify] at h
  split at h
  · simp at h
  · rename_i row hrow
    rw [Option.ite_none_right_eq_some, Option.some.injEq] at h
    exact ⟨row, hrow, h.1, h.2.symm⟩

theorem Db.modify_of_row {test : SimulationRunRow → Bool}
    {f : SimulationRunRow → SimulationRunRow} {row : SimulationRunRow}
    (hrow : db.runs run = some row) (htest : test row = true) :
    db.modify run test f = some (db.setRun run (some (f row))) := by
  rw [Db.modify, hrow]
  simp only [htest, if_true]

theorem Db.slice_setRun (db : Db) (id run : Uuid) (row : Option SimulationRunRow) :
    (db.setRun id row).slice run = if id = run then ⟨row, db.events run⟩ else db.slice run := by
  by_cases h : id = run
  · subst h
    simp [slice, setRun]
  · simp [slice, setRun, h, Function.update_of_ne (Ne.symm h)]

theorem Db.modify_slice {test : SimulationRunRow → Bool}
    {f : SimulationRunRow → SimulationRunRow} {id : Uuid} (h : db.modify id test f = some db')
    (run : Uuid) :
    db'.slice run = if id = run then (db.slice run).mapRow f else db.slice run := by
  obtain ⟨row, hrow, -, rfl⟩ := Db.modify_eq_some h
  rw [Db.slice_setRun]
  by_cases hid : id = run
  · subst hid
    simp [RunSlice.mapRow, Db.slice, hrow]
  · simp [hid]

theorem Db.modify_projects {test : SimulationRunRow → Bool}
    {f : SimulationRunRow → SimulationRunRow} (h : db.modify run test f = some db') :
    db'.projects = db.projects := by
  obtain ⟨row, -, -, rfl⟩ := Db.modify_eq_some h
  rfl

theorem Db.insert_projects (runs : List (Uuid × SimulationRunRow)) :
    ∀ db : Db, (db.insert runs).projects = db.projects := by
  induction runs with
  | nil => exact fun _ => rfl
  | cons r rest ih => exact fun db => ih (db.setRun r.1 (some r.2))

theorem Db.insert_slice (runs : List (Uuid × SimulationRunRow)) :
    ∀ db : Db, (db.insert runs).slice run = runs.foldl (RunSlice.submitted run) (db.slice run) := by
  induction runs with
  | nil => exact fun _ => rfl
  | cons r rest ih =>
      intro db
      rw [Db.insert, ih, Db.slice_setRun, List.foldl_cons]
      rfl

theorem Db.record_projects {jobs : List (Uuid × String)} :
    ∀ {db : Db}, db.record jobs = some db' → db'.projects = db.projects := by
  induction jobs with
  | nil =>
      intro db h
      rw [Db.record, Option.some.injEq] at h
      rw [h]
  | cons job rest ih =>
      intro db h
      rw [Db.record] at h
      split at h
      · simp at h
      · rename_i hmodify
        rw [ih h, Db.modify_projects hmodify]

theorem Db.record_slice {jobs : List (Uuid × String)} :
    ∀ {db : Db}, db.record jobs = some db' →
      db'.slice run = jobs.foldl (RunSlice.recorded run) (db.slice run) := by
  induction jobs with
  | nil =>
      intro db h
      rw [Db.record, Option.some.injEq] at h
      rw [← h]
      rfl
  | cons job rest ih =>
      intro db h
      rw [Db.record] at h
      split at h
      · simp at h
      · rename_i hmodify
        rw [ih h, Db.modify_slice hmodify run, List.foldl_cons]
        rfl

/-! ### Every row by itself -/

/-- **An operation acts on each project by itself.** -/
theorem Op.apply_projects (h : op.apply db = some db') (p : Uuid) :
    db'.projects p = op.onProject p (db.projects p) := by
  cases op with
  | create id body owner base now =>
      rw [apply, Option.ite_none_right_eq_some, Option.some.injEq] at h
      obtain ⟨-, rfl⟩ := h
      by_cases hp : id = p
      · subst hp
        simp [onProject, Db.setProject]
      · simp [onProject, Db.setProject, hp, Function.update_of_ne (Ne.symm hp)]
  | save id body now =>
      rw [apply, Option.map_eq_some_iff] at h
      obtain ⟨row, hrow, rfl⟩ := h
      by_cases hp : id = p
      · subst hp
        simp [onProject, Db.setProject, hrow]
      · simp [onProject, Db.setProject, hp, Function.update_of_ne (Ne.symm hp)]
  | deleteProject id =>
      rw [apply, Option.ite_none_right_eq_some, Option.some.injEq] at h
      obtain ⟨-, rfl⟩ := h
      by_cases hp : id = p
      · subst hp
        simp [onProject, Db.deleteProject]
      · simp [onProject, Db.deleteProject, hp, Ne.symm hp]
  | submit project runs =>
      rw [apply] at h
      split at h
      · simp at h
      · rw [Option.ite_none_right_eq_some, Option.some.injEq] at h
        rw [← h.2, Db.insert_projects]
        rfl
  | record jobs => rw [Db.record_projects h]; rfl
  | deleteRun id =>
      rw [apply, Option.ite_none_right_eq_some, Option.some.injEq] at h
      obtain ⟨-, rfl⟩ := h
      rfl
  | report id simTimeNow events =>
      rw [apply, Option.map_eq_some_iff] at h
      obtain ⟨db₁, hmodify, rfl⟩ := h
      exact congrFun (Db.modify_projects hmodify) p
  | edit | start | fail | finish => exact congrFun (Db.modify_projects h) p

/-- **And on each run.** -/
theorem Op.apply_slice (h : op.apply db = some db') (run : Uuid) :
    db'.slice run = op.onRun run (db.slice run) := by
  cases op with
  | create id body owner base now =>
      rw [apply, Option.ite_none_right_eq_some, Option.some.injEq] at h
      obtain ⟨-, rfl⟩ := h
      rfl
  | save id body now =>
      rw [apply, Option.map_eq_some_iff] at h
      obtain ⟨row, hrow, rfl⟩ := h
      rfl
  | deleteProject id =>
      rw [apply, Option.ite_none_right_eq_some, Option.some.injEq] at h
      obtain ⟨-, rfl⟩ := h
      have hof : db.runOf id run = (db.runs run).any fun row => row.projectId == id := by
        rw [Db.runOf]
        cases db.runs run <;> rfl
      cases hrun : (db.runs run).any fun row => row.projectId == id <;>
        simp [onRun, Db.slice, Db.deleteProject, hof, hrun, RunSlice.blank]
  | submit project runs =>
      rw [apply] at h
      split at h
      · simp at h
      · rw [Option.ite_none_right_eq_some, Option.some.injEq] at h
        rw [← h.2, Db.insert_slice]
        rfl
  | record jobs => exact Db.record_slice h
  | deleteRun id =>
      rw [apply, Option.ite_none_right_eq_some, Option.some.injEq] at h
      obtain ⟨-, rfl⟩ := h
      by_cases hrun : id = run
      · subst hrun
        simp [onRun, Db.slice, Db.deleteRun, Db.setRun, Db.setEvents, RunSlice.blank]
      · simp [onRun, Db.slice, Db.deleteRun, Db.setRun, Db.setEvents, hrun,
          Function.update_of_ne (Ne.symm hrun)]
  | report id simTimeNow events =>
      rw [apply, Option.map_eq_some_iff] at h
      obtain ⟨db₁, hmodify, rfl⟩ := h
      have hslice := Db.modify_slice hmodify run
      by_cases hrun : id = run
      · subst hrun
        simp only [if_true] at hslice
        have hrow : db₁.runs id = (db.runs id).map (markProgress simTimeNow) :=
          congrArg RunSlice.row hslice
        simp [onRun, Db.slice, Db.setEvents, hrow]
      · simp only [hrun, if_false] at hslice
        simp only [onRun, hrun, if_false, ← hslice]
        simp [Db.slice, Db.setEvents, Function.update_of_ne (Ne.symm hrun)]
  | edit | start | fail | finish => exact Db.modify_slice h run

/-! ### What becomes of one row -/

/-- What an operation can do to a run: change columns that its submission did not fix, add
events to it, delete it, or submit it. -/
inductive RunFate (db : Db) (op : Op) (run : Uuid) (db' : Db) : Prop
  | kept {f : SimulationRunRow → SimulationRunRow} (hf : ∀ row, (f row).submission = row.submission)
      (hrow : db'.runs run = (db.runs run).map f) (hevents : db'.events run = db.events run)
      (hproject : ∀ row, db.runs run = some row → op ≠ .deleteProject row.projectId)
  | reported {simTimeNow : Int} {events : List SimEvent} {row : SimulationRunRow}
      (hop : op = .report run simTimeNow events) (hold : db.runs run = some row)
      (hrow : db'.runs run = some (markProgress simTimeNow row))
      (hevents : db'.events run =
        db.events run ++ eventRows (db.events run).length events)
  | deleted (hop : op = .deleteRun run ∨ ∃ p, op = .deleteProject p ∧ db.runOf p run = true)
      (hrow : db'.runs run = none) (hevents : db'.events run = [])
  | submitted {project : Uuid} {runs : List (Uuid × SimulationRunRow)} {row : SimulationRunRow}
      {read : ProjectRow} (hop : op = .submit project runs) (hmem : (run, row) ∈ runs)
      (hread : db.projects project = some read) (hnew : row.isNew project read.version = true)
      (hrow : db'.runs run = some row) (hevents : db'.events run = [])

/-- The operation leaves the run alone. -/
private theorem fate_of_slice (hproject : ∀ id, op ≠ .deleteProject id)
    (h : db'.slice run = db.slice run) : RunFate db op run db' :=
  have hrow : db'.runs run = db.runs run := congrArg RunSlice.row h
  .kept (f := fun row => row) (fun _ => rfl) (by rw [hrow, Option.map_id'])
    (congrArg RunSlice.events h) fun _ _ => hproject _

private theorem fate_of_modify {id : Uuid} {test : SimulationRunRow → Bool}
    {f : SimulationRunRow → SimulationRunRow} (h : db.modify id test f = some db')
    (hproject : ∀ id, op ≠ .deleteProject id)
    (hf : ∀ row, (f row).submission = row.submission) :
    RunFate db op run db' := by
  have hslice := Db.modify_slice h run
  by_cases hrun : id = run
  · simp only [hrun, if_true] at hslice
    exact .kept hf (congrArg RunSlice.row hslice) (congrArg RunSlice.events hslice)
      fun _ _ => hproject _
  · simp only [hrun, if_false] at hslice
    exact fate_of_slice hproject hslice

private theorem foldl_recorded (run : Uuid) (jobs : List (Uuid × String)) : ∀ d : RunSlice,
    ∃ f, (∀ row : SimulationRunRow, (f row).submission = row.submission) ∧
      jobs.foldl (RunSlice.recorded run) d = d.mapRow f := by
  induction jobs with
  | nil => exact fun d => ⟨id, fun _ => rfl, by simp [RunSlice.mapRow]⟩
  | cons job rest ih =>
      intro d
      obtain ⟨f, hf, hd⟩ := ih (d.recorded run job)
      rw [List.foldl_cons, hd]
      by_cases hrun : job.1 = run
      · refine ⟨fun row => f { row with arqJobId := some job.2 }, fun row => hf _, ?_⟩
        simp only [RunSlice.recorded, hrun, if_true, RunSlice.mapRow, Option.map_map]
        rfl
      · exact ⟨f, hf, by simp only [RunSlice.recorded, hrun, if_false]⟩

private theorem foldl_submitted (run : Uuid) (runs : List (Uuid × SimulationRunRow)) :
    ∀ d : RunSlice, runs.foldl (RunSlice.submitted run) d = d ∨
      ∃ row, (run, row) ∈ runs ∧ runs.foldl (RunSlice.submitted run) d = ⟨some row, d.events⟩ := by
  induction runs with
  | nil => exact fun _ => .inl rfl
  | cons r rest ih =>
      intro d
      rw [List.foldl_cons]
      by_cases hrun : r.1 = run
      · subst hrun
        rcases ih (d.submitted r.1 r) with hd | ⟨row, hmem, hd⟩
        · refine .inr ⟨r.2, List.mem_cons_self, ?_⟩
          rw [hd]
          simp [RunSlice.submitted]
        · refine .inr ⟨row, List.mem_cons_of_mem _ hmem, ?_⟩
          rw [hd]
          simp [RunSlice.submitted]
      · rw [show d.submitted run r = d by simp [RunSlice.submitted, hrun]]
        rcases ih d with hd | ⟨row, hmem, hd⟩
        · exact .inl hd
        · exact .inr ⟨row, List.mem_cons_of_mem _ hmem, hd⟩

/-- **What an operation does to a run.** -/
theorem Op.fate (h : op.apply db = some db') (run : Uuid) : RunFate db op run db' := by
  have hslice := apply_slice h run
  cases op with
  | create | save => exact fate_of_slice (by simp) hslice
  | deleteProject id =>
      cases hrow : db.runs run with
      | none =>
          simp only [onRun, Db.slice, hrow, Option.any_none, Bool.false_eq_true, if_false] at hslice
          exact .kept (f := fun row => row) (fun _ => rfl)
            (by simpa [hrow] using congrArg RunSlice.row hslice)
            (congrArg RunSlice.events hslice) (by simp [hrow])
      | some row =>
          by_cases hof : row.projectId = id
          · simp only [onRun, Db.slice, hrow, Option.any_some, hof, beq_self_eq_true, if_true]
              at hslice
            refine .deleted (.inr ⟨id, rfl, ?_⟩) (congrArg RunSlice.row hslice)
              (congrArg RunSlice.events hslice)
            rw [Db.runOf, hrow]
            exact beq_iff_eq.mpr hof
          · simp only [onRun, Db.slice, hrow, Option.any_some, beq_iff_eq, hof, if_false] at hslice
            refine .kept (f := fun row => row) (fun _ => rfl)
              (by simpa [hrow] using congrArg RunSlice.row hslice)
              (congrArg RunSlice.events hslice) fun row' hrow' heq => hof ?_
            rw [hrow, Option.some.injEq] at hrow'
            rw [hrow', Op.deleteProject.injEq] at *
            exact heq.symm
  | submit project runs =>
      rcases foldl_submitted run runs (db.slice run) with hd | ⟨row, hmem, hd⟩
      · exact fate_of_slice (by simp) (hslice.trans hd)
      · rw [apply] at h
        split at h
        · simp at h
        · rename_i read hread
          rw [Option.ite_none_right_eq_some, Db.admits, Bool.and_eq_true, List.all_eq_true] at h
          have hadmits := h.1.2 _ hmem
          simp only [Bool.and_eq_true, Option.isNone_iff_eq_none, List.isEmpty_iff] at hadmits
          obtain ⟨⟨-, hevents⟩, hnew⟩ := hadmits
          rw [onRun, hd] at hslice
          exact .submitted rfl hmem hread hnew (congrArg RunSlice.row hslice)
            ((congrArg RunSlice.events hslice).trans hevents)
  | record jobs =>
      obtain ⟨f, hf, hd⟩ := foldl_recorded run jobs (db.slice run)
      rw [onRun, hd] at hslice
      exact .kept hf (congrArg RunSlice.row hslice) (congrArg RunSlice.events hslice) (by simp)
  | edit id e => exact fate_of_modify h (by simp) fun row => by cases e <;> rfl
  | deleteRun id =>
      by_cases hrun : id = run
      · simp only [onRun, hrun, if_true] at hslice
        exact .deleted (.inl (by rw [hrun])) (congrArg RunSlice.row hslice)
          (congrArg RunSlice.events hslice)
      · simp only [onRun, hrun, if_false] at hslice
        exact fate_of_slice (by simp) hslice
  | report id simTimeNow events =>
      by_cases hrun : id = run
      · subst hrun
        rw [apply, Option.map_eq_some_iff] at h
        obtain ⟨_, hmodify, -⟩ := h
        obtain ⟨row, hrow, -, -⟩ := Db.modify_eq_some hmodify
        simp only [onRun, if_true, Db.slice, hrow, Option.map_some] at hslice
        exact .reported rfl hrow (congrArg RunSlice.row hslice) (congrArg RunSlice.events hslice)
      · simp only [onRun, hrun, if_false] at hslice
        exact fate_of_slice (by simp) hslice
  | start | fail | finish => exact fate_of_modify h (by simp) fun _ => rfl

/-- A project that is there goes by its deletion only, and its version never falls. -/
theorem Op.project_kept (h : op.apply db = some db') {row : ProjectRow}
    (hrow : db.projects p = some row) :
    op = .deleteProject p ∨ ∃ row', db'.projects p = some row' ∧ row.version ≤ row'.version := by
  have hp := apply_projects h p
  rw [hrow] at hp
  cases op with
  | create id body owner base now =>
      rw [apply, Option.ite_none_right_eq_some, Bool.and_eq_true, Option.isNone_iff_eq_none] at h
      have hne : id ≠ p := by
        rintro rfl
        simp [hrow] at h
      simp only [onProject, hne, if_false] at hp
      exact .inr ⟨row, hp, Int.le_refl _⟩
  | save id body now =>
      by_cases hid : id = p
      · simp only [onProject, hid, if_true, Option.map_some] at hp
        exact .inr ⟨_, hp, by rw [ProjectRow.saved_version]; omega⟩
      · simp only [onProject, hid, if_false] at hp
        exact .inr ⟨row, hp, Int.le_refl _⟩
  | deleteProject id =>
      by_cases hid : id = p
      · exact .inl (by rw [hid])
      · simp only [onProject, hid, if_false, Option.map_some] at hp
        refine .inr ⟨_, hp, ?_⟩
        split <;> exact Int.le_refl _
  | _ => exact .inr ⟨row, hp, Int.le_refl _⟩

/-- The spec that an operation writes to a project, and when. -/
def Op.writeOf (p : Uuid) : Op → Option (ProjectSpec × Time)
  | .create id body _ _ now => if id = p then some (body, now) else none
  | .save id body now => if id = p then some (body, now) else none
  | _ => none

/-- What a project that is there comes from. -/
inductive ProjectOrigin (db : Db) (op : Op) (p : Uuid) (row' : ProjectRow) : Prop
  | created {body : ProjectSpec} {owner : Option String} {base : Option Uuid} {now : Time}
      (hop : op = .create p body owner base now) (hbase : db.hasBase base = true)
      (hrow' : row' = newProject body owner base now)
  | saved {row : ProjectRow} {body : ProjectSpec} {now : Time} (hop : op = .save p body now)
      (hrow : db.projects p = some row)
      (hrow' : row' = row.saved body now)
  | kept {row : ProjectRow} (hrow : db.projects p = some row)
      (hrow' : row' = { row with baseProjectId := row'.baseProjectId })
      (hbase : row'.baseProjectId = row.baseProjectId ∨ row'.baseProjectId = none)
      (hunlinked : ∀ id, op = .deleteProject id → row'.baseProjectId ≠ some id)
      (hquiet : op.writeOf p = none)

theorem Op.project_origin (h : op.apply db = some db') {row' : ProjectRow}
    (hrow' : db'.projects p = some row') : ProjectOrigin db op p row' := by
  have hp := apply_projects h p
  rw [hrow'] at hp
  cases op with
  | create id body owner base now =>
      rw [apply, Option.ite_none_right_eq_some, Bool.and_eq_true] at h
      by_cases hid : id = p
      · subst hid
        simp only [onProject, if_true, Option.some.injEq] at hp
        exact .created rfl h.1.2 hp
      · simp only [onProject, hid, if_false] at hp
        exact .kept hp.symm rfl (.inl rfl) (by simp) (by simp [writeOf, hid])
  | save id body now =>
      by_cases hid : id = p
      · subst hid
        simp only [onProject, if_true] at hp
        obtain ⟨row, hrow, hsaved⟩ := Option.map_eq_some_iff.mp hp.symm
        exact .saved rfl hrow hsaved.symm
      · simp only [onProject, hid, if_false] at hp
        exact .kept hp.symm rfl (.inl rfl) (by simp) (by simp [writeOf, hid])
  | deleteProject id =>
      by_cases hid : id = p
      · simp [onProject, hid] at hp
      · simp only [onProject, hid, if_false] at hp
        obtain ⟨row, hrow, rfl⟩ := Option.map_eq_some_iff.mp hp.symm
        by_cases hbase : row.baseProjectId = some id
        · simp only [hbase, if_true]
          exact .kept hrow rfl (.inr rfl) (by simp) rfl
        · simp only [hbase, if_false]
          refine .kept hrow rfl (.inl rfl) (fun id' hid' heq => hbase ?_) rfl
          rw [Op.deleteProject.injEq] at hid'
          rw [heq, hid']
  | _ => exact .kept hp.symm rfl (.inl rfl) (by simp) rfl

/-! ### References -/

/-- What the rows of the store refer to is there, and what is counted in them is in step. -/
structure Db.Sound (db : Db) : Prop where
  versions : ∀ {p row}, db.projects p = some row →
    1 ≤ row.inputsVersion ∧ row.inputsVersion ≤ row.version
  bases : ∀ {p row base}, db.projects p = some row → row.baseProjectId = some base →
    ∃ baseRow, db.projects base = some baseRow
  runs : ∀ {run row}, db.runs run = some row → ∃ project v,
    db.projects row.projectId = some project ∧ row.projectVersion = some v ∧ 1 ≤ v ∧
      v ≤ project.version
  events : ∀ run, (db.events run).map RunEventRow.seq = List.range (db.events run).length
  orphans : ∀ {run}, db.runs run = none → db.events run = []

/-- A reference to a project holds on, unless the project is deleted. -/
private theorem ref_kept (h : op.apply db = some db') (hop : op ≠ .deleteProject p)
    {row : ProjectRow} (hrow : db.projects p = some row) :
    ∃ row', db'.projects p = some row' ∧ row.version ≤ row'.version :=
  (Op.project_kept h hrow).resolve_left hop

theorem Db.Sound.apply (hsound : db.Sound) (h : op.apply db = some db') : db'.Sound where
  versions hrow' := by
    cases Op.project_origin h hrow' with
    | created _ _ heq =>
        rw [heq]
        exact ⟨Int.le_refl _, Int.le_refl _⟩
    | saved _ hrow heq =>
        obtain ⟨h1, h2⟩ := hsound.versions hrow
        rw [heq]
        rw [ProjectRow.saved_inputsVersion, ProjectRow.saved_version]
        split <;> omega
    | kept hrow heq =>
        obtain ⟨h1, h2⟩ := hsound.versions hrow
        rw [heq]
        exact ⟨h1, h2⟩
  bases {p row' base} hrow' hbase := by
    cases Op.project_origin h hrow' with
    | @created _ _ base' _ hop hthere heq =>
        obtain rfl : base' = some base := by rw [← hbase, heq]; rfl
        obtain ⟨baseRow, hbaseRow⟩ := Option.isSome_iff_exists.mp hthere
        obtain ⟨row₁, hrow₁, -⟩ := ref_kept h (by simp [hop]) hbaseRow
        exact ⟨row₁, hrow₁⟩
    | saved hop hrow heq =>
        rw [heq] at hbase
        obtain ⟨baseRow, hbaseRow⟩ := hsound.bases hrow hbase
        obtain ⟨row₁, hrow₁, -⟩ := ref_kept h (by simp [hop]) hbaseRow
        exact ⟨row₁, hrow₁⟩
    | kept hrow _ hsame hunlinked =>
        have hold := hsame.resolve_right (by simp [hbase])
        obtain ⟨baseRow, hbaseRow⟩ := hsound.bases hrow (hold.symm.trans hbase)
        obtain ⟨row₁, hrow₁, -⟩ :=
          ref_kept h (fun hop => hunlinked base hop hbase) hbaseRow
        exact ⟨row₁, hrow₁⟩
  runs {run row'} hrow' := by
    cases Op.fate h run with
    | kept hf hrow _ hproject =>
        obtain ⟨row, hold, rfl⟩ := Option.map_eq_some_iff.mp (hrow.symm.trans hrow')
        obtain ⟨project, v, hread, hv, hpos, hle⟩ := hsound.runs hold
        obtain ⟨project', hread', hge⟩ := ref_kept h (hproject row hold) hread
        have hid := congrArg Submission.projectId (hf row)
        have hversion := congrArg Submission.projectVersion (hf row)
        exact ⟨project', v, (congrArg _ hid).trans hread', hversion.trans hv, hpos,
          Int.le_trans hle hge⟩
    | @reported _ _ row hop hold hrow =>
        rw [hrow', Option.some.injEq] at hrow
        subst hrow
        obtain ⟨project, v, hread, hv, hpos, hle⟩ := hsound.runs hold
        obtain ⟨project', hread', hge⟩ := ref_kept h (by simp [hop]) hread
        exact ⟨project', v, hread', hv, hpos, Int.le_trans hle hge⟩
    | deleted _ hrow => simp [hrow] at hrow'
    | @submitted project runs row read hop _ hread hnew hrow =>
        rw [hrow', Option.some.injEq] at hrow
        subst hrow
        simp only [SimulationRunRow.isNew, Bool.and_eq_true, beq_iff_eq, Option.any_eq_true,
          decide_eq_true_eq] at hnew
        obtain ⟨⟨⟨⟨⟨⟨⟨⟨⟨⟨hid, v, hv, hpos, hle⟩, -⟩, -⟩, -⟩, -⟩, -⟩, -⟩, -⟩, -⟩, -⟩ := hnew
        obtain ⟨project', hread', hge⟩ := ref_kept h (by simp [hop]) hread
        exact ⟨project', v, hid ▸ hread', hv, hpos, Int.le_trans hle hge⟩
  events run := by
    cases Op.fate h run with
    | kept _ _ hevents =>
        rw [hevents]
        exact hsound.events run
    | reported _ _ _ hevents =>
        rw [hevents, seq_append (hsound.events run), List.length_append, eventRows_length]
    | deleted _ _ hevents | submitted _ _ _ _ _ hevents =>
        rw [hevents]
        rfl
  orphans {run} hnone := by
    cases Op.fate h run with
    | kept _ hrow hevents =>
        rw [hevents]
        exact hsound.orphans (Option.map_eq_none_iff.mp (hrow.symm.trans hnone))
    | reported _ _ hrow | submitted _ _ _ _ hrow => simp [hrow] at hnone
    | deleted _ _ hevents => exact hevents

/-- **Every history of the store keeps its references.** -/
theorem Db.Sound.exec {db₀ : Db} {tr : List (Entry Db Op)} (h₀ : db₀.Sound)
    (h : Exec store db₀ tr db) : db.Sound :=
  h.invariant h₀ fun _ _ _ hI hstep => hI.apply hstep

theorem State.Initial.sound {μ : Type} {s : State μ} (h : s.Initial) : s.backend.db.Sound where
  versions hrow := by
    obtain ⟨heq, hpos⟩ := h.versions _ _ hrow
    omega
  bases hrow hbase := by
    obtain ⟨baseRow, hbaseRow, -⟩ := h.bases _ _ _ hrow hbase
    exact ⟨baseRow, hbaseRow⟩
  runs hrow := by simp [h.runs] at hrow
  events run := by simp [h.events]
  orphans _ := h.events _

/-! ### What the rows of a history are -/

variable {db₀ : Db} {tr : List (Entry Db Op)}

/-- A project is what the operations of the history made of it, one after another. -/
theorem store_projects (h : Exec store db₀ tr db) (p : Uuid) :
    db.projects p = (tr.map Entry.act).foldl (Op.onProject p) (db₀.projects p) := by
  induction h with
  | nil => rfl
  | snoc _ hstep ih =>
      rw [Op.apply_projects hstep, ih, List.map_append, List.foldl_append]
      rfl

/-- So is a run with its events. -/
theorem store_slice (h : Exec store db₀ tr db) (run : Uuid) :
    db.slice run = (tr.map Entry.act).foldl (Op.onRun run) (db₀.slice run) := by
  induction h with
  | nil => rfl
  | snoc _ hstep ih =>
      rw [Op.apply_slice hstep, ih, List.map_append, List.foldl_append]
      rfl

end

end SpurApi
