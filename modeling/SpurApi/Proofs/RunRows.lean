/-
What a step of a request can do to a run.

A client writes three columns of a run's row: its name, its cancel flag and the id
of its job.  `SameButClient` is equality up to these, and `RunTouch` is all a
request can do to a run that is there: nothing, an edit of these columns that never
takes the cancel flag back, or the deletion of the run with its events.
-/
import SpurApi.System
import SpurApi.Proofs.Moves

namespace SpurApi

/-! ### What a flush writes -/

namespace SimulationRunRow

variable (loaded stored : SimulationRunRow)

theorem flush_name (name : Option String) :
    flush loaded { loaded with name := name } stored =
      { stored with name := Column.flush loaded.name name stored.name } := by
  simp [flush]

theorem flush_cancel (flag : Bool) :
    flush loaded { loaded with cancelRequested := flag } stored =
      { stored with
        cancelRequested := Column.flush loaded.cancelRequested flag stored.cancelRequested } := by
  simp [flush]

theorem flush_jobId (jobId : Option String) :
    flush loaded { loaded with arqJobId := jobId } stored =
      { stored with arqJobId := Column.flush loaded.arqJobId jobId stored.arqJobId } := by
  simp [flush]

end SimulationRunRow

/-! ### Rows that differ in what clients write -/

/-- The two rows differ in the columns that clients write at most. -/
def SameButClient (row row' : SimulationRunRow) : Prop :=
  row' = { row with
    name := row'.name, cancelRequested := row'.cancelRequested, arqJobId := row'.arqJobId }

theorem SameButClient.refl (row : SimulationRunRow) : SameButClient row row := rfl

theorem SameButClient.trans {row₁ row₂ row₃ : SimulationRunRow} (h₁ : SameButClient row₁ row₂)
    (h₂ : SameButClient row₂ row₃) : SameButClient row₁ row₃ := by
  rw [SameButClient] at h₂ ⊢
  rw [h₁] at h₂
  exact h₂

/-! ### What a submission fixes -/

/-- The columns of a run's row that nothing assigns after the insert. -/
structure Submission where
  projectId : Uuid
  requestedUntil : Option Int
  untilTarget : Option Int
  chunkSize : Option Int
  seed : Option Int
  batchId : Option Uuid
  specSnapshot : Option Json.Object
  projectVersion : Option Int

def SimulationRunRow.submission (row : SimulationRunRow) : Submission where
  projectId := row.projectId
  requestedUntil := row.requestedUntil
  untilTarget := row.untilTarget
  chunkSize := row.chunkSize
  seed := row.seed
  batchId := row.batchId
  specSnapshot := row.specSnapshot
  projectVersion := row.projectVersion

theorem SameButClient.submission {row row' : SimulationRunRow} (h : SameButClient row row') :
    row'.submission = row.submission := by
  rw [h]
  rfl

/-! ### Touching a run -/

/-- What the database holds of a run. -/
def Backend.slice (b : Backend) (run : Uuid) : RunSlice := ⟨b.db.runs run, b.db.events run⟩

/-- Nothing is stored of a run. -/
def RunSlice.blank : RunSlice := ⟨none, []⟩

/-- A client's edit of a run's row; `cancels` says that it is a cancel request that commits. -/
structure ClientEdit (cancels : Prop) (row row' : SimulationRunRow) : Prop where
  same : SameButClient row row'
  flag : row'.cancelRequested = row.cancelRequested ∨ row'.cancelRequested = true ∧ cancels

theorem ClientEdit.refl {cancels : Prop} (row : SimulationRunRow) : ClientEdit cancels row row :=
  ⟨.refl row, .inl rfl⟩

theorem ClientEdit.trans {cancels : Prop} {row₁ row₂ row₃ : SimulationRunRow}
    (h₁ : ClientEdit cancels row₁ row₂) (h₂ : ClientEdit cancels row₂ row₃) :
    ClientEdit cancels row₁ row₃ := by
  refine ⟨h₁.same.trans h₂.same, ?_⟩
  rcases h₂.flag with hflag | hflag
  · rw [hflag]
    exact h₁.flag
  · exact .inr hflag

/-- A cancel flag that is set stays set. -/
theorem ClientEdit.cancelRequested {cancels : Prop} {row row' : SimulationRunRow}
    (h : ClientEdit cancels row row') (hset : row.cancelRequested = true) :
    row'.cancelRequested = true := by
  rcases h.flag with hflag | hflag
  · rw [hflag, hset]
  · exact hflag.1

theorem ClientEdit.not_cancelled {cancels : Prop} {row row' : SimulationRunRow}
    (h : ClientEdit cancels row row') (hclear : row'.cancelRequested = false) :
    row.cancelRequested = false := by
  rw [← Bool.not_eq_true]
  intro hset
  simp [h.cancelRequested hset] at hclear

/-- What a request that inserts no run can do to one. -/
inductive RunTouch (cancels : Prop) : RunSlice → RunSlice → Prop
  | same (d : RunSlice) : RunTouch cancels d d
  | edited {row row' : SimulationRunRow} {events : List RunEventRow}
      (h : ClientEdit cancels row row') : RunTouch cancels ⟨some row, events⟩ ⟨some row', events⟩
  | deleted (d : RunSlice) : RunTouch cancels d .blank

theorem RunTouch.trans {cancels : Prop} {d₁ d₂ d₃ : RunSlice} (h₁ : RunTouch cancels d₁ d₂)
    (h₂ : RunTouch cancels d₂ d₃) : RunTouch cancels d₁ d₃ := by
  cases h₂ with
  | same => exact h₁
  | deleted => exact .deleted _
  | edited hedit =>
      cases h₁ with
      | same => exact .edited hedit
      | edited hedit' => exact .edited (hedit'.trans hedit)

theorem RunTouch.imp {cancels cancels' : Prop} {d d' : RunSlice} (h : RunTouch cancels d d')
    (himp : cancels → cancels') : RunTouch cancels' d d' := by
  cases h with
  | same => exact .same _
  | edited hedit => exact .edited ⟨hedit.same, hedit.flag.imp_right fun hf => ⟨hf.1, himp hf.2⟩⟩
  | deleted => exact .deleted _

/-- A run of which nothing is stored stays so. -/
theorem RunTouch.blank {cancels : Prop} {d : RunSlice} (h : RunTouch cancels .blank d) :
    d = .blank := by
  generalize hb : RunSlice.blank = d' at h
  cases h with
  | same => rfl
  | edited => simp [RunSlice.blank] at hb
  | deleted => exact hb

/-- An update of a row, as a touch of its run. -/
theorem runTouch_of_updateRun {cancels : Prop} {loaded assigned : SimulationRunRow}
    {stored stored' : Option SimulationRunRow} (events : List RunEventRow)
    (h : updateRun loaded assigned stored = .ok stored')
    (hedit : ∀ row, ClientEdit cancels row (SimulationRunRow.flush loaded assigned row)) :
    RunTouch cancels ⟨stored, events⟩ ⟨stored', events⟩ := by
  cases stored with
  | none =>
      unfold updateRun at h
      split at h
      · simp at h
      · simp only [Except.ok.injEq] at h
        exact h ▸ .same _
  | some row =>
      rw [updateRun_some, Except.ok.injEq] at h
      exact h ▸ .edited (hedit row)

/-- Setting the row of a run touches that run only. -/
theorem runTouch_of_setRun {cancels : Prop} {b : Backend} {id : Uuid}
    {row : Option SimulationRunRow}
    (h : RunTouch cancels ⟨b.db.runs id, b.db.events id⟩ ⟨row, b.db.events id⟩) (run : Uuid) :
    RunTouch cancels (b.slice run) ((b.setRun id row).slice run) := by
  by_cases hrun : run = id
  · subst hrun
    simpa [Backend.slice, Backend.setRun, Db.setRun] using h
  · have hsame : (b.setRun id row).slice run = b.slice run := by
      simp [Backend.slice, Backend.setRun, Db.setRun, hrun]
    exact hsame ▸ .same _

/-! ### The requests -/

theorem PutMove.slice {r : RequestId} {id : Uuid} {ifMatch : Option HeaderValue}
    {body : ProjectSpec} {io : Io} {b b' : Backend} {q q' : UpdateProject}
    (h : PutMove r id ifMatch body io b q q' b') (run : Uuid) : b'.slice run = b.slice run := by
  cases h <;> rfl

theorem CreateMove.slice {body : ProjectSpec} {owner : Option String} {base : Option Uuid}
    {io : Io} {b b' : Backend} {q q' : CreateProject}
    (h : CreateMove body owner base io b q q' b') (run : Uuid) : b'.slice run = b.slice run := by
  cases h <;> rfl

theorem DeleteProject.step_touch {cancels : Prop} {id : Uuid} {b b' : Backend}
    {q q' : DeleteProject} (h : q.step id b = some (q', b')) (run : Uuid) :
    RunTouch cancels (b.slice run) (b'.slice run) := by
  cases q with
  | received =>
      rw [DeleteProject.step] at h
      split at h <;> simp only [Option.some.injEq, Prod.mk.injEq] at h <;> obtain ⟨-, rfl⟩ := h <;>
        exact .same _
  | deleting =>
      rw [DeleteProject.step] at h
      split at h
      · simp at h
      · simp only [Option.some.injEq, Prod.mk.injEq] at h
        obtain ⟨-, rfl⟩ := h
        cases hrun : b.db.runOf id run with
        | true =>
            have hgone : RunSlice.blank = Backend.slice { b with db := b.db.deleteProject id }
                run := by
              simp [Backend.slice, Db.deleteProject, hrun, RunSlice.blank]
            exact hgone ▸ .deleted _
        | false =>
            have hsame : b.slice run = Backend.slice { b with db := b.db.deleteProject id }
                run := by
              simp [Backend.slice, Db.deleteProject, hrun]
            exact hsame ▸ .same _
  | answered a => simp [DeleteProject.step] at h

/-- A request that commits a cancel. -/
def EditRun.cancels (run : Uuid) (edit : RunEdit) (q q' : EditRun) (id : Uuid) : Prop :=
  run = id ∧ edit = .cancel ∧ (∃ row, q = .loaded row) ∧ q' = .committed

theorem EditMove.touch {id : Uuid} {edit : RunEdit} {b b' : Backend} {q q' : EditRun}
    (h : EditMove id edit b q q' b') (run : Uuid) :
    RunTouch (EditRun.cancels run edit q q' id) (b.slice run) (b'.slice run) := by
  cases h with
  | @committed row stored _ hupdate =>
      by_cases hrun : run = id
      · subst hrun
        refine runTouch_of_setRun (runTouch_of_updateRun _ hupdate fun old => ?_) run
        cases edit with
        | rename name =>
            rw [RunEdit.apply, SimulationRunRow.flush_name]
            exact ⟨rfl, .inl rfl⟩
        | cancel =>
            rw [RunEdit.apply, SimulationRunRow.flush_cancel]
            refine ⟨rfl, ?_⟩
            rcases Column.flush_cases row.cancelRequested true old.cancelRequested with
              hkeep | hset
            · exact .inl hkeep
            · exact .inr ⟨hset, rfl, rfl, ⟨row, rfl⟩, rfl⟩
      · have hsame : (b.setRun id stored).slice run = b.slice run := by
          simp [Backend.slice, Backend.setRun, Db.setRun, hrun]
        exact hsame ▸ .same _
  | _ => exact .same _

theorem DeleteRun.step_touch {cancels : Prop} {id : Uuid} {b b' : Backend} {q q' : DeleteRun}
    (h : q.step id b = some (q', b')) (run : Uuid) :
    RunTouch cancels (b.slice run) (b'.slice run) := by
  cases q with
  | received =>
      rw [DeleteRun.step] at h
      split at h <;> simp only [Option.some.injEq, Prod.mk.injEq] at h <;> obtain ⟨-, rfl⟩ := h <;>
        exact .same _
  | deleting =>
      simp only [DeleteRun.step, Option.some.injEq, Prod.mk.injEq] at h
      obtain ⟨-, rfl⟩ := h
      by_cases hrun : run = id
      · subst hrun
        have hgone : RunSlice.blank = Backend.slice { b with db := b.db.deleteRun run } run := by
          simp [Backend.slice, Db.deleteRun, Db.setRun, Db.setEvents, RunSlice.blank]
        exact hgone ▸ .deleted _
      · have hsame : b.slice run = Backend.slice { b with db := b.db.deleteRun id } run := by
          simp [Backend.slice, Db.deleteRun, Db.setRun, Db.setEvents, hrun]
        exact hsame ▸ .same _
  | answered a => simp [DeleteRun.step] at h

/-! ### Submitting runs -/

theorem insertRuns_of_notMem {run : Uuid} {rows : List Submitted} :
    ∀ {b : Backend}, run ∉ rows.map Submitted.id → (b.insertRuns rows).slice run = b.slice run := by
  induction rows with
  | nil => exact fun _ => rfl
  | cons s rest ih =>
      intro b hrun
      rw [List.map_cons, List.mem_cons, not_or] at hrun
      rw [Backend.insertRuns, ih hrun.2]
      simp [Backend.slice, Backend.setRun, Db.setRun, hrun.1]

theorem insertRuns_of_mem {s : Submitted} {rows : List Submitted} :
    ∀ {b : Backend}, s ∈ rows → (rows.map Submitted.id).Nodup →
      (b.insertRuns rows).slice s.id = ⟨some s.row, b.db.events s.id⟩ := by
  induction rows with
  | nil => simp
  | cons s' rest ih =>
      intro b hs hnodup
      rw [List.map_cons, List.nodup_cons] at hnodup
      rw [Backend.insertRuns]
      rcases List.mem_cons.mp hs with rfl | hs
      · rw [insertRuns_of_notMem hnodup.1]
        simp [Backend.slice, Backend.setRun, Db.setRun]
      · rw [ih hs hnodup.2]
        rfl

theorem assigned_eq (s : Submitted) :
    s.assigned = { s.row with arqJobId := s.assigned.arqJobId } := by
  rw [Submitted.assigned]
  split <;> rfl

theorem commitJobIds_touch {cancels : Prop} {run : Uuid} {rows : List Submitted} :
    ∀ {b b' : Backend}, b.commitJobIds rows = .ok b' →
      RunTouch cancels (b.slice run) (b'.slice run) := by
  induction rows with
  | nil =>
      intro b b' h
      simp only [Backend.commitJobIds, Except.ok.injEq] at h
      exact h ▸ .same _
  | cons s rest ih =>
      intro b b' h
      rw [Backend.commitJobIds] at h
      split at h
      · simp at h
      · rename_i stored hupdate
        refine (runTouch_of_setRun (runTouch_of_updateRun _ hupdate fun row => ?_) run).trans (ih h)
        rw [assigned_eq, SimulationRunRow.flush_jobId]
        exact ⟨rfl, .inl rfl⟩

end SpurApi
