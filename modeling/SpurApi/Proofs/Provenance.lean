/-
Where what is stored comes from.

The history of the service is one of the store, and the store keeps its references and
acts on each row by itself.  So a row is read off the operations of the history: who
created a project and when, which save wrote its spec, and when that was.
-/
import SpurApi.Proofs.Atomic

namespace SpurApi

open Transition

/-- The last spec that was written to a project, and when. -/
def lastWrite (p : Uuid) (ops : List Op) : Option (ProjectSpec × Time) :=
  (ops.filterMap (Op.writeOf p)).getLast?

/-- What the columns of a project say of the operations on it; `first` is the row it had before
them.  The spec is one that was written, and Python finds it equal to the last one: a save leaves
a spec alone that equals its own. -/
structure WrittenBy (ops : List Op) (p : Uuid) (first : Option ProjectRow) (row : ProjectRow) :
    Prop where
  origin : (∃ body base, .create p body row.owner base row.createdAt ∈ ops) ∨
    ∃ row₀, first = some row₀ ∧ row.owner = row₀.owner ∧ row.createdAt = row₀.createdAt
  spec : (∃ w ∈ ops.filterMap (Op.writeOf p), row.spec = w.1.dump) ∨
    ∃ row₀, first = some row₀ ∧ row.spec = row₀.spec
  last : ∀ body now, lastWrite p ops = some (body, now) →
    row.name = body.name ∧ row.spurVersion = body.spurVersion ∧
      row.spec.pyEq body.dump = true ∧ row.updatedAt = now
  unwritten : lastWrite p ops = none → ∃ row₀, first = some row₀ ∧
    row = { row₀ with baseProjectId := row.baseProjectId }

section

variable {db₀ db : Db} {op : Op} {p : Uuid} {tr : List (Entry Db Op)}

theorem lastWrite_snoc (ops : List Op) :
    lastWrite p (ops ++ [op]) = (op.writeOf p).or (lastWrite p ops) := by
  rw [lastWrite, lastWrite, List.filterMap_append]
  cases h : op.writeOf p with
  | none => simp [h]
  | some w => simp [h]

/-- A spec that was written, or was there before, still was after one more operation. -/
private theorem spec_snoc {ops : List Op} {spec : Json.Object} {first : Option ProjectRow}
    (h : (∃ w ∈ ops.filterMap (Op.writeOf p), spec = w.1.dump) ∨
      ∃ row₀, first = some row₀ ∧ spec = row₀.spec) :
    (∃ w ∈ (ops ++ [op]).filterMap (Op.writeOf p), spec = w.1.dump) ∨
      ∃ row₀, first = some row₀ ∧ spec = row₀.spec := by
  refine h.imp_left fun ⟨w, hw, hspec⟩ => ⟨w, ?_, hspec⟩
  rw [List.filterMap_append]
  exact List.mem_append_left _ hw

private theorem spec_written {ops : List Op} {body : ProjectSpec} {now : Time}
    (h : op.writeOf p = some (body, now)) :
    ∃ w ∈ (ops ++ [op]).filterMap (Op.writeOf p), body.dump = w.1.dump := by
  refine ⟨(body, now), ?_, rfl⟩
  rw [List.filterMap_append]
  exact List.mem_append_right _ (List.mem_filterMap.mpr ⟨op, List.mem_singleton_self op, h⟩)

/-- Every project that is stored is as its operations wrote it. -/
theorem writtenBy_of_exec (h : Exec store db₀ tr db) :
    ∀ {row}, db.projects p = some row →
      WrittenBy (tr.map Entry.act) p (db₀.projects p) row := by
  induction h with
  | nil =>
      intro row hrow
      exact ⟨.inr ⟨row, hrow, rfl, rfl⟩, .inr ⟨row, hrow, rfl⟩, by simp [lastWrite],
        fun _ => ⟨row, hrow, rfl⟩⟩
  | @snoc tr db db' op h hstep ih =>
      intro row' hrow'
      rw [List.map_append, List.map_cons, List.map_nil]
      cases Op.project_origin hstep hrow' with
      | @created body owner base now hop _ heq =>
          have hwrite : op.writeOf p = some (body, now) := by simp [hop, Op.writeOf]
          refine ⟨.inl ⟨body, base, ?_⟩, .inl ?_, fun body' now' hlast => ?_, fun hnone => ?_⟩
          · rw [heq, hop]
            simp [newProject]
          · rw [heq]
            exact spec_written hwrite
          · rw [lastWrite_snoc, hwrite, Option.some_or, Option.some.injEq, Prod.mk.injEq] at hlast
            obtain ⟨rfl, rfl⟩ := hlast
            rw [heq]
            exact ⟨rfl, rfl, body.dump.pyEq_refl, rfl⟩
          · simp [lastWrite_snoc, hwrite] at hnone
      | @saved row body now hop hrow heq =>
          have hwrite : op.writeOf p = some (body, now) := by simp [hop, Op.writeOf]
          have hold := ih hrow
          refine ⟨?_, ?_, fun body' now' hlast => ?_, fun hnone => ?_⟩
          · rw [heq]
            rcases hold.origin with ⟨body', base, hmem⟩ | hfirst
            · exact .inl ⟨body', base, List.mem_append_left _ hmem⟩
            · exact .inr hfirst
          · rw [heq, ProjectRow.saved_spec]
            rcases Column.flushBy_mem Json.Object.pyEq row.spec body.dump row.spec with
              hkept | hwritten
            · rw [hkept]
              exact spec_snoc hold.spec
            · rw [hwritten]
              exact .inl (spec_written hwrite)
          · rw [lastWrite_snoc, hwrite, Option.some_or, Option.some.injEq, Prod.mk.injEq] at hlast
            obtain ⟨rfl, rfl⟩ := hlast
            rw [heq]
            exact ⟨row.saved_name body now, row.saved_spurVersion body now,
              row.saved_spec_pyEq body now, rfl⟩
          · simp [lastWrite_snoc, hwrite] at hnone
      | @kept row hrow heq _ _ hquiet =>
          have hold := ih hrow
          refine ⟨?_, ?_, fun body' now' hlast => ?_, fun hnone => ?_⟩
          · rw [heq]
            rcases hold.origin with ⟨body', base, hmem⟩ | hfirst
            · exact .inl ⟨body', base, List.mem_append_left _ hmem⟩
            · exact .inr hfirst
          · rw [heq]
            exact spec_snoc hold.spec
          · rw [lastWrite_snoc, hquiet, Option.none_or] at hlast
            rw [heq]
            exact hold.last body' now' hlast
          · rw [lastWrite_snoc, hquiet, Option.none_or] at hnone
            obtain ⟨row₀, hfirst, hrow₀⟩ := hold.unwritten hnone
            refine ⟨row₀, hfirst, ?_⟩
            rw [heq, hrow₀]

end

section

variable {μ : Type} {env : Env μ} {s₀ s : State μ} {tr : List (Entry (State μ) Action)}

/-- **No reference dangles**, in any interleaving: runs belong to projects that are there, and
are of a version the project has had; scenarios point at bases that are there; events belong to
runs that are there, and are numbered from 0 without a gap. -/
theorem references_hold (h₀ : s₀.Initial) (h : Exec (system env) s₀ tr s) :
    s.backend.db.Sound := by
  obtain ⟨tr', hexec, -⟩ := exists_store_exec h₀ h
  exact h₀.sound.exec hexec

/-- What is promised of the rows in a history. -/
structure RowsAreWritten (env : Env μ) (s₀ : State μ) (tr : List (Entry (State μ) Action))
    (s : State μ) : Prop where
  projects : ∀ p, s.projectRow p = (ops env tr).foldl (Op.onProject p) (s₀.projectRow p)
  runs : ∀ run, s.slice run = (ops env tr).foldl (Op.onRun run) .blank
  written : ∀ p row, s.projectRow p = some row →
    WrittenBy (ops env tr) p (s₀.projectRow p) row

/-- **Every row is what the operations on it made of it**, and a project says who created it and
when, which spec was written last, and when. -/
theorem rows_are_written (h₀ : s₀.Initial) (h : Exec (system env) s₀ tr s) :
    RowsAreWritten env s₀ tr s := by
  obtain ⟨tr', hexec, hacts⟩ := exists_store_exec h₀ h
  refine ⟨fun p => ?_, fun run => ?_, fun p row hrow => ?_⟩
  · rw [← hacts]
    exact store_projects hexec p
  · have hblank : s₀.backend.db.slice run = .blank :=
      RunSlice.eq_blank (h₀.runs run) (h₀.events run)
    rw [← hacts, ← hblank]
    exact store_slice hexec run
  · rw [← hacts]
    exact writtenBy_of_exec hexec hrow

end

/-- A project is created, renamed twice and run. -/
def writtenProject : List (Entry (State Int) Action) × State Int :=
  (system clockEnv).played State.empty
    [.arrive 0 (.createProject (.blank "A") none none .received), .request 0 { now := 1 },
      .request 0 { ids := [1], now := 2 },
      .arrive 1 (.updateProject 1 none (.blank "B") .received), .request 1 { now := 3 },
      .request 1 { now := 4 }, .request 1 { now := 5 },
      .arrive 2 (.submitRun 1 (.single none none) .received), .request 2 { ids := [2, 3] },
      .request 2 {},
      .arrive 3 (.updateProject 1 none (.blank "C") .received), .request 3 { now := 6 },
      .request 3 { now := 7 }, .request 3 { now := 8 }] (by decide)

theorem written_project_references : (writtenProject.2.slice 3).row.isSome = true ∧
    writtenProject.2.backend.db.Sound :=
  ⟨rfl, references_hold State.empty_initial (Machine.played_exec _)⟩

/-- It says that it was created at 2 and written at 8. -/
theorem written_project_rows :
    (writtenProject.2.projectRow 1).map (fun row => (row.createdAt, row.updatedAt)) =
        some (2, 8) ∧
      RowsAreWritten clockEnv State.empty writtenProject.1 writtenProject.2 :=
  ⟨rfl, rows_are_written State.empty_initial (Machine.played_exec _)⟩

end SpurApi
