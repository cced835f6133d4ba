/-
The list of projects and the projects.

A list is read from columns that repeat what a spec says, and from counts that the
database makes of its sections; a project is read from the spec itself.  `InStep` says that the
columns are those of a spec that was accepted, and every write keeps it so: a creation
and a save assign the columns and the spec together, and the lock a save holds keeps the
row it read the stored one.

The order of a list is total, for no two projects have one id.  So the list is one list,
cut into pages, and `Paging.reads_iff` reads it whole.
-/
import SpurApi.Proofs.Scenarios

namespace SpurApi

open Transition

/-- What a list is to show of a project. -/
def Project.summary (project : Project) : ProjectSummary where
  id := project.id
  name := project.name
  spurVersion := project.spurVersion
  owner := project.owner
  baseProjectId := project.baseProjectId
  createdAt := project.createdAt
  updatedAt := project.updatedAt
  counts := ⟨project.sectionLength "components", project.sectionLength "routes",
    project.sectionLength "tours", project.sectionLength "trains"⟩

/-! ### Columns in step with the spec -/

/-- The row's columns are those of its spec, which was accepted. -/
def ProjectRow.InStep (row : ProjectRow) : Prop :=
  ∃ spec : ProjectSpec, row.spec = spec.dump ∧ row.name = spec.name ∧
    row.spurVersion = spec.spurVersion

theorem newProject_inStep (body : ProjectSpec) (owner : Option String) (baseId : Option Uuid)
    (now : Time) : (newProject body owner baseId now).InStep :=
  ⟨body, rfl, rfl, rfl⟩

theorem ProjectSpec.name_of_pyEq {a b : ProjectSpec} (h : a.dump.pyEq b.dump = true) :
    a.name = b.name := by
  have hiff : ∀ s, a.name = some s ↔ b.name = some s := by
    intro s
    rw [ProjectSpec.name_eq_some_iff, ProjectSpec.name_eq_some_iff, Json.Object.get_eq_str_iff h]
  exact Option.ext hiff

theorem ProjectSpec.spurVersion_of_pyEq {a b : ProjectSpec} (h : a.dump.pyEq b.dump = true) :
    a.spurVersion = b.spurVersion := by
  have hb : b.dump.get "spur_version" = .str b.spurVersion := b.get_spurVersion
  rw [← Json.Object.get_eq_str_iff h, a.get_spurVersion, Json.str.injEq] at hb
  exact hb

/-- A save that leaves the stored spec alone, because the new one equals it, still writes the
columns that the new one repeats, and these are the same. -/
theorem ProjectRow.InStep.saved {row : ProjectRow} (h : row.InStep) (body : ProjectSpec)
    (now : Time) (base : Option Uuid) :
    { row.saved body now with baseProjectId := base }.InStep := by
  obtain ⟨spec, hspec, -, -⟩ := h
  have hpyEq : (row.saved body now).spec.pyEq body.dump = true := row.saved_spec_pyEq body now
  rcases Column.flushBy_mem Json.Object.pyEq row.spec body.dump row.spec with hkept | hwritten
  · rw [ProjectRow.saved_spec, hkept, hspec] at hpyEq
    refine ⟨spec, (row.saved_spec body now).trans (hkept.trans hspec), ?_, ?_⟩
    · exact (row.saved_name body now).trans (ProjectSpec.name_of_pyEq hpyEq).symm
    · exact (row.saved_spurVersion body now).trans (ProjectSpec.spurVersion_of_pyEq hpyEq).symm
  · exact ⟨body, (row.saved_spec body now).trans hwritten, row.saved_name body now,
      row.saved_spurVersion body now⟩

section

variable {μ : Type} {env : Env μ} {s₀ s s' : State μ} {a : Action}
  {tr : List (Entry (State μ) Action)}

/-- So is every row that is stored. -/
def RowsInStep (s : State μ) : Prop :=
  ∀ p row, s.backend.db.projects p = some row → row.InStep

theorem RowsInStep.step (hputs : ∀ p, PutsHold s p) (h : RowsInStep s)
    (hstep : s.step env a = some s') : RowsInStep s' := by
  intro p row' hrow'
  cases step_project hstep p with
  | @put r io ifMatch body q q' _ hpre _ _ hmove =>
      generalize s'.backend = b' at hmove hrow'
      cases hmove with
      | @saved expected row stored hstored =>
          simp only [Backend.setProject, Backend.unlock, Db.setProject, Function.update_self,
            Option.some.injEq] at hrow'
          have hbase := (hputs p).sameButBase hpre hstored
          have hrow : row.InStep := by
            have hold := h p stored hstored
            rw [hbase] at hold
            exact hold
          rw [← hrow', flush_replaceSpec hbase]
          exact hrow.saved body io.now _
      | _ => exact h p row' hrow'
  | frame hframe =>
      cases hframe.row with
      | same hsame => exact h p row' (hsame ▸ hrow')
      | created _ _ hnew =>
          rw [hnew, Option.some.injEq] at hrow'
          rw [← hrow']
          exact newProject_inStep ..
      | deleted _ hnone => simp [hnone] at hrow'
      | unlinked hrow hnew =>
          rw [hnew, Option.some.injEq] at hrow'
          subst hrow'
          -- the link to the base is no column that the spec repeats
          have hold := h p _ hrow
          exact hold

/-- **Every write keeps the columns in step with the spec.** -/
theorem RowsInStep.exec (h₀ : s₀.Initial) (hrows : RowsInStep s₀)
    (h : Exec (system env) s₀ tr s) : RowsInStep s := by
  have hboth : (∀ p, PutsHold s p) ∧ RowsInStep s :=
    h.invariant (I := fun s => (∀ p, PutsHold s p) ∧ RowsInStep s)
      ⟨h₀.putsHold, hrows⟩ fun _ _ _ hI hstep =>
        ⟨fun p => (hI.1 p).step hstep, hI.2.step hI.1 hstep⟩
  exact hboth.2

/-! ### One row of the list -/

/-- **What the list shows of a row is what the project says.** -/
theorem ProjectRow.InStep.toSummary_eq {row : ProjectRow} (h : row.InStep) (p : Uuid) :
    toSummary p row = .ok (toProject p row).summary := by
  obtain ⟨spec, hspec, hname, hversion⟩ := h
  have hcount : ∀ name ∈ simulationInputs,
      sectionCount row.spec name = .ok ((toProject p row).sectionLength name) := by
    intro name hmem
    obtain ⟨items, hitems⟩ := section_of_hasSpecShape spec.shape hmem
    rw [← hspec] at hitems
    rw [sectionCount_of_get hitems]
    simp only [Project.sectionLength, toProject, hitems]
  have hname' : row.name = (toProject p row).name := by
    rw [hname, Project.name, toProject, hspec, ProjectSpec.name]
  have hversion' : row.spurVersion = (toProject p row).spurVersion := by
    rw [hversion, Project.spurVersion, toProject, hspec, ProjectSpec.spurVersion]
  unfold toSummary
  rw [hcount "components" (by simp [simulationInputs]),
    hcount "routes" (by simp [simulationInputs]), hcount "tours" (by simp [simulationInputs]),
    hcount "trains" (by simp [simulationInputs]), hname', hversion']
  rfl

/-! ### The whole list -/

theorem newestFirst_iff {a b : Uuid × ProjectRow} : newestFirst a b = true ↔
    b.2.createdAt < a.2.createdAt ∨
      a.2.createdAt = b.2.createdAt ∧ a.1.toNat ≤ b.1.toNat := by
  simp [newestFirst]

theorem selectProjects_ordered (rows : List (Uuid × ProjectRow)) (base : Option Uuid) :
    (selectProjects rows base).Pairwise fun a b => newestFirst a b = true := by
  have htrans : ∀ {x y z i j k : Nat}, y < x ∨ x = y ∧ i ≤ j → z < y ∨ y = z ∧ j ≤ k →
      z < x ∨ x = z ∧ i ≤ k := by
    intros
    omega
  have htotal : ∀ x y i j : Nat, (y < x ∨ x = y ∧ i ≤ j) ∨ (x < y ∨ y = x ∧ j ≤ i) := by
    intros
    omega
  refine List.pairwise_mergeSort ?_ ?_ _
  · intro a b c hab hbc
    rw [newestFirst_iff] at hab hbc ⊢
    exact htrans hab hbc
  · intro a b
    rw [Bool.or_eq_true, newestFirst_iff, newestFirst_iff]
    exact htotal a.2.createdAt b.2.createdAt a.1.toNat b.1.toNat

theorem mem_selectProjects {rows : List (Uuid × ProjectRow)} {base : Option Uuid}
    {q : Uuid × ProjectRow} : q ∈ selectProjects rows base ↔
      q ∈ rows ∧ ∀ b, base = some b → q.2.baseProjectId = some b := by
  rw [selectProjects.eq_def, List.mem_mergeSort]
  cases base with
  | none => simp
  | some b => simp [List.mem_filter]

theorem selectProjects_nodup {rows : List (Uuid × ProjectRow)} (h : (rows.map Prod.fst).Nodup)
    (base : Option Uuid) : ((selectProjects rows base).map Prod.fst).Nodup := by
  rw [selectProjects.eq_def, ((List.mergeSort_perm _ _).map _).nodup_iff]
  cases base with
  | none => exact h
  | some b => exact (List.filter_sublist.map _).nodup h

/-- The projects that are listed, in their order. -/
def State.listed (s : State μ) (base : Option Uuid) : List Project :=
  (selectProjects s.backend.projectRows base).map fun q => toProject q.1 q.2

/-- A page of the list is a page of the summaries of the projects. -/
theorem listProjects_eq (h : RowsInStep s) (limit offset : Nat) (base : Option Uuid) :
    listProjects s.backend.projectRows limit offset base =
      .ok (Paging.page ((s.listed base).map Project.summary) offset limit) := by
  have hsummaries : ∀ {rows : List (Uuid × ProjectRow)}, (∀ q ∈ rows, q.2.InStep) →
      rows.mapM (fun q => toSummary q.1 q.2) =
        .ok (rows.map fun q => (toProject q.1 q.2).summary) := by
    intro rows hrows
    induction rows with
    | nil => rfl
    | cons q rows ih =>
        have hrest := ih fun q hq => hrows q (List.mem_cons_of_mem _ hq)
        rw [List.mapM_cons, (hrows q List.mem_cons_self).toSummary_eq q.1, hrest]
        rfl
  have hpage : ∀ q ∈ Paging.page (selectProjects s.backend.projectRows base) offset limit,
      q.2.InStep := by
    intro q hq
    have hmem := (Paging.page_sublist _ _ _).mem hq
    have hrow := mem_projectRows_iff.mp (mem_selectProjects.mp hmem).1
    exact h q.1 q.2 hrow.2
  rw [listProjects, hsummaries hpage, State.listed, List.map_map, ← Paging.page_map]
  rfl

/-- What the answers to a client that lists the projects, or the scenarios of a base, come to. -/
structure ListsProjects (db : Db) (base : Option Uuid) (summaries : List ProjectSummary) :
    Prop where
  /-- each of them is there, and only once -/
  complete : ∀ id, id ∈ summaries.map ProjectSummary.id ↔
    ∃ project, getProject db id = .ok project ∧ ∀ b, base = some b → project.baseProjectId = some b
  nodup : (summaries.map ProjectSummary.id).Nodup
  ordered : summaries.Pairwise fun a b =>
    b.createdAt < a.createdAt ∨ a.createdAt = b.createdAt ∧ a.id.toNat < b.id.toNat
  /-- a summary is that of the project with its id -/
  agrees : ∀ summary ∈ summaries, ∃ project,
    getProject db summary.id = .ok project ∧ summary = project.summary

theorem getProject_eq_ok_iff {db : Db} {id : Uuid} {project : Project} :
    getProject db id = .ok project ↔
      ∃ row, db.projects id = some row ∧ project = toProject id row := by
  unfold getProject
  cases db.projects id with
  | none => simp
  | some row => simp [eq_comm]

theorem listed_ids (s : State μ) (base : Option Uuid) :
    ((s.listed base).map Project.summary).map ProjectSummary.id =
      (selectProjects s.backend.projectRows base).map Prod.fst := by
  rw [State.listed, List.map_map, List.map_map]
  rfl

theorem listsProjects_listed (hok : FamiliesOk s) (base : Option Uuid) :
    ListsProjects s.backend.db base ((s.listed base).map Project.summary) := by
  have hstored : ∀ id row, (id, row) ∈ selectProjects s.backend.projectRows base ↔
      s.backend.db.projects id = some row ∧ ∀ b, base = some b → row.baseProjectId = some b := by
    intro id row
    rw [mem_selectProjects, mem_projectRows_iff]
    exact and_congr_left fun _ => ⟨And.right, fun h => ⟨hok.minted id row h, h⟩⟩
  have hnodup := selectProjects_nodup (projectRows_nodup s.backend) base
  refine ⟨?_, ?_, ?_, ?_⟩
  · intro id
    rw [listed_ids, List.mem_map]
    constructor
    · rintro ⟨⟨id, row⟩, hmem, rfl⟩
      obtain ⟨hrow, hbase⟩ := (hstored id row).mp hmem
      exact ⟨toProject id row, getProject_eq_ok_iff.mpr ⟨row, hrow, rfl⟩, hbase⟩
    · rintro ⟨project, hproject, hbase⟩
      obtain ⟨row, hrow, rfl⟩ := getProject_eq_ok_iff.mp hproject
      exact ⟨(id, row), (hstored id row).mpr ⟨hrow, hbase⟩, rfl⟩
  · rw [listed_ids]
    exact hnodup
  · rw [State.listed, List.map_map, List.pairwise_map]
    -- ids are distinct, so the order is strict
    refine (selectProjects_ordered s.backend.projectRows base).imp₂ ?_ (List.pairwise_map.mp hnodup)
    intro q q' hle hne
    have hid : q.1.toNat ≠ q'.1.toNat := fun h => hne (BitVec.eq_of_toNat_eq h)
    rw [newestFirst_iff] at hle
    exact hle.imp_right (And.imp_right fun hle => Nat.lt_of_le_of_ne hle hid)
  · intro summary hmem
    rw [State.listed, List.map_map, List.mem_map] at hmem
    obtain ⟨⟨id, row⟩, hrow, rfl⟩ := hmem
    exact ⟨toProject id row, getProject_eq_ok_iff.mpr ⟨row, ((hstored id row).mp hrow).1, rfl⟩, rfl⟩

/-- **Reading the list page by page gives every project once, as it is**, newest first, in every
store that is reached and with every page size. -/
theorem list_agrees_with_projects (h₀ : s₀.Initial) (hrows : RowsInStep s₀)
    (h : Exec (system env) s₀ tr s) (base : Option Uuid) {limit : Nat} (hlimit : 1 ≤ limit) :
    ∃ summaries, ListsProjects s.backend.db base summaries ∧
      ∀ got, Paging.Reads (fun offset => listProjects s.backend.projectRows limit offset base)
        limit 0 got ↔ got = summaries := by
  refine ⟨_, listsProjects_listed (FamiliesOk.exec h₀ h) base, fun got => ?_⟩
  have hread := fun offset => listProjects_eq (RowsInStep.exec h₀ hrows h) limit offset base
  rw [Paging.reads_iff hlimit hread, List.drop_zero]

end

theorem State.empty_rowsInStep {μ : Type} : RowsInStep (State.empty : State μ) := by
  intro p row hrow
  simp [State.empty] at hrow

/-- Three projects of one family, of which one is saved under a new name. -/
def renamedFamily : List (Entry (State Int) Action) × State Int :=
  (system clockEnv).played State.empty (createFamily ++
    [.arrive 4 (.updateProject 2 none (.blank "D") .received), .request 4 {}, .request 4 {},
      .request 4 { now := 5 }, .request 4 {}]) (by decide)

theorem renamed_family_is_listed :
    (renamedFamily.2.backend.db.projects 2).map ProjectRow.name = some (some "D") ∧
      ∃ summaries, ListsProjects renamedFamily.2.backend.db none summaries ∧
        ∀ got, Paging.Reads
          (fun offset => listProjects renamedFamily.2.backend.projectRows 2 offset none) 2 0 got ↔
            got = summaries :=
  ⟨rfl, list_agrees_with_projects State.empty_initial State.empty_rowsInStep
    (Machine.played_exec _) none (by decide)⟩

end SpurApi
