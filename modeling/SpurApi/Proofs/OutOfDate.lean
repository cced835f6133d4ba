/-
When a run is out of date.

A run keeps the spec and the version of the project that its submission read, and
whether it is out of date is one comparison of two numbers.  That comparison is
`Revision.Doc.changed_le_iff` for the project as a document: what has to be shown is
that the run points into the project's history, at a version the project had, with
the spec it had then.  The read of a submission takes no lock, and its commit comes
any time later, so the pointer is an invariant of the rows that are stored and of
those that are about to be.
-/
import SpurApi.Proofs.NoLostUpdate
import SpurApi.Proofs.LifeCycle

namespace SpurApi

open Transition

section

variable {μ : Type} {env : Env μ} {s₀ s s' : State μ} {a : Action} {run p : Uuid}
  {tr : List (Entry (State μ) Action)} {row row' : SimulationRunRow}

/-! ### The spec a project had at a version -/

/-- In the history up to `s`, the project once had this spec at this version. -/
def HadSpec (tr : List (Entry (State μ) Action)) (s : State μ) (p : Uuid) (v : Int)
    (spec : Json.Object) : Prop :=
  ∃ row : ProjectRow, row.version = v ∧ row.spec = spec ∧
    ((∃ e ∈ tr, e.pre.projectRow p = some row) ∨ s.projectRow p = some row)

theorem HadSpec.snoc {v : Int} {spec : Json.Object} (h : HadSpec tr s p v spec) :
    HadSpec (tr ++ [⟨s, a, s'⟩]) s' p v spec := by
  obtain ⟨row, hv, hspec, ⟨e, he, hrow⟩ | hrow⟩ := h
  · exact ⟨row, hv, hspec, .inl ⟨e, by simp [he], hrow⟩⟩
  · exact ⟨row, hv, hspec, .inl ⟨⟨s, a, s'⟩, by simp, hrow⟩⟩

/-- It had it after some number of its saves. -/
theorem HadSpec.revision (h₀ : s₀.Initial) (h : Exec (system env) s₀ tr s) {v : Int}
    {spec : Json.Object} (had : HadSpec tr s p v spec) :
    ∃ row₀ k, firstRow p tr s = some row₀ ∧ k ≤ (savedSpecs p tr).length ∧
      v = (row₀.doc.after SameInputs ((savedSpecs p tr).take k)).version ∧
      spec = (row₀.doc.after SameInputs ((savedSpecs p tr).take k)).content := by
  obtain ⟨row, rfl, rfl, ⟨e, he, hrow⟩ | hrow⟩ := had
  · obtain ⟨tr₁, tr₂, rfl, hpre, hstep, hpost⟩ := h.of_mem he
    obtain ⟨row₀, hrow₀, hdoc⟩ := doc_of_row h₀ hpre hrow
    have htake : (savedSpecs p (tr₁ ++ e :: tr₂)).take (savedSpecs p tr₁).length =
        savedSpecs p tr₁ := by
      rw [savedSpecs_append, List.take_left]
    refine ⟨row₀, (savedSpecs p tr₁).length, firstRow_append hrow₀ (Exec.cons hstep hpost), ?_, ?_⟩
    · rw [savedSpecs_append, List.length_append]
      omega
    · rw [htake, ← hdoc]
      exact ⟨rfl, rfl⟩
  · obtain ⟨row₀, hrow₀, hdoc⟩ := doc_of_row h₀ h hrow
    refine ⟨row₀, _, hrow₀, Nat.le_refl _, ?_⟩
    rw [List.take_length, ← hdoc]
    exact ⟨rfl, rfl⟩

/-- A version stands for one spec. -/
theorem HadSpec.unique (h₀ : s₀.Initial) (h : Exec (system env) s₀ tr s) {v : Int}
    {spec spec' : Json.Object} (had : HadSpec tr s p v spec) (had' : HadSpec tr s p v spec') :
    spec' = spec := by
  obtain ⟨row₀, k, hrow₀, hk, hv, rfl⟩ := had.revision h₀ h
  obtain ⟨row₁, k', hrow₁, hk', hv', rfl⟩ := had'.revision h₀ h
  rw [hrow₀, Option.some.injEq] at hrow₁
  subst hrow₁
  rw [Revision.Doc.version_after_take hk] at hv
  rw [Revision.Doc.version_after_take hk'] at hv'
  have hkk : k = k' := by omega
  rw [hkk]

/-- The documents on both sides of a save. -/
theorem docs_of_save (h₀ : s₀.Initial) (h : Exec (system env) s₀ tr s) {i : Nat} {w : Save}
    (hw : (saves p tr)[i]? = some w) :
    ∃ row₀, firstRow p tr s = some row₀ ∧
      w.replaced.doc = row₀.doc.after SameInputs ((savedSpecs p tr).take i) ∧
      w.stored.doc = row₀.doc.after SameInputs ((savedSpecs p tr).take (i + 1)) := by
  obtain ⟨tr₁, e, tr₂, rfl, he, hi⟩ := exists_entry_of_getElem? hw
  obtain ⟨row₀, hrow₀, hreplaced, hstored⟩ := doc_of_entry h₀ h he
  have hlen : (savedSpecs p tr₁).length = i := (length_savedSpecs p tr₁).trans hi
  have hcut : savedSpecs p (tr₁ ++ e :: tr₂) =
      savedSpecs p tr₁ ++ w.stored.spec :: savedSpecs p tr₂ := by
    rw [savedSpecs_append, savedSpecs, savedSpecs, saves_cons, he]
    rfl
  refine ⟨row₀, hrow₀, ?_, ?_⟩
  · rw [hreplaced, hcut, ← hlen, List.take_left]
  · have htake : (savedSpecs p tr₁ ++ [w.stored.spec] ++ savedSpecs p tr₂).take (i + 1) =
        savedSpecs p tr₁ ++ [w.stored.spec] := List.take_left' (by simp [hlen])
    rw [List.append_assoc, List.singleton_append] at htake
    rw [hstored, hcut, htake]

/-! ### Runs point into the history of their project -/

/-- The row has the spec its project had at the version in it. -/
def IsSnapshot (tr : List (Entry (State μ) Action)) (s : State μ) (sub : Submission) : Prop :=
  ∃ spec v, sub.specSnapshot = some spec ∧ sub.projectVersion = some v ∧
    HadSpec tr s sub.projectId v spec

/-- Every run points into the history of its project, stored or about to be. -/
structure Snapshots (tr : List (Entry (State μ) Action)) (s : State μ) : Prop where
  stored : ∀ run row, (s.slice run).row = some row → IsSnapshot tr s row.submission
  pending : ∀ r project body rows,
    s.requests r = some (.submitRun project body (.inserting rows)) →
      ∀ sub ∈ rows, IsSnapshot tr s sub.row.submission

private theorem IsSnapshot.snoc {sub : Submission} (h : IsSnapshot tr s sub) :
    IsSnapshot (tr ++ [⟨s, a, s'⟩]) s' sub := by
  obtain ⟨spec, v, hspec, hv, had⟩ := h
  exact ⟨spec, v, hspec, hv, had.snoc⟩

theorem snapshots (h₀ : s₀.Initial) (h : Exec (system env) s₀ tr s) : Snapshots tr s := by
  induction h with
  | nil =>
      refine ⟨fun run row hrow => ?_, fun r project body rows hreq => ?_⟩
      · exact (h₀.not_row hrow).elim
      · simp [h₀.requests] at hreq
  | @snoc tr s s' a h hstep ih =>
      refine ⟨fun run row hrow => ?_, fun r project body rows hreq sub hsub => ?_⟩
      · rcases submission_step (RunsOk.exec h₀ h) hstep hrow with
          ⟨r, project, body, rows, sub, hreq, hsub, -, rfl⟩ | ⟨old, hold, hsame⟩
        · exact (ih.pending r project body rows hreq sub hsub).snoc
        · rw [hsame]
          exact (ih.stored run old hold).snoc
      · rcases pendingRows_step hstep hreq with hold | ⟨read, hread, hnew⟩
        · exact (ih.pending r project body rows hold sub hsub).snoc
        · obtain ⟨_, _, _, _, hrow⟩ := hnew sub hsub
          rw [hrow]
          exact ⟨read.spec, read.version, rfl, rfl, read, rfl, rfl, .inr hread⟩

/-! ### The test -/

/-- What is promised of a run and its project in a history: the run has the spec its project had
at its version, and it is out of date exactly when a save after that version changed what a
simulation reads. -/
structure TellsOutOfDate (tr : List (Entry (State μ) Action)) (s : State μ)
    (row : SimulationRunRow) (spec : Json.Object) (v : Int) : Prop where
  snapshot : row.specSnapshot = some spec
  version : row.projectVersion = some v
  had : HadSpec tr s row.projectId v spec
  unique : ∀ spec', HadSpec tr s row.projectId v spec' → spec' = spec
  test : ∀ project, s.projectRow row.projectId = some project →
    (project.inputsVersion ≤ v ↔ ∀ w ∈ saves row.projectId tr, v < w.stored.version →
      SameInputs w.replaced.spec w.stored.spec)
  current : ∀ project, s.projectRow row.projectId = some project →
    project.inputsVersion ≤ v → SameInputs spec project.spec

private theorem test_of_exec (h₀ : s₀.Initial) (h : Exec (system env) s₀ tr s) {v : Int}
    {spec : Json.Object} {project : ProjectRow} (had : HadSpec tr s p v spec)
    (hproject : s.projectRow p = some project) :
    (project.inputsVersion ≤ v ↔ ∀ w ∈ saves p tr, v < w.stored.version →
      SameInputs w.replaced.spec w.stored.spec) ∧
      (project.inputsVersion ≤ v → SameInputs spec project.spec) := by
  obtain ⟨row₀, k, hrow₀, hk, hv, hspec⟩ := had.revision h₀ h
  have hlineage := lineage h₀ h p
  have hdoc := hlineage.doc row₀ project hrow₀ hproject
  have hstart : row₀.doc.changed ≤ row₀.doc.version := Int.le_of_eq (hlineage.first row₀ hrow₀).1
  have hchanged : project.inputsVersion = (row₀.doc.after SameInputs (savedSpecs p tr)).changed :=
    congrArg Revision.Doc.changed hdoc
  have hcontent : project.spec = (row₀.doc.after SameInputs (savedSpecs p tr)).content :=
    congrArg Revision.Doc.content hdoc
  have hvk : v = row₀.doc.version + k := hv.trans (Revision.Doc.version_after_take hk)
  constructor
  · rw [hchanged, hv, Revision.Doc.changed_le_iff hstart hk, ← hv]
    constructor
    · intro hall w hw hlt
      obtain ⟨i, hi⟩ := List.mem_iff_getElem?.mp hw
      obtain ⟨row₁, hrow₁, hreplaced, hstored⟩ := docs_of_save h₀ h hi
      rw [hrow₀, Option.some.injEq] at hrow₁
      subst hrow₁
      have hlen : i < (savedSpecs p tr).length := by
        rw [length_savedSpecs]
        exact (List.getElem?_eq_some_iff.mp hi).1
      have hversion : w.stored.version = row₀.doc.version + (i + 1 : Nat) :=
        (congrArg Revision.Doc.version hstored).trans (Revision.Doc.version_after_take hlen)
      have hsame := hall i (by omega) hlen
      rw [← hreplaced, ← hstored] at hsame
      exact hsame
    · intro hall i hki hi
      rw [length_savedSpecs] at hi
      have hw := List.getElem?_eq_getElem hi
      obtain ⟨row₁, hrow₁, hreplaced, hstored⟩ := docs_of_save h₀ h hw
      rw [hrow₀, Option.some.injEq] at hrow₁
      subst hrow₁
      have hversion : (saves p tr)[i].stored.version = row₀.doc.version + (i + 1 : Nat) :=
        (congrArg Revision.Doc.version hstored).trans
          (Revision.Doc.version_after_take (by rw [length_savedSpecs]; exact hi))
      rw [← hreplaced, ← hstored]
      exact hall _ (List.getElem_mem hi) (by omega)
  · intro hle
    rw [hchanged, hv] at hle
    rw [hspec, hcontent]
    exact Revision.Doc.same_of_changed_le SameInputs.refl (fun _ _ _ => SameInputs.trans) hstart hk
      hle

/-- **`project_version < inputs_version` is exactly the out-of-date test.** -/
theorem out_of_date_iff (h₀ : s₀.Initial) (h : Exec (system env) s₀ tr s)
    (hrow : (s.slice run).row = some row) : ∃ spec v, TellsOutOfDate tr s row spec v := by
  obtain ⟨spec, v, hspec, hv, had⟩ := (snapshots h₀ h).stored run row hrow
  exact ⟨spec, v, hspec, hv, had, fun _ had' => had.unique h₀ h had',
    fun _ hproject => (test_of_exec h₀ h had hproject).1,
    fun _ hproject => (test_of_exec h₀ h had hproject).2⟩

end

/-- A project is renamed between the read of a submission and its commit. -/
def renamedMeanwhile : List (Entry (State Int) Action) × State Int :=
  (system clockEnv).played State.empty
    [.arrive 0 (.createProject (.blank "A") none none .received), .request 0 {},
      .request 0 { ids := [1] }, .arrive 1 (.submitRun 1 (.single none none) .received),
      .request 1 { ids := [2, 3] },
      .arrive 2 (.updateProject 1 none (.blank "B") .received), .request 2 {}, .request 2 {},
      .request 2 {}, .request 1 {}] (by decide)

/-- Its run is of version 1 and up to date at version 2. -/
theorem renamed_meanwhile_is_current : ∃ row spec v,
    (renamedMeanwhile.2.slice 3).row = some row ∧ row.projectVersion = some 1 ∧
      (renamedMeanwhile.2.projectRow 1).map (fun q => (q.version, q.inputsVersion)) =
        some (2, 1) ∧
      TellsOutOfDate renamedMeanwhile.1 renamedMeanwhile.2 row spec v := by
  obtain ⟨row, hrow, hversion⟩ : ∃ row, (renamedMeanwhile.2.slice 3).row = some row ∧
      row.projectVersion = some 1 := ⟨_, rfl, rfl⟩
  obtain ⟨spec, v, h⟩ := out_of_date_iff State.empty_initial (Machine.played_exec _) hrow
  exact ⟨row, spec, v, hrow, hversion, rfl, h⟩

end SpurApi
