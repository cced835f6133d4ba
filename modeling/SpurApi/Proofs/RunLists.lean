/-
The list of runs, and the runs of a batch in it.

`list_runs` asks for no order, so what is proved is proved of the rows in any order.  A batch
is found by its id: the rows of the submission that drew the id have it for good, and no other
submission draws it again.
-/
import SpurApi.Proofs.Batches
import SpurApi.Proofs.ClientWrites

namespace SpurApi

open Transition

/-- These are the rows of `simulation_runs`, in some order. -/
structure Db.Enumerates (db : Db) (rows : List (Uuid × SimulationRunRow)) : Prop where
  nodup : (rows.map Prod.fst).Nodup
  mem : ∀ run row, (run, row) ∈ rows ↔ db.runs run = some row

theorem getRun_eq_ok_iff {id : Uuid} {row : Option SimulationRunRow} {run : Run} :
    getRun id row = .ok run ↔ ∃ stored, row = some stored ∧ run = toRun id stored := by
  cases row with
  | none => simp [getRun]
  | some stored => simp [getRun, eq_comm]

section

variable {db : Db} {rows : List (Uuid × SimulationRunRow)} {filter : RunFilter}

theorem listRuns_ids (rows : List (Uuid × SimulationRunRow)) (filter : RunFilter) :
    (listRuns rows filter).map Run.id =
      (rows.filter fun r => filter.accepts r.2).map Prod.fst := by
  rw [listRuns, List.map_map]
  rfl

/-- No run is listed twice. -/
theorem Db.Enumerates.listed_nodup (h : db.Enumerates rows) :
    ((listRuns rows filter).map Run.id).Nodup := by
  rw [listRuns_ids]
  exact h.nodup.sublist (List.filter_sublist.map _)

/-- What is listed are the stored rows that pass. -/
theorem Db.Enumerates.mem_listRuns (h : db.Enumerates rows) {run : Run} :
    run ∈ listRuns rows filter ↔
      ∃ row, db.runs run.id = some row ∧ filter.accepts row = true ∧ run = toRun run.id row := by
  simp only [listRuns, List.mem_map, List.mem_filter, Prod.exists]
  constructor
  · rintro ⟨id, row, ⟨hmem, hpass⟩, rfl⟩
    exact ⟨row, (h.mem id row).mp hmem, hpass, rfl⟩
  · rintro ⟨row, hrow, hpass, hrun⟩
    exact ⟨run.id, row, ⟨(h.mem run.id row).mpr hrow, hpass⟩, hrun.symm⟩

theorem accepts_batch_iff {batch : Uuid} {row : SimulationRunRow} :
    RunFilter.accepts { batchId := some batch } row = true ↔ row.batchId = some batch := by
  simp [RunFilter.accepts]

end

section

variable {μ : Type} {env : Env μ} {s₀ s : State μ} {r : RequestId} {project : Uuid}
  {body : RunCreate} {w : Build} {e : Entry (State μ) Action}
  {tr₁ tr₂ : List (Entry (State μ) Action)} {stored : List (Uuid × SimulationRunRow)}

/-- The rows that a history has brought about can be listed. -/
theorem exists_enumerates (hapart : IdsApart s) : ∃ rows, s.backend.db.Enumerates rows := by
  refine ⟨s.backend.minted.dedup.filterMap fun id =>
    (s.backend.db.runs id).map fun row => (id, row), ?_, fun run row => ?_⟩
  · have hsub : (List.map Prod.fst (s.backend.minted.dedup.filterMap fun id =>
        (s.backend.db.runs id).map fun row => (id, row))).Sublist s.backend.minted.dedup := by
      induction s.backend.minted.dedup with
      | nil => exact List.nil_sublist _
      | cons id ids ih =>
          cases hrow : s.backend.db.runs id with
          | none => simpa [hrow] using ih.cons id
          | some row => simpa [hrow] using ih
    exact hsub.nodup s.backend.minted.nodup_dedup
  · simp only [List.mem_filterMap, List.mem_dedup, Option.map_eq_some_iff, Prod.mk.injEq]
    constructor
    · rintro ⟨id, hid, row', hrow, rfl, rfl⟩
      exact hrow
    · intro hrow
      refine ⟨run, hapart.minted run (.inl fun hblank => ?_), row, hrow, rfl, rfl⟩
      have hnone : s.backend.db.runs run = none := congrArg RunSlice.row hblank
      rw [hrow] at hnone
      cases hnone

/-- What the list of a batch is, in a history that goes on with `tr₂` after the batch was
committed. -/
structure ListsBatch (tr₂ : List (Entry (State μ) Action)) (s : State μ) (project : Uuid)
    (body : RunCreate) (w : Build) (runs : List Run) : Prop where
  nodup : (runs.map Run.id).Nodup
  /-- each run is listed as it is found by its id -/
  found : ∀ run ∈ runs, getRun run.id (s.backend.db.runs run.id) = .ok run
  /-- it is a run of this submission, with the seed that its place in the batch has -/
  member : ∀ run ∈ runs, ∃ i : Nat, w.ids[i]? = some run.id ∧
    run.seed = some (w.first body + i) ∧ run.projectId = project ∧
      run.projectVersion = some w.read.version ∧ run.requestedUntil = body.untilTime ∧
        run.untilTarget = some w.target ∧ run.batchId = some w.batch
  /-- and all of them are listed but those that were deleted -/
  whole : ∀ id ∈ w.ids,
    id ∈ runs.map Run.id ↔ ¬ ∃ e ∈ tr₂, DeleteCommits e.pre e.act id

theorem IsBatch.listed (h₀ : s₀.Initial) (h : Exec (system env) s₀ (tr₁ ++ e :: tr₂) s)
    (hbatch : IsBatch env tr₁ e s r project body w) (hseveral : 1 < body.seeds)
    (hstored : s.backend.db.Enumerates stored) :
    ListsBatch tr₂ s project body w (listRuns stored { batchId := some w.batch }) := by
  obtain ⟨hpre, hstep, hrest⟩ := h.split_at
  have hok : RunsOk env.spur e.post := (RunsOk.exec h₀ hpre).step hstep
  have hbatchId : w.batchId body = some w.batch := if_pos hseveral
  -- a run of the batch keeps its submission as long as it is stored
  have hkept : ∀ (i : Nat) id row, w.ids[i]? = some id → s.backend.db.runs id = some row →
      row.submission = (w.row project body i).submission := by
    intro i id row hid hrow
    have hinserted : (e.post.slice id).row = some (w.row project body i) := by
      rw [(hbatch.inserted i id hid).2]
    exact (submission_run hok hrest hinserted).2 row hrow
  refine ⟨hstored.listed_nodup, fun run hrun => ?_, fun run hrun => ?_, fun id hid => ?_⟩
  · obtain ⟨row, hrow, -, heq⟩ := hstored.mem_listRuns.mp hrun
    exact getRun_eq_ok_iff.mpr ⟨row, hrow, heq⟩
  · obtain ⟨row, hrow, hpass, heq⟩ := hstored.mem_listRuns.mp hrun
    have hmem : run.id ∈ w.ids :=
      hbatch.alone run.id row w.batch hrow (accepts_batch_iff.mp hpass) hbatchId
    obtain ⟨i, hi⟩ := List.getElem?_of_mem hmem
    have hsub := hkept i run.id row hi hrow
    exact ⟨i, hi, (congrArg Run.seed heq).trans (congrArg Submission.seed hsub),
      (congrArg Run.projectId heq).trans (congrArg Submission.projectId hsub),
      (congrArg Run.projectVersion heq).trans (congrArg Submission.projectVersion hsub),
      (congrArg Run.requestedUntil heq).trans (congrArg Submission.requestedUntil hsub),
      (congrArg Run.untilTarget heq).trans (congrArg Submission.untilTarget hsub),
      (congrArg Run.batchId heq).trans (accepts_batch_iff.mp hpass)⟩
  · obtain ⟨i, hi⟩ := List.getElem?_of_mem hid
    constructor
    · rintro hlisted ⟨e', he', hdeleted⟩
      obtain ⟨run, hrun, rfl⟩ := List.mem_map.mp hlisted
      obtain ⟨row, hrow, -⟩ := hstored.mem_listRuns.mp hrun
      obtain ⟨tr₃, tr₄, -, hto, hstep', hfrom⟩ := hrest.of_mem he'
      have hapart : IdsApart e'.pre :=
        hto.invariant hok.apart fun _ _ _ hI hstep => hI.step hstep
      have hgone : Gone s run.id :=
        Gone.exec (hapart.step hstep') (hdeleted.gone hapart hstep') hfrom
      have hnone : s.backend.db.runs run.id = none := hgone.row_none
      rw [hrow] at hnone
      cases hnone
    · intro hdeleted
      cases hrow : s.backend.db.runs id with
      | none =>
          have hinserted : (e.post.slice id).row = some (w.row project body i) := by
            rw [(hbatch.inserted i id hi).2]
          exact absurd (exists_deleteCommits hok.apart hrest hinserted hrow) hdeleted
      | some row =>
          have hpass : row.batchId = some w.batch :=
            (congrArg Submission.batchId (hkept i id row hi hrow)).trans hbatchId
          exact List.mem_map.mpr ⟨toRun id row, hstored.mem_listRuns.mpr
            ⟨row, hrow, accepts_batch_iff.mpr hpass, rfl⟩, rfl⟩

/-- **A batch is found by its id**: at every later time the list is of the runs that were submitted
together, each with its seed, without those that have been deleted. -/
theorem batch_is_listed (h₀ : s₀.Initial) (h : Exec (system env) s₀ (tr₁ ++ e :: tr₂) s)
    {io : Io} (ha : e.act = .request r io) {rows : List Submitted}
    (hreq : e.pre.requests r = some (.submitRun project body (.inserting rows)))
    (hproject : (e.pre.backend.db.projects project).isSome = true)
    (hholds : (rows.all fun sub => sub.row.holds) = true) (hseveral : 1 < body.seeds)
    (hstored : s.backend.db.Enumerates stored) :
    ∃ w : Build, rows = w.rows project body ∧
      ListsBatch tr₂ s project body w (listRuns stored { batchId := some w.batch }) := by
  obtain ⟨e₀, he₀, w, hbuilt, rfl⟩ := built_of_inserting h₀ h.split_at.1 hreq
  rw [hbuilt.valid.holds_iff] at hholds
  have hbatch : IsBatch env tr₁ e s r project body w :=
    hbuilt.isBatch h₀ h ha he₀ hreq hproject hholds
  exact ⟨w, rfl, hbatch.listed h₀ h hseveral hstored⟩

end

/-- A pair is submitted, and its second run is deleted. -/
def halfDeleted : List (Entry (State Int) Action) × State Int :=
  (system clockEnv).played State.empty (submitPair { jobId := "4" } ++ [.request 1 {},
    .request 1 {}, .arrive 2 (.deleteRun 4 .received), .request 2 {}, .request 2 {}]) (by decide)

theorem half_of_a_batch_is_listed : ∃ stored, halfDeleted.2.backend.db.Enumerates stored ∧
    ∃ w : Build, w.ids = [3, 4] ∧ ListsBatch (halfDeleted.1.drop 6) halfDeleted.2 1
      (.pair (some 2) (some 1)) w (listRuns stored { batchId := some w.batch }) := by
  have hlt : 5 < halfDeleted.1.length := by decide
  have hexec : Exec (system clockEnv) State.empty
      (halfDeleted.1.take 5 ++ halfDeleted.1[5] :: halfDeleted.1.drop 6)
      halfDeleted.2 := by
    rw [← List.drop_eq_getElem_cons, List.take_append_drop]
    exact Machine.played_exec _
  obtain ⟨stored, hstored⟩ := exists_enumerates (IdsApart.exec State.empty_initial hexec)
  have hact : halfDeleted.1[5].act = .request 1 {} := rfl
  obtain ⟨w, hrows, hlists⟩ :=
    batch_is_listed State.empty_initial hexec hact rfl rfl rfl (by decide) hstored
  refine ⟨stored, hstored, w, ?_, hlists⟩
  rw [← Build.rows_ids w 1 (.pair (some 2) (some 1)), ← hrows]
  rfl

end SpurApi
