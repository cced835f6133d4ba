/-
Runs that were deleted.

A run goes by `delete_run` or with its project, and its events go with it.  Nobody holds its
id to insert it again, and the worker's commits bring no row back, so what is gone stays
gone: a run that is there has been there all the time since it was inserted.
-/
import SpurApi.Proofs.LifeCycle

namespace SpurApi

open Transition

section

variable {μ : Type} {env : Env μ} {s₀ m s s' : State μ} {a : Action} {run : Uuid}
  {tr : List (Entry (State μ) Action)} {row row' : SimulationRunRow}

/-- By this step the run is deleted: `delete_run` commits, or `delete_project` of its
project. -/
inductive DeleteCommits (s : State μ) (a : Action) (run : Uuid) : Prop
  | run {r : RequestId} {io : Io} (ha : a = .request r io)
      (hreq : s.requests r = some (.deleteRun run .deleting))
      (hrow : (s.slice run).row.isSome = true)
  | project {r : RequestId} {io : Io} {project : Uuid} (ha : a = .request r io)
      (hreq : s.requests r = some (.deleteProject project .deleting))
      (hof : s.backend.db.runOf project run = true)

/-- Nothing is stored of the run, and nothing will be. -/
structure Gone (s : State μ) (run : Uuid) : Prop where
  notPending : NotPending s run
  blank : s.slice run = .blank

theorem Gone.row_none (h : Gone s run) : (s.slice run).row = none := by
  rw [h.blank]
  rfl

theorem RunSlice.eq_blank {d : RunSlice} (hrow : d.row = none) (hevents : d.events = []) :
    d = .blank := by
  cases d
  simp only at hrow hevents
  rw [hrow, hevents]
  rfl

/-- A step of the worker of a run of which nothing is stored stores nothing. -/
theorem WorkerMove.blank {project : Option ProjectRow} {io : Io} {p p' : WorkerPoint μ}
    {d : RunSlice} (hmove : WorkerMove env project io .blank p p' d) : d = .blank :=
  hmove.row_none

theorem Gone.step (h : Gone s run) (hapart : IdsApart s) (hstep : s.step env a = some s') :
    Gone s' run where
  notPending := h.notPending.step hstep
  blank := by
    cases step_run hapart hstep run with
    | client _ _ ht =>
        rw [h.blank] at ht
        exact ht.blank
    | inserted _ hreq hsub hid =>
        exact absurd (List.mem_map.mpr ⟨_, hsub, hid⟩) (h.notPending.2 _ _ hreq)
    | delivered _ _ _ _ hslice => rw [hslice, h.blank]
    | worked _ _ _ hpstep =>
        have hmove := workerMove_of_step hpstep
        rw [h.blank] at hmove
        exact hmove.blank

/-- **What is gone stays gone.** -/
theorem Gone.exec (hm : IdsApart m) (hgone : Gone m run) (h : Exec (system env) m tr s) :
    Gone s run := by
  have hboth : IdsApart s ∧ Gone s run := h.invariant (I := fun s => IdsApart s ∧ Gone s run)
    ⟨hm, hgone⟩ fun _ _ _ hI hstep => ⟨hI.1.step hstep, hI.2.step hI.1 hstep⟩
  exact hboth.2

theorem DeleteCommits.exists_row (h : DeleteCommits s a run) :
    ∃ row, (s.slice run).row = some row := by
  cases h with
  | run _ _ hrow => exact Option.isSome_iff_exists.mp hrow
  | @project r io project _ _ hof =>
      cases hrow : s.backend.db.runs run with
      | some row => exact ⟨row, hrow⟩
      | none => simp [Db.runOf, hrow] at hof

/-- The step of a request. -/
theorem step_of_request {r : RequestId} {io : Io} {q : Request}
    (hstep : s.step env (.request r io) = some s') (hreq : s.requests r = some q) :
    ∃ q', q.step env r io s.backend = some (q', s'.backend) ∧ s'.requests r = some q' := by
  cases service_step hstep with
  | request hreq' hqstep =>
      rw [hreq, Option.some.injEq] at hreq'
      subst hreq'
      exact ⟨_, hqstep, State.setRequest_requests_self ..⟩

/-- What a deletion that commits leaves of the store: it removes the run alone, or with every run
of its project. -/
theorem DeleteCommits.db (h : DeleteCommits s a run) (hstep : s.step env a = some s') :
    s'.backend.db = s.backend.db.deleteRun run ∨
      ∃ project, s.backend.db.runOf project run = true ∧
        (∀ other, s.backend.db.runOf project other = true → DeleteCommits s a other) ∧
        s'.backend.db = s.backend.db.deleteProject project := by
  cases h with
  | run ha hreq =>
      subst ha
      obtain ⟨q', hqstep, -⟩ := step_of_request hstep hreq
      simp only [Request.step, DeleteRun.step, Option.map_some, Option.some.injEq,
        Prod.mk.injEq] at hqstep
      exact .inl (hqstep.2 ▸ rfl)
  | @project r io project ha hreq hof =>
      refine .inr ⟨project, hof, fun other hother => .project ha hreq hother, ?_⟩
      subst ha
      obtain ⟨q', hqstep, -⟩ := step_of_request hstep hreq
      simp only [Request.step, DeleteProject.step] at hqstep
      split at hqstep
      · simp at hqstep
      · simp only [Option.map_some, Option.some.injEq, Prod.mk.injEq] at hqstep
        exact hqstep.2 ▸ rfl

/-- **A deletion that commits leaves nothing of the run.** -/
theorem DeleteCommits.gone (h : DeleteCommits s a run) (hapart : IdsApart s)
    (hstep : s.step env a = some s') : Gone s' run where
  notPending := by
    obtain ⟨row, hrow⟩ := h.exists_row
    exact (notPending_of_row hapart hrow).step hstep
  blank := by
    rcases h.db hstep with hdb | ⟨project, hof, -, hdb⟩
    · rw [State.slice, hdb]
      simp [Db.deleteRun, Db.setRun, Db.setEvents, RunSlice.blank]
    · rw [State.slice, hdb]
      simp [Db.deleteProject, hof, RunSlice.blank]

/-- A step brings no run back, unless it inserts it. -/
theorem row_of_step (hapart : RunsApart s) (hnot : NotPending s run)
    (hstep : s.step env a = some s') (hrow' : (s'.slice run).row = some row') :
    ∃ row, (s.slice run).row = some row := by
  cases hapart.changed hstep hrow' with
  | inserted _ hreq hsub hid =>
      exact absurd (List.mem_map.mpr ⟨_, hsub, hid⟩) (hnot.2 _ _ hreq)
  | edited _ hrow | worked _ hrow => exact ⟨_, hrow⟩
  | delivered _ _ _ hslice => exact ⟨row', hslice ▸ hrow'⟩

/-- A run that is there later, and that nobody was about to insert, was there before. -/
theorem row_of_later (hm : RunsApart m) (hnot : NotPending m run) (h : Exec (system env) m tr s)
    (hrow : (s.slice run).row = some row) : ∃ row₀, (m.slice run).row = some row₀ := by
  induction h generalizing row with
  | nil => exact ⟨row, hrow⟩
  | snoc h hstep ih =>
      obtain ⟨old, hold⟩ := row_of_step (hm.later h) (hnot.exec h) hstep hrow
      exact ih hold

end

end SpurApi
