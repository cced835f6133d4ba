/-
The ids of runs that are being submitted.

A submission draws the ids of its runs before it inserts their rows.  Until then
nobody else knows them: nothing is stored under them, no worker and no job has
them, and no other request holds them.  So an insert never meets a run that is
already there.
-/
import SpurApi.Proofs.ProjectSteps
import SpurApi.Proofs.RunRows

namespace SpurApi

open Transition

/-- The ids of the runs of a submission, from the time they are drawn. -/
def SubmitRun.ids : SubmitRun → List Uuid
  | .inserting rows => rows.map Submitted.id
  | .refreshing done next todo => (done ++ next :: todo).map Submitted.id
  | .enqueueing done next todo => (done ++ next :: todo).map Submitted.id
  | .recording rows => rows.map Submitted.id
  | _ => []

/-- The rows that are drawn and not inserted. -/
def SubmitRun.pendingRows : SubmitRun → List Submitted
  | .inserting rows => rows
  | _ => []

def Request.ids : Request → List Uuid
  | .submitRun _ _ q => q.ids
  | _ => []

def Request.pendingRows : Request → List Submitted
  | .submitRun _ _ q => q.pendingRows
  | _ => []

/-- The ids of the runs that are drawn and not inserted. -/
def Request.pending (q : Request) : List Uuid := q.pendingRows.map Submitted.id

theorem Request.pending_subset (q : Request) : q.pending ⊆ q.ids := by
  intro id hid
  cases q with
  | submitRun project body point =>
      cases point with
      | inserting rows => exact hid
      | _ => simp [pending, pendingRows, SubmitRun.pendingRows] at hid
  | _ => simp [pending, pendingRows] at hid

@[simp] theorem SubmitRun.loop_ids (done todo : List Submitted) :
    (SubmitRun.loop done todo).ids = (done ++ todo).map Submitted.id := by
  cases todo with
  | nil => simp [loop, ids]
  | cons next todo => rfl

@[simp] theorem SubmitRun.loop_pendingRows (done todo : List Submitted) :
    (SubmitRun.loop done todo).pendingRows = [] := by
  cases todo <;> rfl

@[simp] theorem runRows_ids (id : Uuid) (project : ProjectRow) (body : RunCreate)
    (untilTarget : Int) (batchId : Option Uuid) (ids : List Uuid) :
    ∀ seed, (runRows id project body untilTarget batchId seed ids).map Submitted.id = ids := by
  induction ids with
  | nil => exact fun _ => rfl
  | cons run ids ih =>
      intro seed
      rw [runRows, List.map_cons, ih]

/-! ### What a request does to ids -/

/-- What one step of a request does to the ids it holds, and to what is stored of runs. -/
structure RequestEffect (b b' : Backend) (q q' : Request) : Prop where
  minted : b.minted ⊆ b'.minted
  slices : ∀ run, b.slice run = .blank → run ∉ q.pending → b'.slice run = .blank
  jobs : b'.jobs = b.jobs ∨
    ∃ job, b'.jobs = b.jobs ++ [job] ∧ job.run ∈ q.ids ∧ q.pending = []
  ids : (q'.pending = [] ∧ (q'.ids = q.ids ∨ q'.ids = [])) ∨
    (q.pending = [] ∧ b'.jobs = b.jobs ∧ q'.ids.Nodup ∧
      ∀ id ∈ q'.ids, id ∉ b.minted ∧ id ∈ b'.minted)

theorem RequestEffect.mem_jobs {b b' : Backend} {q q' : Request} (h : RequestEffect b b' q q')
    {j : Job} (hj : j ∈ b'.jobs) : j ∈ b.jobs ∨ j.run ∈ q.ids := by
  rcases h.jobs with hsame | ⟨job, hadded, hid, -⟩
  · exact .inl (hsame ▸ hj)
  · rw [hadded, List.mem_append, List.mem_singleton] at hj
    rcases hj with hj | rfl
    · exact .inl hj
    · exact .inr hid

/-- The effect of a step that enqueues nothing and holds no ids before or after. -/
private theorem requestEffect_of_touch {b b' : Backend} {q q' : Request}
    (cancels : Uuid → Prop) (hminted : b.minted ⊆ b'.minted) (hjobs : b'.jobs = b.jobs)
    (htouch : ∀ run, RunTouch (cancels run) (b.slice run) (b'.slice run))
    (hids : q'.pending = [] ∧ (q'.ids = q.ids ∨ q'.ids = [])) : RequestEffect b b' q q' where
  minted := hminted
  slices run hblank _ := (hblank ▸ htouch run).blank
  jobs := .inl hjobs
  ids := .inl hids

theorem requestEffect_of_eq {b b' : Backend} {q q' : Request} (h : b' = b)
    (hids : q'.pending = [] ∧ (q'.ids = q.ids ∨ q'.ids = [])) : RequestEffect b b' q q' :=
  requestEffect_of_touch (fun _ => False) (h ▸ fun _ h => h) (h ▸ rfl)
    (fun _ => h ▸ .same _) hids

theorem insertRuns_jobs (rows : List Submitted) :
    ∀ b : Backend, (b.insertRuns rows).jobs = b.jobs := by
  induction rows with
  | nil => exact fun _ => rfl
  | cons s rest ih => exact fun b => ih (b.setRun s.id (some s.row))

theorem commitJobIds_jobs {rows : List Submitted} :
    ∀ {b b' : Backend}, b.commitJobIds rows = .ok b' → b'.jobs = b.jobs := by
  induction rows with
  | nil =>
      intro b b' h
      simp only [Backend.commitJobIds, Except.ok.injEq] at h
      rw [h]
  | cons s rest ih =>
      intro b b' h
      rw [Backend.commitJobIds] at h
      split at h
      · simp at h
      · have hrest := ih h
        exact hrest

private theorem submitMove_effect {μ : Type} {spur : Spur μ} {settings : Settings} {id : Uuid}
    {body : RunCreate} {io : Io} {b b' : Backend} {q q' : SubmitRun}
    (h : SubmitMove spur settings id body io b q q' b') :
    RequestEffect b b' (.submitRun id body q) (.submitRun id body q') := by
  cases h with
  | missing | invalid | noTarget | unstorable | insertRefused | flushRaised | refreshRaised |
    enqueueRaised | commitRaised | reloadFailed | reloaded =>
      exact requestEffect_of_eq rfl ⟨rfl, .inr rfl⟩
  | refreshed => exact requestEffect_of_eq rfl ⟨rfl, .inl (by simp [Request.ids, SubmitRun.ids])⟩
  | built _ _ hfresh =>
      have hids := fun untilTarget batchId seed project ids =>
        runRows_ids id project body untilTarget batchId ids seed
      simp only [Backend.fresh, Bool.and_eq_true, decide_eq_true_eq, List.nodup_cons,
        List.all_cons, List.all_eq_true, Bool.not_eq_true', List.contains_eq_mem,
        decide_eq_false_iff_not] at hfresh
      refine ⟨(ProjectsKept.mint b _).minted, fun _ hblank _ => hblank, .inl rfl,
        .inr ⟨rfl, rfl, ?_, ?_⟩⟩
      · simpa [Request.ids, SubmitRun.ids] using hfresh.1.2
      · intro id' hid'
        simp only [Request.ids, SubmitRun.ids, runRows_ids] at hid'
        exact ⟨hfresh.2.2 id' hid', by simp [Backend.mint, hid']⟩
  | @inserted rows =>
      refine ⟨(ProjectsKept.insertRuns rows b).minted, fun run hblank hrun => ?_,
        .inl (insertRuns_jobs rows b), .inl ⟨?_, .inl ?_⟩⟩
      · exact (insertRuns_of_notMem hrun).trans hblank
      · simp [Request.pending, Request.pendingRows]
      · exact SubmitRun.loop_ids [] rows
  | @enqueued done todo next =>
      refine ⟨fun _ h => h, fun _ hblank _ => hblank, .inr ⟨_, rfl, ?_, rfl⟩, .inl ⟨?_, .inl ?_⟩⟩
      · simp [Request.ids, SubmitRun.ids]
      · simp [Request.pending, Request.pendingRows]
      · refine (SubmitRun.loop_ids _ todo).trans ?_
        simp [Request.ids, SubmitRun.ids]
  | recorded hcommit =>
      exact requestEffect_of_touch (fun _ => False)
        (ProjectsKept.commitJobIds hcommit).minted (commitJobIds_jobs hcommit)
        (fun _ => commitJobIds_touch hcommit) ⟨rfl, .inr rfl⟩

theorem PutMove.jobs {r : RequestId} {id : Uuid} {ifMatch : Option HeaderValue}
    {body : ProjectSpec} {io : Io} {b b' : Backend} {q q' : UpdateProject}
    (h : PutMove r id ifMatch body io b q q' b') : b'.jobs = b.jobs := by
  cases h <;> rfl

theorem CreateMove.jobs {body : ProjectSpec} {owner : Option String} {base : Option Uuid}
    {io : Io} {b b' : Backend} {q q' : CreateProject}
    (h : CreateMove body owner base io b q q' b') : b'.jobs = b.jobs := by
  cases h <;> rfl

theorem DeleteProject.step_jobs {id : Uuid} {b b' : Backend} {q q' : DeleteProject}
    (h : q.step id b = some (q', b')) : b'.jobs = b.jobs := by
  cases q <;> simp only [DeleteProject.step] at h
  all_goals repeat' split at h
  all_goals cases h <;> rfl

theorem EditMove.jobs {id : Uuid} {edit : RunEdit} {b b' : Backend} {q q' : EditRun}
    (h : EditMove id edit b q q' b') : b'.jobs = b.jobs := by
  cases h <;> rfl

theorem DeleteRun.step_jobs {id : Uuid} {b b' : Backend} {q q' : DeleteRun}
    (h : q.step id b = some (q', b')) : b'.jobs = b.jobs := by
  cases q <;> simp only [DeleteRun.step] at h
  all_goals repeat' split at h
  all_goals cases h <;> rfl

/-- **What one step of a request does to ids.** -/
theorem Request.step_effect {μ : Type} {env : Env μ} {r : RequestId} {io : Io} {b b' : Backend}
    {q q' : Request} (h : q.step env r io b = some (q', b')) : RequestEffect b b' q q' := by
  cases q with
  | updateProject id ifMatch body point =>
      simp only [Request.step, Option.map_eq_some_iff, Prod.exists, Prod.mk.injEq] at h
      obtain ⟨_, _, hpoint, rfl, rfl⟩ := h
      have hmove := putMove_of_step hpoint
      refine requestEffect_of_touch (fun _ => False) ?_ hmove.jobs
        (fun run => hmove.slice run ▸ .same _) ⟨rfl, .inr rfl⟩
      cases hmove <;> exact fun _ h => h
  | createProject body owner base point =>
      simp only [Request.step, Option.map_eq_some_iff, Prod.exists, Prod.mk.injEq] at h
      obtain ⟨_, _, hpoint, rfl, rfl⟩ := h
      exact requestEffect_of_touch (fun _ => False)
        ((createMove_of_step hpoint).frame 0).minted (createMove_of_step hpoint).jobs
        (fun run => (createMove_of_step hpoint).slice run ▸ .same _) ⟨rfl, .inr rfl⟩
  | deleteProject id point =>
      simp only [Request.step, Option.map_eq_some_iff, Prod.exists, Prod.mk.injEq] at h
      obtain ⟨_, _, hpoint, rfl, rfl⟩ := h
      exact requestEffect_of_touch (fun _ => False)
        (DeleteProject.step_frame hpoint 0).minted (DeleteProject.step_jobs hpoint)
        (fun run => DeleteProject.step_touch hpoint run) ⟨rfl, .inr rfl⟩
  | submitRun project body point =>
      simp only [Request.step, Option.map_eq_some_iff, Prod.exists, Prod.mk.injEq] at h
      obtain ⟨_, _, hpoint, rfl, rfl⟩ := h
      exact submitMove_effect (submitMove_of_step hpoint)
  | editRun run edit point =>
      simp only [Request.step, Option.map_eq_some_iff, Prod.exists, Prod.mk.injEq] at h
      obtain ⟨_, _, hpoint, rfl, rfl⟩ := h
      exact requestEffect_of_touch _ (editMove_of_step hpoint).projectsKept.minted
        (editMove_of_step hpoint).jobs (editMove_of_step hpoint).touch ⟨rfl, .inr rfl⟩
  | deleteRun run point =>
      simp only [Request.step, Option.map_eq_some_iff, Prod.exists, Prod.mk.injEq] at h
      obtain ⟨_, _, hpoint, rfl, rfl⟩ := h
      exact requestEffect_of_touch (fun _ => False)
        (DeleteRun.step_projectsKept hpoint).minted (DeleteRun.step_jobs hpoint)
        (fun run => DeleteRun.step_touch hpoint run) ⟨rfl, .inr rfl⟩

end SpurApi
