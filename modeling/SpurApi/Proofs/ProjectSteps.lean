/-
What one step of the service can do, and what it can do to a project.

`service_step` lists the steps of the service, with their guards; proofs go by its cases.
`step_project` says that, seen from one project, a step of the service is a step of
a `PUT` on it, or leaves its lock, its `PUT`s and everything a save writes alone:
the row stays, or appears, or goes while nobody holds its lock, or loses its base.
-/
import SpurApi.System
import SpurApi.Proofs.Moves

namespace SpurApi

open Transition

/-! ### Rows and locks of projects -/

/-- What a step that is no step of a `PUT` on a project can do to its row. -/
inductive RowMove (b b' : Backend) (p : Uuid) : Prop
  | same (h : b'.db.projects p = b.db.projects p)
  | created {body : ProjectSpec} {owner : Option String} {base : Option Uuid} {now : Time}
      (hfresh : p ∉ b.minted) (hminted : p ∈ b'.minted)
      (h : b'.db.projects p = some (newProject body owner base now))
  | deleted (hfree : b.locks p = none) (h : b'.db.projects p = none)
  | unlinked {row : ProjectRow} (hrow : b.db.projects p = some row)
      (h : b'.db.projects p = some { row with baseProjectId := none })

/-- A step that leaves the lock of a project and moves its row by `RowMove` at most. -/
structure ProjectFrame (b b' : Backend) (p : Uuid) : Prop where
  locks : b'.locks p = b.locks p
  minted : b.minted ⊆ b'.minted
  row : RowMove b b' p

/-- A step that changes no project at all. -/
structure ProjectsKept (b b' : Backend) : Prop where
  locks : b'.locks = b.locks
  minted : b.minted ⊆ b'.minted
  projects : b'.db.projects = b.db.projects

theorem ProjectsKept.refl (b : Backend) : ProjectsKept b b := ⟨rfl, fun _ h => h, rfl⟩

theorem ProjectsKept.trans {b₁ b₂ b₃ : Backend} (h₁ : ProjectsKept b₁ b₂)
    (h₂ : ProjectsKept b₂ b₃) : ProjectsKept b₁ b₃ :=
  ⟨h₂.locks.trans h₁.locks, fun _ h => h₂.minted (h₁.minted h),
    h₂.projects.trans h₁.projects⟩

theorem ProjectsKept.frame {b b' : Backend} (h : ProjectsKept b b') (p : Uuid) :
    ProjectFrame b b' p :=
  ⟨congrFun h.locks p, h.minted, .same (congrFun h.projects p)⟩

theorem ProjectsKept.mint (b : Backend) (ids : List Uuid) : ProjectsKept b (b.mint ids) :=
  ⟨rfl, fun _ h => List.mem_append_right ids h, rfl⟩

theorem ProjectsKept.setRun (b : Backend) (id : Uuid) (row : Option SimulationRunRow) :
    ProjectsKept b (b.setRun id row) := ⟨rfl, fun _ h => h, rfl⟩

theorem ProjectsKept.insertRuns (rows : List Submitted) :
    ∀ b : Backend, ProjectsKept b (b.insertRuns rows) := by
  induction rows with
  | nil => exact fun b => .refl b
  | cons s rest ih => exact fun b => (ProjectsKept.setRun b s.id (some s.row)).trans (ih _)

theorem ProjectsKept.commitJobIds {rows : List Submitted} :
    ∀ {b b' : Backend}, b.commitJobIds rows = .ok b' → ProjectsKept b b' := by
  induction rows with
  | nil =>
      intro b b' h
      simp only [Backend.commitJobIds, Except.ok.injEq] at h
      exact h ▸ .refl b
  | cons s rest ih =>
      intro b b' h
      rw [Backend.commitJobIds] at h
      split at h
      · simp at h
      · exact (ProjectsKept.setRun b s.id _).trans (ih h)

/-! Submitting a run changes no project, nor does an edit or a deletion of a run. -/

theorem SubmitMove.projectsKept {μ : Type} {spur : Spur μ} {settings : Settings} {id : Uuid}
    {body : RunCreate} {io : Io} {b b' : Backend} {p p' : SubmitRun}
    (h : SubmitMove spur settings id body io b p p' b') : ProjectsKept b b' := by
  cases h with
  | built => exact .mint b _
  | inserted => exact .insertRuns _ b
  | enqueued => exact ⟨rfl, fun _ h => h, rfl⟩
  | recorded hcommit => exact .commitJobIds hcommit
  | _ => exact .refl b

theorem EditMove.projectsKept {id : Uuid} {edit : RunEdit} {b b' : Backend} {p p' : EditRun}
    (h : EditMove id edit b p p' b') : ProjectsKept b b' := by
  cases h with
  | committed => exact .setRun b id _
  | _ => exact .refl b

theorem DeleteRun.step_projectsKept {id : Uuid} {b b' : Backend} {p p' : DeleteRun}
    (h : p.step id b = some (p', b')) : ProjectsKept b b' := by
  cases p with
  | received =>
      simp only [DeleteRun.step] at h
      split at h <;> simp only [Option.some.injEq, Prod.mk.injEq] at h <;> obtain ⟨-, rfl⟩ := h <;>
        exact .refl b
  | deleting =>
      simp only [DeleteRun.step, Option.some.injEq, Prod.mk.injEq] at h
      obtain ⟨-, rfl⟩ := h
      exact ⟨rfl, fun _ h => h, rfl⟩
  | answered a => simp [DeleteRun.step] at h

/-! Creating a scenario points it at its base and leaves the base alone; deleting a project
unlinks its scenarios. -/

theorem CreateMove.frame {body : ProjectSpec} {owner : Option String} {base : Option Uuid}
    {io : Io} {b b' : Backend} {q q' : CreateProject}
    (h : CreateMove body owner base io b q q' b') (p : Uuid) : ProjectFrame b b' p := by
  cases h with
  | alone | missing | named | reloadFailed | reloaded => exact (ProjectsKept.refl b).frame p
  | baseGone | unstorable => exact (ProjectsKept.mint b _).frame p
  | @inserted baseId id hfresh =>
      refine ⟨rfl, (ProjectsKept.mint b [id]).minted, ?_⟩
      by_cases hp : p = id
      · subst hp
        have hrow : ((b.mint [p]).setProject p
            (newProject body owner baseId io.now)).db.projects p =
              some (newProject body owner baseId io.now) := Function.update_self ..
        exact .created hfresh (by simp [Backend.mint, Backend.setProject]) hrow
      · exact .same (Function.update_of_ne hp ..)

theorem DeleteProject.step_frame {id : Uuid} {b b' : Backend} {q q' : DeleteProject}
    (h : q.step id b = some (q', b')) (p : Uuid) : ProjectFrame b b' p := by
  cases q with
  | received =>
      rw [DeleteProject.step] at h
      split at h <;> simp only [Option.some.injEq, Prod.mk.injEq] at h <;> obtain ⟨-, rfl⟩ := h <;>
        exact (ProjectsKept.refl b).frame p
  | deleting =>
      rw [DeleteProject.step] at h
      split at h
      · simp at h
      · rename_i hlock
        simp only [Option.some.injEq, Prod.mk.injEq] at h
        obtain ⟨-, rfl⟩ := h
        refine ⟨rfl, fun _ h => h, ?_⟩
        by_cases hp : p = id
        · subst hp
          exact .deleted (by simpa using hlock) (by simp [Db.deleteProject])
        · cases hrow : b.db.projects p with
          | none => exact .same (by simp [Db.deleteProject, hrow])
          | some row =>
              by_cases hbase : row.baseProjectId = some id
              · exact .unlinked hrow (by simp [Db.deleteProject, hp, hrow, hbase])
              · exact .same (by simp [Db.deleteProject, hp, hrow, hbase])
  | answered a => simp [DeleteProject.step] at h

/-- A save of another project. -/
theorem PutMove.frame_of_ne {r : RequestId} {id : Uuid} {ifMatch : Option HeaderValue}
    {body : ProjectSpec} {io : Io} {b b' : Backend} {q q' : UpdateProject} {p : Uuid}
    (h : PutMove r id ifMatch body io b q q' b') (hne : p ≠ id) : ProjectFrame b b' p := by
  cases h with
  | badHeader | parsed | missing | reloadFailed | reloaded => exact (ProjectsKept.refl b).frame p
  | stale | passed | unstorable | vanished | closed =>
      exact ⟨Function.update_of_ne hne .., fun _ h => h, .same rfl⟩
  | saved =>
      exact ⟨Function.update_of_ne hne .., fun _ h => h, .same (Function.update_of_ne hne ..)⟩

/-! ### One step of the service, seen from one project -/

section

variable {μ : Type} {env : Env μ} {s s' : State μ} {a : Action} {p : Uuid}

/-- A `PUT` on a project, in flight. -/
def State.put (s : State μ) (p : Uuid) (r : RequestId) (ifMatch : Option HeaderValue)
    (body : ProjectSpec) (point : UpdateProject) : Prop :=
  s.requests r = some (.updateProject p ifMatch body point)

/-- What a step of the service is for one project. -/
inductive ProjectStep (s : State μ) (a : Action) (s' : State μ) (p : Uuid) : Prop
  | put {r : RequestId} {io : Io} {ifMatch : Option HeaderValue} {body : ProjectSpec}
      {q q' : UpdateProject} (ha : a = .request r io) (hpre : s.put p r ifMatch body q)
      (hpost : s'.put p r ifMatch body q') (hothers : ∀ r' ≠ r, s'.requests r' = s.requests r')
      (h : PutMove r p ifMatch body io s.backend q q' s'.backend)
  | frame (h : ProjectFrame s.backend s'.backend p)
      (hputs : ∀ {r ifMatch body q}, s'.put p r ifMatch body q →
        s.put p r ifMatch body q ∨ q = .received)
      (hkept : ∀ {r ifMatch body q}, s.put p r ifMatch body q → s'.put p r ifMatch body q)
      (hact : ∀ r io, a = .request r io → ∀ ifMatch body q, ¬ s.put p r ifMatch body q)

@[simp] theorem State.setRequest_requests_self (s : State μ) (r : RequestId) (q : Request)
    (b : Backend) : (s.setRequest r q b).requests r = some q := Function.update_self ..

theorem State.setRequest_requests_ne {r r' : RequestId} (s : State μ) (q : Request) (b : Backend)
    (h : r' ≠ r) : (s.setRequest r q b).requests r' = s.requests r' := Function.update_of_ne h ..

/-- What a step of the service does. -/
inductive ServiceStep (env : Env μ) (s : State μ) : Action → State μ → Prop
  | arrive {r : RequestId} {q : Request} (hnone : s.requests r = none)
      (hreceived : q.isReceived = true) :
      ServiceStep env s (.arrive r q) (s.setRequest r q s.backend)
  | request {r : RequestId} {io : Io} {q q' : Request} {b : Backend}
      (hreq : s.requests r = some q) (h : q.step env r io s.backend = some (q', b)) :
      ServiceStep env s (.request r io) (s.setRequest r q' b)
  | read : ServiceStep env s .read s
  | deliver {run : Uuid} (hjob : ∃ j ∈ s.backend.jobs, j.run = run) (hnone : s.workers run = none) :
      ServiceStep env s (.deliver run) (s.setWorker run .loading)
  | work {run : Uuid} {io : Io} {p p' : WorkerPoint μ} {d : RunSlice}
      (hworker : s.workers run = some p)
      (h : workerStep env (s.liveProject p) io (s.slice run) p = some (p', d)) :
      ServiceStep env s (.work run io) ((s.setSlice run d).setWorker run p')

theorem service_step (hstep : s.step env a = some s') : ServiceStep env s a s' := by
  cases a with
  | arrive r q =>
      simp only [State.step, Option.ite_none_right_eq_some, Bool.and_eq_true,
        Option.isNone_iff_eq_none, Option.some.injEq] at hstep
      obtain ⟨⟨hnone, hreceived⟩, rfl⟩ := hstep
      exact .arrive hnone hreceived
  | request r io =>
      simp only [State.step] at hstep
      split at hstep
      · simp at hstep
      · split at hstep
        · simp at hstep
        · simp only [Option.some.injEq] at hstep
          exact hstep ▸ .request ‹_› ‹_›
  | read =>
      simp only [State.step, Option.some.injEq] at hstep
      exact hstep ▸ .read
  | deliver run =>
      simp only [State.step, Option.ite_none_right_eq_some, Bool.and_eq_true, List.any_eq_true,
        beq_iff_eq, Option.isNone_iff_eq_none, Option.some.injEq] at hstep
      obtain ⟨⟨hjob, hnone⟩, rfl⟩ := hstep
      exact .deliver hjob hnone
  | work run io =>
      simp only [State.step] at hstep
      split at hstep
      · simp at hstep
      · split at hstep
        · simp at hstep
        · simp only [Option.some.injEq] at hstep
          exact hstep ▸ .work ‹_› ‹_›

/-- Where a request stands after a step: where it stood, at its arrival, or a step of its own
further. -/
inductive RequestStep (env : Env μ) (s : State μ) (a : Action) (s' : State μ) (r : RequestId)
    (q' : Request) : Prop
  | kept (hact : ∀ io, a ≠ .request r io) (h : s.requests r = some q')
  | arrived (ha : a = .arrive r q') (hnone : s.requests r = none) (h : q'.isReceived = true)
      (hbackend : s'.backend = s.backend)
  | stepped {io : Io} {q : Request} (ha : a = .request r io) (hpre : s.requests r = some q)
      (h : q.step env r io s.backend = some (q', s'.backend))

theorem request_step (hstep : s.step env a = some s') {r : RequestId} {q' : Request}
    (hreq : s'.requests r = some q') : RequestStep env s a s' r q' := by
  cases service_step hstep with
  | @arrive r' q hnone hreceived =>
      by_cases hr : r = r'
      · subst hr
        rw [State.setRequest_requests_self, Option.some.injEq] at hreq
        subst hreq
        exact .arrived rfl hnone hreceived rfl
      · rw [State.setRequest_requests_ne s q _ hr] at hreq
        exact .kept (by simp) hreq
  | @request r' io q q₁ b hq hqstep =>
      by_cases hr : r = r'
      · subst hr
        rw [State.setRequest_requests_self, Option.some.injEq] at hreq
        subst hreq
        exact .stepped rfl hq hqstep
      · rw [State.setRequest_requests_ne s q₁ b hr] at hreq
        exact .kept (by simp [Ne.symm hr]) hreq
  | read | deliver | work => exact .kept (by simp) hreq

/-- A request that is a creation after its step was one before it. -/
theorem createMove_of_request {r : RequestId} {io : Io} {q : Request} {body : ProjectSpec}
    {owner : Option String} {base : Option Uuid} {point' : CreateProject} {b' : Backend}
    (h : q.step env r io s.backend = some (.createProject body owner base point', b')) :
    ∃ point, q = .createProject body owner base point ∧
      CreateMove body owner base io s.backend point point' b' := by
  cases q with
  | createProject body owner base point =>
      simp only [Request.step, Option.map_eq_some_iff, Prod.exists, Prod.mk.injEq,
        Request.createProject.injEq] at h
      obtain ⟨_, _, hpoint, ⟨rfl, rfl, rfl, rfl⟩, rfl⟩ := h
      exact ⟨point, rfl, createMove_of_step hpoint⟩
  | _ => simp [Request.step] at h

/-- A request that is a submission after its step was one before it. -/
theorem submitMove_of_request {r : RequestId} {io : Io} {q : Request} {project : Uuid}
    {body : RunCreate} {point' : SubmitRun} {b' : Backend}
    (h : q.step env r io s.backend = some (.submitRun project body point', b')) :
    ∃ point, q = .submitRun project body point ∧
      SubmitMove env.spur env.settings project body io s.backend point point' b' := by
  cases q with
  | submitRun project body point =>
      simp only [Request.step, Option.map_eq_some_iff, Prod.exists, Prod.mk.injEq,
        Request.submitRun.injEq] at h
      obtain ⟨_, _, hpoint, ⟨rfl, rfl, rfl⟩, rfl⟩ := h
      exact ⟨point, rfl, submitMove_of_step hpoint⟩
  | _ => simp [Request.step] at h

/-- A request that edits a run after its step did so before it. -/
theorem editMove_of_request {r : RequestId} {io : Io} {q : Request} {run : Uuid} {edit : RunEdit}
    {point' : EditRun} {b' : Backend}
    (h : q.step env r io s.backend = some (.editRun run edit point', b')) :
    ∃ point, q = .editRun run edit point ∧ EditMove run edit s.backend point point' b' := by
  cases q with
  | editRun run edit point =>
      simp only [Request.step, Option.map_eq_some_iff, Prod.exists, Prod.mk.injEq,
        Request.editRun.injEq] at h
      obtain ⟨_, _, hpoint, ⟨rfl, rfl, rfl⟩, rfl⟩ := h
      exact ⟨point, rfl, editMove_of_step hpoint⟩
  | _ => simp [Request.step] at h

/-- A request that is no `PUT` on the project steps, or a new one arrives. -/
private theorem projectStep_of_setRequest {r : RequestId} {q : Request} {b : Backend}
    (ha : ∀ r' io, a = .request r' io → r' = r) (hframe : ProjectFrame s.backend b p)
    (hold : ∀ ifMatch body point, ¬ s.put p r ifMatch body point)
    (hnew : ∀ ifMatch body point, q = .updateProject p ifMatch body point → point = .received) :
    ProjectStep s a (s.setRequest r q b) p := by
  refine .frame hframe ?_ ?_ ?_
  · intro r' ifMatch body point hput
    by_cases hr : r' = r
    · subst hr
      rw [State.put, State.setRequest_requests_self, Option.some.injEq] at hput
      exact .inr (hnew _ _ _ hput)
    · rw [State.put, State.setRequest_requests_ne s q b hr] at hput
      exact .inl hput
  · intro r' ifMatch body point hput
    have hr : r' ≠ r := fun hr => hold _ _ _ (hr ▸ hput)
    rw [State.put, State.setRequest_requests_ne s q b hr]
    exact hput
  · intro r' io hact ifMatch body point hput
    exact hold _ _ _ (ha r' io hact ▸ hput)

/-- A step that leaves the requests alone. -/
private theorem projectStep_of_requests_eq (hreq : s'.requests = s.requests)
    (ha : ∀ r io, a ≠ .request r io) (hframe : ProjectFrame s.backend s'.backend p) :
    ProjectStep s a s' p := by
  refine .frame hframe ?_ ?_ ?_
  · intro r ifMatch body q hput
    rw [State.put, hreq] at hput
    exact .inl hput
  · intro r ifMatch body q hput
    rw [State.put, hreq]
    exact hput
  · intro r io hact
    exact absurd hact (ha r io)

private theorem projectStep_of_request {r : RequestId} {io : Io} {q q' : Request} {b : Backend}
    (hq : s.requests r = some q) (hstep : q.step env r io s.backend = some (q', b)) :
    ProjectStep s (.request r io) (s.setRequest r q' b) p := by
  have ha : ∀ r' io', Action.request r io = .request r' io' → r' = r := by
    intro r' io' h
    simp only [Action.request.injEq] at h
    exact h.1.symm
  have hold : (∀ ifMatch body point, q ≠ .updateProject p ifMatch body point) →
      ∀ ifMatch body point, ¬ s.put p r ifMatch body point := by
    intro hne ifMatch body point hput
    rw [State.put, hq, Option.some.injEq] at hput
    exact hne _ _ _ hput
  cases q with
  | updateProject id ifMatch body point =>
      simp only [Request.step, Option.map_eq_some_iff, Prod.exists, Prod.mk.injEq] at hstep
      obtain ⟨point', b₁, hpoint, rfl, rfl⟩ := hstep
      have hmove := putMove_of_step hpoint
      by_cases hid : p = id
      · subst hid
        exact .put rfl hq (State.setRequest_requests_self ..)
          (fun r' hr => State.setRequest_requests_ne s _ _ hr) hmove
      · refine projectStep_of_setRequest ha (hmove.frame_of_ne hid) (hold ?_) ?_
        · rintro _ _ _ ⟨⟩
          exact hid rfl
        · rintro _ _ _ ⟨⟩
          exact absurd rfl hid
  | createProject body owner base point =>
      simp only [Request.step, Option.map_eq_some_iff, Prod.exists, Prod.mk.injEq] at hstep
      obtain ⟨_, _, hpoint, rfl, rfl⟩ := hstep
      exact projectStep_of_setRequest ha ((createMove_of_step hpoint).frame p)
        (hold (by simp)) (by simp)
  | deleteProject id point =>
      simp only [Request.step, Option.map_eq_some_iff, Prod.exists, Prod.mk.injEq] at hstep
      obtain ⟨_, _, hpoint, rfl, rfl⟩ := hstep
      exact projectStep_of_setRequest ha (DeleteProject.step_frame hpoint p)
        (hold (by simp)) (by simp)
  | submitRun project body point =>
      simp only [Request.step, Option.map_eq_some_iff, Prod.exists, Prod.mk.injEq] at hstep
      obtain ⟨_, _, hpoint, rfl, rfl⟩ := hstep
      exact projectStep_of_setRequest ha ((submitMove_of_step hpoint).projectsKept.frame p)
        (hold (by simp)) (by simp)
  | editRun run edit point =>
      simp only [Request.step, Option.map_eq_some_iff, Prod.exists, Prod.mk.injEq] at hstep
      obtain ⟨_, _, hpoint, rfl, rfl⟩ := hstep
      exact projectStep_of_setRequest ha ((editMove_of_step hpoint).projectsKept.frame p)
        (hold (by simp)) (by simp)
  | deleteRun run point =>
      simp only [Request.step, Option.map_eq_some_iff, Prod.exists, Prod.mk.injEq] at hstep
      obtain ⟨_, _, hpoint, rfl, rfl⟩ := hstep
      exact projectStep_of_setRequest ha ((DeleteRun.step_projectsKept hpoint).frame p)
        (hold (by simp)) (by simp)

/-- **One step of the service, seen from one project.** -/
theorem step_project (hstep : s.step env a = some s') (p : Uuid) : ProjectStep s a s' p := by
  cases service_step hstep with
  | @arrive r q hnone hreceived =>
      refine projectStep_of_setRequest (by simp) ((ProjectsKept.refl _).frame p) ?_ ?_
      · simp [State.put, hnone]
      · rintro ifMatch body point rfl
        cases point <;> simp_all [Request.isReceived]
  | request hq hqstep => exact projectStep_of_request hq hqstep
  | read | deliver =>
      exact projectStep_of_requests_eq rfl (by simp) ((ProjectsKept.refl _).frame p)
  | work => exact projectStep_of_requests_eq rfl (by simp) ⟨rfl, fun _ h => h, .same rfl⟩

/-- An id that was drawn stays drawn. -/
theorem minted_mono (hstep : s.step env a = some s') (h : p ∈ s.backend.minted) :
    p ∈ s'.backend.minted := by
  cases step_project hstep p with
  | put _ _ _ _ hmove =>
      generalize s'.backend = b' at hmove
      cases hmove <;> exact h
  | frame hf => exact hf.minted h

/-- A `PUT` in flight stands still or makes a move of its own. -/
theorem put_step {r : RequestId} {ifMatch : Option HeaderValue} {body : ProjectSpec}
    {q : UpdateProject} (hstep : s.step env a = some s') (hput : s.put p r ifMatch body q) :
    ((∀ io, a ≠ .request r io) ∧ s'.put p r ifMatch body q) ∨
      ∃ io q', a = .request r io ∧ s'.put p r ifMatch body q' ∧
        PutMove r p ifMatch body io s.backend q q' s'.backend := by
  cases step_project hstep p with
  | @put r' io ifMatch' body' q₁ q₂ ha hpre hpost hothers hmove =>
      by_cases hr : r = r'
      · subst hr
        rw [State.put, hpre, Option.some.injEq, Request.updateProject.injEq] at hput
        obtain ⟨-, rfl, rfl, rfl⟩ := hput
        exact .inr ⟨io, q₂, ha, hpost, hmove⟩
      · refine .inl ⟨fun io' ha' => ?_, (hothers r hr).trans hput⟩
        rw [ha, Action.request.injEq] at ha'
        exact hr ha'.1.symm
  | frame _ _ hkept hact =>
      exact .inl ⟨fun io ha => hact r io ha _ _ _ hput, hkept hput⟩

/-- A request is at one point at a time. -/
theorem State.put_unique {r : RequestId} {ifMatch ifMatch' : Option HeaderValue}
    {body body' : ProjectSpec} {q q' : UpdateProject} (h : s.put p r ifMatch body q)
    (h' : s.put p r ifMatch' body' q') : ifMatch = ifMatch' ∧ body = body' ∧ q = q' := by
  rw [State.put, h, Option.some.injEq, Request.updateProject.injEq] at h'
  exact h'.2

end

end SpurApi
