/-
What one step of the service can do to a run.

`step_run` says that, seen from one run, a step of the service is a step of its
worker, the delivery of its job, an edit of what clients write, its deletion, its
insertion where nothing was, or nothing.  The invariants of a run are proved by
cases of it, one case for each way the run can change.
-/
import SpurApi.Proofs.RunIds

namespace SpurApi

open Transition

section

variable {μ : Type} {env : Env μ} {s₀ s s' : State μ} {a : Action} {run : Uuid}
  {tr : List (Entry (State μ) Action)}

/-! ### Ids stay apart -/

/-- Nobody holds an id that was not drawn, ids that are drawn are held by one request, and
until the rows are inserted by nobody else. -/
structure IdsApart (s : State μ) : Prop where
  minted : ∀ run, s.slice run ≠ .blank ∨ s.workers run ≠ none ∨
    (∃ j ∈ s.backend.jobs, j.run = run) → run ∈ s.backend.minted
  ids : ∀ r q, s.requests r = some q → ∀ id ∈ q.ids, id ∈ s.backend.minted
  nodup : ∀ r q, s.requests r = some q → q.ids.Nodup
  disjoint : ∀ r r' q q', r ≠ r' → s.requests r = some q → s.requests r' = some q' →
    ∀ id ∈ q.ids, id ∉ q'.ids
  pending : ∀ r q, s.requests r = some q → ∀ id ∈ q.pending,
    s.slice id = .blank ∧ s.workers id = none ∧ ∀ j ∈ s.backend.jobs, j.run ≠ id

theorem State.Initial.idsApart (h : s.Initial) : IdsApart s where
  minted run htouched := by
    rcases htouched with hslice | hworker | ⟨j, hj, -⟩
    · exact absurd (by simp [State.slice, h.runs, h.events, RunSlice.blank]) hslice
    · exact absurd (h.workers run) hworker
    · simp [h.jobs] at hj
  ids r q hq := by simp [h.requests] at hq
  nodup r q hq := by simp [h.requests] at hq
  disjoint r r' q q' _ hq := by simp [h.requests] at hq
  pending r q hq := by simp [h.requests] at hq

/-- No run is there at the start. -/
theorem State.Initial.not_row {row : SimulationRunRow} (h : s.Initial)
    (hrow : (s.slice run).row = some row) : False := by
  have hnone : (s.slice run).row = none := h.runs run
  simp [hnone] at hrow

/-- A step that touches no request: it stores nothing of a run that has no worker, and starts no
worker without a job. -/
theorem IdsApart.of_requests_eq (h : IdsApart s) (hreq : s'.requests = s.requests)
    (hminted : s'.backend.minted = s.backend.minted) (hjobs : s'.backend.jobs = s.backend.jobs)
    (hslice : ∀ run, s.workers run = none → s'.slice run = s.slice run)
    (hworker : ∀ run, s.workers run = none → (∀ j ∈ s.backend.jobs, j.run ≠ run) →
      s'.workers run = none) : IdsApart s' where
  minted run htouched := by
    rw [hminted]
    refine h.minted run ?_
    by_cases hw : s.workers run = none
    · rw [hslice run hw, hjobs] at htouched
      rcases htouched with hs | hw' | hj
      · exact .inl hs
      · by_cases hj : ∃ j ∈ s.backend.jobs, j.run = run
        · exact .inr (.inr hj)
        · exact absurd (hworker run hw fun j hj' heq => hj ⟨j, hj', heq⟩) hw'
      · exact .inr (.inr hj)
    · exact .inr (.inl hw)
  ids r q hq id hid := by
    rw [hminted]
    exact h.ids r q (hreq ▸ hq) id hid
  nodup r q hq := h.nodup r q (hreq ▸ hq)
  disjoint r r' q q' hr hq hq' := h.disjoint r r' q q' hr (hreq ▸ hq) (hreq ▸ hq')
  pending r q hq id hid := by
    obtain ⟨hs, hw, hj⟩ := h.pending r q (hreq ▸ hq) id hid
    rw [hjobs]
    exact ⟨(hslice id hw).trans hs, hworker id hw hj, hj⟩

/-- A request steps; one that arrives counts as one that held no ids. -/
private theorem IdsApart.of_effect {r : RequestId} {q q' : Request} {b : Backend}
    (h : IdsApart s) (hq : q.ids ≠ [] → s.requests r = some q)
    (he : RequestEffect s.backend b q q') : IdsApart (s.setRequest r q' b) := by
  have hheld : ∀ {id}, id ∈ q.ids → s.requests r = some q := fun hid =>
    hq (List.ne_nil_of_mem hid)
  have hfresh : ∀ id, id ∉ s.backend.minted →
      s.slice id = .blank ∧ s.workers id = none ∧ ∀ j ∈ s.backend.jobs, j.run ≠ id := by
    intro id hid
    refine ⟨by_contra fun hs => hid (h.minted id (.inl hs)),
      by_contra fun hw => hid (h.minted id (.inr (.inl hw))), fun j hj heq => ?_⟩
    exact hid (h.minted id (.inr (.inr ⟨j, hj, heq⟩)))
  have hother : ∀ r' ≠ r, ∀ q'', (s.setRequest r q' b).requests r' = some q'' →
      s.requests r' = some q'' := by
    intro r' hr q'' hq''
    rwa [State.setRequest_requests_ne s q' b hr] at hq''
  have hself : ∀ q'', (s.setRequest r q' b).requests r = some q'' → q'' = q' := by
    intro q'' hq''
    rw [State.setRequest_requests_self, Option.some.injEq] at hq''
    exact hq''.symm
  -- the ids of the request are the old ones or newly drawn
  have hids : ∀ id ∈ q'.ids, id ∈ q.ids ∨ (id ∉ s.backend.minted ∧ id ∈ b.minted) := by
    intro id hid
    rcases he.ids with ⟨-, hkept | hdropped⟩ | ⟨-, -, -, hnew⟩
    · exact .inl (hkept ▸ hid)
    · simp [hdropped] at hid
    · exact .inr (hnew id hid)
  have hapart : ∀ r' ≠ r, ∀ q'', s.requests r' = some q'' → ∀ id ∈ q'.ids, id ∉ q''.ids := by
    intro r' hr q'' hq'' id hid hid''
    rcases hids id hid with hold | hnew
    · exact h.disjoint r r' q q'' (Ne.symm hr) (hheld hold) hq'' id hold hid''
    · exact hnew.1 (h.ids r' q'' hq'' id hid'')
  refine ⟨fun run htouched => ?_, fun r' q'' hq'' id hid => ?_, fun r' q'' hq'' => ?_,
    fun r₁ r₂ q₁ q₂ hne h₁ h₂ id hid₁ hid₂ => ?_, fun r' q'' hq'' id hid => ?_⟩
  · rcases htouched with hs | hw | ⟨j, hj, rfl⟩
    · by_cases hpending : run ∈ q.pending
      · have hid := q.pending_subset hpending
        exact he.minted (h.ids r q (hheld hid) run hid)
      · refine he.minted (h.minted run (.inl fun hblank => hs ?_))
        exact he.slices run hblank hpending
    · exact he.minted (h.minted run (.inr (.inl hw)))
    · rcases he.mem_jobs hj with hold | hid
      · exact he.minted (h.minted _ (.inr (.inr ⟨j, hold, rfl⟩)))
      · exact he.minted (h.ids r q (hheld hid) _ hid)
  · by_cases hr : r' = r
    · subst hr
      obtain rfl := hself q'' hq''
      rcases hids id hid with hold | hnew
      · exact he.minted (h.ids _ q (hheld hold) id hold)
      · exact hnew.2
    · exact he.minted (h.ids r' q'' (hother r' hr q'' hq'') id hid)
  · by_cases hr : r' = r
    · subst hr
      obtain rfl := hself q'' hq''
      rcases he.ids with ⟨-, hkept | hdropped⟩ | ⟨-, -, hnodup, -⟩
      · rw [hkept]
        by_cases hnil : q.ids = []
        · simp [hnil]
        · exact h.nodup _ q (hq hnil)
      · simp [hdropped]
      · exact hnodup
    · exact h.nodup r' q'' (hother r' hr q'' hq'')
  · by_cases hr₁ : r₁ = r
    · subst hr₁
      obtain rfl := hself q₁ h₁
      exact hapart r₂ (Ne.symm hne) q₂ (hother r₂ (Ne.symm hne) q₂ h₂) id hid₁ hid₂
    · by_cases hr₂ : r₂ = r
      · subst hr₂
        obtain rfl := hself q₂ h₂
        exact hapart r₁ hne q₁ (hother r₁ hne q₁ h₁) id hid₂ hid₁
      · exact h.disjoint r₁ r₂ q₁ q₂ hne (hother r₁ hr₁ q₁ h₁) (hother r₂ hr₂ q₂ h₂) id hid₁ hid₂
  · by_cases hr : r' = r
    · subst hr
      obtain rfl := hself q'' hq''
      rcases he.ids with ⟨hnone, -⟩ | ⟨hnone, hjobs, -, hnew⟩
      · simp [hnone] at hid
      · obtain ⟨hs, hw, hj⟩ := hfresh id (hnew id (q''.pending_subset hid)).1
        exact ⟨he.slices id hs (by simp [hnone]), hw, fun j hj' => hj j (hjobs ▸ hj')⟩
    · have hold := hother r' hr q'' hq''
      obtain ⟨hs, hw, hj⟩ := h.pending r' q'' hold id hid
      have hnot : id ∉ q.ids := fun hid' =>
        h.disjoint r' r q'' q hr hold (hheld hid') id (q''.pending_subset hid) hid'
      refine ⟨he.slices id hs fun hpending => hnot (q.pending_subset hpending), hw,
        fun j hj' heq => ?_⟩
      rcases he.mem_jobs hj' with hj' | hj'
      · exact hj j hj' heq
      · exact hnot (heq ▸ hj')

theorem ids_of_isReceived {q : Request} (h : q.isReceived = true) : q.ids = [] := by
  cases q with
  | submitRun project body point => cases point <;> simp_all [Request.isReceived, Request.ids,
      SubmitRun.ids]
  | _ => rfl

theorem IdsApart.step (h : IdsApart s) (hstep : s.step env a = some s') : IdsApart s' := by
  cases service_step hstep with
  | @arrive r q _ hreceived =>
      have hids := ids_of_isReceived hreceived
      have hpending : q.pending = [] := List.subset_nil.mp (hids ▸ q.pending_subset)
      exact h.of_effect (fun hne => absurd hids hne)
        (requestEffect_of_eq rfl ⟨hpending, .inl rfl⟩)
  | request hq hqstep => exact h.of_effect (fun _ => hq) (Request.step_effect hqstep)
  | read => exact h
  | @deliver run hjob _ =>
      obtain ⟨j, hj, hjrun⟩ := hjob
      refine h.of_requests_eq rfl rfl rfl (fun _ _ => rfl) fun run' hw hnojob => ?_
      have hne : run' ≠ run := fun heq => hnojob j hj (hjrun.trans heq.symm)
      simpa [State.setWorker, hne] using hw
  | @work run io point _ _ hw _ =>
      refine h.of_requests_eq rfl rfl rfl (fun run' hnone => ?_) fun run' hnone _ => ?_
      all_goals
        have hne : run' ≠ run := by
          rintro rfl
          rw [hw] at hnone
          simp at hnone
      · simp [State.slice, State.setWorker, State.setSlice, Db.setRun, Db.setEvents, hne]
      · simpa [State.setWorker, State.setSlice, hne] using hnone

theorem IdsApart.exec (h₀ : s₀.Initial) (h : Exec (system env) s₀ tr s) : IdsApart s :=
  h.invariant h₀.idsApart fun _ _ _ hI hstep => hI.step hstep

/-! ### One step of the service, seen from one run -/

/-- A step is one of the run's worker or not. -/
theorem Action.client_or_work (a : Action) (run : Uuid) :
    (∀ io, a ≠ .work run io) ∨ ∃ io, a = .work run io := by
  by_cases h : ∃ io, a = .work run io
  · exact .inr h
  · exact .inl (not_exists.mp h)

/-- By this step a cancel request of the run is committed. -/
def CancelCommits (s : State μ) (a : Action) (s' : State μ) (run : Uuid) : Prop :=
  ∃ r io row, a = .request r io ∧
    s.requests r = some (.editRun run .cancel (.loaded row)) ∧
    s'.requests r = some (.editRun run .cancel .committed)

/-- What a step of the service is for one run. -/
inductive RunStep (env : Env μ) (s : State μ) (a : Action) (s' : State μ) (run : Uuid) : Prop
  | client (hact : ∀ io, a ≠ .work run io) (hworker : s'.workers run = s.workers run)
      (h : RunTouch (CancelCommits s a s' run) (s.slice run) (s'.slice run))
  | inserted {r : RequestId} {project : Uuid} {body : RunCreate} {rows : List Submitted}
      {sub : Submitted} (hact : ∀ io, a ≠ .work run io)
      (hreq : s.requests r = some (.submitRun project body (.inserting rows)))
      (hsub : sub ∈ rows) (hid : sub.id = run) (hblank : s.slice run = .blank)
      (hworker : s.workers run = none) (hworker' : s'.workers run = none)
      (h : s'.slice run = ⟨some sub.row, []⟩) (ha : ∃ io, a = .request r io)
  | delivered (ha : a = .deliver run) (hjob : ∃ j ∈ s.backend.jobs, j.run = run)
      (hworker : s.workers run = none) (hworker' : s'.workers run = some .loading)
      (h : s'.slice run = s.slice run)
  | worked {io : Io} {p p' : WorkerPoint μ} (ha : a = .work run io)
      (hworker : s.workers run = some p) (hworker' : s'.workers run = some p')
      (hstep : workerStep env (s.liveProject p) io (s.slice run) p = some (p', s'.slice run))

private theorem runStep_of_same (hact : ∀ io, a ≠ .work run io)
    (hworker : s'.workers run = s.workers run) (h : s'.slice run = s.slice run) :
    RunStep env s a s' run := .client hact hworker (h ▸ .same _)

/-- A request steps. -/
private theorem runStep_of_request (hapart : IdsApart s) {r : RequestId} {io : Io}
    {q q' : Request} {b : Backend} (hq : s.requests r = some q)
    (hstep : q.step env r io s.backend = some (q', b)) :
    RunStep env s (.request r io) (s.setRequest r q' b) run := by
  have hact : ∀ io', Action.request r io ≠ .work run io' := by simp
  cases q with
  | updateProject id ifMatch body point =>
      simp only [Request.step, Option.map_eq_some_iff, Prod.exists, Prod.mk.injEq] at hstep
      obtain ⟨_, _, hpoint, rfl, rfl⟩ := hstep
      exact runStep_of_same hact rfl ((putMove_of_step hpoint).slice run)
  | createProject body owner base point =>
      simp only [Request.step, Option.map_eq_some_iff, Prod.exists, Prod.mk.injEq] at hstep
      obtain ⟨_, _, hpoint, rfl, rfl⟩ := hstep
      exact runStep_of_same hact rfl ((createMove_of_step hpoint).slice run)
  | deleteProject id point =>
      simp only [Request.step, Option.map_eq_some_iff, Prod.exists, Prod.mk.injEq] at hstep
      obtain ⟨_, _, hpoint, rfl, rfl⟩ := hstep
      exact .client hact rfl (DeleteProject.step_touch hpoint run)
  | submitRun project body point =>
      simp only [Request.step, Option.map_eq_some_iff, Prod.exists, Prod.mk.injEq] at hstep
      obtain ⟨_, _, hpoint, rfl, rfl⟩ := hstep
      cases submitMove_of_step hpoint with
      | @inserted rows =>
          by_cases hrun : run ∈ rows.map Submitted.id
          · obtain ⟨sub, hsub, rfl⟩ := List.mem_map.mp hrun
            obtain ⟨hblank, hworker, -⟩ := hapart.pending r _ hq sub.id hrun
            have hevents : s.backend.db.events sub.id = [] := congrArg RunSlice.events hblank
            refine .inserted hact hq hsub rfl hblank hworker hworker ?_ ⟨io, rfl⟩
            have hrow := insertRuns_of_mem (b := s.backend) hsub (hapart.nodup r _ hq)
            rw [hevents] at hrow
            exact hrow
          · exact runStep_of_same hact rfl (insertRuns_of_notMem hrun)
      | recorded hcommit => exact .client hact rfl (commitJobIds_touch hcommit)
      | _ => exact runStep_of_same hact rfl rfl
  | editRun id edit point =>
      simp only [Request.step, Option.map_eq_some_iff, Prod.exists, Prod.mk.injEq] at hstep
      obtain ⟨point', _, hpoint, rfl, rfl⟩ := hstep
      have htouch := (editMove_of_step hpoint).touch run
      refine .client hact rfl (htouch.imp ?_)
      rintro ⟨rfl, rfl, ⟨row, rfl⟩, rfl⟩
      exact ⟨r, io, row, rfl, hq, State.setRequest_requests_self ..⟩
  | deleteRun id point =>
      simp only [Request.step, Option.map_eq_some_iff, Prod.exists, Prod.mk.injEq] at hstep
      obtain ⟨_, _, hpoint, rfl, rfl⟩ := hstep
      exact .client hact rfl (DeleteRun.step_touch hpoint run)

/-- **One step of the service, seen from one run.** -/
theorem step_run (hapart : IdsApart s) (hstep : s.step env a = some s') (run : Uuid) :
    RunStep env s a s' run := by
  cases service_step hstep with
  | arrive | read => exact runStep_of_same (by simp) rfl rfl
  | request hq hqstep => exact runStep_of_request hapart hq hqstep
  | @deliver run' hjob hnone =>
      by_cases hrun : run = run'
      · subst hrun
        exact .delivered rfl hjob hnone (Function.update_self ..) rfl
      · exact runStep_of_same (by simp) (Function.update_of_ne hrun ..) rfl
  | @work run' io p p' slice hw hpstep =>
      by_cases hrun : run = run'
      · subst hrun
        have hslice : ((s.setSlice run slice).setWorker run p').slice run = slice := by
          simp [State.slice, State.setWorker, State.setSlice, Db.setRun, Db.setEvents]
        exact .worked rfl hw (Function.update_self ..) (hslice.symm ▸ hpstep)
      · refine runStep_of_same (by simp [Ne.symm hrun]) (Function.update_of_ne hrun ..) ?_
        simp [State.slice, State.setWorker, State.setSlice, Db.setRun, Db.setEvents, hrun]

/-- A worker writes to its own run only. -/
theorem slice_of_work_ne {io : Io} (hstep : s.step env (.work run io) = some s') {other : Uuid}
    (hne : other ≠ run) : s'.slice other = s.slice other := by
  cases service_step hstep with
  | work =>
      simp [State.slice, State.setWorker, State.setSlice, Db.setRun, Db.setEvents, hne]

/-- A worker's step is the service's step. -/
theorem step_work {p p' : WorkerPoint μ} {d : RunSlice} {io : Io}
    (hworker : s.workers run = some p)
    (h : workerStep env (s.liveProject p) io (s.slice run) p = some (p', d)) :
    ∃ s', s.step env (.work run io) = some s' ∧ s'.workers run = some p' ∧ s'.slice run = d := by
  refine ⟨(s.setSlice run d).setWorker run p', ?_, Function.update_self .., ?_⟩
  · simp only [State.step, hworker, h]
  · simp [State.slice, State.setWorker, State.setSlice, Db.setRun, Db.setEvents]

end

end SpurApi
