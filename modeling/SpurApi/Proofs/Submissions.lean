/-
A submission that fails half-way.

The rows of a batch are committed first and the jobs are enqueued one by one after
that, so a submission can end with some of its runs in Redis and the others not.  What
holds at each point of the loop is said with two lists of ids: those that have a job,
each exactly one, and those that have none.  The second list is empty unless an
exception left the loop, and a run in it that is still there is never picked up.
-/
import SpurApi.Proofs.LifeCycle

namespace SpurApi

open Transition

section

variable {μ : Type} {env : Env μ} {s₀ s s' : State μ} {a : Action} {r : RequestId} {id : Uuid}
  {tr : List (Entry (State μ) Action)}

/-! ### What a request leaves behind -/

/-- A step of the request committed the row of this run. -/
def CreatedBy (tr : List (Entry (State μ) Action)) (r : RequestId) (id : Uuid) : Prop :=
  ∃ e ∈ tr, ∃ io, e.act = .request r io ∧ (e.pre.slice id).row = none ∧
    (e.post.slice id).row.isSome

/-- What makes this step of the loop over the runs of a batch raise: the job id of the run before
cannot be flushed, the row of the next run is gone, or `enqueue_job` fails.  The runs that are
listed have no job then. -/
inductive RaisesInLoop (e : Entry (State μ) Action) (r : RequestId) : List Uuid → Prop
  | refresh {io : Io} {project : Uuid} {body : RunCreate} {done todo : List Submitted}
      {next : Submitted} (ha : e.act = .request r io)
      (hreq : e.pre.requests r = some (.submitRun project body (.refreshing done next todo)))
      (h : (∃ x, autoflush e.pre.backend.db done = .error x) ∨
        (e.pre.slice next.id).row = none) :
      RaisesInLoop e r ((next :: todo).map Submitted.id)
  | enqueue {io : Io} {project : Uuid} {body : RunCreate} {done todo : List Submitted}
      {next : Submitted} (ha : e.act = .request r io)
      (hreq : e.pre.requests r = some (.submitRun project body (.enqueueing done next todo)))
      (h : io.fault ≠ none) : RaisesInLoop e r ((next :: todo).map Submitted.id)

/-- In this history the submission left these runs of its batch without a job. -/
def Abandons (tr : List (Entry (State μ) Action)) (r : RequestId) (ids : List Uuid) : Prop :=
  ∃ e ∈ tr, RaisesInLoop e r ids

/-- The jobs of a run. -/
def jobsOf (s : State μ) (id : Uuid) : Nat := s.backend.jobs.countP fun j => j.run == id

/-- The run has no job, so no worker. -/
structure Unserved (s : State μ) (id : Uuid) : Prop where
  job : ∀ j ∈ s.backend.jobs, j.run ≠ id
  worker : s.workers id = none

/-- The id was drawn, and no request but this one holds it. -/
def HeldBy (s : State μ) (r : RequestId) (id : Uuid) : Prop :=
  id ∈ s.backend.minted ∧ ∀ r' ≠ r, ∀ q, s.requests r' = some q → id ∉ q.ids

theorem HeldBy.step (h : HeldBy s r id) (hstep : s.step env a = some s') : HeldBy s' r id := by
  refine ⟨minted_mono hstep h.1, fun r' hr q' hq' hid => ?_⟩
  cases request_step hstep hq' with
  | kept _ hq => exact h.2 r' hr q' hq hid
  | arrived _ _ hreceived => simp [ids_of_isReceived hreceived] at hid
  | stepped _ hq hqstep =>
      rcases (Request.step_effect hqstep).ids with ⟨-, hsame | hnone⟩ | ⟨-, -, -, hnew⟩
      · exact h.2 r' hr _ hq (hsame ▸ hid)
      · simp [hnone] at hid
      · exact (hnew id hid).1 h.1

/-! ### Jobs -/

/-- What a step does to the jobs: nothing, or a request in its loop enqueues the next one. -/
inductive JobsStep (s : State μ) (a : Action) (s' : State μ) : Prop
  | same (h : s'.backend.jobs = s.backend.jobs)
  | enqueued {r : RequestId} {io : Io} {q : Request} (ha : a = .request r io)
      (hq : s.requests r = some q) {job : Job} (hid : job.run ∈ q.ids)
      (h : s'.backend.jobs = s.backend.jobs ++ [job])

theorem jobs_step (hstep : s.step env a = some s') : JobsStep s a s' := by
  cases service_step hstep with
  | arrive | read | deliver | work => exact .same rfl
  | request hq hqstep =>
      rcases (Request.step_effect hqstep).jobs with hsame | ⟨job, hadded, hid, -⟩
      · exact .same hsame
      · exact .enqueued rfl hq hid hadded

private theorem jobsOf_of_append {job : Job} (hne : job.run ≠ id)
    (h : s'.backend.jobs = s.backend.jobs ++ [job]) : jobsOf s' id = jobsOf s id := by
  simp [jobsOf, h, List.countP_append, hne]

/-- A run that the request holds gets a job from it only. -/
private theorem jobs_other (hheld : HeldBy s r id) (hact : ∀ io, a ≠ .request r io)
    (hstep : s.step env a = some s') : jobsOf s' id = jobsOf s id ∧
      ((∀ j ∈ s.backend.jobs, j.run ≠ id) → ∀ j ∈ s'.backend.jobs, j.run ≠ id) := by
  cases jobs_step hstep with
  | same h => exact ⟨by simp only [jobsOf, h], fun hjobs => h ▸ hjobs⟩
  | @enqueued r' io q ha hq job hid h =>
      have hr : r' ≠ r := by
        rintro rfl
        exact hact io ha
      have hne : job.run ≠ id := fun heq => hheld.2 r' hr q hq (heq ▸ hid)
      refine ⟨jobsOf_of_append hne h, fun hjobs j hj => ?_⟩
      rw [h, List.mem_append, List.mem_singleton] at hj
      rcases hj with hj | rfl
      · exact hjobs j hj
      · exact hne

private theorem worker_none_step (hapart : IdsApart s) (hstep : s.step env a = some s')
    (hworker : s.workers id = none) (hjob : ∀ j ∈ s.backend.jobs, j.run ≠ id) :
    s'.workers id = none := by
  cases step_run hapart hstep id with
  | client _ hsame => exact hsame.trans hworker
  | inserted _ _ _ _ _ _ hnone => exact hnone
  | delivered _ hjobs =>
      obtain ⟨j, hj, hrun⟩ := hjobs
      exact absurd hrun (hjob j hj)
  | worked _ hsome =>
      rw [hworker] at hsome
      simp at hsome

/-! ### A batch -/

theorem CreatedBy.snoc {e : Entry (State μ) Action} (h : CreatedBy tr r id) :
    CreatedBy (tr ++ [e]) r id := by
  obtain ⟨e', he', hcreated⟩ := h
  exact ⟨e', List.mem_append_left _ he', hcreated⟩

theorem createdBy_snoc_iff {e : Entry (State μ) Action}
    (h : ¬ ∃ io, e.act = .request r io ∧ (e.pre.slice id).row = none ∧
      (e.post.slice id).row.isSome) : CreatedBy (tr ++ [e]) r id ↔ CreatedBy tr r id := by
  refine ⟨?_, CreatedBy.snoc⟩
  rintro ⟨e', he', hcreated⟩
  rcases List.mem_append.mp he' with he' | he'
  · exact ⟨e', he', hcreated⟩
  · rw [List.mem_singleton] at he'
    exact absurd (he' ▸ hcreated) h

/-- A row comes into being by the insert of the request that acts. -/
theorem inserting_of_created (hapart : IdsApart s) {io : Io}
    (hstep : s.step env (.request r io) = some s') (hpre : (s.slice id).row = none)
    (hpost : (s'.slice id).row.isSome) : ∃ project body rows,
      s.requests r = some (.submitRun project body (.inserting rows)) ∧
        id ∈ rows.map Submitted.id := by
  cases step_run hapart hstep id with
  | client _ _ ht =>
      generalize s.slice id = d at ht hpre
      generalize s'.slice id = d' at ht hpost
      cases ht with
      | same => simp [hpre] at hpost
      | edited => simp at hpre
      | deleted => simp [RunSlice.blank] at hpost
  | inserted _ hreq hsub hid _ _ _ _ ha =>
      obtain ⟨io', ha⟩ := ha
      rw [Action.request.injEq] at ha
      exact ⟨_, _, _, ha.1 ▸ hreq, List.mem_map.mpr ⟨_, hsub, hid⟩⟩
  | delivered ha => simp at ha
  | worked ha => simp at ha

/-- And the row of a run whose insert is due comes into being by that insert. -/
theorem request_of_created (hapart : IdsApart s) (hstep : s.step env a = some s')
    {project : Uuid} {body : RunCreate} {rows : List Submitted}
    (hreq : s.requests r = some (.submitRun project body (.inserting rows)))
    (hid : id ∈ rows.map Submitted.id) (hpost : (s'.slice id).row.isSome) :
    ∃ io, a = .request r io := by
  obtain ⟨hblank, hworker, -⟩ := hapart.pending r _ hreq id hid
  cases step_run hapart hstep id with
  | client _ _ ht =>
      rw [hblank] at ht
      rw [ht.blank] at hpost
      simp [RunSlice.blank] at hpost
  | @inserted r' _ _ rows' sub _ hreq' hsub hid' _ _ _ _ ha =>
      by_cases hr : r = r'
      · exact hr ▸ ha
      · exact absurd (List.mem_map.mpr ⟨sub, hsub, hid'⟩)
          (hapart.disjoint r r' _ _ hr hreq hreq' id hid)
  | delivered _ _ _ _ hslice =>
      rw [hslice, hblank] at hpost
      simp [RunSlice.blank] at hpost
  | worked _ hp => simp [hworker] at hp

/-- The runs of a batch of `n`: each of `served` has one job, those of `unserved` have none. -/
structure Batch (tr : List (Entry (State μ) Action)) (s : State μ) (r : RequestId) (n : Nat)
    (served unserved : List Uuid) : Prop where
  length : (served ++ unserved).length = n
  nodup : (served ++ unserved).Nodup
  created : ∀ id, CreatedBy tr r id ↔ id ∈ served ++ unserved
  held : ∀ id ∈ served ++ unserved, HeldBy s r id
  jobs : ∀ id ∈ served, jobsOf s id = 1
  rest : ∀ id ∈ unserved, Unserved s id

/-- A step of somebody else leaves a batch as it is. -/
theorem Batch.other {n : Nat} {served unserved : List Uuid} (h : Batch tr s r n served unserved)
    (hapart : IdsApart s) (hact : ∀ io, a ≠ .request r io) (hstep : s.step env a = some s') :
    Batch (tr ++ [⟨s, a, s'⟩]) s' r n served unserved where
  length := h.length
  nodup := h.nodup
  created id := by
    rw [createdBy_snoc_iff fun ⟨io, ha, _⟩ => hact io ha]
    exact h.created id
  held id hid := (h.held id hid).step hstep
  jobs id hid := by
    rw [(jobs_other (h.held id (List.mem_append_left _ hid)) hact hstep).1]
    exact h.jobs id hid
  rest id hid := by
    have hheld := h.held id (List.mem_append_right _ hid)
    obtain ⟨hjob, hworker⟩ := h.rest id hid
    exact ⟨(jobs_other hheld hact hstep).2 hjob, worker_none_step hapart hstep hworker hjob⟩

/-- A step of the request itself, after its insert, that enqueues nothing. -/
theorem Batch.own {n : Nat} {served unserved : List Uuid} (h : Batch tr s r n served unserved)
    (hapart : IdsApart s) {io : Io} (hstep : s.step env (.request r io) = some s')
    (hinserted : ∀ project body rows,
      s.requests r ≠ some (.submitRun project body (.inserting rows)))
    (hjobs : s'.backend.jobs = s.backend.jobs) :
    Batch (tr ++ [⟨s, .request r io, s'⟩]) s' r n served unserved where
  length := h.length
  nodup := h.nodup
  created id := by
    rw [createdBy_snoc_iff]
    · exact h.created id
    · rintro ⟨_, -, hpre, hpost⟩
      obtain ⟨project, body, rows, hreq, -⟩ := inserting_of_created hapart hstep hpre hpost
      exact hinserted project body rows hreq
  held id hid := (h.held id hid).step hstep
  jobs id hid := by
    simp only [jobsOf, hjobs]
    exact h.jobs id hid
  rest id hid := by
    obtain ⟨hjob, hworker⟩ := h.rest id hid
    exact ⟨hjobs ▸ hjob, worker_none_step hapart hstep hworker hjob⟩

/-- The next run of the batch gets its job. -/
theorem Batch.enqueue {n : Nat} {served unserved : List Uuid} {next : Uuid}
    (h : Batch tr s r n served (next :: unserved)) (hapart : IdsApart s) {io : Io}
    (hstep : s.step env (.request r io) = some s')
    (hinserted : ∀ project body rows,
      s.requests r ≠ some (.submitRun project body (.inserting rows))) {job : Job}
    (hrun : job.run = next) (hjobs : s'.backend.jobs = s.backend.jobs ++ [job]) :
    Batch (tr ++ [⟨s, .request r io, s'⟩]) s' r n (served ++ [next]) unserved := by
  have happend : served ++ next :: unserved = served ++ [next] ++ unserved := by simp
  have hnodup := h.nodup
  rw [List.nodup_append, List.nodup_cons] at hnodup
  obtain ⟨-, ⟨hnext, -⟩, hdisjoint⟩ := hnodup
  have hunserved := h.rest next (by simp)
  refine ⟨happend ▸ h.length, happend ▸ h.nodup, fun id => ?_, fun id hid => ?_, fun id hid => ?_,
    fun id hid => ?_⟩
  · rw [createdBy_snoc_iff, ← happend]
    · exact h.created id
    · rintro ⟨_, -, hpre, hpost⟩
      obtain ⟨project, body, rows, hreq, -⟩ := inserting_of_created hapart hstep hpre hpost
      exact hinserted project body rows hreq
  · exact (h.held id (happend ▸ hid)).step hstep
  · rcases List.mem_append.mp hid with hid | hid
    · have hne : job.run ≠ id := fun heq => hdisjoint id hid next (by simp) (by rw [← heq, hrun])
      rw [jobsOf_of_append hne hjobs]
      exact h.jobs id hid
    · rw [List.mem_singleton] at hid
      have hzero : jobsOf s id = 0 := by
        rw [jobsOf, List.countP_eq_zero]
        intro j hj
        simpa [hid] using hunserved.job j hj
      rw [jobsOf, hjobs, List.countP_append]
      rw [jobsOf] at hzero
      rw [hzero]
      simp [hid, hrun]
  · obtain ⟨hjob, hworker⟩ := h.rest id (List.mem_cons_of_mem _ hid)
    have hne : job.run ≠ id := by
      rw [hrun]
      rintro rfl
      exact hnext hid
    refine ⟨fun j hj => ?_, worker_none_step hapart hstep hworker hjob⟩
    rw [hjobs, List.mem_append, List.mem_singleton] at hj
    rcases hj with hj | rfl
    · exact hjob j hj
    · exact hne

/-! ### The points of a submission -/

/-- The runs of the request, when it has ended with an error: none, or those of a batch of which
only the abandoned ones lack a job. -/
def Ended (tr : List (Entry (State μ) Action)) (s : State μ) (r : RequestId) (n : Nat) : Prop :=
  ((∀ id, ¬ CreatedBy tr r id) ∧ ∀ ids, ¬ Abandons tr r ids) ∨
    ∃ served unserved, Batch tr s r n served unserved ∧
      ∀ ids, Abandons tr r ids ↔ ids = unserved ∧ unserved ≠ []

/-- What a submission of `n` runs has left behind, by the point it is at. -/
def SubmitRun.Tracks (tr : List (Entry (State μ) Action)) (s : State μ) (r : RequestId)
    (n : Nat) : SubmitRun → Prop
  | .received => (∀ ids, ¬ Abandons tr r ids) ∧ ∀ id, ¬ CreatedBy tr r id
  | .inserting rows =>
      (∀ ids, ¬ Abandons tr r ids) ∧ (∀ id, ¬ CreatedBy tr r id) ∧ rows.length = n
  | .refreshing done next todo | .enqueueing done next todo =>
      (∀ ids, ¬ Abandons tr r ids) ∧
        Batch tr s r n (done.map Submitted.id) ((next :: todo).map Submitted.id)
  | .recording rows =>
      (∀ ids, ¬ Abandons tr r ids) ∧ Batch tr s r n (rows.map Submitted.id) []
  | .reloading _ | .answered (.ok _) =>
      (∀ ids, ¬ Abandons tr r ids) ∧ ∃ ids, Batch tr s r n ids []
  | .answered (.error _) => Ended tr s r n

theorem abandons_snoc_iff {e : Entry (State μ) Action} {ids : List Uuid}
    (h : ∀ ids, ¬ RaisesInLoop e r ids) : Abandons (tr ++ [e]) r ids ↔ Abandons tr r ids := by
  constructor
  · rintro ⟨e', he', hraises⟩
    rcases List.mem_append.mp he' with he' | he'
    · exact ⟨e', he', hraises⟩
    · rw [List.mem_singleton] at he'
      exact absurd (he' ▸ hraises) (h ids)
  · rintro ⟨e', he', hraises⟩
    exact ⟨e', List.mem_append_left _ he', hraises⟩

/-- An entry of somebody else raises nothing in the loop. -/
private theorem not_raises_of_act {e : Entry (State μ) Action}
    (hact : ∀ io, e.act ≠ .request r io) (ids : List Uuid) : ¬ RaisesInLoop e r ids := by
  intro h
  cases h with
  | refresh ha => exact hact _ ha
  | enqueue ha => exact hact _ ha

/-- A step of somebody else leaves the request where it is. -/
private theorem SubmitRun.Tracks.other {n : Nat} {q : SubmitRun} (h : q.Tracks tr s r n)
    (hapart : IdsApart s) (hact : ∀ io, a ≠ .request r io) (hstep : s.step env a = some s') :
    q.Tracks (tr ++ [⟨s, a, s'⟩]) s' r n := by
  have habandons : ∀ ids, Abandons (tr ++ [⟨s, a, s'⟩]) r ids ↔ Abandons tr r ids := fun ids =>
    abandons_snoc_iff (not_raises_of_act hact)
  have hcreated : ∀ id, CreatedBy (tr ++ [⟨s, a, s'⟩]) r id ↔ CreatedBy tr r id := fun id =>
    createdBy_snoc_iff fun ⟨io, ha, _⟩ => hact io ha
  have hbatch : ∀ {served unserved}, Batch tr s r n served unserved →
      Batch (tr ++ [⟨s, a, s'⟩]) s' r n served unserved := fun hb => hb.other hapart hact hstep
  cases q with
  | received => simpa only [Tracks, habandons, hcreated] using h
  | inserting rows => simpa only [Tracks, habandons, hcreated] using h
  | refreshing done next todo | enqueueing done next todo | recording rows =>
      exact ⟨by simpa only [habandons] using h.1, hbatch h.2⟩
  | reloading first =>
      obtain ⟨hnone, ids, hb⟩ := h
      exact ⟨by simpa only [habandons] using hnone, ids, hbatch hb⟩
  | answered answer =>
      cases answer with
      | ok run =>
          obtain ⟨hnone, ids, hb⟩ := h
          exact ⟨by simpa only [habandons] using hnone, ids, hbatch hb⟩
      | error e =>
          rcases h with h | ⟨served, unserved, hb, hleft⟩
          · exact .inl (by simpa only [habandons, hcreated] using h)
          · exact .inr ⟨served, unserved, hbatch hb, by simpa only [habandons] using hleft⟩

/-- The loop goes on with the next run, or is through. -/
private theorem SubmitRun.tracks_loop {n : Nat} {done todo : List Submitted}
    (hnone : ∀ ids, ¬ Abandons tr r ids)
    (h : Batch tr s r n (done.map Submitted.id) (todo.map Submitted.id)) :
    (SubmitRun.loop done todo).Tracks tr s r n := by
  cases todo with
  | nil => exact ⟨hnone, h⟩
  | cons next todo => exact ⟨hnone, h⟩

/-- The insert commits the rows of the whole batch, and no run has a job yet. -/
private theorem batch_of_inserted (hapart : IdsApart s) {io : Io} {project : Uuid}
    {body : RunCreate} {rows : List Submitted} (hcreated : ∀ id, ¬ CreatedBy tr r id)
    (hreq : s.requests r = some (.submitRun project body (.inserting rows)))
    (hstep : s.step env (.request r io) = some s')
    (hbackend : s'.backend = s.backend.insertRuns rows) :
    Batch (tr ++ [⟨s, .request r io, s'⟩]) s' r rows.length [] (rows.map Submitted.id) := by
  have hpending := hapart.pending r _ hreq
  have hnodup := hapart.nodup r _ hreq
  refine ⟨by simp, hnodup, fun id => ⟨?_, fun hid => ?_⟩, fun id hid => ?_, by simp,
    fun id hid => ?_⟩
  · rintro ⟨e, he, io', ha, hpre, hpost⟩
    rcases List.mem_append.mp he with he | he
    · exact absurd ⟨e, he, io', ha, hpre, hpost⟩ (hcreated id)
    · rw [List.mem_singleton] at he
      subst he
      obtain ⟨_, _, _, hreq', hid⟩ := inserting_of_created hapart hstep hpre hpost
      rw [hreq, Option.some.injEq, Request.submitRun.injEq, SubmitRun.inserting.injEq] at hreq'
      exact hreq'.2.2 ▸ hid
  · obtain ⟨sub, hsub, rfl⟩ := List.mem_map.mp hid
    refine ⟨_, List.mem_append_right _ (List.mem_singleton.mpr rfl), io, rfl, ?_, ?_⟩
    · rw [(hpending sub.id hid).1]
      rfl
    · have hslice : s'.slice sub.id = _ :=
        (congrArg (Backend.slice · sub.id) hbackend).trans (insertRuns_of_mem hsub hnodup)
      rw [hslice]
      rfl
  · have hheld : HeldBy s r id := ⟨hapart.ids r _ hreq id hid, fun r' hr q hq =>
      hapart.disjoint r r' _ q (Ne.symm hr) hreq hq id hid⟩
    exact hheld.step hstep
  · obtain ⟨-, hworker, hjob⟩ := hpending id hid
    refine ⟨?_, worker_none_step hapart hstep hworker hjob⟩
    rw [hbackend, insertRuns_jobs]
    exact hjob

theorem RaisesInLoop.ne_nil {e : Entry (State μ) Action} {ids : List Uuid}
    (h : RaisesInLoop e r ids) : ids ≠ [] := by
  cases h <;> simp

theorem RaisesInLoop.unique {e : Entry (State μ) Action} {ids ids' : List Uuid}
    (h : RaisesInLoop e r ids) (h' : RaisesInLoop e r ids') : ids' = ids := by
  cases h with
  | refresh _ hreq =>
      cases h' with
      | refresh _ hreq' => simp_all
      | enqueue _ hreq' => simp_all
  | enqueue _ hreq =>
      cases h' with
      | refresh _ hreq' => simp_all
      | enqueue _ hreq' => simp_all

private theorem abandons_of_raises {e : Entry (State μ) Action} {ids ids' : List Uuid}
    (hnone : ∀ ids, ¬ Abandons tr r ids) (h : RaisesInLoop e r ids) :
    Abandons (tr ++ [e]) r ids' ↔ ids' = ids ∧ ids ≠ [] := by
  constructor
  · rintro ⟨e', he', hraises⟩
    rcases List.mem_append.mp he' with he' | he'
    · exact absurd ⟨e', he', hraises⟩ (hnone ids')
    · rw [List.mem_singleton] at he'
      exact ⟨h.unique (he' ▸ hraises), h.ne_nil⟩
  · rintro ⟨rfl, -⟩
    exact ⟨e, List.mem_append_right _ (List.mem_singleton.mpr rfl), h⟩

/-- A step of the request itself. -/
private theorem SubmitRun.Tracks.own {io : Io} {project : Uuid} {body : RunCreate}
    {q q' : SubmitRun} (h : q.Tracks tr s r body.seeds) (hapart : IdsApart s)
    (hreq : s.requests r = some (.submitRun project body q))
    (hstep : s.step env (.request r io) = some s')
    (hmove : SubmitMove env.spur env.settings project body io s.backend q q' s'.backend) :
    q'.Tracks (tr ++ [⟨s, .request r io, s'⟩]) s' r body.seeds := by
  -- what the step raises in the loop, and what it commits, is read off the point it starts at
  have hpoint : ∀ {project' body' q₁}, s.requests r = some (.submitRun project' body' q₁) →
      q = q₁ := by
    intro project' body' q₁ hq₁
    rw [hreq, Option.some.injEq, Request.submitRun.injEq] at hq₁
    exact hq₁.2.2
  have hinsert : (∀ rows, q ≠ .inserting rows) → ∀ project' body' rows,
      s.requests r ≠ some (.submitRun project' body' (.inserting rows)) :=
    fun hq _ _ rows hreq' => hq rows (hpoint hreq')
  have hkept : (∀ id, (s.slice id).row = none → (s'.slice id).row = none) → ∀ id,
      CreatedBy (tr ++ [⟨s, .request r io, s'⟩]) r id ↔ CreatedBy tr r id := by
    refine fun hnone id => createdBy_snoc_iff ?_
    rintro ⟨_, -, hpre, hpost⟩
    simp [hnone id hpre] at hpost
  have hquiet : (∀ done next todo, q ≠ .refreshing done next todo) →
      (∀ done next todo, q ≠ .enqueueing done next todo) → ∀ ids,
        Abandons (tr ++ [⟨s, .request r io, s'⟩]) r ids ↔ Abandons tr r ids := by
    refine fun hrefresh henqueue ids => abandons_snoc_iff fun ids' hraises => ?_
    cases hraises with
    | refresh _ hreq' => exact hrefresh _ _ _ (hpoint hreq')
    | enqueue _ hreq' => exact henqueue _ _ _ (hpoint hreq')
  generalize hb : s'.backend = b' at hmove
  cases hmove with
  | missing | invalid | noTarget | unstorable | insertRefused =>
      refine .inl ⟨fun id => ?_, fun ids => ?_⟩
      · rw [hkept fun id hnone => by rw [State.slice, hb]; exact hnone]
        first | exact h.2 id | exact h.2.1 id
      · rw [hquiet (by simp) (by simp)]
        exact h.1 ids
  | @built _ _ _ ids _ _ _ hlen =>
      refine ⟨fun ids => ?_, fun id => ?_, ?_⟩
      · rw [hquiet (by simp) (by simp)]
        exact h.1 ids
      · rw [hkept fun id hnone => by rw [State.slice, hb]; exact hnone]
        exact h.2 id
      · rw [← List.length_map (f := Submitted.id), runRows_ids, hlen]
  | inserted =>
      refine SubmitRun.tracks_loop (fun ids => ?_) ?_
      · rw [hquiet (by simp) (by simp)]
        exact h.1 ids
      · rw [← h.2.2]
        exact batch_of_inserted hapart h.2.1 hreq hstep hb
  | flushRaised hflush =>
      exact .inr ⟨_, _, h.2.own hapart hstep (hinsert (by simp)) (by rw [hb]), fun ids =>
        abandons_of_raises h.1 (.refresh rfl hreq (.inl ⟨_, hflush⟩))⟩
  | refreshRaised hrow =>
      exact .inr ⟨_, _, h.2.own hapart hstep (hinsert (by simp)) (by rw [hb]), fun ids =>
        abandons_of_raises h.1 (.refresh rfl hreq (.inr hrow))⟩
  | refreshed hflush hrow =>
      refine ⟨fun ids => ?_, h.2.own hapart hstep (hinsert (by simp)) (by rw [hb])⟩
      rw [abandons_snoc_iff]
      · exact h.1 ids
      · intro ids' hraises
        cases hraises with
        | refresh _ hreq' hfails =>
            have hq := hpoint hreq'
            rw [SubmitRun.refreshing.injEq] at hq
            obtain ⟨rfl, rfl, rfl⟩ := hq
            rcases hfails with ⟨x, hx⟩ | hnone
            · rw [hflush] at hx
              simp at hx
            · rw [State.slice, hrow] at hnone
              simp at hnone
        | enqueue _ hreq' => simpa using hpoint hreq'
  | enqueueRaised hfault =>
      exact .inr ⟨_, _, h.2.own hapart hstep (hinsert (by simp)) (by rw [hb]), fun ids =>
        abandons_of_raises h.1 (.enqueue rfl hreq (by simp [hfault]))⟩
  | enqueued hfault =>
      refine SubmitRun.tracks_loop (fun ids => ?_) ?_
      · rw [abandons_snoc_iff]
        · exact h.1 ids
        · intro ids' hraises
          cases hraises with
          | refresh _ hreq' => simpa using hpoint hreq'
          | enqueue ha _ hfails =>
              rw [Action.request.injEq] at ha
              exact hfails (ha.2 ▸ hfault)
      · rw [List.map_append]
        exact h.2.enqueue hapart hstep (hinsert (by simp)) rfl (by rw [hb])
  | commitRaised =>
      refine .inr ⟨_, _, h.2.own hapart hstep (hinsert (by simp)) (by rw [hb]), fun ids => ?_⟩
      rw [hquiet (by simp) (by simp)]
      simp [h.1 ids]
  | recorded hcommit =>
      refine ⟨fun ids => ?_, _, h.2.own hapart hstep (hinsert (by simp)) ?_⟩
      · rw [hquiet (by simp) (by simp)]
        exact h.1 ids
      · rw [hb, commitJobIds_jobs hcommit]
  | reloadFailed =>
      obtain ⟨hnone, ids, hbatch⟩ := h
      refine .inr ⟨_, _, hbatch.own hapart hstep (hinsert (by simp)) (by rw [hb]), fun ids => ?_⟩
      rw [hquiet (by simp) (by simp)]
      simp [hnone ids]
  | reloaded =>
      obtain ⟨hnone, ids, hbatch⟩ := h
      refine ⟨fun ids => ?_, _, hbatch.own hapart hstep (hinsert (by simp)) (by rw [hb])⟩
      rw [hquiet (by simp) (by simp)]
      exact hnone ids

/-- A request that has arrived stays. -/
theorem requests_isSome_step (hstep : s.step env a = some s')
    (h : (s.requests r).isSome) : (s'.requests r).isSome := by
  have hset : ∀ r' q b, ((s.setRequest r' q b).requests r).isSome := by
    intro r' q b
    by_cases hr : r = r'
    · rw [hr, State.setRequest_requests_self]
      rfl
    · rwa [State.setRequest_requests_ne s q b hr]
  cases service_step hstep with
  | arrive | request => exact hset ..
  | read | deliver | work => exact h

/-- Nothing is done for a request that has not arrived. -/
theorem not_acted_of_none (h : Exec (system env) s₀ tr s) (hnone : s.requests r = none) :
    ∀ e ∈ tr, ∀ io, e.act ≠ .request r io := by
  intro e he io ha
  obtain ⟨_, _, _, _, hstep, hrest⟩ := h.of_mem he
  have hpre : (e.pre.requests r).isSome := by
    have hown : e.pre.step env (.request r io) = some e.post := ha ▸ hstep
    generalize e.post = m at hown
    cases service_step hown with
    | request hq _ => rw [hq, Option.isSome_some]
  have hsome := hrest.invariant (I := fun s => (s.requests r).isSome)
    (requests_isSome_step hstep hpre) fun _ _ _ hI hs => requests_isSome_step hs hI
  simp [hnone] at hsome

/-- **What a submission has left behind**, at every point, in every state that is reached. -/
theorem SubmitRun.tracks (h₀ : s₀.Initial) (h : Exec (system env) s₀ tr s) :
    ∀ {project : Uuid} {body : RunCreate} {q : SubmitRun},
      s.requests r = some (.submitRun project body q) → q.Tracks tr s r body.seeds := by
  induction h with
  | nil =>
      intro project body q hq
      simp [h₀.requests] at hq
  | @snoc tr s s' a h hstep ih =>
      intro project body q hq
      have hapart := IdsApart.exec h₀ h
      cases request_step hstep hq with
      | kept hact hpre => exact (ih hpre).other hapart hact hstep
      | arrived ha hnone hreceived =>
          have hact := not_acted_of_none h hnone
          have hstart : SubmitRun.Tracks tr s r body.seeds .received := by
            refine ⟨fun ids => ?_, fun id => ?_⟩
            · rintro ⟨e, he, hraises⟩
              exact not_raises_of_act (hact e he) ids hraises
            · rintro ⟨e, he, io, hio, -⟩
              exact hact e he io hio
          cases q with
          | received => exact hstart.other hapart (by simp [ha]) hstep
          | _ => simp [Request.isReceived] at hreceived
      | @stepped io q₀ ha hpre hqstep =>
          subst ha
          obtain ⟨point, rfl, hmove⟩ := submitMove_of_request hqstep
          exact (ih hpre).own hapart hpre hstep hmove

/-! ### All or nothing -/

/-- A submission of `n` runs that returned committed `n` rows and enqueued one job for each; one
that raised leaves no queued run without a job. -/
def AllOrNothing (tr : List (Entry (State μ) Action)) (s : State μ) (r : RequestId) (n : Nat) :
    Except ApiError Run → Prop
  | .ok _ => ∃ ids : List Uuid, ids.length = n ∧ ids.Nodup ∧ (∀ id, CreatedBy tr r id ↔ id ∈ ids) ∧
      ∀ id ∈ ids, jobsOf s id = 1
  | .error _ => ∀ id, CreatedBy tr r id → ∀ row, (s.slice id).row = some row →
      row.status = .queued → ∃ j ∈ s.backend.jobs, j.run = id

/-- A run that has no worker is still as its submission left it. -/
private theorem queued_of_unserved (hok : RunsOk env.spur s) (h : Unserved s id)
    {row : SimulationRunRow} (hrow : (s.slice id).row = some row) : row.status = .queued := by
  obtain ⟨-, hrun⟩ := hok.runs id row hrow
  rw [h.worker] at hrun
  exact hrun.1.status

/-- **A submission is all or nothing** exactly when no exception left its loop over the runs of
the batch, or every run that had no job then has been deleted. -/
theorem all_or_nothing_iff (h₀ : s₀.Initial) (h : Exec (system env) s₀ tr s) {project : Uuid}
    {body : RunCreate} {answer : Except ApiError Run}
    (hreq : s.requests r = some (.submitRun project body (.answered answer))) :
    AllOrNothing tr s r body.seeds answer ↔
      ∀ ids, Abandons tr r ids → ∀ id ∈ ids, (s.slice id).row = none := by
  have htracks := SubmitRun.tracks h₀ h hreq
  cases answer with
  | ok run =>
      obtain ⟨hnone, ids, hbatch⟩ := htracks
      refine ⟨fun _ ids' h' => absurd h' (hnone ids'), fun _ => ⟨ids, ?_⟩⟩
      have hids : ids ++ [] = ids := List.append_nil ids
      exact ⟨hids ▸ hbatch.length, hids ▸ hbatch.nodup, hids ▸ hbatch.created, hbatch.jobs⟩
  | error e =>
      rcases htracks with ⟨hcreated, hnone⟩ | ⟨served, unserved, hbatch, hleft⟩
      · exact ⟨fun _ ids' h' => absurd h' (hnone ids'), fun _ id h' => absurd h' (hcreated id)⟩
      · constructor
        · intro hall ids hids id hid
          obtain ⟨rfl, -⟩ := (hleft ids).mp hids
          have hunserved := hbatch.rest id hid
          cases hrow : (s.slice id).row with
          | none => rfl
          | some row =>
              have hcreated := (hbatch.created id).mpr (List.mem_append_right _ hid)
              have hqueued := queued_of_unserved (RunsOk.exec h₀ h) hunserved hrow
              obtain ⟨j, hj, hrun⟩ := hall id hcreated row hrow hqueued
              exact absurd hrun (hunserved.job j hj)
        · intro hgone id hcreated row hrow hqueued
          rcases List.mem_append.mp ((hbatch.created id).mp hcreated) with hid | hid
          · have hone := hbatch.jobs id hid
            have hpos : 0 < jobsOf s id := by omega
            obtain ⟨j, hj, hrun⟩ := List.countP_pos_iff.mp hpos
            exact ⟨j, hj, beq_iff_eq.mp hrun⟩
          · have hnone := hgone unserved
              ((hleft unserved).mpr ⟨rfl, List.ne_nil_of_mem hid⟩) id hid
            rw [hrow] at hnone
            simp at hnone

end

/-- The pair is submitted as runs 3 and 4; `last` is what happens at the second `enqueue_job`. -/
def submitPair (last : Io) : List Action :=
  [.arrive 0 (.createProject (.blank "A") none none .received), .request 0 {},
    .request 0 { ids := [1] }, .arrive 1 (.submitRun 1 (.pair (some 2) (some 1)) .received),
    .request 1 { ids := [2, 3, 4] }, .request 1 {}, .request 1 {}, .request 1 { jobId := "3" },
    .request 1 {}, .request 1 last]

def submittedPair : List (Entry (State Int) Action) × State Int :=
  (system clockEnv).played State.empty
    (submitPair { jobId := "4" } ++ [.request 1 {}, .request 1 {}]) (by decide)

/-- A submission that returns. -/
theorem pair_is_submitted : ∃ run,
    submittedPair.2.requests 1 =
        some (.submitRun 1 (.pair (some 2) (some 1)) (.answered (.ok run))) ∧
      AllOrNothing submittedPair.1 submittedPair.2 1 2 (.ok run) := by
  have hexec : Exec (system clockEnv) State.empty submittedPair.1 submittedPair.2 :=
    Machine.played_exec _
  refine ⟨_, rfl, (all_or_nothing_iff State.empty_initial hexec (r := 1) rfl).mpr ?_⟩
  have htracks := SubmitRun.tracks State.empty_initial hexec (r := 1) rfl
  exact fun ids h => absurd h (htracks.1 ids)

/-- Redis cannot be reached. -/
def redisGone : Io := { fault := some ⟨⟨.other, "Connection refused"⟩, false⟩ }

def halfSubmitted : List (Entry (State Int) Action) × State Int :=
  (system clockEnv).played State.empty (submitPair redisGone) (by decide)

/-- The second run of the pair is queued without a job. -/
theorem second_run_has_no_job : ∃ e,
    Exec (system clockEnv) State.empty halfSubmitted.1 halfSubmitted.2 ∧
      halfSubmitted.2.requests 1 =
        some (.submitRun 1 (.pair (some 2) (some 1)) (.answered (.error e))) ∧
      ¬ AllOrNothing halfSubmitted.1 halfSubmitted.2 1 2 (.error e) := by
  refine ⟨_, Machine.played_exec _, rfl, fun h => ?_⟩
  have hcreated : CreatedBy halfSubmitted.1 1 4 :=
    ⟨_, List.get_mem halfSubmitted.1 ⟨5, by decide⟩, _, rfl, rfl, rfl⟩
  obtain ⟨j, hj, hrun⟩ := h 4 hcreated _ rfl rfl
  obtain rfl : j = ⟨"3", 3⟩ := List.mem_singleton.mp hj
  exact absurd hrun (by decide)

end SpurApi
