/-
A request happens at once, or not at all.

The operations of a history are in the order in which they were committed, and each of
them is a step of some request or worker, so it falls between the arrival of the request
and its answer.  What is said here is that a request does what it says it did: one that
is answered with success has done its operation once, or is a deletion that came second;
one that is refused has done nothing, and one that fails with 500 may have done it and not
been able to say so.
-/
import SpurApi.Proofs.Refinement

namespace SpurApi

open Transition

/-! ### The operations of one request, and of one worker -/

section

variable {μ : Type} {env : Env μ} {s₀ s s' : State μ} {a : Action} {r : RequestId} {run : Uuid}
  {tr : List (Entry (State μ) Action)}

/-- The operation of an entry, if it is a step of the request. -/
def ownOp (env : Env μ) (r : RequestId) (e : Entry (State μ) Action) : Option Op :=
  match e.act with
  | .request r' _ => if r' = r then opOf env e else none
  | _ => none

/-- The operations of a request in a history. -/
def ownOps (env : Env μ) (r : RequestId) (tr : List (Entry (State μ) Action)) : List Op :=
  shown (ownOp env r) tr

/-- The operation of an entry, if it is a step of the run's worker. -/
def workOp (env : Env μ) (run : Uuid) (e : Entry (State μ) Action) : Option Op :=
  match e.act with
  | .work run' _ => if run' = run then opOf env e else none
  | _ => none

/-- The operations of the worker of a run in a history. -/
def workOps (env : Env μ) (run : Uuid) (tr : List (Entry (State μ) Action)) : List Op :=
  shown (workOp env run) tr

theorem ownOp_other {e : Entry (State μ) Action} (h : ∀ io, e.act ≠ .request r io) :
    ownOp env r e = none := by
  unfold ownOp
  split
  · rename_i r' io hact
    split
    · rename_i heq
      exact absurd (heq ▸ hact) (h io)
    · rfl
  · rfl

theorem workOp_other {e : Entry (State μ) Action} (h : ∀ io, e.act ≠ .work run io) :
    workOp env run e = none := by
  unfold workOp
  split
  · rename_i run' io hact
    split
    · rename_i heq
      exact absurd (heq ▸ hact) (h io)
    · rfl
  · rfl

theorem ownOps_of_none (h : Exec (system env) s₀ tr s) (hnone : s.requests r = none) :
    ownOps env r tr = [] :=
  List.filterMap_eq_nil_iff.mpr fun e he => ownOp_other (not_acted_of_none h hnone e he)

/-! ### What a request has done -/

/-- It has submitted these runs, as many as were asked for, and nothing else. -/
def Submits (project : Uuid) (seeds : Nat) (ids : List Uuid) (did : List Op) : Prop :=
  ∃ runs, did = [.submit project runs] ∧ runs.length = seeds ∧ runs.map Prod.fst = ids

/-- What a request that stands here has done. -/
def Request.Did (did : List Op) : Request → Prop
  | .updateProject id _ body point =>
      match point with
      | .received | .reading _ | .checked _ _ | .refused _ => did = []
      | .saved | .answered (.ok _) => ∃ now, did = [.save id body now]
      | .answered (.error e) => did = [] ∨ e.status = 500 ∧ ∃ now, did = [.save id body now]
  | .createProject body owner _ point =>
      match point with
      | .received | .inserting _ => did = []
      | .created id => ∃ base now, did = [.create id body owner base now]
      | .answered (.ok answer) => ∃ base now, did = [.create answer.id body owner base now]
      | .answered (.error e) =>
          did = [] ∨ e.status = 500 ∧ ∃ id base now, did = [.create id body owner base now]
  | .deleteProject id point =>
      match point with
      | .received | .deleting | .answered (.error _) => did = []
      -- another request may have deleted it in between
      | .answered (.ok _) => did = [.deleteProject id] ∨ did = []
  | .submitRun project body point =>
      match point with
      | .received => did = []
      | .inserting rows => did = [] ∧ rows.length = body.seeds
      | .refreshing _ _ _ | .enqueueing _ _ _ | .recording _ =>
          Submits project body.seeds point.ids did
      | .reloading _ | .answered (.ok _) =>
          ∃ runs jobs, did = [.submit project runs, .record jobs] ∧ runs.length = body.seeds ∧
            jobs.map Prod.fst = runs.map Prod.fst
      -- what comes after the insert can fail, and so can what comes after the job ids
      | .answered (.error e) =>
          did = [] ∨ e.status = 500 ∧ ∃ runs, runs.length = body.seeds ∧
            (did = [.submit project runs] ∨
              ∃ jobs, did = [.submit project runs, .record jobs] ∧
                jobs.map Prod.fst = runs.map Prod.fst)
  | .editRun run edit point =>
      match point with
      | .received => did = []
      | .loaded copy =>
          did = if SimulationRunRow.dirty copy (edit.apply copy) then [] else [.edit run edit]
      | .committed | .answered (.ok _) => did = [.edit run edit]
      | .answered (.error e) => did = [] ∨ e.status = 500 ∧ did = [.edit run edit]
  | .deleteRun run point =>
      match point with
      | .received | .deleting | .answered (.error _) => did = []
      | .answered (.ok _) => did = [.deleteRun run] ∨ did = []

/-- A step without an operation. -/
theorem Request.Did.quiet {db : Db} {io : Io} {q q' : Request} {did : List Op} (h : q'.Did did)
    (hop : q.op db io q' = none) : q'.Did (did ++ (q.op db io q').toList) := by
  rwa [hop, Option.toList_none, List.append_nil]

theorem PutMove.did {id : Uuid} {ifMatch : Option HeaderValue} {body : ProjectSpec} {io : Io}
    {b b' : Backend} {q q' : UpdateProject} {did : List Op}
    (h : (Request.updateProject id ifMatch body q).Did did)
    (hmove : PutMove r id ifMatch body io b q q' b') :
    (Request.updateProject id ifMatch body q').Did (did ++ (Request.op b.db io
      (.updateProject id ifMatch body q) (.updateProject id ifMatch body q')).toList) := by
  cases hmove with
  | saved =>
      rw [show did = [] from h]
      exact ⟨io.now, rfl⟩
  | reloadFailed => exact .quiet (.inr ⟨rfl, h⟩) rfl
  | reloaded => exact .quiet h rfl
  | badHeader | missing | unstorable | vanished | closed =>
      rw [show did = [] from h]
      exact .inl rfl
  | parsed | stale | passed =>
      rw [show did = [] from h]
      rfl

theorem CreateMove.did {body : ProjectSpec} {owner : Option String} {base : Option Uuid} {io : Io}
    {b b' : Backend} {q q' : CreateProject} {did : List Op}
    (h : (Request.createProject body owner base q).Did did)
    (hmove : CreateMove body owner base io b q q' b') :
    (Request.createProject body owner base q').Did (did ++ (Request.op b.db io
      (.createProject body owner base q) (.createProject body owner base q')).toList) := by
  cases hmove with
  | @inserted baseId =>
      rw [show did = [] from h]
      exact ⟨baseId, io.now, rfl⟩
  | reloadFailed => exact .quiet (.inr ⟨rfl, _, h⟩) rfl
  | reloaded => exact .quiet h rfl
  | missing | unstorable | baseGone =>
      rw [show did = [] from h]
      exact .inl rfl
  | alone | named =>
      rw [show did = [] from h]
      rfl

theorem DeleteProject.did {id : Uuid} {io : Io} {b b' : Backend} {q q' : DeleteProject}
    {did : List Op} (h : (Request.deleteProject id q).Did did)
    (hstep : q.step id b = some (q', b')) : (Request.deleteProject id q').Did
      (did ++ (Request.op b.db io (.deleteProject id q) (.deleteProject id q')).toList) := by
  cases q with
  | received =>
      rw [show did = [] from h]
      rw [DeleteProject.step] at hstep
      split at hstep <;> simp only [Option.some.injEq, Prod.mk.injEq] at hstep <;>
        obtain ⟨rfl, -⟩ := hstep <;> rfl
  | deleting =>
      rw [show did = [] from h]
      rw [DeleteProject.step, Option.ite_none_left_eq_some, Option.some.injEq,
        Prod.mk.injEq] at hstep
      obtain ⟨-, rfl, -⟩ := hstep
      rw [Request.op, List.nil_append]
      split
      · exact .inl rfl
      · exact .inr rfl
  | answered a => simp [DeleteProject.step] at hstep

theorem DeleteRun.did {io : Io} {b b' : Backend} {q q' : DeleteRun} {did : List Op}
    (h : (Request.deleteRun run q).Did did) (hstep : q.step run b = some (q', b')) :
    (Request.deleteRun run q').Did
      (did ++ (Request.op b.db io (.deleteRun run q) (.deleteRun run q')).toList) := by
  cases q with
  | received =>
      rw [show did = [] from h]
      rw [DeleteRun.step] at hstep
      split at hstep <;> simp only [Option.some.injEq, Prod.mk.injEq] at hstep <;>
        obtain ⟨rfl, -⟩ := hstep <;> rfl
  | deleting =>
      rw [show did = [] from h]
      rw [DeleteRun.step, Option.some.injEq, Prod.mk.injEq] at hstep
      obtain ⟨rfl, -⟩ := hstep
      rw [Request.op, List.nil_append]
      split
      · exact .inl rfl
      · exact .inr rfl
  | answered a => simp [DeleteRun.step] at hstep

theorem EditMove.did {e : RunEdit} {io : Io} {b b' : Backend} {q q' : EditRun} {did : List Op}
    (h : (Request.editRun run e q).Did did) (hmove : EditMove run e b q q' b') :
    (Request.editRun run e q').Did
      (did ++ (Request.op b.db io (.editRun run e q) (.editRun run e q')).toList) := by
  cases hmove with
  | missing =>
      rw [show did = [] from h]
      exact .inl rfl
  | loaded =>
      rw [show did = [] from h, Request.op, List.nil_append, Request.Did]
      split <;> rfl
  | unstorable hdirty =>
      simp only [Request.Did, hdirty, if_true] at h
      rw [h]
      exact .inl rfl
  | updateRaised _ hupdate =>
      unfold updateRun at hupdate
      split at hupdate
      · rename_i hdirty
        simp only [Request.Did, hdirty, if_true] at h
        rw [h]
        exact .inl rfl
      · simp at hupdate
  | committed =>
      rw [Request.Did] at h
      rw [h, Request.op, Request.Did]
      split <;> rfl
  | reloadFailed => exact .quiet (.inr ⟨rfl, h⟩) rfl
  | reloaded => exact .quiet h rfl

theorem runRows_length (id : Uuid) (project : ProjectRow) (body : RunCreate) (untilTarget : Int)
    (batchId : Option Uuid) (seed : Int) (ids : List Uuid) :
    (runRows id project body untilTarget batchId seed ids).length = ids.length := by
  rw [← List.length_map (f := Submitted.id), runRows_ids]

theorem SubmitMove.did {spur : Spur μ} {settings : Settings} {id : Uuid} {body : RunCreate}
    {io : Io} {b b' : Backend} {q q' : SubmitRun} {did : List Op}
    (h : (Request.submitRun id body q).Did did)
    (hjobs : ∀ rows, q = .recording rows → ∀ sub ∈ rows, ∃ jobId, sub.jobId = some jobId)
    (hmove : SubmitMove spur settings id body io b q q' b') :
    (Request.submitRun id body q').Did (did ++ (Request.op b.db io
      (.submitRun id body q) (.submitRun id body q')).toList) := by
  cases hmove with
  | missing | invalid | noTarget =>
      rw [show did = [] from h]
      exact .inl rfl
  | built _ _ _ hlen =>
      rw [show did = [] from h]
      exact ⟨rfl, (runRows_length ..).trans hlen⟩
  | unstorable | insertRefused =>
      rw [h.1]
      exact .inl rfl
  | @inserted rows =>
      obtain ⟨rfl, hlen⟩ := h
      have hruns : ∀ rows : List Submitted, (rows.map fun s => (s.id, s.row)).map Prod.fst =
          rows.map Submitted.id := fun rows => by simp
      cases rows with
      | nil => exact ⟨_, rfl, by simpa using hlen, rfl⟩
      | cons sub rest =>
          exact ⟨_, rfl, by simpa using hlen, hruns (sub :: rest)⟩
  | flushRaised | refreshRaised | enqueueRaised | commitRaised =>
      obtain ⟨runs, rfl, hlen, -⟩ := h
      exact .inr ⟨rfl, runs, hlen, .inl rfl⟩
  | refreshed =>
      refine .quiet ?_ rfl
      obtain ⟨runs, hdid, hlen, hids⟩ := h
      exact ⟨runs, hdid, hlen, by simpa [SubmitRun.ids] using hids⟩
  | @enqueued done todo next =>
      obtain ⟨runs, rfl, hlen, hids⟩ := h
      have hids' : runs.map Prod.fst =
          (SubmitRun.loop (done ++ [{ next with jobId := some io.jobId }]) todo).ids := by
        rw [hids, SubmitRun.loop_ids]
        simp [SubmitRun.ids]
      cases todo with
      | nil => exact ⟨runs, rfl, hlen, hids'⟩
      | cons next' todo => exact ⟨runs, rfl, hlen, hids'⟩
  | @recorded sub rest =>
      obtain ⟨runs, rfl, hlen, hids⟩ := h
      refine ⟨runs, _, rfl, hlen, ?_⟩
      rw [hids, SubmitRun.ids, List.map_filterMap, ← List.filterMap_eq_map]
      refine List.filterMap_congr fun sub' hsub' => ?_
      obtain ⟨jobId, hjob⟩ := hjobs _ rfl sub' hsub'
      rw [hjob]
      rfl
  | reloadFailed =>
      obtain ⟨runs, jobs, rfl, hlen, hids⟩ := h
      exact .inr ⟨rfl, runs, hlen, .inr ⟨jobs, rfl, hids⟩⟩
  | reloaded => exact .quiet h rfl

/-- **A step of a request keeps what is said of it.** -/
theorem Request.Did.step {io : Io} {b b' : Backend} {q q' : Request} {did : List Op}
    (h : q.Did did) (hstep : q.step env r io b = some (q', b'))
    (hjobs : ∀ project body rows, q = .submitRun project body (.recording rows) →
      ∀ sub ∈ rows, ∃ jobId, sub.jobId = some jobId) :
    q'.Did (did ++ (q.op b.db io q').toList) := by
  cases q with
  | updateProject id ifMatch body point =>
      simp only [Request.step, Option.map_eq_some_iff, Prod.exists, Prod.mk.injEq] at hstep
      obtain ⟨_, _, hpoint, rfl, rfl⟩ := hstep
      exact PutMove.did h (putMove_of_step hpoint)
  | createProject body owner base point =>
      simp only [Request.step, Option.map_eq_some_iff, Prod.exists, Prod.mk.injEq] at hstep
      obtain ⟨_, _, hpoint, rfl, rfl⟩ := hstep
      exact CreateMove.did h (createMove_of_step hpoint)
  | deleteProject id point =>
      simp only [Request.step, Option.map_eq_some_iff, Prod.exists, Prod.mk.injEq] at hstep
      obtain ⟨_, _, hpoint, rfl, rfl⟩ := hstep
      exact DeleteProject.did h hpoint
  | submitRun project body point =>
      simp only [Request.step, Option.map_eq_some_iff, Prod.exists, Prod.mk.injEq] at hstep
      obtain ⟨_, _, hpoint, rfl, rfl⟩ := hstep
      exact SubmitMove.did h (fun rows hq => hjobs _ _ rows (by rw [hq]))
        (submitMove_of_step hpoint)
  | editRun run edit point =>
      simp only [Request.step, Option.map_eq_some_iff, Prod.exists, Prod.mk.injEq] at hstep
      obtain ⟨_, _, hpoint, rfl, rfl⟩ := hstep
      exact EditMove.did h (editMove_of_step hpoint)
  | deleteRun run point =>
      simp only [Request.step, Option.map_eq_some_iff, Prod.exists, Prod.mk.injEq] at hstep
      obtain ⟨_, _, hpoint, rfl, rfl⟩ := hstep
      exact DeleteRun.did h hpoint

theorem did_of_isReceived {q : Request} (h : q.isReceived = true) : q.Did [] := by
  cases q with
  | updateProject _ _ _ point => cases point <;> simp_all [Request.isReceived, Request.Did]
  | createProject _ _ _ point => cases point <;> simp_all [Request.isReceived, Request.Did]
  | deleteProject _ point => cases point <;> simp_all [Request.isReceived, Request.Did]
  | submitRun _ _ point => cases point <;> simp_all [Request.isReceived, Request.Did]
  | editRun _ _ point => cases point <;> simp_all [Request.isReceived, Request.Did]
  | deleteRun _ point => cases point <;> simp_all [Request.isReceived, Request.Did]

/-- What a request has done, at every point, in every state that is reached. -/
theorem request_did (h₀ : s₀.Initial) (h : Exec (system env) s₀ tr s) :
    ∀ {q : Request}, s.requests r = some q → q.Did (ownOps env r tr) := by
  induction h with
  | nil =>
      intro q hq
      simp [h₀.requests] at hq
  | @snoc tr s s' a h hstep ih =>
      intro q' hq'
      rw [ownOps, shown_append, shown_single]
      cases request_step hstep hq' with
      | kept hact hq =>
          rw [ownOp_other hact, Option.toList_none, List.append_nil]
          exact ih hq
      | arrived ha hnone hreceived =>
          have hnil : shown (ownOp env r) tr = [] := ownOps_of_none h hnone
          rw [hnil, ownOp_other (by simp [ha])]
          exact did_of_isReceived hreceived
      | @stepped io q ha hq hqstep =>
          subst ha
          have hop : ownOp env r ⟨s, .request r io, s'⟩ = q.op s.backend.db io q' := by
            simp only [ownOp, if_true, opOf, hq, hq']
          rw [hop]
          refine (ih hq).step hqstep fun project body rows hrows sub hsub => ?_
          subst hrows
          obtain ⟨-, hjobs⟩ := SubmitRun.records h₀ h hq
          obtain ⟨jobId, hjob, -⟩ := hjobs sub hsub
          exact ⟨jobId, hjob⟩

/-! ### What a worker has done -/

/-- The run was started, and its chunks were reported. -/
def Started (run : Uuid) (did : List Op) : Prop :=
  ∃ now reports, did = .start run now :: reports ∧
    ∀ op ∈ reports, ∃ simTimeNow events, op = .report run simTimeNow events

/-- The last operation of a run. -/
def EndsRun (run : Uuid) (op : Op) : Prop :=
  (∃ now e, op = .fail run now e) ∨ ∃ now outcome, op = .finish run now outcome

/-- What the worker of a run that is there has done. -/
def WorkerPoint.Did (run : Uuid) (did : List Op) : Option (WorkerPoint μ) → Prop
  | none | some .loading | some (.loadingProject _) | some (.marking _ _) => did = []
  | some (.running _ _) | some (.handling _ _) | some (.finishing _ _) => Started run did
  | some .returned => ∃ done last, did = done ++ [last] ∧ Started run done ∧ EndsRun run last
  | some (.raised _) => did = [] ∨ Started run did

theorem Started.report {did : List Op} (h : Started run did) (simTimeNow : Int)
    (events : List SimEvent) : Started run (did ++ [.report run simTimeNow events]) := by
  obtain ⟨now, reports, rfl, hreports⟩ := h
  refine ⟨now, reports ++ [.report run simTimeNow events], rfl, fun op hop => ?_⟩
  rcases List.mem_append.mp hop with hop | hop
  · exact hreports op hop
  · exact ⟨simTimeNow, events, List.mem_singleton.mp hop⟩

theorem Started.settle {did : List Op} (h : Started run did) (w : WorkerSession)
    (q : RunPoint μ) : WorkerPoint.Did run did (some (w.settle q)) := by
  cases q <;> exact h

theorem WorkerMove.did {project : Option ProjectRow} {io : Io} {p p' : WorkerPoint μ}
    {db d : RunSlice} {did : List Op} (h : WorkerPoint.Did run did (some p))
    (hmove : WorkerMove env project io db p p' d) :
    WorkerPoint.Did run (did ++ (p.op env.spur run io p').toList) (some p') := by
  cases hmove with
  | loadRaised | projectRaised | markRaised =>
      rw [show did = [] from h]
      exact .inl rfl
  | loaded | loadedBare | projectLoaded =>
      rw [show did = [] from h]
      rfl
  | marked =>
      rw [show did = [] from h]
      exact ⟨io.now, [], rfl, by simp⟩
  | askRaised | asked | flushRaised =>
      rw [WorkerPoint.op.eq_def, Option.toList_none, List.append_nil]
      exact h
  | @flushed w w' l place =>
      cases place with
      | chunk =>
          simp only [RunPoint.flushed, Loop.head]
          split <;> exact Started.report h _ _
      | cancelled | final => exact Started.report h _ _
  | @advanced w q _ hflush =>
      cases q with
      | flushing l place => exact absurd rfl (hflush l place)
      | _ =>
          rw [WorkerPoint.op.eq_def, Option.toList_none, List.append_nil]
          exact Started.settle h w _
  | handlerLost | handlerRaised | finishRaised =>
      rw [WorkerPoint.op.eq_def, Option.toList_none, List.append_nil]
      exact .inr h
  | @handled w e => exact ⟨did, .fail run io.now e, rfl, h, .inl ⟨_, _, rfl⟩⟩
  | @finished w outcome => exact ⟨did, .finish run io.now outcome, rfl, h, .inr ⟨_, _, rfl⟩⟩

/-- What the worker of a run has done, in every state that is reached. -/
theorem work_did (h₀ : s₀.Initial) (h : Exec (system env) s₀ tr s) :
    (s.workers run = none → workOps env run tr = []) ∧
      ∀ row, (s.slice run).row = some row →
        WorkerPoint.Did run (workOps env run tr) (s.workers run) := by
  induction h with
  | nil => exact ⟨fun _ => rfl, fun row hrow => (h₀.not_row hrow).elim⟩
  | @snoc tr s s' a h hstep ih =>
      obtain ⟨hnone, hdid⟩ := ih
      have hok := RunsOk.exec h₀ h
      have hother : (∀ io, a ≠ .work run io) →
          workOps env run (tr ++ [⟨s, a, s'⟩]) = workOps env run tr := by
        intro hact
        rw [workOps, shown_append, shown_single, workOp_other hact, Option.toList_none,
          List.append_nil]
        rfl
      refine ⟨fun hworker' => ?_, fun row' hrow' => ?_⟩
      · cases step_run hok.apart hstep run with
        | client hact hworker =>
            rw [hother hact]
            exact hnone (hworker ▸ hworker')
        | inserted hact _ _ _ _ hworker =>
            rw [hother hact]
            exact hnone hworker
        | delivered _ _ _ hsome | worked _ _ hsome => simp [hworker'] at hsome
      · cases run_change hok hstep hrow' with
        | inserted hact _ _ _ _ _ _ hworker hworker' =>
            rw [hother hact, hworker']
            exact hnone hworker
        | edited hact hrow hworker =>
            rw [hother hact, hworker]
            exact hdid _ hrow
        | delivered hact hworker hworker' =>
            rw [hother hact, hworker']
            exact hnone hworker
        | @worked io row p p' ha hrow hp hp' _ hmove =>
            subst ha
            have hrun : s.backend.db.runs run = some row := hrow
            have hop : workOp env run ⟨s, .work run io, s'⟩ = p.op env.spur run io p' := by
              simp only [workOp, if_true, opOf, hp, hp', hrun]
            rw [workOps, shown_append, shown_single, hop, hp']
            exact hmove.did (hp ▸ hdid _ hrow)

/-! ### Atomicity -/

/-- What is promised of a history: its operations, happening one after another and each at once,
lead to what is stored; every request has done what it is answered, as one operation, and every
worker has started its run, reported its chunks and ended it, in this order. -/
structure IsAtomic (env : Env μ) (s₀ : State μ) (tr : List (Entry (State μ) Action))
    (s : State μ) : Prop where
  store : ∃ tr', Exec store s₀.backend.db tr' s.backend.db ∧ tr'.map Entry.act = ops env tr
  requests : ∀ r q, s.requests r = some q → q.Did (ownOps env r tr)
  workers : ∀ run row, (s.slice run).row = some row →
    WorkerPoint.Did run (workOps env run tr) (s.workers run)

/-- **The service refines the store**, in any interleaving of any number of requests and
workers. -/
theorem service_refines_store (h₀ : s₀.Initial) (h : Exec (system env) s₀ tr s) :
    IsAtomic env s₀ tr s where
  store := exists_store_exec h₀ h
  requests _ _ hq := request_did h₀ h hq
  workers _ := (work_did h₀ h).2

end

/-- The operations of a run that completes, and its store. -/
theorem short_run_is_atomic :
    ((ops clockEnv shortRun.1).length, (workOps clockEnv 3 shortRun.1).length) = (8, 5) ∧
      IsAtomic clockEnv State.empty shortRun.1 shortRun.2 :=
  ⟨by decide, service_refines_store State.empty_initial (Machine.played_exec _)⟩

end SpurApi
