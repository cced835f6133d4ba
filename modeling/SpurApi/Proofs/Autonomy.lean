/-
A run is a machine of its own.

A run has a row, events and a worker, and few things ever happen to it: it is submitted,
its job is delivered, its worker steps, its name or its cancel flag is edited, its job id
is recorded, it is deleted.  What any of these does depends on the run alone.  So the
history of the service, seen from one run, is a history of `runMachine`, and nothing else
in the service — other runs and their workers, saves, readers, how all of it is
interleaved — has any influence on a run.
-/
import SpurApi.Proofs.Atomic
import SpurApi.Proofs.Invocations

namespace SpurApi

open Transition

/-- What can happen to a run. -/
inductive RunEvent
  | submitted (row : SimulationRunRow)
  | edited (e : RunEdit)
  | recorded (jobId : String)
  | deleted
  | delivered
  | worked (io : Io)

/-- A run with its worker. -/
structure RunView (μ : Type) where
  slice : RunSlice
  worker : Option (WorkerPoint μ)

/-- A run that was never submitted. -/
def RunView.absent (μ : Type) : RunView μ := ⟨.blank, none⟩

section

variable {μ : Type} {env : Env μ} {s₀ s s' : State μ} {a : Action} {run : Uuid}
  {tr : List (Entry (State μ) Action)}

/-- What it does.  The worker never has to read the live project, since every submission stores
a snapshot. -/
def RunView.step (env : Env μ) (v : RunView μ) : RunEvent → Option (RunView μ)
  | .submitted row => some { v with slice := ⟨some row, v.slice.events⟩ }
  | .edited e => some { v with slice := v.slice.mapRow e.apply }
  | .recorded jobId =>
      some { v with slice := v.slice.mapRow fun row => { row with arqJobId := some jobId } }
  | .deleted => some { v with slice := .blank }
  | .delivered =>
      match v.worker with
      | none => some { v with worker := some .loading }
      | some _ => none
  | .worked io =>
      match v.worker with
      | none => none
      | some p => (workerStep env none io v.slice p).map fun (p', d) => ⟨d, some p'⟩

/-- A run as a machine. -/
def runMachine (env : Env μ) : Machine (RunView μ) RunEvent := ⟨RunView.step env⟩

/-- What the service holds of a run. -/
def State.view (s : State μ) (run : Uuid) : RunView μ := ⟨s.slice run, s.workers run⟩

/-- What an operation is for one run. -/
def Op.runEvent (db : Db) (run : Uuid) : Op → Option RunEvent
  | .submit _ runs => (runs.lookup run).map .submitted
  | .record jobs => (jobs.lookup run).map .recorded
  | .edit id e => if id = run then some (.edited e) else none
  | .deleteRun id => if id = run then some .deleted else none
  | .deleteProject p => if db.runOf p run then some .deleted else none
  | _ => none

/-- What an entry of a history is for one run. -/
def runEvent (env : Env μ) (run : Uuid) (e : Entry (State μ) Action) : Option RunEvent :=
  match e.act with
  | .request _ _ => (opOf env e).bind (Op.runEvent e.pre.backend.db run)
  | .deliver run' => if run' = run then some .delivered else none
  | .work run' io => if run' = run then some (.worked io) else none
  | _ => none

/-- What happened to a run in a history. -/
def runEvents (env : Env μ) (run : Uuid) (tr : List (Entry (State μ) Action)) : List RunEvent :=
  shown (runEvent env run) tr

/-! ### Operations on the run -/

/-- Of a list that names each key once, one entry at most acts on a key. -/
theorem foldl_at {α β γ : Type} [DecidableEq α] (f : γ → β → γ) (k : α) {l : List (α × β)} :
    ∀ d : γ, (l.map Prod.fst).Nodup →
      l.foldl (fun d r => if r.1 = k then f d r.2 else d) d =
        match l.lookup k with
        | none => d
        | some v => f d v := by
  induction l with
  | nil => exact fun _ _ => rfl
  | cons r rest ih =>
      intro d hnodup
      obtain ⟨k', v⟩ := r
      rw [List.map_cons, List.nodup_cons] at hnodup
      rw [List.foldl_cons, ih _ hnodup.2, List.lookup_cons]
      by_cases hk : k' = k
      · subst hk
        have hnone : rest.lookup k' = none := by
          rw [List.lookup_eq_none_iff]
          intro r hr
          rw [bne_iff_ne]
          intro hk
          exact hnodup.1 (List.mem_map.mpr ⟨r, hr, hk.symm⟩)
        simp only [hnone, if_true, beq_self_eq_true]
      · have hbeq : (k == k') = false := beq_false_of_ne (Ne.symm hk)
        simp only [hk, if_false, hbeq]

/-- What a request can do, with the runs that it lists apart. -/
def Op.OfRequest : Op → Prop
  | .submit _ runs => (runs.map Prod.fst).Nodup
  | .record jobs => (jobs.map Prod.fst).Nodup
  | .start _ _ | .report _ _ _ | .fail _ _ _ | .finish _ _ _ => False
  | _ => True

/-- The run after what happened to it, if anything did. -/
def RunView.after (env : Env μ) (v : RunView μ) : Option RunEvent → Option (RunView μ)
  | none => some v
  | some ev => v.step env ev

/-- **An operation of a request does to the run what it is for the run.** -/
theorem Op.after_runEvent {db : Db} {op : Op} (h : op.OfRequest)
    (worker : Option (WorkerPoint μ)) :
    RunView.after env ⟨db.slice run, worker⟩ (op.runEvent db run) =
      some ⟨op.onRun run (db.slice run), worker⟩ := by
  cases op with
  | create | save => rfl
  | deleteProject p =>
      have hof : db.runOf p run = (db.runs run).any fun row => row.projectId == p := by
        rw [Db.runOf]
        cases db.runs run <;> rfl
      rw [runEvent, hof, onRun, Db.slice]
      cases hrun : (db.runs run).any fun row => row.projectId == p <;> rfl
  | submit project runs =>
      have hfold := foldl_at (fun d row => (⟨some row, d.events⟩ : RunSlice)) run (db.slice run) h
      rw [runEvent, onRun]
      refine Eq.trans ?_ (congrArg (fun d => some (⟨d, worker⟩ : RunView μ)) hfold.symm)
      cases runs.lookup run <;> rfl
  | record jobs =>
      have hfold := foldl_at (fun d jobId =>
        RunSlice.mapRow d fun row => { row with arqJobId := some jobId }) run (db.slice run) h
      rw [runEvent, onRun]
      refine Eq.trans ?_ (congrArg (fun d => some (⟨d, worker⟩ : RunView μ)) hfold.symm)
      cases jobs.lookup run <;> rfl
  | edit id e =>
      rw [runEvent, onRun]
      split <;> rfl
  | deleteRun id =>
      rw [runEvent, onRun]
      split <;> rfl
  | start | report | fail | finish => exact h.elim

/-! ### The workers never read the live project -/

theorem settle_ne_loadingProject (w : WorkerSession) (q : RunPoint μ) (row : SimulationRunRow) :
    w.settle q ≠ .loadingProject row := by
  cases q <;> simp [WorkerSession.settle]

theorem WorkerMove.ne_loadingProject {project : Option ProjectRow} {io : Io}
    {p p' : WorkerPoint μ} {d d' : RunSlice} (hmove : WorkerMove env project io d p p' d')
    (hspec : ∀ row, d.row = some row → row.specSnapshot ≠ none) (row : SimulationRunRow) :
    p' ≠ .loadingProject row := by
  cases hmove with
  | loadedBare hrow hbare => exact absurd hbare (hspec _ hrow)
  | flushed | advanced => exact settle_ne_loadingProject _ _ row
  | _ => simp

/-- A submitted run has a snapshot, so its worker does not read the live project. -/
theorem ne_loadingProject (h₀ : s₀.Initial) (h : Exec (system env) s₀ tr s)
    (row : SimulationRunRow) : s.workers run ≠ some (.loadingProject row) := by
  induction h with
  | nil => simp [h₀.workers]
  | @snoc tr s s' a h hstep ih =>
      have hok := RunsOk.exec h₀ h
      cases step_run hok.apart hstep run with
      | client _ hworker =>
          rw [hworker]
          exact ih
      | inserted _ _ _ _ _ _ hworker | delivered _ _ _ hworker => simp [hworker]
      | @worked io p p' _ hp hp' hwork =>
          rw [hp', ne_eq, Option.some.injEq]
          refine (workerMove_of_step hwork).ne_loadingProject (fun row hrow => ?_) row
          exact Option.isSome_iff_ne_none.mp (hok.runs run row hrow).1.spec

/-! ### The history of a run -/

/-- A submission records its own runs. -/
theorem recorded_ids (rows : List Submitted) :
    ((rows.filterMap fun s => s.jobId.map fun j => (s.id, j)).map Prod.fst).Sublist
      (rows.map Submitted.id) := by
  induction rows with
  | nil => exact List.Sublist.refl _
  | cons s rest ih =>
      cases hjob : s.jobId with
      | none =>
          rw [List.filterMap_cons_none (by rw [hjob, Option.map_none])]
          exact ih.cons s.id
      | some jobId =>
          rw [List.filterMap_cons_some (by rw [hjob, Option.map_some])]
          exact ih.cons_cons s.id

/-- What a step of a request does is an operation of a request. -/
theorem Request.op_ofRequest {db : Db} {io : Io} {q q' : Request} {op : Op}
    (hnodup : q.ids.Nodup) (h : q.op db io q' = some op) : op.OfRequest := by
  unfold Request.op at h
  split at h
  case h_5 rows _ =>
    cases h
    have hids : (rows.map Submitted.id).Nodup := hnodup
    simpa [Op.OfRequest, Function.comp_def] using hids
  case h_6 rows _ _ _ =>
    cases h
    exact (recorded_ids rows).nodup hnodup
  all_goals (try split at h) <;> cases h <;> trivial

/-- **What happens in the service is what happens to the run.** -/
theorem after_runEvent (h₀ : s₀.Initial) (h : Exec (system env) s₀ tr s)
    (hstep : s.step env a = some s') :
    RunView.after env (s.view run) (runEvent env run ⟨s, a, s'⟩) = some (s'.view run) := by
  have hok := RunsOk.exec h₀ h
  cases service_step hstep with
  | arrive | read => rfl
  | @request r io q q' b hreq hqstep =>
      have hop : opOf env ⟨s, .request r io, s.setRequest r q' b⟩ = q.op s.backend.db io q' := by
        simp only [opOf, hreq, State.setRequest_requests_self]
      have htakes := takes_of_exec h₀ h hstep
      simp only [runEvent, hop] at htakes ⊢
      cases hq : q.op s.backend.db io q' with
      | none =>
          rw [hq] at htakes
          have hdb : b.db = s.backend.db := htakes
          simp only [Option.bind_none, RunView.after, State.view, State.slice, hdb,
            State.setRequest]
      | some op =>
          rw [hq] at htakes
          have happly : op.apply s.backend.db = some b.db := htakes
          have hslice : (s.setRequest r q' b).slice run = op.onRun run (s.slice run) :=
            Op.apply_slice happly run
          rw [State.view, State.view, hslice]
          exact Op.after_runEvent (Request.op_ofRequest (hok.apart.nodup r q hreq) hq) _
  | @deliver run' hjob hnone =>
      by_cases hrun : run' = run
      · subst hrun
        simp only [runEvent, if_true, RunView.after, RunView.step, State.view, hnone]
        simp [State.setWorker, State.slice]
      · simp only [runEvent, hrun, if_false, RunView.after, State.view]
        simp [State.setWorker, State.slice, Function.update_of_ne (Ne.symm hrun)]
  | @work run' io p p' d hworker hpstep =>
      by_cases hrun : run' = run
      · subst hrun
        have hlive : workerStep env none io (s.slice run') p = some (p', d) := by
          rw [← workerStep_project fun row hp =>
            absurd (hp ▸ hworker) (ne_loadingProject h₀ h row)]
          exact hpstep
        simp only [runEvent, if_true, RunView.after, RunView.step, State.view, hworker, hlive]
        simp [State.setWorker, State.setSlice, State.slice, Db.setRun, Db.setEvents]
      · simp only [runEvent, hrun, if_false, RunView.after, State.view]
        simp [State.setWorker, State.setSlice, State.slice, Db.setRun, Db.setEvents,
          Function.update_of_ne (Ne.symm hrun)]

/-- A run mirrors the service. -/
private theorem run_mirrors (h₀ : s₀.Initial) :
    Mirrors (runMachine env) (system env)
      (fun v s => v = s.view run ∧ ∃ tr, Exec (system env) s₀ tr s)
      (fun e => some e.act) (runEvent env run) := by
  rintro v s a s' ⟨rfl, tr, h⟩ hstep
  have hafter : RunView.after env (s.view run) (runEvent env run ⟨s, a, s'⟩) =
      some (s'.view run) := after_runEvent h₀ h hstep
  have hreached : ∃ tr, Exec (system env) s₀ tr s' := ⟨_, h.snoc hstep⟩
  cases hev : runEvent env run ⟨s, a, s'⟩ with
  | none =>
      rw [hev, RunView.after, Option.some.injEq] at hafter
      exact ⟨[], _, Exec.nil, ⟨hafter, hreached⟩, rfl⟩
  | some ev =>
      rw [hev] at hafter
      have hview : (runMachine env).step (s.view run) ev = some (s'.view run) := hafter
      exact ⟨_, _, Exec.single hview, ⟨rfl, hreached⟩, rfl⟩

theorem exists_run_exec (run : Uuid) (h₀ : s₀.Initial) (h : Exec (system env) s₀ tr s) :
    ∃ tr', Exec (runMachine env) (.absent μ) tr' (s.view run) ∧
      tr'.map Entry.act = runEvents env run tr := by
  have habsent : RunView.absent μ = s₀.view run := by
    rw [State.view, h₀.workers, RunView.absent]
    exact congrArg (fun d => (⟨d, none⟩ : RunView μ))
      (RunSlice.eq_blank (h₀.runs run) (h₀.events run)).symm
  obtain ⟨tr', v, hexec, ⟨rfl, -⟩, hshown⟩ :=
    Mirrors.exec (run_mirrors h₀) ⟨habsent, [], Exec.nil⟩ h
  exact ⟨tr', hexec, by rw [← List.filterMap_eq_map]; exact hshown⟩

/-- **Nothing but its own history has any influence on a run**: in two histories, of one service
or of two, in which the same happens to two runs, their rows, their events and their workers are
the same, whatever else happens in the histories and in between. -/
theorem run_depends_on_own_history {s₀' : State μ} {tr' : List (Entry (State μ) Action)}
    {run' : Uuid} (h₀ : s₀.Initial) (h₀' : s₀'.Initial) (h : Exec (system env) s₀ tr s)
    (h' : Exec (system env) s₀' tr' s') (hsame : runEvents env run tr = runEvents env run' tr') :
    s.slice run = s'.slice run' ∧ s.workers run = s'.workers run' := by
  obtain ⟨tr₁, hexec₁, hacts₁⟩ := exists_run_exec run h₀ h
  obtain ⟨tr₂, hexec₂, hacts₂⟩ := exists_run_exec run' h₀' h'
  obtain ⟨-, hview⟩ := hexec₁.determined hexec₂ (by rw [hacts₁, hacts₂, hsame])
  exact ⟨congrArg RunView.slice hview, congrArg RunView.worker hview⟩

end

/-- After the short run its project is saved, and another run of it is submitted and begins. -/
def laterActivity : List (Entry (State Int) Action) × State Int :=
  (system clockEnv).played shortRun.2
    [.arrive 3 (.updateProject 1 none (.blank "B") .received), .request 3 {}, .request 3 {},
      .request 3 {}, .arrive 2 (.submitRun 1 (.single (some 3) none) .received),
      .request 2 { ids := [4, 5] }, .request 2 {}, .request 2 {},
      .request 2 { jobId := "other" }, .deliver 5, .work 5 {}, .work 5 {}] (by decide)

theorem later_activity_does_not_matter :
    laterActivity.2.slice 3 = shortRun.2.slice 3 ∧
      laterActivity.2.workers 3 = shortRun.2.workers 3 := by
  have hquiet : runEvents clockEnv 3 laterActivity.1 = [] := rfl
  have hsame : runEvents clockEnv 3 (shortRun.1 ++ laterActivity.1) =
      runEvents clockEnv 3 shortRun.1 := by
    rw [runEvents, shown_append]
    exact (congrArg _ hquiet).trans (List.append_nil _)
  exact run_depends_on_own_history State.empty_initial State.empty_initial
    ((Machine.played_exec _).append (Machine.played_exec _)) (Machine.played_exec _) hsame

end SpurApi
