/-
The store when jobs are delivered again.

An invocation knows nothing of one before it that was cut short: it marks the run running
again and numbers its events from 0.  But nobody else writes the columns it has copies of,
and the unique index refuses the numbers that are taken.  So all the store sees of another
delivery is a restart, and every history is a history of the store with that operation.
-/
import SpurApi.Proofs.Redelivered
import SpurApi.Proofs.Refinement

namespace SpurApi

open Transition

section

variable {μ : Type} {env : Env μ} {s₀ s s' : State μ} {a : Action} {run : Uuid}
  {tr : List (Entry (State μ) (Action ⊕ Cut))} {row row' : SimulationRunRow}
  {events : List RunEventRow} {again again' : Prop} {p p' : WorkerPoint μ}

/-! ### The worker, whichever delivery it has -/

theorem CanStart.mono (h : CanStart again row) (himp : again → again') : CanStart again' row :=
  h.imp_right himp

theorem CanStart.edited {cancels : Prop} (h : CanStart again row)
    (hedit : ClientEdit cancels row row') : CanStart again row' := by
  have hstatus : row'.status = row.status := by rw [hedit.same]
  rw [CanStart, hstatus]
  exact h

theorem WorkerPoint.Resumes.mono (h : p.Resumes again row events) (himp : again → again') :
    p.Resumes again' row events := by
  cases p with
  | loading => exact CanStart.mono h himp
  | loadingProject | marking => exact ⟨h.1.mono himp, h.2⟩
  | _ => exact h

theorem WorkerPoint.Resumes.edited {cancels : Prop} (h : p.Resumes again row events)
    (hedit : ClientEdit cancels row row') : p.Resumes again row' events := by
  have hstatus : row'.status = row.status := by rw [hedit.same]
  cases p with
  | loading => exact CanStart.edited h hedit
  | loadingProject | marking => exact ⟨h.1.edited hedit, h.2.trans hedit.same⟩
  | running => exact ⟨hstatus.trans h.1, h.2.1.trans hedit.same, h.2.2⟩
  | handling | finishing => exact ⟨hstatus.trans h.1, h.2.trans hedit.same⟩
  | returned | raised => trivial

theorem WorkerPoint.Resumes.copies (h : p.Resumes again row events) : p.Copies row := by
  cases p with
  | marking | handling | finishing => exact h.2
  | running => exact h.2.1
  | _ => trivial

private theorem settle_resumes {w : WorkerSession} {q : RunPoint μ}
    (hrunning : row.status = .running) (hcopy : SameButClient w.row row)
    (hle : w.seq ≤ events.length) : (w.settle q).Resumes again row events := by
  cases q with
  | finished | raised => exact ⟨hrunning, hcopy⟩
  | _ => exact ⟨hrunning, hcopy, hle⟩

/-- One step of a worker. -/
theorem WorkerPoint.Resumes.step {project : Option ProjectRow} {io : Io} {d : RunSlice}
    (h : p.Resumes again row events)
    (hmove : WorkerMove env project io ⟨some row, events⟩ p p' d) :
    ∃ row', d.row = some row' ∧ p'.Resumes again row' d.events := by
  cases hmove with
  | loaded hrow | loadedBare hrow =>
      rw [Option.some.injEq] at hrow
      subst hrow
      exact ⟨row, rfl, h, .refl row⟩
  | projectLoaded => exact ⟨row, rfl, h⟩
  | @marked copy spec _ hcommit =>
      rw [commitRun_ok hcommit, flush_markRunning h.2]
      refine ⟨_, rfl, rfl, ?_, Nat.zero_le _⟩
      have hsame := h.2
      rw [hsame]
      rfl
  | askRaised hask =>
      obtain ⟨hcopy, -, -⟩ := row_of_isCancelled_error hask
      exact ⟨row, rfl, h.1, hcopy ▸ h.2.1⟩
  | @asked w l row₁ _ hrow =>
      rw [Option.some.injEq] at hrow
      subst hrow
      refine ⟨row, rfl, h.1, ?_, h.2.2⟩
      have hsame := h.2.1
      rw [SameButClient] at hsame ⊢
      rw [hsame]
  | flushRaised => exact ⟨row, rfl, h.1, h.2.1⟩
  | @flushed w w' l place _ hchunk =>
      obtain ⟨rfl, rfl⟩ := onChunk_ok h.2.1 hchunk
      refine ⟨_, rfl, settle_resumes h.1 ?_ ?_⟩
      · have hsame := h.2.1
        rw [hsame]
        rfl
      · have hle := h.2.2
        simp only [List.length_append, eventRows_length]
        omega
  | advanced => exact ⟨row, rfl, settle_resumes h.1 h.2.1 h.2.2⟩
  | handled _ hcommit | finished hcommit =>
      rw [commitRun_ok hcommit]
      exact ⟨_, rfl, trivial⟩
  | _ => exact ⟨row, rfl, trivial⟩

/-! ### Every run -/

/-- An invocation of the run was cut short. -/
def WasCut (tr : List (Entry (State μ) (Action ⊕ Cut))) (run : Uuid) : Prop :=
  ∃ e ∈ tr, e.act = .inr ⟨run⟩

theorem WasCut.snoc {e : Entry (State μ) (Action ⊕ Cut)} (h : WasCut tr run) :
    WasCut (tr ++ [e]) run := by
  obtain ⟨e', he', hact⟩ := h
  exact ⟨e', List.mem_append_left _ he', hact⟩

/-- What is relied on of a run, by where its worker stands. -/
def RunResumes (again : Prop) (d : RunSlice) (worker : Option (WorkerPoint μ)) : Prop :=
  ∀ row, d.row = some row →
    match worker with
    | none => CanStart again row
    | some p => p.Resumes again row d.events

theorem RunResumes.mono {d : RunSlice} {worker : Option (WorkerPoint μ)}
    (h : RunResumes again d worker) (himp : again → again') : RunResumes again' d worker := by
  intro row hrow
  have hrun := h row hrow
  cases worker with
  | none => exact CanStart.mono hrun himp
  | some p => exact WorkerPoint.Resumes.mono hrun himp

/-- One step of the service, for a run that is there afterwards. -/
theorem RunResumes.change (h : RunResumes again (s.slice run) (s.workers run))
    (hapart : RunsApart s) (hstep : s.step env a = some s')
    (hrow' : (s'.slice run).row = some row') :
    RunChange env (WorkerPoint.Resumes again) s a s' run row' :=
  hapart.change hstep hrow' fun row p hrow hp => by
    have hrun := h row hrow
    rwa [hp] at hrun

theorem RunResumes.step (hapart : RunsApart s)
    (h : RunResumes again (s.slice run) (s.workers run)) (hstep : s.step env a = some s') :
    RunResumes again (s'.slice run) (s'.workers run) := by
  intro row' hrow'
  cases h.change hapart hstep hrow' with
  | inserted _ _ _ _ _ hnew _ _ hworker' =>
      rw [hworker']
      exact .inl hnew.isQueued.status
  | edited _ hrow hworker hevents hedit =>
      have hrun := h _ hrow
      rw [hworker, hevents]
      cases hp : s.workers run with
      | none =>
          rw [hp] at hrun
          exact CanStart.edited hrun hedit
      | some p =>
          rw [hp] at hrun
          exact WorkerPoint.Resumes.edited hrun hedit
  | delivered _ hworker hworker' hslice =>
      rw [hslice] at hrow'
      have hrun := h _ hrow'
      rw [hworker] at hrun
      rw [hworker']
      exact hrun
  | worked _ _ _ hworker' hresumes hmove =>
      obtain ⟨row₁, hrow₁, hresumes'⟩ := WorkerPoint.Resumes.step hresumes hmove
      rw [hrow', Option.some.injEq] at hrow₁
      subst hrow₁
      rw [hworker']
      exact hresumes'

/-- What the columns of a step's run keep, whichever delivery its worker has. -/
theorem RunResumes.write {io : Io} (h : RunResumes again (s.slice run) (s.workers run))
    (hapart : RunsApart s) (hstep : s.step env (.work run io) = some s')
    (hrow : (s.slice run).row = some row) (hrow' : (s'.slice run).row = some row') :
    ∃ p : WorkerPoint μ, WorkerWrite row p row' := by
  cases h.change hapart hstep hrow' with
  | inserted hact | edited hact | delivered hact => exact absurd rfl (hact io)
  | worked _ hold _ _ hresumes hmove =>
      rw [hrow, Option.some.injEq] at hold
      subst hold
      exact ⟨_, hmove.write hresumes.copies hrow'⟩

/-! ### Submissions -/

/-- The version of a project never falls. -/
theorem version_step {project : Uuid} {read' : ProjectRow} (hputs : PutsHold s project)
    (hstep : s.step env a = some s') (hminted : project ∈ s.backend.minted)
    (hread' : s'.backend.db.projects project = some read') :
    ∃ read, s.backend.db.projects project = some read ∧ read.version ≤ read'.version := by
  cases step_project hstep project with
  | put _ hpre _ _ hmove =>
      generalize s'.backend = b' at hmove hread'
      cases hmove with
      | saved hstored =>
          have hsame := hputs.sameButBase hpre hstored
          refine ⟨_, hstored, ?_⟩
          simp only [Backend.setProject, Backend.unlock, Db.setProject, Function.update_self,
            Option.some.injEq, flush_eq_saved hsame] at hread'
          rw [← hread', ProjectRow.saved_version]
          omega
      | _ => exact ⟨read', hread', Int.le_refl _⟩
  | frame hframe =>
      cases hframe.row with
      | same hsame => exact ⟨read', hsame ▸ hread', Int.le_refl _⟩
      | created hfresh => exact absurd hminted hfresh
      | deleted _ hnone => simp [hnone] at hread'
      | unlinked hread hnew =>
          rw [hnew, Option.some.injEq] at hread'
          exact ⟨_, hread, Int.le_of_eq (by rw [← hread'])⟩

/-- What a submission relies on: the version it read is one the project has had, and nobody else
records the ids of its jobs. -/
def SubmitRun.Knows (s : State μ) (project : Uuid) : SubmitRun → Prop
  | .inserting rows => project ∈ s.backend.minted ∧
      ∀ sub ∈ rows, ∃ v, sub.row.projectVersion = some v ∧ 1 ≤ v ∧
        ∀ read, s.backend.db.projects project = some read → v ≤ read.version
  | .refreshing done next todo | .enqueueing done next todo =>
      (∀ sub ∈ done ++ next :: todo, sub.Clear s) ∧ ∀ sub ∈ done, ∃ jobId, sub.jobId = some jobId
  | .recording rows => ∀ sub ∈ rows, sub.Clear s ∧ ∃ jobId, sub.jobId = some jobId
  | _ => True

/-- Only a submission that commits them writes the id of a job. -/
private theorem jobId_kept (h : RunResumes again (s.slice run) (s.workers run))
    (hapart : RunsApart s) (hstep : s.step env a = some s')
    (hquiet : ∀ sub, ¬ JobIdCommits s a run sub) (hrow : (s.slice run).row = some row)
    (hrow' : (s'.slice run).row = some row') : row'.arqJobId = row.arqJobId := by
  rcases a.client_or_work run with hact | ⟨io, rfl⟩
  · cases client_write hapart.apart hstep hact hrow with
    | same _ hslice =>
        rw [hslice, hrow, Option.some.injEq] at hrow'
        rw [hrow']
    | @edited edit copy _ hslice =>
        rw [hslice, Option.some.injEq] at hrow'
        rw [← hrow']
        cases edit with
        | rename name => rw [RunEdit.apply, SimulationRunRow.flush_name]
        | cancel => rw [RunEdit.apply, SimulationRunRow.flush_cancel]
    | recorded _ hrecords => exact absurd hrecords (hquiet _)
    | deleted hdeleted =>
        rw [(hdeleted.gone hapart.apart hstep).row_none] at hrow'
        simp at hrow'
  · obtain ⟨p, hwrite⟩ := h.write hapart hstep hrow hrow'
    cases hwrite <;> rfl

private theorem clear_kept {sub : Submitted} (h : sub.Clear s)
    (hrun : RunResumes again (s.slice sub.id) (s.workers sub.id)) (hapart : RunsApart s)
    (hstep : s.step env a = some s') (hquiet : ∀ sub', ¬ JobIdCommits s a sub.id sub') :
    sub.Clear s' := by
  refine ⟨h.1, fun row' hrow' => ?_⟩
  cases hold : (s.slice sub.id).row with
  | some row => exact (jobId_kept hrun hapart hstep hquiet hold hrow').trans (h.2 row hold)
  | none =>
      cases hrun.change hapart hstep hrow' with
      | inserted _ _ _ _ _ hnew =>
          obtain ⟨_, _, _, _, rfl⟩ := hnew
          rfl
      | edited _ hrow | worked _ hrow => simp [hold] at hrow
      | delivered _ _ _ hslice =>
          rw [hslice, hold] at hrow'
          simp at hrow'

theorem SubmitRun.knows_loop {project : Uuid} {done todo : List Submitted}
    (hclear : ∀ sub ∈ done ++ todo, sub.Clear s)
    (hjobs : ∀ sub ∈ done, ∃ jobId, sub.jobId = some jobId) :
    (SubmitRun.loop done todo).Knows s project := by
  cases todo with
  | nil => exact fun sub hsub => ⟨hclear sub (List.mem_append_left _ hsub), hjobs sub hsub⟩
  | cons next todo => exact ⟨hclear, hjobs⟩

/-! ### Every state -/

/-- What holds of the service when jobs can be delivered again. -/
structure Resumed (tr : List (Entry (State μ) (Action ⊕ Cut))) (s : State μ) : Prop
    extends RunsApart s where
  puts : ∀ p, PutsHold s p
  runs : ∀ run, RunResumes (WasCut tr run) (s.slice run) (s.workers run)
  submits : ∀ {r project body q}, s.requests r = some (.submitRun project body q) →
    q.Knows s project
  sound : s.backend.db.Sound

variable {r : RequestId} {io : Io} {project : Uuid} {body : RunCreate} {q q' : SubmitRun}

/-- A step of somebody else. -/
private theorem knows_other (h : Resumed tr s) (hact : ∀ io, a ≠ .request r io)
    (hstep : s.step env a = some s') (hreq : s.requests r = some (.submitRun project body q)) :
    q.Knows s' project := by
  have hknows := h.submits hreq
  have hclear : ∀ sub : Submitted, sub.id ∈ q.ids → sub.Clear s → sub.Clear s' := by
    intro sub hid hsub
    exact clear_kept hsub (h.runs sub.id) h.toRunsApart hstep
      (not_jobIdCommits (h.apart.heldBy hreq hid) hact)
  cases q with
  | inserting rows =>
      obtain ⟨hminted, hversions⟩ := hknows
      refine ⟨minted_mono hstep hminted, fun sub hsub => ?_⟩
      obtain ⟨v, hv, hpos, hle⟩ := hversions sub hsub
      refine ⟨v, hv, hpos, fun read' hread' => ?_⟩
      obtain ⟨read, hread, hversion⟩ := version_step (h.puts project) hstep hminted hread'
      exact Int.le_trans (hle read hread) hversion
  | refreshing done next todo | enqueueing done next todo =>
      exact ⟨fun sub hsub => hclear sub (List.mem_map_of_mem hsub) (hknows.1 sub hsub), hknows.2⟩
  | recording rows =>
      exact fun sub hsub =>
        ⟨hclear sub (List.mem_map_of_mem hsub) (hknows sub hsub).1, (hknows sub hsub).2⟩
  | received | reloading | answered => trivial

/-- A step of the submission itself. -/
private theorem knows_own (h : Resumed tr s)
    (hreq : s.requests r = some (.submitRun project body q))
    (hmove : SubmitMove env.spur env.settings project body io s.backend q q' s'.backend) :
    q'.Knows s' project := by
  have hknows := h.submits hreq
  generalize hb : s'.backend = b' at hmove
  have hkept : b'.db = s.backend.db → ∀ sub : Submitted, sub.Clear s → sub.Clear s' := by
    intro hdb sub hsub
    refine ⟨hsub.1, fun row' hrow' => hsub.2 row' ?_⟩
    rw [State.slice, hb, hdb] at hrow'
    exact hrow'
  cases hmove with
  | @built read target batch ids hread =>
      have hversions := h.sound.versions hread
      refine ⟨?_, fun sub hsub => ?_⟩
      · rw [hb]
        exact List.mem_append_right _ ((h.puts project).minted read hread)
      · obtain ⟨⟨_, _, _, _, hrow⟩, -⟩ := isNewRun_of_mem_runRows hsub
        refine ⟨read.version, by rw [hrow]; rfl, by omega, fun read' hread' => ?_⟩
        rw [hb] at hread'
        have hsame : some read' = some read := hread'.symm.trans hread
        rw [Option.some.injEq] at hsame
        exact Int.le_of_eq (by rw [hsame])
  | @inserted rows =>
      refine SubmitRun.knows_loop (fun sub hsub => ?_) (by simp)
      obtain ⟨read, _, _, _, _, hnew⟩ := h.pending r project body rows hreq sub hsub
      refine ⟨by rw [hnew]; rfl, fun row' hrow' => ?_⟩
      have hslice := insertRuns_of_mem (b := s.backend) hsub (h.apart.nodup r _ hreq)
      rw [State.slice, hb] at hrow'
      have hsame := (congrArg RunSlice.row hslice).symm.trans hrow'
      simp only [Option.some.injEq] at hsame
      rw [← hsame, hnew]
      rfl
  | @refreshed done todo next row _ hrow =>
      refine ⟨fun sub hsub => ?_, hknows.2⟩
      rcases List.mem_append.mp hsub with hsub | hsub
      · exact hkept rfl sub (hknows.1 sub (List.mem_append_left _ hsub))
      · rcases List.mem_cons.mp hsub with rfl | hsub
        · have hnext := hknows.1 next (by simp)
          exact ⟨hnext.2 row hrow, (hkept rfl next hnext).2⟩
        · exact hkept rfl sub (hknows.1 sub (by simp [hsub]))
  | @enqueued done todo next =>
      refine SubmitRun.knows_loop (fun sub hsub => ?_) fun sub hsub => ?_
      · rw [List.append_assoc, List.singleton_append] at hsub
        rcases List.mem_append.mp hsub with hsub | hsub
        · exact hkept rfl sub (hknows.1 sub (List.mem_append_left _ hsub))
        · rcases List.mem_cons.mp hsub with rfl | hsub
          · exact hkept rfl next (hknows.1 next (by simp))
          · exact hkept rfl sub (hknows.1 sub (by simp [hsub]))
      · rcases List.mem_append.mp hsub with hsub | hsub
        · exact hknows.2 sub hsub
        · rw [List.mem_singleton] at hsub
          exact ⟨io.jobId, by rw [hsub]⟩
  | _ => trivial

private theorem knows_step (h : Resumed tr s) (hstep : s.step env a = some s')
    (hreq' : s'.requests r = some (.submitRun project body q')) : q'.Knows s' project := by
  cases request_step hstep hreq' with
  | kept hact hreq => exact knows_other h hact hstep hreq
  | arrived _ _ hreceived =>
      cases q' with
      | received => trivial
      | _ => simp [Request.isReceived] at hreceived
  | stepped _ hreq hqstep =>
      obtain ⟨point, rfl, hmove⟩ := submitMove_of_request hqstep
      exact knows_own h hreq hmove

/-! ### Which operation a step is -/

/-- The restart that an entry is: an invocation marks a run running that was started before. -/
def restartOf (e : Entry (State μ) (Action ⊕ Cut)) : Option Restart :=
  match e.act with
  | .inl (.work run io) =>
      match e.pre.workers run, e.post.workers run, e.pre.backend.db.runs run with
      | some (.marking _ _), some (.running _ _), some row =>
          if row.status = .queued then none else some ⟨run, io.now⟩
      | _, _, _ => none
  | _ => none

/-- The operation of an entry of a history in which jobs are delivered again. -/
def opAgainOf (env : Env μ) (e : Entry (State μ) (Action ⊕ Cut)) : Option (Op ⊕ Restart) :=
  match restartOf e, e.act with
  | some r, _ => some (.inr r)
  | none, .inl a => (opOf env ⟨e.pre, a, e.post⟩).map .inl
  | none, .inr _ => none

/-- The operations of such a history, in the order they happened. -/
def opsAgain (env : Env μ) (tr : List (Entry (State μ) (Action ⊕ Cut))) : List (Op ⊕ Restart) :=
  shown (opAgainOf env) tr

/-- One operation happens, or none. -/
def TakesAgain (db : Db) (op : Option (Op ⊕ Restart)) (db' : Db) : Prop :=
  match op with
  | none => db' = db
  | some op => restartingStore.step db op = some db'

theorem Takes.restarting {db db' : Db} {op : Option Op} (h : Takes db op db') :
    TakesAgain db (op.map .inl) db' := by
  cases op <;> exact h

theorem restartOf_work (io : Io) (hworker : s.workers run = some p)
    (hworker' : s'.workers run = some p') (hrow : s.backend.db.runs run = some row) :
    restartOf ⟨s, .inl (.work run io), s'⟩ =
      match p, p' with
      | .marking _ _, .running _ _ => if row.status = .queued then none else some ⟨run, io.now⟩
      | _, _ => none := by
  simp only [restartOf, hworker, hworker', hrow]
  cases p <;> cases p' <;> rfl

/-- A step of a worker. -/
private theorem takes_work {d : RunSlice} (h : Resumed tr s) (hworker : s.workers run = some p)
    (hmove : WorkerMove env (s.liveProject p) io (s.slice run) p p' d) :
    TakesAgain s.backend.db
      (opAgainOf env ⟨s, .inl (.work run io), (s.setSlice run d).setWorker run p'⟩)
      (s.backend.db.setSlice run d) := by
  have hworker' : ((s.setSlice run d).setWorker run p').workers run = some p' :=
    Function.update_self ..
  cases hrow : s.backend.db.runs run with
  | none =>
      rw [State.slice, hrow] at hmove
      have hop : opAgainOf env
          ⟨s, .inl (.work run io), (s.setSlice run d).setWorker run p'⟩ = none := by
        simp [opAgainOf, restartOf, opOf, hworker, hworker', hrow]
      rw [hop]
      exact hmove.takes_none hrow
  | some row =>
      have hslice : s.slice run = ⟨some row, s.backend.db.events run⟩ := by
        rw [State.slice, hrow]
      have hresumes := h.runs run row (congrArg RunSlice.row hslice)
      rw [hworker, hslice] at hresumes
      rw [hslice] at hmove
      have hrestart := restartOf_work io hworker hworker' hrow
      cases hre : restartOf ⟨s, .inl (.work run io), (s.setSlice run d).setWorker run p'⟩ with
      | none =>
          have hop : opAgainOf env ⟨s, .inl (.work run io), (s.setSlice run d).setWorker run p'⟩ =
              (p.op env.spur run io p').map .inl := by
            simp only [opAgainOf, hre, opOf, hworker, hworker', hrow]
          rw [hop]
          refine (hmove.takes hrow (h.sound.events run) hresumes ?_).restarting
          rintro copy spec w q rfl rfl
          rw [hrestart] at hre
          simpa using hre
      | some restart =>
          have hop : opAgainOf env ⟨s, .inl (.work run io), (s.setSlice run d).setWorker run p'⟩ =
              some (.inr restart) := by
            simp only [opAgainOf, hre]
          rw [hop]
          rw [hrestart] at hre
          split at hre
          · rw [Option.ite_none_left_eq_some, Option.some.injEq] at hre
            obtain ⟨hstarted, rfl⟩ := hre
            exact hmove.restarts hrow hresumes.2 hstarted
          · simp at hre

/-- **A step of the service is an operation of the store, a restart, or none.** -/
theorem Resumed.takes (h : Resumed tr s) {a : Action ⊕ Cut}
    (hstep : (redelivering env).step s a = some s') :
    TakesAgain s.backend.db (opAgainOf env ⟨s, a, s'⟩) s'.backend.db := by
  cases a with
  | inr cut =>
      obtain ⟨-, -, rfl⟩ := State.cutShort_some hstep
      exact rfl
  | inl a =>
      have hserved : s.step env a = some s' := hstep
      cases service_step hserved with
      | arrive | read | deliver => exact rfl
      | @request r io q q' b hreq hqstep =>
          have htakes : Takes s.backend.db (opOf env ⟨s, .request r io, s.setRequest r q' b⟩)
              b.db := by
            rw [opOf_request hreq]
            refine Request.takes h.sound h.puts hreq ?_ ?_ hqstep
            · rintro project body rows read rfl hread
              refine admits_of_pending h.toRunsApart hreq fun sub hsub => ?_
              obtain ⟨v, hv, hpos, hle⟩ := (h.submits hreq).2 sub hsub
              exact ⟨v, hv, hpos, hle read hread⟩
            · rintro project body rows rfl sub hsub
              obtain ⟨hclear, hjob⟩ := h.submits hreq sub hsub
              exact ⟨hclear.1, hjob⟩
          exact htakes.restarting
      | work hworker hpstep => exact takes_work h hworker (workerMove_of_step hpstep)

/-! ### A history -/

/-- A restart changes no reference. -/
theorem Db.Sound.restart {db db' : Db} (h : db.Sound) {restart : Restart}
    (hrestart : restart.apply db = some db') : db'.Sound := by
  obtain ⟨row, hrow, -, rfl⟩ := Db.modify_eq_some hrestart
  refine ⟨h.versions, h.bases, fun {run' row'} hrow' => ?_, h.events, fun {run'} hnone => ?_⟩
  · by_cases hrun : run' = restart.run
    · subst hrun
      simp only [Db.setRun, Function.update_self, Option.some.injEq] at hrow'
      subst hrow'
      have hold := h.runs hrow
      exact hold
    · simp only [Db.setRun, Function.update_of_ne hrun] at hrow'
      exact h.runs hrow'
  · by_cases hrun : run' = restart.run
    · subst hrun
      simp [Db.setRun] at hnone
    · simp only [Db.setRun, Function.update_of_ne hrun] at hnone
      exact h.orphans hnone

theorem TakesAgain.sound {db db' : Db} {op : Option (Op ⊕ Restart)} (h : TakesAgain db op db')
    (hsound : db.Sound) : db'.Sound := by
  match op, h with
  | none, h => exact (show db' = db from h) ▸ hsound
  | some (.inl op), h => exact hsound.apply h
  | some (.inr restart), h => exact hsound.restart h

theorem State.Initial.resumed (h₀ : s₀.Initial) :
    Resumed ([] : List (Entry (State μ) (Action ⊕ Cut))) s₀ where
  toRunsApart := h₀.runsApart
  puts := h₀.putsHold
  runs run row hrow := (h₀.not_row hrow).elim
  submits hreq := by simp [h₀.requests] at hreq
  sound := h₀.sound

theorem Resumed.step (h : Resumed tr s) {a : Action ⊕ Cut}
    (hstep : (redelivering env).step s a = some s') : Resumed (tr ++ [⟨s, a, s'⟩]) s' := by
  have hsound := (h.takes hstep).sound h.sound
  cases a with
  | inl a =>
      have hserved : s.step env a = some s' := hstep
      exact ⟨h.toRunsApart.step hserved, fun p => (h.puts p).step hserved,
        fun run => (RunResumes.step h.toRunsApart (h.runs run) hserved).mono WasCut.snoc,
        knows_step h hserved, hsound⟩
  | inr cut =>
      have hapart := h.toRunsApart.cut hstep
      have hcut : WasCut (tr ++ [⟨s, .inr cut, s'⟩]) cut.run :=
        ⟨_, List.mem_append_right _ (List.mem_singleton_self _), rfl⟩
      obtain ⟨p, hp, rfl⟩ := State.cutShort_some hstep
      refine ⟨hapart, fun p => ⟨(h.puts p).minted, (h.puts p).points⟩, fun run => ?_, h.submits,
        hsound⟩
      by_cases hrun : run = cut.run
      · subst hrun
        simp only [Function.update_self]
        exact fun _ _ => .inr hcut
      · simp only [Function.update_of_ne hrun]
        exact (h.runs run).mono WasCut.snoc

theorem Resumed.exec (h₀ : s₀.Initial) (h : Exec (redelivering env) s₀ tr s) : Resumed tr s := by
  induction h with
  | nil => exact h₀.resumed
  | snoc _ hstep ih => exact ih.step hstep

/-- The store mirrors the service: a step shows the operation it is. -/
private theorem restartingStore_mirrors :
    Mirrors restartingStore (redelivering env)
      (fun db s => db = s.backend.db ∧ ∃ tr, Resumed tr s) (fun e => some e.act)
      (opAgainOf env) := by
  rintro db s a s' ⟨rfl, tr, h⟩ hstep
  have htakes := h.takes hstep
  have hresumed : ∃ tr, Resumed tr s' := ⟨_, h.step hstep⟩
  cases hop : opAgainOf env ⟨s, a, s'⟩ with
  | none =>
      rw [hop] at htakes
      have hdb : s'.backend.db = s.backend.db := htakes
      exact ⟨[], _, Exec.nil, ⟨hdb.symm, hresumed⟩, rfl⟩
  | some op =>
      rw [hop] at htakes
      have happly : restartingStore.step s.backend.db op = some s'.backend.db := htakes
      exact ⟨_, _, Exec.single happly, ⟨rfl, hresumed⟩, rfl⟩

/-- What is promised of the store when jobs are delivered again. -/
structure Restarting (env : Env μ) (s₀ : State μ) (tr : List (Entry (State μ) (Action ⊕ Cut)))
    (s : State μ) : Prop where
  refines : ∃ tr', Exec restartingStore s₀.backend.db tr' s.backend.db ∧
    tr'.map Entry.act = opsAgain env tr
  sound : s.backend.db.Sound
  /-- a run is restarted only after an invocation of it was cut short -/
  restarted : ∀ tr₁ e tr₂ restart, tr = tr₁ ++ e :: tr₂ → restartOf e = some restart →
    WasCut tr₁ restart.run

private theorem wasCut_of_restart {e : Entry (State μ) (Action ⊕ Cut)} {restart : Restart}
    (h : Resumed tr e.pre) (hrestart : restartOf e = some restart) : WasCut tr restart.run := by
  unfold restartOf at hrestart
  split at hrestart
  · rename_i run io hact
    split at hrestart
    · rename_i row hworker _ hrow
      rw [Option.ite_none_left_eq_some, Option.some.injEq] at hrestart
      obtain ⟨hstarted, rfl⟩ := hrestart
      have hresumes := h.runs run row hrow
      rw [hworker] at hresumes
      exact hresumes.1.resolve_left hstarted
    · simp at hrestart
  · simp at hrestart

/-- **The service refines the store when jobs are delivered again**, but for restarts of runs that
were cut short; and no reference dangles then. -/
theorem redelivery_refines_store (h₀ : s₀.Initial) (h : Exec (redelivering env) s₀ tr s) :
    Restarting env s₀ tr s := by
  refine ⟨?_, (Resumed.exec h₀ h).sound, ?_⟩
  · obtain ⟨tr', db, hexec, ⟨rfl, -⟩, hshown⟩ :=
      Mirrors.exec restartingStore_mirrors ⟨rfl, [], h₀.resumed⟩ h
    exact ⟨tr', hexec, by rw [← List.filterMap_eq_map]; exact hshown⟩
  · rintro tr₁ e tr₂ restart rfl hrestart
    obtain ⟨hpre, -, -⟩ := h.split_at
    exact wasCut_of_restart (Resumed.exec h₀ hpre) hrestart

end

/-- The first invocation completes the run, and is cut short while its session is closed. -/
def reopenedRun : List (Entry (State Int) (Action ⊕ Cut)) × State Int :=
  (redelivering clockEnv).played State.empty (cutAfter 13 8) (by decide)

/-- The second one marks it running again, and leaves it so. -/
theorem completed_run_is_restarted :
    Restarting clockEnv State.empty reopenedRun.1 reopenedRun.2 ∧
      (reopenedRun.1.filterMap restartOf).map Restart.run = [3] ∧
      (reopenedRun.2.slice 3).row.map (fun row => row.status) = some .running :=
  ⟨redelivery_refines_store State.empty_initial (Machine.played_exec _), by rfl, by rfl⟩

end SpurApi
