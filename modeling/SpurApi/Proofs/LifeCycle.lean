/-
The life cycle of a run.

The invariant of `RunInvariant` says what holds at each point of the worker; here it
is read as a property of the row alone, and of the moves of its status.  A run that
was deleted does not come back, so a terminal status is never left, however long the
history goes on.
-/
import SpurApi.Proofs.RunInvariant

namespace SpurApi

open Transition

/-- How the columns that the worker writes hang together. -/
structure LifeCycle (row : SimulationRunRow) (events : List RunEventRow) : Prop where
  queued_iff : row.status = .queued ↔ row.startedAt = none
  queued : row.status = .queued → events = [] ∧ row.simTimeNow = none ∧ row.finishedAt = none ∧
    row.errorMessage = none
  finished_iff : row.finishedAt.isSome ↔ row.status.terminal = true
  error_iff : row.errorMessage.isSome ↔ row.status = .failed
  cancelled : row.status = .cancelled → row.cancelRequested = true
  completed : row.status = .completed →
    ∃ target, row.untilTarget = some target ∧ row.simTimeNow = some (max 0 target)

/-- The status stays, or moves on by one. -/
inductive StatusStep : RunStatus → RunStatus → Prop
  | stay (status : RunStatus) : StatusStep status status
  | start : StatusStep .queued .running
  | stop {status : RunStatus} (h : status.terminal = true) : StatusStep .running status

section

variable {row : SimulationRunRow} {events : List RunEventRow}

theorem IsQueued.lifeCycle (h : IsQueued row) (hevents : events = []) : LifeCycle row events := by
  obtain ⟨hstatus, hstarted, hnow, hfinished, herror⟩ := h
  constructor <;> simp [hstatus, hstarted, hnow, hfinished, herror, hevents, RunStatus.terminal]

theorem IsRunning.lifeCycle (h : IsRunning row) : LifeCycle row events := by
  obtain ⟨hstatus, hstarted, hfinished, herror⟩ := h
  have hstarted' : row.startedAt ≠ none := Option.isSome_iff_ne_none.mp hstarted
  constructor <;> simp [hstatus, hstarted', hfinished, herror, RunStatus.terminal]

theorem IsOver.lifeCycle (h : IsOver row) (hend : EndsWell row) : LifeCycle row events := by
  have hstarted : row.startedAt ≠ none := Option.isSome_iff_ne_none.mp h.startedAt
  have hqueued : row.status ≠ .queued := by
    intro hstatus
    have hterminal := h.terminal
    simp [hstatus, RunStatus.terminal] at hterminal
  refine ⟨by simp [hstarted, hqueued], fun hstatus => absurd hstatus hqueued,
    by simp [h.finishedAt, h.terminal], h.errorMessage, fun hstatus => ?_, fun hstatus => ?_⟩
  · obtain ⟨_, _, _, _, -, hflag⟩ := hend.cancelled hstatus
    exact hflag
  · obtain ⟨target, now, htarget, hnow, hat⟩ := hend.completed hstatus
    exact ⟨target, htarget, by rw [hnow, hat]⟩

end

section

variable {μ : Type} {env : Env μ} {s₀ m s s' : State μ} {a : Action} {run : Uuid}
  {tr tr₁ tr₂ : List (Entry (State μ) Action)} {row row' : SimulationRunRow}
  {events : List RunEventRow}

/-- What the row of a run must be, by the point its worker is at. -/
theorem RunOk.lifeCycle {spur : Spur μ} {worker : Option (WorkerPoint μ)}
    (hclock : spur.ClockLaw) (h : RunOk spur ⟨some row, events⟩ worker) : LifeCycle row events := by
  obtain ⟨-, hok⟩ := h row rfl
  cases worker with
  | none => exact hok.1.lifeCycle hok.2
  | some p =>
      cases p with
      | loading => exact hok.1.lifeCycle hok.2
      | loadingProject copy => exact hok.elim
      | marking copy spec => exact hok.1.lifeCycle hok.2.1
      | running w q => exact hok.1.lifeCycle
      | handling w e => exact hok.1.lifeCycle
      | finishing w outcome => exact hok.1.lifeCycle
      | returned => exact hok.1.lifeCycle (hok.2 hclock)
      | raised e =>
          rcases hok with ⟨hq, hevents⟩ | hr
          · exact hq.lifeCycle hevents
          · exact hr.lifeCycle

/-! ### What one step writes -/

/-- What a step of the worker writes to the row. -/
inductive WorkerWrite (row : SimulationRunRow) : WorkerPoint μ → SimulationRunRow → Prop
  | none (p : WorkerPoint μ) : WorkerWrite row p row
  | running (copy : SimulationRunRow) (spec : Json.Object) (now : Time) :
      WorkerWrite row (.marking copy spec) (markRunning now row)
  | progress (w : WorkerSession) (l : Loop μ) (place : Flush) (t : Int) :
      WorkerWrite row (.running w (.flushing l place)) (markProgress t row)
  | failed (w : WorkerSession) (e : Exn) (now : Time) :
      WorkerWrite row (.handling w e) (markFailed now e row)
  | finished (w : WorkerSession) (outcome : Outcome) (now : Time) :
      WorkerWrite row (.finishing w outcome) (markFinished now outcome row)

/-- The copy of the row that the worker holds is up to date in what the worker writes. -/
def WorkerPoint.Copies (row : SimulationRunRow) : WorkerPoint μ → Prop
  | .marking copy _ => SameButClient copy row
  | .running w _ | .handling w _ | .finishing w _ => SameButClient w.row row
  | _ => True

theorem WorkerPoint.Ok.copies {spur : Spur μ} {p : WorkerPoint μ} (h : p.Ok spur row events) :
    p.Copies row := by
  cases p with
  | marking => exact h.2.2.1.same
  | running | finishing => exact h.2.1.same
  | handling => exact h.2.same
  | _ => trivial

theorem WorkerMove.write {project : Option ProjectRow} {io : Io} {p p' : WorkerPoint μ}
    {db' : RunSlice} (h : p.Copies row)
    (hmove : WorkerMove env project io ⟨some row, events⟩ p p' db')
    (hrow' : db'.row = some row') : WorkerWrite row p row' := by
  cases hmove with
  | marked hcommit =>
      rw [commitRun_ok hcommit, flush_markRunning h, Option.some.injEq] at hrow'
      exact hrow' ▸ .running _ _ _
  | flushed hchunk =>
      obtain ⟨-, rfl⟩ := onChunk_ok h hchunk
      rw [Option.some.injEq] at hrow'
      exact hrow' ▸ .progress _ _ _ _
  | handled _ hcommit =>
      rw [commitRun_ok hcommit, flush_markFailed h, Option.some.injEq] at hrow'
      exact hrow' ▸ .failed _ _ _
  | finished hcommit =>
      rw [commitRun_ok hcommit, flush_markFinished h, Option.some.injEq] at hrow'
      exact hrow' ▸ .finished _ _ _
  | _ =>
      rw [Option.some.injEq] at hrow'
      exact hrow' ▸ .none _

/-- The worker leaves the cancel flag alone. -/
theorem WorkerWrite.cancelRequested {p : WorkerPoint μ} (h : WorkerWrite row p row') :
    row'.cancelRequested = row.cancelRequested := by
  cases h <;> rfl

/-- And what the submission fixed. -/
theorem WorkerWrite.submission {p : WorkerPoint μ} (h : WorkerWrite row p row') :
    row'.submission = row.submission := by
  cases h <;> rfl

theorem WorkerWrite.statusStep {spur : Spur μ} {p : WorkerPoint μ}
    (hok : p.Ok spur row events) (h : WorkerWrite row p row') :
    StatusStep row.status row'.status := by
  cases h with
  | none => exact .stay _
  | running =>
      rw [hok.1.status]
      exact .start
  | progress => exact .stay _
  | failed =>
      rw [hok.1.status]
      exact .stop rfl
  | finished w outcome =>
      rw [hok.1.status]
      cases outcome <;> exact .stop rfl

/-- A run keeps what its submission fixed. -/
theorem submission_step (hok : RunsOk env.spur s) (hstep : s.step env a = some s')
    (hrow' : (s'.slice run).row = some row') :
    (∃ r project body rows sub,
      s.requests r = some (.submitRun project body (.inserting rows)) ∧ sub ∈ rows ∧
        sub.id = run ∧ row' = sub.row) ∨
    ∃ row, (s.slice run).row = some row ∧ row'.submission = row.submission := by
  cases run_change hok hstep hrow' with
  | inserted _ hreq hsub hid hrow => exact .inl ⟨_, _, _, _, _, hreq, hsub, hid, hrow.symm⟩
  | edited _ hrow _ _ hedit => exact .inr ⟨_, hrow, hedit.same.submission⟩
  | delivered _ _ _ hslice => exact .inr ⟨row', hslice ▸ hrow', rfl⟩
  | worked _ hrow _ _ hpok hmove => exact .inr ⟨_, hrow, (hmove.write hpok.copies hrow').submission⟩

/-! ### A run that was deleted does not come back -/

/-- The id was drawn, and no request is about to insert a run under it. -/
def NotPending (s : State μ) (run : Uuid) : Prop :=
  run ∈ s.backend.minted ∧ ∀ r q, s.requests r = some q → run ∉ q.pending

theorem notPending_of_row (hapart : IdsApart s) (hrow : (s.slice run).row = some row) :
    NotPending s run := by
  have hne : s.slice run ≠ .blank := by
    intro hblank
    rw [hblank] at hrow
    simp [RunSlice.blank] at hrow
  exact ⟨hapart.minted run (.inl hne), fun r q hq hpending =>
    hne (hapart.pending r q hq run hpending).1⟩

theorem NotPending.step (h : NotPending s run) (hstep : s.step env a = some s') :
    NotPending s' run := by
  refine ⟨minted_mono hstep h.1, fun r q' hq' hpending => ?_⟩
  cases request_step hstep hq' with
  | kept _ hq => exact h.2 r q' hq hpending
  | arrived _ _ hreceived =>
      have hid := q'.pending_subset hpending
      rw [ids_of_isReceived hreceived] at hid
      simp at hid
  | stepped _ hq hqstep =>
      rcases (Request.step_effect hqstep).ids with ⟨hnone, -⟩ | ⟨-, -, -, hnew⟩
      · simp [hnone] at hpending
      · exact (hnew run (q'.pending_subset hpending)).1 h.1

theorem NotPending.exec (hm : NotPending m run) (h : Exec (system env) m tr s) :
    NotPending s run :=
  h.invariant (I := fun s => NotPending s run) hm fun _ _ _ hI hstep => hI.step hstep

/-- A run keeps its submission as long as it is there. -/
theorem submission_run (hm : RunsOk env.spur m) (h : Exec (system env) m tr s)
    (hrow : (m.slice run).row = some row) : NotPending s run ∧
      ∀ row', (s.slice run).row = some row' → row'.submission = row.submission := by
  induction h with
  | nil =>
      refine ⟨notPending_of_row hm.apart hrow, fun row' hrow' => ?_⟩
      rw [hrow, Option.some.injEq] at hrow'
      rw [hrow']
  | @snoc tr s s' a h hstep ih =>
      obtain ⟨hnot, hsame⟩ := ih
      refine ⟨hnot.step hstep, fun row' hrow' => ?_⟩
      have hs : RunsOk env.spur s := h.invariant (I := RunsOk env.spur) hm
        fun _ _ _ hI hstep => hI.step hstep
      rcases submission_step hs hstep hrow' with
        ⟨r, project, body, pending, sub, hreq, hsub, hid, -⟩ | ⟨old, hold, hkept⟩
      · exact absurd (List.mem_map.mpr ⟨sub, hsub, hid⟩) (hnot.2 r _ hreq)
      · exact hkept.trans (hsame old hold)

/-- A terminal status is never left. -/
theorem terminal_run (hm : RunsOk env.spur m) (h : Exec (system env) m tr s)
    (hrow : (m.slice run).row = some row) (hterminal : row.status.terminal = true) :
    NotPending s run ∧ ∀ row', (s.slice run).row = some row' → row'.status = row.status := by
  induction h with
  | nil =>
      refine ⟨notPending_of_row hm.apart hrow, fun row' hrow' => ?_⟩
      rw [hrow, Option.some.injEq] at hrow'
      rw [hrow']
  | @snoc tr s s' a h hstep ih =>
      obtain ⟨hnot, hstatus⟩ := ih
      refine ⟨hnot.step hstep, fun row' hrow' => ?_⟩
      have hs : RunsOk env.spur s := h.invariant (I := RunsOk env.spur) hm
        fun _ _ _ hI hstep => hI.step hstep
      cases run_change hs hstep hrow' with
      | inserted _ hreq hsub hid =>
          exact absurd (List.mem_map.mpr ⟨_, hsub, hid⟩) (hnot.2 _ _ hreq)
      | edited _ hold _ _ hedit =>
          rw [← hstatus _ hold, hedit.same]
      | delivered _ _ _ hslice => exact hstatus row' (hslice ▸ hrow')
      | worked _ hold _ _ hok hmove =>
          have hmove := (hmove.write hok.copies hrow').statusStep hok
          have hold' := hstatus _ hold
          rw [hold'] at hmove
          generalize hto : row'.status = status at hmove
          generalize hfrom : row.status = old at *
          cases hmove with
          | stay => rfl
          | start => simp [RunStatus.terminal] at hterminal
          | stop => simp [RunStatus.terminal] at hterminal

/-- A run that is over has been executed to its end. -/
theorem returned_of_terminal (hok : RunsOk env.spur s) (hrow : (s.slice run).row = some row)
    (hterminal : row.status.terminal = true) : s.workers run = some .returned := by
  obtain ⟨-, hrun⟩ := hok.runs run row hrow
  have hnotQueued : ¬ IsQueued row := fun hq => by simp [hq.status, RunStatus.terminal] at hterminal
  have hnotRunning : ¬ IsRunning row := fun hr => by
    simp [hr.status, RunStatus.terminal] at hterminal
  generalize s.workers run = worker at hrun
  cases worker with
  | none => exact absurd hrun.1 hnotQueued
  | some p =>
      cases p with
      | loading | marking => exact absurd hrun.1 hnotQueued
      | loadingProject => exact hrun.elim
      | running | handling | finishing => exact absurd hrun.1 hnotRunning
      | returned => rfl
      | raised =>
          rcases hrun with hq | hr
          · exact absurd hq.1 hnotQueued
          · exact absurd hr hnotRunning

/-! ### The life cycle -/

/-- What is promised of a run in a history. -/
structure LivesBy (env : Env μ) (s₀ : State μ) (tr : List (Entry (State μ) Action))
    (s : State μ) (run : Uuid) : Prop where
  state : ∀ row, (s.slice run).row = some row → LifeCycle row (s.slice run).events
  moves : ∀ e ∈ tr, ∀ row row', (e.pre.slice run).row = some row →
    (e.post.slice run).row = some row' → StatusStep row.status row'.status
  inserted : ∀ e ∈ tr, ∀ row', (e.pre.slice run).row = none →
    (e.post.slice run).row = some row' → row'.status = .queued
  terminal : ∀ tr₁ tr₂ m row row', tr = tr₁ ++ tr₂ → Exec (system env) s₀ tr₁ m →
    (m.slice run).row = some row → row.status.terminal = true →
      (s.slice run).row = some row' → row'.status = row.status
  clients : ∀ e ∈ tr, (∀ io, e.act ≠ .work run io) → ∀ row row',
    (e.pre.slice run).row = some row → (e.post.slice run).row = some row' →
      SameButClient row row' ∧ (e.post.slice run).events = (e.pre.slice run).events

theorem RunsOk.lifeCycle (hok : RunsOk env.spur s) (hclock : env.spur.ClockLaw)
    (hrow : (s.slice run).row = some row) : LifeCycle row (s.slice run).events := by
  have hrun := hok.runs run
  generalize hd : s.slice run = d at hrow hrun
  obtain ⟨_ | row₁, events⟩ := d
  · simp at hrow
  · rw [Option.some.injEq] at hrow
    subst hrow
    exact hrun.lifeCycle hclock

/-- **The life cycle of every run**, in every interleaving of any number of requests and
workers. -/
theorem life_cycle (hclock : env.spur.ClockLaw) (h₀ : s₀.Initial)
    (h : Exec (system env) s₀ tr s) (run : Uuid) : LivesBy env s₀ tr s run where
  state row hrow := (RunsOk.exec h₀ h).lifeCycle hclock hrow
  moves e he row row' hrow hrow' := by
    obtain ⟨_, _, _, hpre, hstep, _⟩ := h.of_mem he
    cases run_change (RunsOk.exec h₀ hpre) hstep hrow' with
    | inserted _ _ _ _ _ _ hblank =>
        rw [hblank] at hrow
        simp [RunSlice.blank] at hrow
    | edited _ hold _ _ hedit =>
        rw [hrow, Option.some.injEq] at hold
        subst hold
        have hstatus : row'.status = row.status := by rw [hedit.same]
        rw [hstatus]
        exact .stay _
    | delivered _ _ _ hslice =>
        rw [hslice, hrow, Option.some.injEq] at hrow'
        rw [hrow']
        exact .stay _
    | worked _ hold _ _ hok hmove =>
        rw [hrow, Option.some.injEq] at hold
        subst hold
        exact (hmove.write hok.copies hrow').statusStep hok
  inserted e he row' hrow hrow' := by
    obtain ⟨_, _, _, hpre, hstep, _⟩ := h.of_mem he
    cases run_change (RunsOk.exec h₀ hpre) hstep hrow' with
    | inserted _ _ _ _ _ hnew => exact hnew.isQueued.status
    | delivered _ _ _ hslice =>
        rw [hslice, hrow] at hrow'
        simp at hrow'
    | edited _ hold | worked _ hold =>
        rw [hrow] at hold
        simp at hold
  terminal tr₁ tr₂ m row row' htr hm hrow hterminal hrow' := by
    subst htr
    obtain ⟨m', h₁, h₂⟩ := h.split
    rw [h₁.unique hm] at h₂
    exact (terminal_run (RunsOk.exec h₀ hm) h₂ hrow hterminal).2 row' hrow'
  clients e he hact row row' hrow hrow' := by
    obtain ⟨_, _, _, hpre, hstep, _⟩ := h.of_mem he
    cases run_change (RunsOk.exec h₀ hpre) hstep hrow' with
    | inserted _ _ _ _ _ _ hblank =>
        rw [hblank] at hrow
        simp [RunSlice.blank] at hrow
    | edited _ hold _ hevents hedit =>
        rw [hrow, Option.some.injEq] at hold
        subst hold
        exact ⟨hedit.same, hevents⟩
    | delivered _ _ _ hslice =>
        rw [hslice, hrow, Option.some.injEq] at hrow'
        rw [hrow', hslice]
        exact ⟨.refl _, rfl⟩
    | worked ha => exact absurd ha (hact _)

end

/-- A project is created, and one run of it is submitted as run 3. -/
def submitOne (body : RunCreate) : List Action :=
  [.arrive 0 (.createProject (.blank "A") none none .received), .request 0 {},
    .request 0 { ids := [1] }, .arrive 1 (.submitRun 1 body .received),
    .request 1 { ids := [2, 3] }, .request 1 {}, .request 1 {}, .request 1 { jobId := "job" },
    .request 1 {}]

/-- The run is executed, in this many steps. -/
def executeOne (steps : Nat) : List Action := .deliver 3 :: List.replicate steps (.work 3 {})

def shortRun : List (Entry (State Int) Action) × State Int :=
  (system clockEnv).played State.empty (submitOne (.single (some 2) (some 1)) ++ executeOne 13)
    (by decide)

/-- A run that completes. -/
theorem life_cycle_of_short_run :
    (shortRun.2.slice 3).row.map SimulationRunRow.status = some .completed ∧
      LivesBy clockEnv State.empty shortRun.1 shortRun.2 3 :=
  ⟨rfl, life_cycle Spur.clock_clockLaw State.empty_initial (Machine.played_exec _) 3⟩

end SpurApi
