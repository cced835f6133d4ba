/-
What a cancel request does to a run that is executed.

The worker reads the flag at one place, before each chunk, and the flag stays once it is
committed.  So at most one chunk starts after that, and from the first check that sees
the flag the invocation closes the run: it flushes what is in the batch and ends, and
the clock of the model does not move on the way.
-/
import SpurApi.Proofs.CancelFlag
import SpurApi.Proofs.Executions
import SpurApi.Proofs.PersistedEvents

namespace SpurApi

open Transition

section

variable {μ : Type} {env : Env μ} {s₀ m s s' : State μ} {a : Action} {run : Uuid}
  {tr tr₁ tr₂ : List (Entry (State μ) Action)} {row row' : SimulationRunRow}

/-! ### Calls of `model.run` -/

/-- The next step calls `model.run`. -/
def WorkerPoint.runsNext : WorkerPoint μ → Bool
  | .running _ (.advancing _) => true
  | _ => false

/-- By this entry a call of `model.run` starts. -/
def isModelRun (run : Uuid) (e : Entry (State μ) Action) : Bool :=
  match e.act with
  | .work run' _ => run' == run && (e.pre.workers run).any WorkerPoint.runsNext
  | _ => false

/-- How many calls of `model.run` start. -/
def modelRuns (run : Uuid) (tr : List (Entry (State μ) Action)) : Nat :=
  tr.countP (isModelRun run)

theorem modelRuns_append (tr₁ tr₂ : List (Entry (State μ) Action)) :
    modelRuns run (tr₁ ++ tr₂) = modelRuns run tr₁ + modelRuns run tr₂ := List.countP_append ..

theorem modelRuns_snoc_other {e : Entry (State μ) Action} (h : ∀ io, e.act ≠ .work run io) :
    modelRuns run (tr ++ [e]) = modelRuns run tr := by
  have hnot : isModelRun run e = false := by
    unfold isModelRun
    split
    · rename_i run' io hact
      have hne : (run' == run) = false := by
        rw [beq_eq_false_iff_ne]
        rintro rfl
        exact h io hact
      rw [hne, Bool.false_and]
    · rfl
  simp [modelRuns, List.countP_append, hnot]

theorem modelRuns_snoc_work {io : Io} {p : WorkerPoint μ} (hp : s.workers run = some p) :
    modelRuns run (tr ++ [⟨s, .work run io, s'⟩]) =
      modelRuns run tr + if p.runsNext then 1 else 0 := by
  cases hnext : p.runsNext <;> simp [modelRuns, List.countP_append, isModelRun, hp, hnext]

theorem settle_runsNext {w : WorkerSession} {p : RunPoint μ} (h : ∀ l, p ≠ .advancing l) :
    (w.settle p).runsNext = false := by
  cases p with
  | advancing l => exact absurd rfl (h l)
  | _ => rfl

theorem Loop.head_ne_advancing (spur : Spur μ) (l l' : Loop μ) : l.head spur ≠ .advancing l' := by
  rw [Loop.head]
  split <;> simp

/-- `model.run` is called after a check that found the row and no flag, and nowhere else. -/
theorem WorkerMove.runsNext {project : Option ProjectRow} {io : Io} {p p' : WorkerPoint μ}
    {db db' : RunSlice} (hflag : ∀ row, db.row = some row → row.cancelRequested = true)
    (hmove : WorkerMove env project io db p p' db') : p'.runsNext = false := by
  cases hmove with
  | @asked w l stored hfault hrow =>
      rw [hflag stored hrow]
      rfl
  | @flushed w w' l place =>
      refine settle_runsNext fun l' => ?_
      cases place with
      | chunk => exact Loop.head_ne_advancing _ _ _
      | cancelled | final => simp [RunPoint.flushed]
  | @advanced w q hask hflush =>
      refine settle_runsNext fun l' => ?_
      cases q with
      | asking l => exact absurd rfl (hask l)
      | flushing l place => exact absurd rfl (hflush l place)
      | building | advancing | logging =>
          simp only [SpurRunner.advance]
          split <;> simp
      | starting =>
          simp only [SpurRunner.advance]
          split
          · simp
          · split
            · simp
            · split
              · simp
              · exact Loop.head_ne_advancing _ _ _
      | finished | raised => simp [SpurRunner.advance]
  | _ => rfl

/-- A flagged run is not inserted again: no submission still has its id. -/
private theorem not_inserted_of_flagged (h₀ : s₀.Initial) (h₁ : Exec (system env) s₀ tr₁ m)
    (h₂ : Exec (system env) m tr₂ s) (hflagged : m.Flagged run) {r : RequestId} {project : Uuid}
    {body : RunCreate} {rows : List Submitted} {sub : Submitted}
    (hreq : s.requests r = some (.submitRun project body (.inserting rows)))
    (hsub : sub ∈ rows) : sub.id ≠ run := by
  intro hid
  obtain ⟨row, hrow, -⟩ := hflagged
  have hnot := (submission_run (RunsOk.exec h₀ h₁) h₂ hrow).1
  exact hnot.2 _ _ hreq (List.mem_map.mpr ⟨_, hsub, hid⟩)

/-- **After the flag is committed at most one call of `model.run` starts.** -/
theorem modelRuns_of_flagged (h₀ : s₀.Initial) (h₁ : Exec (system env) s₀ tr₁ m)
    (h₂ : Exec (system env) m tr₂ s) (hflagged : m.Flagged run) :
    ∀ row, (s.slice run).row = some row → row.cancelRequested = true ∧
      modelRuns run tr₂ + (if (s.workers run).any WorkerPoint.runsNext then 1 else 0) ≤ 1 := by
  induction h₂ with
  | nil =>
      intro row hrow
      obtain ⟨row', hrow', hflag⟩ := hflagged
      rw [hrow, Option.some.injEq] at hrow'
      refine ⟨hrow' ▸ hflag, ?_⟩
      simp only [modelRuns, List.countP_nil]
      split <;> omega
  | @snoc tr s s' a h hstep ih =>
      intro row' hrow'
      have hok := RunsOk.exec h₀ (h₁.append h)
      cases run_change hok hstep hrow' with
      | inserted _ hreq hsub hid =>
          exact absurd hid (not_inserted_of_flagged h₀ h₁ h hflagged hreq hsub)
      | edited hact hrow hworker _ hedit =>
          obtain ⟨hflag, hruns⟩ := ih _ hrow
          rw [modelRuns_snoc_other hact, hworker]
          exact ⟨hedit.cancelRequested hflag, hruns⟩
      | delivered hact hworker hworker' hslice =>
          obtain ⟨hflag, hruns⟩ := ih row' (hslice ▸ hrow')
          rw [modelRuns_snoc_other hact, hworker']
          rw [hworker] at hruns
          exact ⟨hflag, hruns⟩
      | @worked io row p p' ha hrow hworker hworker' hpok hmove =>
          obtain ⟨hflag, hruns⟩ := ih row hrow
          subst ha
          have hnext : p'.runsNext = false := hmove.runsNext fun stored hstored => by
            rw [Option.some.injEq] at hstored
            exact hstored ▸ hflag
          rw [hworker, Option.any_some] at hruns
          rw [modelRuns_snoc_work hworker, hworker', Option.any_some, hnext]
          exact ⟨(hmove.write hpok.copies hrow').cancelRequested.trans hflag, hruns⟩

/-! ### Closing a run -/

/-- The invocation is closing the run with the clock at `t`: the next check sees the flag, or has
seen it. -/
def WorkerPoint.Closes (spur : Spur μ) (t : Int) (row : SimulationRunRow) : WorkerPoint μ → Prop
  | .running _ (.asking l) | .running _ (.flushing l .cancelled) => spur.now l.model = t
  | .finishing _ .cancelled => row.simTimeNow = some t
  | .returned => row.status = .cancelled ∧ row.simTimeNow = some t
  | _ => False

/-- The model has not run: the invocation is before its first check. -/
def WorkerPoint.early : WorkerPoint μ → Bool
  | .loading | .loadingProject _ | .marking _ _ | .running _ .building
  | .running _ (.starting _) => true
  | _ => false

theorem WorkerPoint.runsNext_of_early {p : WorkerPoint μ} (h : p.early = true) :
    p.runsNext = false := by
  cases p with
  | running w q => cases q <;> first | rfl | simp [WorkerPoint.early] at h
  | _ => rfl

theorem WorkerPoint.Closes.edited {cancels : Prop} {spur : Spur μ} {t : Int} {p : WorkerPoint μ}
    (h : p.Closes spur t row) (hedit : ClientEdit cancels row row') : p.Closes spur t row' := by
  have hsame := hedit.same
  rw [SameButClient] at hsame
  rw [hsame]
  exact h

theorem WorkerPoint.Closes.runsNext {spur : Spur μ} {t : Int} {p : WorkerPoint μ}
    (h : p.Closes spur t row) : p.runsNext = false := by
  cases p with
  | running w q => cases q with
    | advancing l => exact h.elim
    | _ => rfl
  | _ => rfl

/-- Closing goes on to the end, and the model is not called. -/
theorem WorkerPoint.Closes.step {project : Option ProjectRow} {io : Io} {p p' : WorkerPoint μ}
    {events : List RunEventRow} {db' : RunSlice} {t : Int} (h : p.Closes env.spur t row)
    (hok : p.Ok env.spur row events) (hflag : row.cancelRequested = true)
    (hmove : WorkerMove env project io ⟨some row, events⟩ p p' db')
    (hrow' : db'.row = some row') (hfailed : p'.failed = false) (pr : Progress) :
    p'.Closes env.spur t row' ∧ (pr.next env.spur p p').emitted = pr.emitted := by
  cases hmove with
  | @asked w l stored hfault hrow =>
      rw [Option.some.injEq] at hrow hrow'
      subst hrow hrow'
      rw [hflag]
      exact ⟨h, List.append_nil _⟩
  | @flushed w w' l place _ hchunk =>
      obtain ⟨-, rfl⟩ := onChunk_ok hok.2.1.same hchunk
      rw [Option.some.injEq] at hrow'
      subst hrow'
      cases place with
      | chunk | final => exact h.elim
      | cancelled =>
          have hnow : env.spur.now l.model = t := h
          exact ⟨congrArg some hnow, rfl⟩
  | @finished w outcome _ hcommit =>
      rw [commitRun_ok hcommit, flush_markFinished hok.2.1.same, Option.some.injEq] at hrow'
      subst hrow'
      cases outcome with
      | completed => exact h.elim
      | cancelled => exact ⟨⟨rfl, h⟩, rfl⟩
  | askRaised | flushRaised | finishRaised => simp [WorkerPoint.failed] at hfailed
  | @advanced w q hask hflush =>
      cases q with
      | asking l => exact absurd rfl (hask l)
      | flushing l place => exact absurd rfl (hflush l place)
      | _ => exact h.elim
  | _ => exact h.elim

/-- Before its first check the run closes at 0, when it has somewhere to go. -/
theorem WorkerMove.closes_of_early (hclock : env.spur.ClockLaw) {project : Option ProjectRow}
    {io : Io} {p p' : WorkerPoint μ} {events : List RunEventRow} {db' : RunSlice} {target : Int}
    (htarget : row.untilTarget = some target) (hpos : 0 < target) (hearly : p.early = true)
    (hok : p.Ok env.spur row events)
    (hmove : WorkerMove env project io ⟨some row, events⟩ p p' db')
    (hfailed : p'.failed = false) : p'.early = true ∨ p'.Closes env.spur 0 row' := by
  cases hmove with
  | loadRaised | markRaised => simp [WorkerPoint.failed] at hfailed
  | loaded | loadedBare | projectLoaded | marked => exact .inl rfl
  | projectRaised => exact hok.elim
  | @advanced w q hask hflush =>
      cases q with
      | building =>
          simp only [SpurRunner.advance] at hfailed ⊢
          split
          · rename_i hbuild
            simp [hbuild, WorkerSession.settle, WorkerPoint.failed] at hfailed
          · exact .inl rfl
      | starting model =>
          obtain ⟨-, hcopy, -, -, -, target', htarget', hclocked⟩ := hok
          rw [htarget, Option.some.injEq] at htarget'
          subst htarget'
          have hrunner : w.runner.untilTime = some target := by
            have hsame : row.untilTarget = w.row.untilTarget :=
              congrArg Submission.untilTarget hcopy.same.submission
            simp [WorkerSession.runner, ← hsame, htarget]
          have hzero : env.spur.now model = 0 := hclocked hclock
          simp only [SpurRunner.advance, SpurRunner.untilTarget, hrunner] at hfailed ⊢
          cases hstart : (env.spur.start model).result with
          | error e => simp [hstart, WorkerSession.settle, WorkerPoint.failed] at hfailed
          | ok model' =>
              cases hchunk : w.runner.chunk env.settings target with
              | error e =>
                  simp [hstart, hchunk, WorkerSession.settle, WorkerPoint.failed] at hfailed
              | ok chunk =>
                  have hnow : env.spur.now model' = 0 := (hclock.start hstart).trans hzero
                  simp only [Loop.head, hnow, hpos, if_true]
                  exact .inr hnow
      | asking l => exact absurd rfl (hask l)
      | flushing l place => exact absurd rfl (hflush l place)
      | _ => simp [WorkerPoint.early] at hearly
  | _ => simp [WorkerPoint.early] at hearly

theorem settle_early {w : WorkerSession} {p : RunPoint μ}
    (h : p ≠ .building ∧ ∀ model, p ≠ .starting model) : (w.settle p).early = false := by
  cases p with
  | building => exact absurd rfl h.1
  | starting model => exact absurd rfl (h.2 model)
  | _ => rfl

/-- An invocation does not return to a point before its first check. -/
theorem WorkerMove.early_of_early {project : Option ProjectRow} {io : Io} {p p' : WorkerPoint μ}
    {db db' : RunSlice} (hmove : WorkerMove env project io db p p' db') (h : p'.early = true) :
    p.early = true := by
  cases hmove with
  | loaded | loadedBare | projectLoaded | marked => rfl
  | @asked w l stored =>
      cases hflag : stored.cancelRequested <;> simp [hflag, WorkerPoint.early] at h
  | @flushed w w' l place =>
      have hnot : (w'.settle ((RunPoint.flushing l place).flushed env.spur)).early = false := by
        refine settle_early ?_
        cases place with
        | chunk =>
            simp only [RunPoint.flushed, Loop.head]
            split <;> simp
        | cancelled | final => simp [RunPoint.flushed]
      simp [hnot] at h
  | @advanced w q hask hflush =>
      cases q with
      | building | starting => rfl
      | asking l => exact absurd rfl (hask l)
      | flushing l place => exact absurd rfl (hflush l place)
      | advancing | logging | finished | raised =>
          refine absurd h ?_
          rw [Bool.not_eq_true]
          refine settle_early ?_
          simp only [SpurRunner.advance]
          try split
          all_goals simp
  | _ => simp [WorkerPoint.early] at h

private theorem modelRuns_of_early (h₀ : s₀.Initial) (h : Exec (system env) s₀ tr s) :
    (∀ p, s.workers run = some p → p.early = true) → modelRuns run tr = 0 := by
  induction h with
  | nil => exact fun _ => rfl
  | @snoc tr s s' a h hstep ih =>
      intro hearly
      cases step_run (IdsApart.exec h₀ h) hstep run with
      | client hact hworker =>
          rw [modelRuns_snoc_other hact]
          exact ih (hworker ▸ hearly)
      | inserted hact _ _ _ _ hworker =>
          rw [modelRuns_snoc_other hact]
          exact ih (by simp [hworker])
      | delivered ha _ hworker =>
          rw [modelRuns_snoc_other (by simp [ha])]
          exact ih (by simp [hworker])
      | @worked io p p' ha hworker hworker' hpstep =>
          have hp := (workerMove_of_step hpstep).early_of_early (hearly p' hworker')
          rw [ha, modelRuns_snoc_work hworker, WorkerPoint.runsNext_of_early hp]
          refine ih fun p₁ hp₁ => ?_
          rw [hworker, Option.some.injEq] at hp₁
          exact hp₁ ▸ hp

/-! ### In a history -/

/-- From a check that sees the flag on, the run is closed. -/
private theorem closes_of_exec (h₀ : s₀.Initial)
    (h₁ : Exec (system env) s₀ tr₁ m) (h₂ : Exec (system env) m tr₂ s)
    (hmodel : CallsReturn env run (tr₁ ++ tr₂)) (hfault : NoFaults run (tr₁ ++ tr₂))
    (hflagged : m.Flagged run) {t : Int} {p : WorkerPoint μ} (hp : m.workers run = some p)
    (hcloses : ∀ row, (m.slice run).row = some row → p.Closes env.spur t row) :
    ∀ row, (s.slice run).row = some row → ChunkOk env.settings row.chunkSize →
      (∃ p', s.workers run = some p' ∧ p'.Closes env.spur t row) ∧ modelRuns run tr₂ = 0 ∧
        (progress env run (tr₁ ++ tr₂)).emitted = (progress env run tr₁).emitted := by
  induction h₂ with
  | nil =>
      intro row hrow _
      exact ⟨⟨p, hp, hcloses row hrow⟩, rfl, by rw [List.append_nil]⟩
  | @snoc tr s s' a h hstep ih =>
      intro row' hrow' hchunk
      have hexec := h₁.append h
      have hok := RunsOk.exec h₀ hexec
      rw [← List.append_assoc] at hmodel hfault ⊢
      replace ih := ih (fun e he => hmodel e (List.mem_append_left _ he))
        fun e he => hfault e (List.mem_append_left _ he)
      cases run_change hok hstep hrow' with
      | inserted _ hreq hsub hid =>
          exact absurd hid (not_inserted_of_flagged h₀ h₁ h hflagged hreq hsub)
      | @edited row hact hrow hworker _ hedit =>
          have hsize : row'.chunkSize = row.chunkSize :=
            congrArg Submission.chunkSize hedit.same.submission
          obtain ⟨⟨p', hp', hcl⟩, hruns, hemitted⟩ := ih row hrow (hsize ▸ hchunk)
          rw [modelRuns_snoc_other hact, progress_snoc, Progress.entry_other hact, hworker]
          exact ⟨⟨p', hp', hcl.edited hedit⟩, hruns, hemitted⟩
      | delivered _ hworker _ hslice =>
          obtain ⟨⟨p', hp', -⟩, -⟩ := ih row' (hslice ▸ hrow') hchunk
          simp [hworker] at hp'
      | @worked io row q q' ha hrow hworker hworker' hpok hmove =>
          have hsize : row'.chunkSize = row.chunkSize :=
            congrArg Submission.chunkSize (hmove.write hpok.copies hrow').submission
          obtain ⟨⟨p', hp', hcl⟩, hruns, hemitted⟩ := ih row hrow (hsize ▸ hchunk)
          rw [hworker, Option.some.injEq] at hp'
          subst hp' ha
          have hflag := (modelRuns_of_flagged h₀ h₁ h hflagged row hrow).1
          have hfailed := (not_failed_of_exec h₀ (hexec.snoc hstep) hmodel hfault row' hrow'
            hchunk).2 q' hworker'
          obtain ⟨hcl', hsame⟩ := hcl.step hpok hflag hmove hrow' hfailed
            (progress env run (tr₁ ++ tr))
          rw [modelRuns_snoc_work hworker, hcl.runsNext, progress_snoc,
            Progress.entry_work hworker hworker', hsame]
          exact ⟨⟨q', hworker', hcl'⟩, hruns, hemitted⟩

/-- A run that is flagged before its first check is closed at 0. -/
private theorem waits_of_exec (hclock : env.spur.ClockLaw) (h₀ : s₀.Initial)
    (h₁ : Exec (system env) s₀ tr₁ m) (h₂ : Exec (system env) m tr₂ s)
    (hmodel : CallsReturn env run (tr₁ ++ tr₂)) (hfault : NoFaults run (tr₁ ++ tr₂))
    (hflagged : m.Flagged run) (hearly : ∀ p, m.workers run = some p → p.early = true)
    {target : Int} (hpos : 0 < target) :
    ∀ row, (s.slice run).row = some row → ChunkOk env.settings row.chunkSize →
      row.untilTarget = some target → modelRuns run tr₂ = 0 ∧
        ∀ p, s.workers run = some p → p.early = true ∨ p.Closes env.spur 0 row := by
  induction h₂ with
  | nil => exact fun row hrow _ _ => ⟨rfl, fun p hp => .inl (hearly p hp)⟩
  | @snoc tr s s' a h hstep ih =>
      intro row' hrow' hchunk htarget
      have hexec := h₁.append h
      have hok := RunsOk.exec h₀ hexec
      rw [← List.append_assoc] at hmodel hfault
      replace ih := ih (fun e he => hmodel e (List.mem_append_left _ he))
        fun e he => hfault e (List.mem_append_left _ he)
      cases run_change hok hstep hrow' with
      | inserted _ hreq hsub hid =>
          exact absurd hid (not_inserted_of_flagged h₀ h₁ h hflagged hreq hsub)
      | @edited row hact hrow hworker _ hedit =>
          have hsub := hedit.same.submission
          have hsize : row'.chunkSize = row.chunkSize := congrArg Submission.chunkSize hsub
          have htarget' : row'.untilTarget = row.untilTarget :=
            congrArg Submission.untilTarget hsub
          obtain ⟨hruns, hp⟩ := ih row hrow (hsize ▸ hchunk) (htarget' ▸ htarget)
          rw [modelRuns_snoc_other hact, hworker]
          exact ⟨hruns, fun p hw => (hp p hw).imp_right fun hcl => hcl.edited hedit⟩
      | delivered hact _ hworker' hslice =>
          rw [modelRuns_snoc_other hact, hworker']
          refine ⟨(ih row' (hslice ▸ hrow') hchunk htarget).1, fun p hp => .inl ?_⟩
          rw [Option.some.injEq] at hp
          exact hp ▸ rfl
      | @worked io row p p' ha hrow hworker hworker' hpok hmove =>
          have hsub := (hmove.write hpok.copies hrow').submission
          have hsize : row'.chunkSize = row.chunkSize := congrArg Submission.chunkSize hsub
          have htarget' : row'.untilTarget = row.untilTarget :=
            congrArg Submission.untilTarget hsub
          rw [htarget'] at htarget
          obtain ⟨hruns, hp⟩ := ih row hrow (hsize ▸ hchunk) htarget
          have hflag := (modelRuns_of_flagged h₀ h₁ h hflagged row hrow).1
          have hfailed := (not_failed_of_exec h₀ (hexec.snoc hstep) hmodel hfault row' hrow'
            hchunk).2 p' hworker'
          rw [ha, modelRuns_snoc_work hworker, hworker']
          rcases hp p hworker with hp | hp
          · rw [WorkerPoint.runsNext_of_early hp]
            refine ⟨hruns, fun p₁ hp₁ => ?_⟩
            rw [Option.some.injEq] at hp₁
            exact hp₁ ▸ hmove.closes_of_early hclock htarget hpos hp hpok hfailed
          · rw [hp.runsNext]
            refine ⟨hruns, fun p₁ hp₁ => .inr ?_⟩
            rw [Option.some.injEq] at hp₁
            exact hp₁ ▸ (hp.step hpok hflag hmove hrow' hfailed .start).1

/-- By this entry `is_cancelled` is called, before a chunk. -/
def Checks (e : Entry (State μ) Action) (run : Uuid) (l : Loop μ) : Prop :=
  ∃ w io, e.act = .work run io ∧ e.pre.workers run = some (.running w (.asking l))

/-- The invocation has seen the flag. -/
def WorkerPoint.cancels : WorkerPoint μ → Bool
  | .running _ (.flushing _ .cancelled) | .running _ (.finished .cancelled)
  | .finishing _ .cancelled => true
  | _ => false

theorem settle_cancels {w : WorkerSession} {p : RunPoint μ}
    (h : (∀ l, p ≠ .flushing l .cancelled) ∧ p ≠ .finished .cancelled) :
    (w.settle p).cancels = false := by
  cases p with
  | flushing l place => cases place with
    | cancelled => exact absurd rfl (h.1 l)
    | _ => rfl
  | finished outcome => cases outcome with
    | cancelled => exact absurd rfl h.2
    | _ => rfl
  | _ => rfl

theorem WorkerMove.cancels {project : Option ProjectRow} {io : Io} {p p' : WorkerPoint μ}
    {events : List RunEventRow} {db' : RunSlice} (hp : p.cancels = false)
    (hcheck : ∀ w l, p = .running w (.asking l) → row.cancelRequested = false)
    (hmove : WorkerMove env project io ⟨some row, events⟩ p p' db') : p'.cancels = false := by
  cases hmove with
  | @asked w l stored hfault hrow =>
      rw [Option.some.injEq] at hrow
      subst hrow
      rw [hcheck w l rfl]
      rfl
  | @flushed w w' l place =>
      refine settle_cancels ?_
      cases place with
      | chunk =>
          simp only [RunPoint.flushed, Loop.head]
          split <;> simp
      | cancelled => simp [WorkerPoint.cancels] at hp
      | final => simp [RunPoint.flushed]
  | @advanced w q hask hflush =>
      refine settle_cancels ?_
      cases q with
      | asking l => exact absurd rfl (hask l)
      | flushing l place => exact absurd rfl (hflush l place)
      | starting model =>
          simp only [SpurRunner.advance, Loop.head]
          repeat' split
          all_goals simp
      | finished outcome => cases outcome with
        | completed => simp [SpurRunner.advance]
        | cancelled => simp [WorkerPoint.cancels] at hp
      | building | advancing | logging | raised =>
          simp only [SpurRunner.advance]
          try split
          all_goals simp
  | _ => rfl

/-- When no check sees the flag the invocation does not cancel the run. -/
private theorem not_cancelled_of_unchecked (h₀ : s₀.Initial) (h : Exec (system env) s₀ tr s)
    (hunseen : ∀ e ∈ tr, ∀ l, Checks e run l → ¬ e.pre.Flagged run) :
    ∀ row, (s.slice run).row = some row →
      row.status ≠ .cancelled ∧ ∀ p, s.workers run = some p → p.cancels = false := by
  induction h with
  | nil =>
      intro row hrow
      exact (h₀.not_row hrow).elim
  | @snoc tr s s' a h hstep ih =>
      intro row' hrow'
      replace ih := ih fun e he => hunseen e (List.mem_append_left _ he)
      cases run_change (RunsOk.exec h₀ h) hstep hrow' with
      | inserted _ _ _ _ _ hnew _ _ hworker' =>
          refine ⟨by simp [hnew.isQueued.status], by simp [hworker']⟩
      | edited _ hrow hworker _ hedit =>
          obtain ⟨hstatus, hp⟩ := ih _ hrow
          rw [hworker]
          refine ⟨?_, hp⟩
          rw [hedit.same]
          exact hstatus
      | delivered _ _ hworker' hslice =>
          refine ⟨(ih row' (hslice ▸ hrow')).1, fun p hp => ?_⟩
          rw [hworker', Option.some.injEq] at hp
          exact hp ▸ rfl
      | @worked io row p p' ha hrow hworker hworker' hpok hmove =>
          obtain ⟨hstatus, hp⟩ := ih row hrow
          have hcancels := hp p hworker
          refine ⟨?_, fun p₁ hp₁ => ?_⟩
          · have hwrite := hmove.write hpok.copies hrow'
            cases hwrite with
            | finished w outcome now => cases outcome with
              | completed => simp [markFinished, Outcome.status]
              | cancelled => simp [WorkerPoint.cancels] at hcancels
            | none | progress => exact hstatus
            | running | failed => simp [markRunning, markFailed]
          · rw [hworker', Option.some.injEq] at hp₁
            subst hp₁
            refine hmove.cancels hcancels fun w l hask => ?_
            rw [← Bool.not_eq_true]
            intro hflag
            refine hunseen _ (List.mem_append_right tr (List.mem_singleton.mpr rfl)) l ?_
              ⟨row, hrow, hflag⟩
            exact ⟨w, io, ha, hask ▸ hworker⟩

/-! ### What a cancel request does -/

/-- What is promised of a run with this target in a history, whenever a cancel request commits. -/
structure CancelsWell (env : Env μ) (s₀ : State μ) (tr : List (Entry (State μ) Action))
    (s : State μ) (run : Uuid) (row : SimulationRunRow) (target : Int) : Prop where
  /-- a cancel request that commits sets the flag -/
  sets : ∀ e ∈ tr, CancelCommits e.pre e.act e.post run → ∀ row',
    (e.post.slice run).row = some row' → row'.cancelRequested = true
  /-- and no step resets it -/
  kept : ∀ e ∈ tr, e.pre.Flagged run → ∀ row',
    (e.post.slice run).row = some row' → row'.cancelRequested = true
  atMostOne : ∀ tr₁ tr₂ m, tr = tr₁ ++ tr₂ → Exec (system env) s₀ tr₁ m → m.Flagged run →
    modelRuns run tr₂ ≤ 1
  /-- the invocation ends: its steps are bounded, it can always go on, and it raises nothing -/
  ends : works run tr ≤ 3 * target.toNat + 8 ∧ ∀ p, s.workers run = some p →
    p = .returned ∨ p.ended = false ∧ ∀ io, ∃ s', s.step env (.work run io) = some s'
  checked : ∀ tr₁ e tr₂ l, tr = tr₁ ++ e :: tr₂ → Checks e run l → e.pre.Flagged run →
    s.workers run = some .returned →
      row.status = .cancelled ∧ row.cancelRequested = true ∧
        row.simTimeNow = some (env.spur.now l.model) ∧ env.spur.now l.model < target ∧
          (progress env run tr).emitted = (progress env run tr₁).emitted ∧
            (s.slice run).events = eventRows 0 (progress env run tr₁).emitted
  queued : ∀ tr₁ tr₂ m row', tr = tr₁ ++ tr₂ → Exec (system env) s₀ tr₁ m →
    (m.slice run).row = some row' → row'.status = .queued → row'.cancelRequested = true →
      modelRuns run tr = 0 ∧ (s.workers run = some .returned →
        row.status = .cancelled ∧ row.simTimeNow = some 0)
  unchecked : (∀ e ∈ tr, ∀ l, Checks e run l → ¬ e.pre.Flagged run) →
    s.workers run = some .returned → row.status = .completed ∧ row.simTimeNow = some target
  requested : row.status = .cancelled → ∃ e ∈ tr, CancelCommits e.pre e.act e.post run

/-- A queued run is before its first check. -/
private theorem early_of_queued (h₀ : s₀.Initial) (h : Exec (system env) s₀ tr s)
    (hmodel : CallsReturn env run tr) (hfault : NoFaults run tr)
    (hrow : (s.slice run).row = some row) (hstatus : row.status = .queued)
    (hchunk : ChunkOk env.settings row.chunkSize) {p : WorkerPoint μ}
    (hp : s.workers run = some p) : p.early = true := by
  have hfailed := (not_failed_of_exec h₀ h hmodel hfault row hrow hchunk).2 p hp
  obtain ⟨-, hok⟩ := (RunsOk.exec h₀ h).runs run row hrow
  rw [hp] at hok
  have hnotRunning : ¬ IsRunning row := fun hr => by simp [hr.status] at hstatus
  cases p with
  | loading | loadingProject | marking => rfl
  | running | handling | finishing => exact absurd hok.1 hnotRunning
  | returned =>
      have hterminal := hok.1.terminal
      simp [hstatus, RunStatus.terminal] at hterminal
  | raised => simp [WorkerPoint.failed] at hfailed

/-- **Cancellation takes effect within one chunk and loses nothing.** -/
theorem cancels_within_one_chunk (hclock : env.spur.ClockLaw) (h₀ : s₀.Initial)
    (h : Exec (system env) s₀ tr s) (hmodel : CallsReturn env run tr) (hfault : NoFaults run tr)
    (hrow : (s.slice run).row = some row) {target : Int}
    (htarget : row.untilTarget = some target) (hpos : 0 < target)
    (hchunk : ChunkOk env.settings row.chunkSize) : CancelsWell env s₀ tr s run row target where
  sets e he hcommits row' hrow' := by
    obtain ⟨_, _, _, hpre, hstep, _⟩ := h.of_mem he
    exact flagged_of_cancelCommits (knowsFlag_of_exec h₀ hpre) hstep hcommits hrow'
  kept e he hflagged row' hrow' := by
    obtain ⟨_, _, _, hpre, hstep, _⟩ := h.of_mem he
    exact hflagged.step (RunsOk.exec h₀ hpre) hstep hrow'
  atMostOne tr₁ tr₂ m htr hm hflagged := by
    subst htr
    obtain ⟨m', h₁, h₂⟩ := h.split
    rw [h₁.unique hm] at h₂
    exact Nat.le_trans (Nat.le_add_right _ _) (modelRuns_of_flagged h₀ hm h₂ hflagged row hrow).2
  ends := by
    refine ⟨?_, fun p hp => ?_⟩
    · have hbound := works_bounded hclock h₀ h row target hrow htarget hchunk.nonneg
      omega
    · have hfailed := (not_failed_of_exec h₀ h hmodel hfault row hrow hchunk).2 p hp
      cases hended : p.ended with
      | false => exact .inr ⟨rfl, exists_step_of_worker hp hended⟩
      | true => cases p with
        | returned => exact .inl rfl
        | raised e => simp [WorkerPoint.failed] at hfailed
        | _ => simp [WorkerPoint.ended] at hended
  checked tr₁ e tr₂ l htr hcheck hflagged hreturned := by
    subst htr
    obtain ⟨w, io, hact, hworker⟩ := hcheck
    obtain ⟨h₁, hstep, h₂⟩ := h.split_at
    have hrest : Exec (system env) e.pre (e :: tr₂) s := Exec.cons hstep h₂
    obtain ⟨⟨p', hp', hcloses⟩, -, hemitted⟩ := closes_of_exec h₀ h₁ hrest hmodel hfault hflagged
      hworker (t := env.spur.now l.model) (fun _ _ => rfl) row hrow hchunk
    rw [hreturned, Option.some.injEq] at hp'
    subst hp'
    obtain ⟨hstatus, hnow⟩ := hcloses
    have hlt : env.spur.now l.model < target := by
      obtain ⟨row₁, hrow₁, -⟩ := hflagged
      have hsub := (submission_run (RunsOk.exec h₀ h₁) hrest hrow₁).2 row hrow
      have htarget₁ : row.untilTarget = row₁.untilTarget := congrArg Submission.untilTarget hsub
      obtain ⟨-, hok⟩ := (RunsOk.exec h₀ h₁).runs run row₁ hrow₁
      rw [hworker] at hok
      obtain ⟨-, -, -, -, -, target', htarget', hclocked⟩ := hok
      rw [← htarget₁, htarget, Option.some.injEq] at htarget'
      exact htarget' ▸ (hclocked hclock).2.2
    have hp := persisted_of_exec h₀ h run
    have hflag := (modelRuns_of_flagged h₀ h₁ hrest hflagged row hrow).1
    refine ⟨hstatus, hflag, hnow, hlt, hemitted, ?_⟩
    rw [(hp.stored row hrow).1, hp.returned hreturned row hrow (by simp [hstatus]), hemitted]
  queued tr₁ tr₂ m row₁ htr hm hrow₁ hstatus hflag := by
    subst htr
    obtain ⟨m', h₁, h₂⟩ := h.split
    rw [h₁.unique hm] at h₂
    have hsub := (submission_run (RunsOk.exec h₀ hm) h₂ hrow₁).2 row hrow
    have hsize : row.chunkSize = row₁.chunkSize := congrArg Submission.chunkSize hsub
    have hmodel₁ : CallsReturn env run tr₁ := fun e he => hmodel e (List.mem_append_left _ he)
    have hfault₁ : NoFaults run tr₁ := fun e he => hfault e (List.mem_append_left _ he)
    have hearly : ∀ p, m.workers run = some p → p.early = true := fun p hp =>
      early_of_queued h₀ hm hmodel₁ hfault₁ hrow₁ hstatus (hsize ▸ hchunk) hp
    obtain ⟨hruns, hend⟩ := waits_of_exec hclock h₀ hm h₂ hmodel hfault ⟨row₁, hrow₁, hflag⟩
      hearly hpos row hrow hchunk htarget
    refine ⟨by rw [modelRuns_append, modelRuns_of_early h₀ hm hearly, hruns], fun hreturned => ?_⟩
    rcases hend _ hreturned with hno | hcloses
    · simp [WorkerPoint.early] at hno
    · exact hcloses
  unchecked hunseen hreturned := by
    have hcancelled := (not_cancelled_of_unchecked h₀ h hunseen row hrow).1
    have hfailed := (not_failed_of_exec h₀ h hmodel hfault row hrow hchunk).1
    obtain ⟨-, hok⟩ := (RunsOk.exec h₀ h).runs run row hrow
    rw [hreturned] at hok
    have hterminal := hok.1.terminal
    have hstatus : row.status = .completed := by
      cases hs : row.status <;> simp [hs, RunStatus.terminal] at hterminal hcancelled hfailed ⊢
    obtain ⟨target', now, htarget', hnow, hend⟩ := (hok.2 hclock).completed hstatus
    rw [htarget, Option.some.injEq] at htarget'
    refine ⟨hstatus, ?_⟩
    rw [hnow, hend, ← htarget', Int.max_eq_right (Int.le_of_lt hpos)]
  requested hstatus := by
    exact exists_cancelCommits h₀ h
      ⟨row, hrow, ((RunsOk.exec h₀ h).lifeCycle hclock hrow).cancelled hstatus⟩

end

/-- The next call of `model.run`, if it comes next, has an end that is after now. -/
def WorkerPoint.forward : WorkerPoint Int → Bool
  | .running _ (.advancing l) => l.model < l.nextCheckpoint Spur.clock
  | _ => true

theorem callsReturn_of_all {tr : List (Entry (State Int) Action)} {run : Uuid}
    (h : (tr.all fun e => (e.pre.workers run).all WorkerPoint.forward) = true) :
    CallsReturn clockEnv run tr := by
  intro e he io w q _ hw
  have hforward := List.all_eq_true.mp h e he
  rw [hw, Option.all_some] at hforward
  cases q with
  | building | starting | logging => exact ⟨_, rfl⟩
  | advancing l =>
      have hlt : l.model < l.nextCheckpoint Spur.clock := of_decide_eq_true hforward
      exact ⟨_, congrArg Call.result (Spur.clock_run hlt)⟩
  | _ => trivial

/-- A run to 4 in chunks of 1 is cancelled after its first chunk. -/
def cancelledRun : List (Entry (State Int) Action) × State Int :=
  (system clockEnv).played State.empty
    (submitOne (.single (some 4) (some 1)) ++ executeOne 7 ++
      [.arrive 2 (requestCancel 3), .request 2 {}, .request 2 {}] ++
        List.replicate 3 (.work 3 {})) (by decide)

theorem cancelled_run_stops_at_one : ∃ row, (cancelledRun.2.slice 3).row = some row ∧
    row.status = .cancelled ∧ row.simTimeNow = some 1 ∧
      CancelsWell clockEnv State.empty cancelledRun.1 cancelledRun.2 3 row 4 := by
  obtain ⟨row, hrow, hstatus, hnow, htarget, hsize⟩ : ∃ row,
      (cancelledRun.2.slice 3).row = some row ∧ row.status = .cancelled ∧
        row.simTimeNow = some 1 ∧ row.untilTarget = some 4 ∧ row.chunkSize = some 1 :=
    ⟨_, rfl, rfl, rfl, rfl, rfl⟩
  have hmodel : CallsReturn clockEnv 3 cancelledRun.1 := callsReturn_of_all rfl
  have hfault : NoFaults 3 cancelledRun.1 := noFaults_of_all (Machine.played_all _ rfl)
  exact ⟨row, hrow, hstatus, hnow, cancels_within_one_chunk Spur.clock_clockLaw
    State.empty_initial (Machine.played_exec _) hmodel hfault hrow htarget (by decide)
    (.inl ⟨1, hsize, by decide⟩)⟩

end SpurApi
