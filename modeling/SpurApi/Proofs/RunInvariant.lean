/-
What holds of a run while its worker stands at each of its points.

`RunOk` is the invariant that the life cycle of a run follows from.  The row that is
stored and the copy the worker holds agree in every column the worker writes, so
each of its commits writes what it means to write, whatever clients did to the row
in between.  The clock of the model is related to the target at every point of the
runner; this part is stated under the laws of the clock, and nothing else needs them.
-/
import SpurApi.Proofs.RunSteps
import SpurApi.Proofs.WorkerMoves

namespace SpurApi

open Transition

/-! ### The stages of a row -/

/-- The run was submitted and no worker has marked it. -/
structure IsQueued (row : SimulationRunRow) : Prop where
  status : row.status = .queued
  startedAt : row.startedAt = none
  simTimeNow : row.simTimeNow = none
  finishedAt : row.finishedAt = none
  errorMessage : row.errorMessage = none

/-- A worker marked the run, and it is not over. -/
structure IsRunning (row : SimulationRunRow) : Prop where
  status : row.status = .running
  startedAt : row.startedAt.isSome
  finishedAt : row.finishedAt = none
  errorMessage : row.errorMessage = none

/-- The simulation ended where its outcome says, by what the row holds. -/
def EndsAt (outcome : Outcome) (row : SimulationRunRow) : Prop :=
  ∃ target now, row.untilTarget = some target ∧ row.simTimeNow = some now ∧
    match outcome with
    | .completed => now = max 0 target
    | .cancelled => now < target ∧ row.cancelRequested = true

/-- The run is over. -/
structure IsOver (row : SimulationRunRow) : Prop where
  terminal : row.status.terminal = true
  startedAt : row.startedAt.isSome
  finishedAt : row.finishedAt.isSome
  errorMessage : row.errorMessage.isSome ↔ row.status = .failed

/-- It ended where its status says. -/
structure EndsWell (row : SimulationRunRow) : Prop where
  completed : row.status = .completed → EndsAt .completed row
  cancelled : row.status = .cancelled → EndsAt .cancelled row

/-! ### The copy of the worker -/

/-- The worker's copy of the row is up to date in what the worker writes, and knows of no cancel
request that is not stored. -/
structure IsCopy (copy stored : SimulationRunRow) : Prop where
  same : SameButClient copy stored
  flag : copy.cancelRequested = true → stored.cancelRequested = true

theorem IsCopy.refl (row : SimulationRunRow) : IsCopy row row := ⟨.refl row, id⟩

theorem IsCopy.edited {cancels : Prop} {copy row row' : SimulationRunRow} (h : IsCopy copy row)
    (hedit : ClientEdit cancels row row') : IsCopy copy row' :=
  ⟨h.same.trans hedit.same, fun hset => hedit.cancelRequested (h.flag hset)⟩

section

variable {row row' : SimulationRunRow}

theorem IsQueued.edited {cancels : Prop} (h : IsQueued row) (hedit : ClientEdit cancels row row') :
    IsQueued row' := by
  obtain ⟨h1, h2, h3, h4, h5⟩ := h
  rw [hedit.same]
  exact ⟨h1, h2, h3, h4, h5⟩

theorem IsRunning.edited {cancels : Prop} (h : IsRunning row)
    (hedit : ClientEdit cancels row row') : IsRunning row' := by
  obtain ⟨h1, h2, h3, h4⟩ := h
  rw [hedit.same]
  exact ⟨h1, h2, h3, h4⟩

theorem EndsAt.edited {cancels : Prop} {outcome : Outcome} (h : EndsAt outcome row)
    (hedit : ClientEdit cancels row row') : EndsAt outcome row' := by
  obtain ⟨target, now, htarget, hnow, hend⟩ := h
  have hflag := hedit.cancelRequested
  have hsame := hedit.same
  rw [SameButClient] at hsame
  refine ⟨target, now, by rw [hsame]; exact htarget, by rw [hsame]; exact hnow, ?_⟩
  cases outcome with
  | completed => exact hend
  | cancelled => exact ⟨hend.1, hflag hend.2⟩

theorem EndsWell.edited {cancels : Prop} (h : EndsWell row) (hedit : ClientEdit cancels row row') :
    EndsWell row' := by
  have hstatus : row'.status = row.status := by rw [hedit.same]
  exact ⟨fun h' => (h.completed (hstatus ▸ h')).edited hedit,
    fun h' => (h.cancelled (hstatus ▸ h')).edited hedit⟩

theorem IsOver.edited {cancels : Prop} (h : IsOver row) (hedit : ClientEdit cancels row row') :
    IsOver row' := by
  obtain ⟨h1, h2, h3, h4⟩ := h
  rw [hedit.same]
  exact ⟨h1, h2, h3, h4⟩

end

/-! ### The clock at the points of the runner -/

section

variable {μ : Type}

/-- The clock has not passed the target, or never ran. -/
def Loop.InTime (spur : Spur μ) (l : Loop μ) : Prop :=
  spur.now l.model = 0 ∨ (spur.now l.model ≤ l.untilTarget ∧ 0 < l.untilTarget)

/-- What holds of the clock at a point of the runner, for a run with this target. -/
def RunPoint.Clocked (spur : Spur μ) (target : Int) (flag : Bool) : RunPoint μ → Prop
  | .building => True
  | .starting model => spur.now model = 0
  | .asking l | .advancing l =>
      l.untilTarget = target ∧ l.InTime spur ∧ spur.now l.model < target
  | .flushing l .chunk => l.untilTarget = target ∧ l.InTime spur
  | .flushing l .cancelled =>
      l.untilTarget = target ∧ spur.now l.model < target ∧ flag = true
  | .flushing l .final | .logging l =>
      l.untilTarget = target ∧ spur.now l.model = max 0 target
  | .finished _ => False
  | .raised _ => True

theorem Loop.head_clocked {spur : Spur μ} {l : Loop μ} (flag : Bool) (h : l.InTime spur) :
    (l.head spur).Clocked spur l.untilTarget flag := by
  rw [Loop.head]
  split
  · exact ⟨rfl, h, ‹_›⟩
  · refine ⟨rfl, ?_⟩
    rcases h with h | h <;> omega

/-- A model that was built is the one `Spur.from_project_dictionary` returned. -/
theorem SpurRunner.buildModel_eq_ok {spur : Spur μ} {runner : SpurRunner} {entropy : Nat}
    {model : μ} (h : runner.buildModel spur entropy = .ok model) :
    spur.fromProjectDictionary entropy runner.projectDict runner.seed = .ok model := by
  rw [SpurRunner.buildModel] at h
  cases hmodel : spur.fromProjectDictionary entropy runner.projectDict runner.seed with
  | ok model' =>
      rw [hmodel] at h
      exact h
  | error e =>
      rw [hmodel] at h
      dsimp only at h
      split at h <;> simp at h

/-- The runner's calls of the model keep the clock where it should be. -/
theorem RunPoint.advance_clocked {spur : Spur μ} (hclock : spur.ClockLaw) {runner : SpurRunner}
    {settings : Settings} {entropy : Nat} {target : Int} {flag : Bool}
    (htarget : runner.untilTarget settings = .ok target) {p : RunPoint μ}
    (h : p.Clocked spur target flag) :
    (runner.advance spur settings entropy p).Clocked spur target flag := by
  cases p with
  | building =>
      rw [SpurRunner.advance]
      cases hbuild : runner.buildModel spur entropy with
      | error e => trivial
      | ok model => exact hclock.build (SpurRunner.buildModel_eq_ok hbuild)
  | starting model =>
      rw [SpurRunner.advance]
      cases hstart : (spur.start model).result with
      | error e => trivial
      | ok model' =>
          simp only [htarget]
          cases runner.chunk settings target with
          | error e => trivial
          | ok chunk => exact Loop.head_clocked flag (.inl ((hclock.start hstart).trans h))
  | advancing l =>
      obtain ⟨rfl, hin, hlt⟩ := h
      rw [SpurRunner.advance]
      cases hrun : (spur.run l.model (l.nextCheckpoint spur)).result with
      | error e => trivial
      | ok model' =>
          have hnow := hclock.run hrun
          refine ⟨rfl, ?_⟩
          simp only [Loop.InTime, hnow, Loop.nextCheckpoint]
          rcases hin with hin | hin <;> omega
  | logging l =>
      rw [SpurRunner.advance]
      cases hlog : (spur.logCurrentState l.model).result with
      | error e => trivial
      | ok model' => exact ⟨h.1, (hclock.logCurrentState hlog).trans h.2⟩
  | _ => exact h

end

/-! ### The worker at its points -/

/-- What a submission gave the run, and no step takes away. -/
structure IsSubmitted (row : SimulationRunRow) : Prop where
  spec : row.specSnapshot.isSome
  target : row.untilTarget.isSome
  seed : row.seed.isSome

theorem IsSubmitted.edited {cancels : Prop} {row row' : SimulationRunRow} (h : IsSubmitted row)
    (hedit : ClientEdit cancels row row') : IsSubmitted row' := by
  rw [hedit.same]
  exact ⟨h.spec, h.target, h.seed⟩

section

variable {μ : Type}

/-- What holds of the row and the events of a run while its worker stands at a point. -/
def WorkerPoint.Ok (spur : Spur μ) (row : SimulationRunRow) (events : List RunEventRow) :
    WorkerPoint μ → Prop
  | .loading => IsQueued row ∧ events = []
  | .loadingProject _ => False
  | .marking copy spec =>
      IsQueued row ∧ events = [] ∧ IsCopy copy row ∧ row.specSnapshot = some spec
  | .running w p =>
      IsRunning row ∧ IsCopy w.row row ∧ row.specSnapshot = some w.spec ∧ w.usable = true ∧
        events.map RunEventRow.seq = List.range w.seq ∧
        ∃ target, row.untilTarget = some target ∧
          (spur.ClockLaw → p.Clocked spur target w.row.cancelRequested)
  | .handling w _ => IsRunning row ∧ IsCopy w.row row
  | .finishing w outcome =>
      IsRunning row ∧ IsCopy w.row row ∧ (spur.ClockLaw → EndsAt outcome row)
  | .returned => IsOver row ∧ (spur.ClockLaw → EndsWell row)
  | .raised _ => (IsQueued row ∧ events = []) ∨ IsRunning row

/-- The invariant of a run. -/
def RunOk (spur : Spur μ) (d : RunSlice) (worker : Option (WorkerPoint μ)) : Prop :=
  ∀ row, d.row = some row → IsSubmitted row ∧
    match worker with
    | none => IsQueued row ∧ d.events = []
    | some p => p.Ok spur row d.events

theorem WorkerPoint.Ok.edited {cancels : Prop} {spur : Spur μ} {row row' : SimulationRunRow}
    {events : List RunEventRow} {p : WorkerPoint μ} (h : p.Ok spur row events)
    (hedit : ClientEdit cancels row row') : p.Ok spur row' events := by
  have hspec : row'.specSnapshot = row.specSnapshot := by rw [hedit.same]
  have htarget : row'.untilTarget = row.untilTarget := by rw [hedit.same]
  cases p with
  | loading => exact ⟨h.1.edited hedit, h.2⟩
  | loadingProject copy => exact h
  | marking copy spec =>
      exact ⟨h.1.edited hedit, h.2.1, h.2.2.1.edited hedit, hspec.trans h.2.2.2⟩
  | running w p =>
      obtain ⟨hrun, hcopy, hw, husable, hseq, target, ht, hclocked⟩ := h
      exact ⟨hrun.edited hedit, hcopy.edited hedit, hspec.trans hw, husable, hseq, target,
        htarget.trans ht, hclocked⟩
  | handling w e => exact ⟨h.1.edited hedit, h.2.edited hedit⟩
  | finishing w outcome =>
      exact ⟨h.1.edited hedit, h.2.1.edited hedit, fun hclock => (h.2.2 hclock).edited hedit⟩
  | returned => exact ⟨h.1.edited hedit, fun hclock => (h.2 hclock).edited hedit⟩
  | raised e => exact h.imp (fun hq => ⟨hq.1.edited hedit, hq.2⟩) fun hr => hr.edited hedit

/-! ### What the worker assigns -/

theorem IsCopy.markRunning {copy row : SimulationRunRow} (h : IsCopy copy row) (now : Time) :
    IsCopy (markRunning now copy) (markRunning now row) := by
  refine ⟨?_, h.flag⟩
  rw [h.same]
  rfl

theorem IsCopy.markProgress {copy row : SimulationRunRow} (h : IsCopy copy row) (t : Int) :
    IsCopy (markProgress t copy) (markProgress t row) := by
  refine ⟨?_, h.flag⟩
  rw [h.same]
  rfl

theorem IsRunning.markRunning (now : Time) {row : SimulationRunRow} (h : IsQueued row) :
    IsRunning (markRunning now row) := ⟨rfl, rfl, h.finishedAt, h.errorMessage⟩

theorem IsRunning.markProgress (t : Int) {row : SimulationRunRow} (h : IsRunning row) :
    IsRunning (markProgress t row) := ⟨h.status, h.startedAt, h.finishedAt, h.errorMessage⟩

theorem IsOver.markFailed (now : Time) (e : Exn) {row : SimulationRunRow} (h : IsRunning row) :
    IsOver (markFailed now e row) :=
  ⟨rfl, h.startedAt, rfl, by simp [SpurApi.markFailed]⟩

theorem EndsWell.markFailed (now : Time) (e : Exn) (row : SimulationRunRow) :
    EndsWell (markFailed now e row) := by
  constructor <;> simp [SpurApi.markFailed]

theorem IsOver.markFinished (now : Time) (outcome : Outcome) {row : SimulationRunRow}
    (h : IsRunning row) : IsOver (markFinished now outcome row) := by
  have herror := h.errorMessage
  cases outcome with
  | completed =>
      refine ⟨rfl, h.startedAt, rfl, ?_⟩
      simp [herror, SpurApi.markFinished, Outcome.status]
  | cancelled =>
      refine ⟨rfl, h.startedAt, rfl, ?_⟩
      simp [herror, SpurApi.markFinished, Outcome.status]

theorem EndsWell.markFinished (now : Time) {outcome : Outcome} {row : SimulationRunRow}
    (hend : EndsAt outcome row) : EndsWell (markFinished now outcome row) := by
  cases outcome with
  | completed => exact ⟨fun _ => hend, by simp [SpurApi.markFinished, Outcome.status]⟩
  | cancelled => exact ⟨by simp [SpurApi.markFinished, Outcome.status], fun _ => hend⟩

theorem eventRows_seq (es : List SimEvent) : ∀ n, (eventRows n es).map RunEventRow.seq =
    (List.range es.length).map (n + ·) := by
  induction es with
  | nil => exact fun _ => rfl
  | cons e es ih =>
      intro n
      rw [eventRows, List.map_cons, ih, List.length_cons, List.range_succ_eq_map, List.map_cons,
        List.map_map]
      refine congrArg _ (List.map_congr_left fun i _ => ?_)
      simp only [Function.comp_apply]
      omega

@[simp] theorem eventRows_length (n : Nat) (es : List SimEvent) :
    (eventRows n es).length = es.length := by
  simpa using congrArg List.length (eventRows_seq es n)

theorem eventRows_append (es es' : List SimEvent) :
    ∀ n, eventRows n (es ++ es') = eventRows n es ++ eventRows (n + es.length) es' := by
  induction es with
  | nil => simp [eventRows]
  | cons e es ih =>
      intro n
      rw [List.cons_append, eventRows, eventRows, ih, List.cons_append, List.length_cons]
      congr 3
      omega

/-- A chunk's rows are numbered on from the events that are stored. -/
theorem seq_append {events : List RunEventRow} {n : Nat}
    (h : events.map RunEventRow.seq = List.range n) (es : List SimEvent) :
    (events ++ eventRows n es).map RunEventRow.seq = List.range (n + es.length) := by
  rw [List.map_append, h, eventRows_seq, List.range_add]

/-- What `on_chunk` leaves when it returns. -/
theorem onChunk_ok {io : Io} {w w' : WorkerSession} {t : Int} {es : List SimEvent}
    {row : SimulationRunRow} {events : List RunEventRow} {db' : RunSlice}
    (hcopy : SameButClient w.row row)
    (h : onChunk io ⟨some row, events⟩ w t es = .ok (w', db')) :
    w' = { w with row := markProgress t w.row, seq := w.seq + es.length } ∧
      db' = ⟨some (markProgress t row), events ++ eventRows w.seq es⟩ := by
  have hcommit := commitRun_ok (commitRun_of_onChunk h)
  rw [flush_markProgress hcopy] at hcommit
  exact ⟨onChunk_session h, hcommit⟩

/-- A check that raises does not touch the copy of the row. -/
theorem row_of_isCancelled_error {io : Io} {db : RunSlice} {w w' : WorkerSession} {e : Exn}
    (h : isCancelled io db w = .error (e, w')) : w'.row = w.row ∧ w'.spec = w.spec ∧
      w'.seq = w.seq := by
  unfold isCancelled at h
  split at h
  · simp only [Except.error.injEq, Prod.mk.injEq] at h
    rw [← h.2]
    exact ⟨rfl, rfl, rfl⟩
  · split at h
    · simp only [Except.error.injEq, Prod.mk.injEq] at h
      rw [← h.2]
      exact ⟨rfl, rfl, rfl⟩
    · simp at h

/-! ### One step of the worker -/

variable {spur : Spur μ} {row : SimulationRunRow} {events : List RunEventRow}

/-- The runner goes on, or is done. -/
private theorem settle_ok {w : WorkerSession} {p : RunPoint μ} (hrun : IsRunning row)
    (hcopy : IsCopy w.row row) (hspec : row.specSnapshot = some w.spec)
    (husable : w.usable = true) (hseq : events.map RunEventRow.seq = List.range w.seq)
    {target : Int} (htarget : row.untilTarget = some target)
    (hclocked : spur.ClockLaw → p.Clocked spur target w.row.cancelRequested) :
    (w.settle p).Ok spur row events := by
  cases p with
  | finished outcome => exact ⟨hrun, hcopy, fun hclock => (hclocked hclock).elim⟩
  | raised e => exact ⟨hrun, hcopy⟩
  | _ => exact ⟨hrun, hcopy, hspec, husable, hseq, target, htarget, hclocked⟩

/-- After `on_chunk` the runner goes on, or has ended where its outcome says. -/
private theorem flushed_ok {w : WorkerSession} {l : Loop μ} {place : Flush} {target : Int}
    (hrun : IsRunning row) (hcopy : IsCopy w.row row) (hspec : row.specSnapshot = some w.spec)
    (husable : w.usable = true) (hseq : events.map RunEventRow.seq = List.range w.seq)
    (htarget : row.untilTarget = some target)
    (hnow : row.simTimeNow = some (spur.now l.model))
    (hclocked : spur.ClockLaw →
      (RunPoint.flushing l place).Clocked spur target w.row.cancelRequested) :
    (w.settle ((RunPoint.flushing l place).flushed spur)).Ok spur row events := by
  cases place with
  | chunk =>
      refine settle_ok hrun hcopy hspec husable hseq htarget fun hclock => ?_
      obtain ⟨rfl, hin⟩ := hclocked hclock
      exact Loop.head_clocked (l := { l with eventsBatch := [] }) _ hin
  | cancelled =>
      refine ⟨hrun, hcopy, fun hclock => ?_⟩
      obtain ⟨-, hlt, hflag⟩ := hclocked hclock
      exact ⟨target, _, htarget, hnow, hlt, hcopy.flag hflag⟩
  | final =>
      refine ⟨hrun, hcopy, fun hclock => ?_⟩
      exact ⟨target, _, htarget, hnow, (hclocked hclock).2⟩

/-- **One step of a worker keeps the invariant of its run.** -/
theorem WorkerPoint.Ok.step {env : Env μ} {project : Option ProjectRow} {io : Io}
    {p p' : WorkerPoint μ} {db' : RunSlice} (hsub : IsSubmitted row) (h : p.Ok env.spur row events)
    (hmove : WorkerMove env project io ⟨some row, events⟩ p p' db') :
    ∃ row', db'.row = some row' ∧ IsSubmitted row' ∧ p'.Ok env.spur row' db'.events := by
  cases hmove with
  | loadRaised => exact ⟨row, rfl, hsub, .inl h⟩
  | loaded hrow hspec =>
      rw [Option.some.injEq] at hrow
      subst hrow
      exact ⟨row, rfl, hsub, h.1, h.2, .refl row, hspec⟩
  | loadedBare hrow hspec =>
      rw [Option.some.injEq] at hrow
      subst hrow
      exact absurd hsub.spec (by simp [hspec])
  | projectRaised | projectLoaded => exact h.elim
  | markRaised => exact ⟨row, rfl, hsub, .inl ⟨h.1, h.2.1⟩⟩
  | @marked copy spec _ hcommit =>
      obtain ⟨hq, hevents, hcopy, hspec⟩ := h
      subst hevents
      rw [commitRun_ok hcommit, flush_markRunning hcopy.same]
      obtain ⟨target, htarget⟩ := Option.isSome_iff_exists.mp hsub.target
      exact ⟨_, rfl, ⟨hsub.spec, hsub.target, hsub.seed⟩, IsRunning.markRunning _ hq,
        hcopy.markRunning _, hspec, rfl, rfl, target, htarget, fun _ => trivial⟩
  | askRaised hask =>
      obtain ⟨hrow, -⟩ := row_of_isCancelled_error hask
      exact ⟨row, rfl, hsub, h.1, hrow ▸ h.2.1⟩
  | @asked w l stored hfault hrow =>
      rw [Option.some.injEq] at hrow
      subst hrow
      obtain ⟨hrun, hcopy, hspec, husable, hseq, target, htarget, hclocked⟩ := h
      have hcopy' : IsCopy { w.row with cancelRequested := row.cancelRequested } row := by
        refine ⟨?_, id⟩
        have hsame := hcopy.same
        rw [SameButClient] at hsame ⊢
        rw [hsame]
      refine ⟨row, rfl, hsub, hrun, hcopy', hspec, husable, hseq, target, htarget,
        fun hclock => ?_⟩
      split
      · exact ⟨(hclocked hclock).1, (hclocked hclock).2.2, ‹_›⟩
      · exact hclocked hclock
  | flushRaised => exact ⟨row, rfl, hsub, h.1, h.2.1⟩
  | @flushed w w' l place _ hchunk =>
      obtain ⟨hrun, hcopy, hspec, husable, hseq, target, htarget, hclocked⟩ := h
      obtain ⟨rfl, rfl⟩ := onChunk_ok hcopy.same hchunk
      refine ⟨_, rfl, ⟨hsub.spec, hsub.target, hsub.seed⟩, ?_⟩
      exact flushed_ok (hrun.markProgress _) (hcopy.markProgress _) hspec husable
        (seq_append hseq _) htarget rfl hclocked
  | @advanced w p _ _ =>
      obtain ⟨hrun, hcopy, hspec, husable, hseq, target, htarget, hclocked⟩ := h
      have hrunner : w.runner.untilTarget env.settings = .ok target := by
        have hsame : row.untilTarget = w.row.untilTarget := by rw [hcopy.same]
        simp [SpurRunner.untilTarget, WorkerSession.runner, ← hsame, htarget]
      exact ⟨row, rfl, hsub, settle_ok hrun hcopy hspec husable hseq htarget
        fun hclock => RunPoint.advance_clocked hclock hrunner (hclocked hclock)⟩
  | handlerLost | handlerRaised => exact ⟨row, rfl, hsub, .inr h.1⟩
  | handled _ hcommit =>
      rw [commitRun_ok hcommit, flush_markFailed h.2.same]
      exact ⟨_, rfl, ⟨hsub.spec, hsub.target, hsub.seed⟩, IsOver.markFailed _ _ h.1,
        fun _ => EndsWell.markFailed _ _ _⟩
  | finishRaised => exact ⟨row, rfl, hsub, .inr h.1⟩
  | finished hcommit =>
      rw [commitRun_ok hcommit, flush_markFinished h.2.1.same]
      exact ⟨_, rfl, ⟨hsub.spec, hsub.target, hsub.seed⟩, IsOver.markFinished _ _ h.1,
        fun hclock => EndsWell.markFinished _ (h.2.2 hclock)⟩

/-- And brings no run back that is gone. -/
theorem WorkerMove.row_none {env : Env μ} {project : Option ProjectRow} {io : Io}
    {p p' : WorkerPoint μ} {db' : RunSlice}
    (hmove : WorkerMove env project io ⟨none, events⟩ p p' db') : db' = ⟨none, events⟩ := by
  cases hmove with
  | marked hcommit | handled _ hcommit | finished hcommit => exact commitRun_ok_none hcommit
  | flushed hchunk => exact commitRun_ok_none (commitRun_of_onChunk hchunk)
  | _ => rfl

/-! ### Runs that are submitted -/

/-- The row of a run as a submission inserts it, from the project it read. -/
def IsNewRun (project : Uuid) (read : ProjectRow) (row : SimulationRunRow) : Prop :=
  ∃ body target seed batch, row = newRun project read body target seed batch

theorem IsNewRun.isSubmitted {project : Uuid} {read : ProjectRow} (h : IsNewRun project read row) :
    IsSubmitted row := by
  obtain ⟨body, target, seed, batch, rfl⟩ := h
  exact ⟨rfl, rfl, rfl⟩

theorem IsNewRun.isQueued {project : Uuid} {read : ProjectRow} (h : IsNewRun project read row) :
    IsQueued row := by
  obtain ⟨body, target, seed, batch, rfl⟩ := h
  exact ⟨rfl, rfl, rfl, rfl, rfl⟩

theorem isNewRun_of_mem_runRows {project : Uuid} {read : ProjectRow} {body : RunCreate}
    {target : Int} {batch : Option Uuid} {sub : Submitted} {ids : List Uuid} :
    ∀ {seed : Int}, sub ∈ runRows project read body target batch seed ids →
      IsNewRun project read sub.row ∧ sub.jobId = none := by
  induction ids with
  | nil => simp [runRows]
  | cons id ids ih =>
      intro seed hsub
      rw [runRows, List.mem_cons] at hsub
      rcases hsub with rfl | hsub
      · exact ⟨⟨body, target, seed, batch, rfl⟩, rfl⟩
      · exact ih hsub

variable {env : Env μ} {s₀ s s' : State μ} {a : Action} {tr : List (Entry (State μ) Action)}

/-- Rows that are about to be inserted were so before the step, or are built by it from the
project that is read. -/
theorem pendingRows_step (hstep : s.step env a = some s') {r : RequestId} {project : Uuid}
    {body : RunCreate} {rows : List Submitted}
    (hreq : s'.requests r = some (.submitRun project body (.inserting rows))) :
    s.requests r = some (.submitRun project body (.inserting rows)) ∨
      ∃ read, s'.backend.db.projects project = some read ∧
        ∀ sub ∈ rows, IsNewRun project read sub.row := by
  cases request_step hstep hreq with
  | kept _ h => exact .inl h
  | arrived _ _ h => simp [Request.isReceived] at h
  | @stepped io q _ hpre h =>
      refine .inr ?_
      obtain ⟨point, rfl, hmove⟩ := submitMove_of_request h
      obtain ⟨read, target, batch, seed, ids, hread, hdb, rfl⟩ := hmove.of_inserting rfl
      exact ⟨read, hdb ▸ hread, fun sub hsub => (isNewRun_of_mem_runRows hsub).1⟩

/-- Ids stay apart, and what is about to be inserted is as a submission builds it. -/
structure RunsApart (s : State μ) : Prop where
  apart : IdsApart s
  pending : ∀ r project body rows,
    s.requests r = some (.submitRun project body (.inserting rows)) →
      ∀ sub ∈ rows, ∃ read, IsNewRun project read sub.row

theorem State.Initial.runsApart (h : s.Initial) : RunsApart s where
  apart := h.idsApart
  pending r project body rows hreq := by simp [h.requests] at hreq

theorem RunsApart.step (h : RunsApart s) (hstep : s.step env a = some s') : RunsApart s' where
  apart := h.apart.step hstep
  pending r project body rows hreq sub hsub := by
    rcases pendingRows_step hstep hreq with hold | ⟨read, -, hnew⟩
    · exact h.pending r project body rows hold sub hsub
    · exact ⟨read, hnew sub hsub⟩

theorem RunsApart.later {m : State μ} (hm : RunsApart m) (h : Exec (system env) m tr s) :
    RunsApart s :=
  h.invariant hm fun _ _ _ hI hstep => hI.step hstep

/-- What holds of every run, stored or about to be inserted. -/
structure RunsOk (spur : Spur μ) (s : State μ) : Prop extends RunsApart s where
  runs : ∀ run, RunOk spur (s.slice run) (s.workers run)

theorem State.Initial.runsOk {spur : Spur μ} (h : s.Initial) : RunsOk spur s where
  toRunsApart := h.runsApart
  runs run row hrow := by
    have hnone : (s.slice run).row = none := h.runs run
    rw [hnone] at hrow
    simp at hrow

private theorem RunOk.touched {spur : Spur μ} {cancels : Prop} {d d' : RunSlice}
    {worker : Option (WorkerPoint μ)} (h : RunOk spur d worker) (ht : RunTouch cancels d d') :
    RunOk spur d' worker := by
  cases ht with
  | same => exact h
  | deleted => intro row hrow; simp [RunSlice.blank] at hrow
  | @edited old row events hedit =>
      intro row' hrow'
      rw [Option.some.injEq] at hrow'
      subst hrow'
      obtain ⟨hsub, hok⟩ := h old rfl
      refine ⟨hsub.edited hedit, ?_⟩
      cases worker with
      | none => exact ⟨hok.1.edited hedit, hok.2⟩
      | some p => exact hok.edited hedit

theorem RunsOk.step (h : RunsOk env.spur s) (hstep : s.step env a = some s') :
    RunsOk env.spur s' where
  toRunsApart := h.toRunsApart.step hstep
  runs run := by
    have hrun := h.runs run
    cases step_run h.apart hstep run with
    | client _ hworker ht =>
        rw [hworker]
        exact hrun.touched ht
    | @inserted r project body rows sub _ hreq hsub _ _ _ hworker' hslice =>
        rw [hworker', hslice]
        intro row hrow
        rw [Option.some.injEq] at hrow
        subst hrow
        obtain ⟨read, hnew⟩ := h.pending r project body rows hreq sub hsub
        exact ⟨hnew.isSubmitted, hnew.isQueued, rfl⟩
    | delivered _ _ hworker hworker' hslice =>
        rw [hworker] at hrun
        rw [hworker', hslice]
        exact hrun
    | @worked io p p' _ hworker hworker' hpstep =>
        rw [hworker'] at *
        rw [hworker] at hrun
        have hmove := workerMove_of_step hpstep
        cases hslice : s.slice run with
        | mk row events =>
            rw [hslice] at hmove hrun
            cases row with
            | none =>
                intro row' hrow'
                rw [hmove.row_none] at hrow'
                simp at hrow'
            | some row =>
                obtain ⟨hsub, hok⟩ := hrun row rfl
                obtain ⟨row', hrow', hsub', hok'⟩ := WorkerPoint.Ok.step hsub hok hmove
                intro row'' hrow''
                rw [hrow', Option.some.injEq] at hrow''
                subst hrow''
                exact ⟨hsub', hok'⟩

/-- **The invariant of every run**, in every state that is reached. -/
theorem RunsOk.exec (h₀ : s₀.Initial) (h : Exec (system env) s₀ tr s) : RunsOk env.spur s :=
  h.invariant h₀.runsOk fun _ _ _ hI hstep => hI.step hstep

/-! ### One step, for a run that is there afterwards -/

/-- Where the row of a run comes from in a step, and what becomes of its worker; `ok` is what is
known of the worker before. -/
inductive RunChange (env : Env μ) (ok : SimulationRunRow → List RunEventRow → WorkerPoint μ → Prop)
    (s : State μ) (a : Action) (s' : State μ) (run : Uuid) (row' : SimulationRunRow) : Prop
  | inserted {r : RequestId} {project : Uuid} {body : RunCreate} {rows : List Submitted}
      {sub : Submitted} {read : ProjectRow} (hact : ∀ io, a ≠ .work run io)
      (hreq : s.requests r = some (.submitRun project body (.inserting rows)))
      (hsub : sub ∈ rows) (hid : sub.id = run) (hrow' : sub.row = row')
      (hnew : IsNewRun project read row') (hblank : s.slice run = .blank)
      (hworker : s.workers run = none) (hworker' : s'.workers run = none)
      (hevents' : (s'.slice run).events = [])
  | edited {row : SimulationRunRow} (hact : ∀ io, a ≠ .work run io)
      (hrow : (s.slice run).row = some row) (hworker : s'.workers run = s.workers run)
      (hevents : (s'.slice run).events = (s.slice run).events)
      (hedit : ClientEdit (CancelCommits s a s' run) row row')
  | delivered (hact : ∀ io, a ≠ .work run io) (hworker : s.workers run = none)
      (hworker' : s'.workers run = some .loading) (hslice : s'.slice run = s.slice run)
      (ha : a = .deliver run)
  | worked {io : Io} {row : SimulationRunRow} {p p' : WorkerPoint μ} (ha : a = .work run io)
      (hrow : (s.slice run).row = some row) (hworker : s.workers run = some p)
      (hworker' : s'.workers run = some p') (hok : ok row (s.slice run).events p)
      (hmove : WorkerMove env (s.liveProject p) io ⟨some row, (s.slice run).events⟩ p p'
        (s'.slice run))

theorem RunsApart.change {run : Uuid} (hapart : RunsApart s) (hstep : s.step env a = some s')
    (hrow' : (s'.slice run).row = some row)
    {ok : SimulationRunRow → List RunEventRow → WorkerPoint μ → Prop}
    (hok : ∀ row p, (s.slice run).row = some row → s.workers run = some p →
      ok row (s.slice run).events p) : RunChange env ok s a s' run row := by
  cases step_run hapart.apart hstep run with
  | client hact hworker ht =>
      generalize hd : s.slice run = d at ht
      generalize hd' : s'.slice run = d' at ht
      rw [hd'] at hrow'
      cases ht with
      | same => exact .edited hact (hd.symm ▸ hrow') hworker (by rw [hd, hd']) (.refl row)
      | deleted => simp [RunSlice.blank] at hrow'
      | edited hedit =>
          rw [Option.some.injEq] at hrow'
          subst hrow'
          exact .edited hact (by rw [hd]) hworker (by rw [hd, hd']) hedit
  | @inserted r project body rows sub hact hreq hsub hid hblank hworker hworker' hslice =>
      rw [hslice, Option.some.injEq] at hrow'
      subst hrow'
      obtain ⟨read, hnew⟩ := hapart.pending r project body rows hreq sub hsub
      exact .inserted hact hreq hsub hid rfl hnew hblank hworker hworker' (by rw [hslice])
  | delivered ha _ hworker hworker' hslice =>
      exact .delivered (by simp [ha]) hworker hworker' hslice ha
  | @worked io p p' ha hworker hworker' hpstep =>
      have hmove := workerMove_of_step hpstep
      cases hold : (s.slice run).row with
      | none =>
          have hd : s.slice run = ⟨none, (s.slice run).events⟩ := by rw [← hold]
          rw [hd] at hmove
          rw [hmove.row_none] at hrow'
          simp at hrow'
      | some old =>
          have hd : s.slice run = ⟨some old, (s.slice run).events⟩ := by rw [← hold]
          rw [hd] at hmove
          exact .worked ha hold hworker hworker' (hok old p hold hworker) hmove

/-- The same, when nothing is known of the worker. -/
theorem RunsApart.changed {run : Uuid} (hapart : RunsApart s) (hstep : s.step env a = some s')
    (hrow' : (s'.slice run).row = some row) : RunChange env (fun _ _ _ => True) s a s' run row :=
  hapart.change hstep hrow' fun _ _ _ _ => trivial

/-- **One step of the service, for a run that is there afterwards.** -/
theorem run_change {run : Uuid} (hok : RunsOk env.spur s) (hstep : s.step env a = some s')
    (hrow' : (s'.slice run).row = some row) :
    RunChange env (WorkerPoint.Ok env.spur) s a s' run row :=
  hok.toRunsApart.change hstep hrow' fun old p hold hp => by
    obtain ⟨-, hworker⟩ := hok.runs run old hold
    rwa [hp] at hworker

end

end SpurApi
