/-
An invocation ends, and without an error it ends well.

An invocation takes a bounded number of steps: each chunk takes three, and moves the
clock by at least one.  `WorkerPoint.stepsLeft` counts them, and every step of the
worker makes it smaller.  Where no call of the model raises and the database fails at
nothing, no step leads to the handler.
-/
import SpurApi.Proofs.LifeCycle

namespace SpurApi

open Transition

/-! ### Chunks -/

/-- The chunk size is positive, or it is absent or zero and there is a chunk count to derive it
from. -/
def ChunkOk (settings : Settings) (size : Option Int) : Prop :=
  (∃ c, size = some c ∧ 1 ≤ c) ∨ (size = none ∨ size = some 0) ∧ settings.defaultChunkCount ≠ 0

theorem SpurRunner.chunk_of_chunkOk {runner : SpurRunner} {settings : Settings}
    (h : ChunkOk settings runner.chunkSize) (target : Int) :
    ∃ chunk, runner.chunk settings target = .ok chunk := by
  unfold SpurRunner.chunk
  rcases h with ⟨c, hsize, hpos⟩ | ⟨hsize | hsize, hcount⟩
  · have hne : c ≠ 0 := by omega
    simp [hsize, hne]
  · simp [hsize, hcount]
  · simp [hsize, hcount]

/-- A chunk size that is not negative makes positive chunks. -/
theorem SpurRunner.one_le_chunk {runner : SpurRunner} {settings : Settings} {target chunk : Int}
    (hsize : ∀ c, runner.chunkSize = some c → 0 ≤ c)
    (h : runner.chunk settings target = .ok chunk) : 1 ≤ chunk := by
  have hderived : ∀ c, (if settings.defaultChunkCount = 0 then
      .error ⟨.zeroDivisionError, "integer division or modulo by zero"⟩
      else .ok (max 1 (target.fdiv settings.defaultChunkCount)) : Except Exn Int) = .ok c →
        1 ≤ c := by
    intro c hc
    split at hc
    · simp at hc
    · rw [Except.ok.injEq] at hc
      omega
  unfold SpurRunner.chunk at h
  cases hcs : runner.chunkSize with
  | none => exact hderived chunk (by simpa [hcs] using h)
  | some c =>
      simp only [hcs] at h
      split at h
      · exact hderived chunk h
      · rw [Except.ok.injEq] at h
        have hc := hsize c hcs
        omega

theorem ChunkOk.nonneg {settings : Settings} {size : Option Int} (h : ChunkOk settings size) :
    ∀ c, size = some c → 0 ≤ c := by
  intro c hc
  rcases h with ⟨c', hsize, hpos⟩ | ⟨hsize | hsize, -⟩
  · rw [hc, Option.some.injEq] at hsize
    omega
  · simp [hsize] at hc
  · rw [hc, Option.some.injEq] at hsize
    omega

section

variable {μ : Type} {spur : Spur μ}

/-- The chunks of the runner are positive. -/
def RunPoint.Chunked : RunPoint μ → Prop
  | .asking l | .advancing l | .flushing l _ | .logging l => 1 ≤ l.chunk
  | _ => True

theorem Loop.head_chunked {l : Loop μ} (h : 1 ≤ l.chunk) : (l.head spur).Chunked := by
  rw [Loop.head]
  split <;> exact h

theorem RunPoint.Chunked.advance {runner : SpurRunner} {settings : Settings} {entropy : Nat}
    (hsize : ∀ c, runner.chunkSize = some c → 0 ≤ c) {p : RunPoint μ} (h : p.Chunked) :
    (runner.advance spur settings entropy p).Chunked := by
  cases p with
  | building =>
      simp only [SpurRunner.advance]
      split <;> trivial
  | starting model =>
      rw [SpurRunner.advance]
      split
      · trivial
      · split
        · trivial
        · split
          · trivial
          · exact Loop.head_chunked (SpurRunner.one_le_chunk hsize ‹_›)
  | advancing l | logging l =>
      rw [SpurRunner.advance]
      split
      · trivial
      · exact h
  | _ => exact h

theorem RunPoint.Chunked.flushed {l : Loop μ} {place : Flush}
    (h : (RunPoint.flushing l place).Chunked) :
    ((RunPoint.flushing l place).flushed spur).Chunked := by
  cases place with
  | chunk => exact Loop.head_chunked (l := { l with eventsBatch := [] }) h
  | cancelled | final => trivial

/-! ### The steps that are left -/

/-- How many steps are left at most, from a point of the runner. -/
def RunPoint.stepsLeft (spur : Spur μ) (target : Int) : RunPoint μ → Nat
  | .building => 3 * target.toNat + 5
  | .starting _ => 3 * target.toNat + 4
  | .asking l => 3 * (target - spur.now l.model).toNat + 3
  | .advancing l => 3 * (target - spur.now l.model).toNat + 2
  | .flushing l .chunk => 3 * (target - spur.now l.model).toNat + 4
  | .flushing _ .cancelled | .flushing _ .final => 2
  | .logging _ => 3
  | .finished _ | .raised _ => 1

/-- Of an invocation. -/
def WorkerPoint.stepsLeft (spur : Spur μ) (target : Int) : WorkerPoint μ → Nat
  | .loading => 3 * target.toNat + 8
  | .loadingProject _ => 3 * target.toNat + 7
  | .marking _ _ => 3 * target.toNat + 6
  | .running _ p => p.stepsLeft spur target
  | .handling _ _ | .finishing _ _ => 1
  | .returned | .raised _ => 0

theorem Loop.head_stepsLeft (spur : Spur μ) (l : Loop μ) (target : Int) :
    (l.head spur).stepsLeft spur target ≤ 3 * (target - spur.now l.model).toNat + 3 := by
  rw [Loop.head]
  split
  · exact Nat.le_refl _
  · simp only [RunPoint.stepsLeft]
    omega

/-- The next call of the model starts the clock at 0 or brings it nearer to the target. -/
def RunPoint.Forward (spur : Spur μ) (target : Int) : RunPoint μ → Prop
  | .starting model => ∀ model', (spur.start model).result = .ok model' → spur.now model' = 0
  | .advancing l => l.untilTarget = target ∧ 1 ≤ l.chunk ∧ spur.now l.model < target
  | .finished _ => False
  | _ => True

theorem RunPoint.Clocked.forward (hclock : spur.ClockLaw) {target : Int} {flag : Bool}
    {p : RunPoint μ} (h : p.Clocked spur target flag) (hchunked : p.Chunked) :
    p.Forward spur target := by
  cases p with
  | starting model => exact fun model' hstart => (hclock.start hstart).trans h
  | advancing l => exact ⟨h.1, hchunked, h.2.2⟩
  | finished outcome => exact h
  | _ => trivial

/-- Every call of the model brings the runner nearer to its end. -/
theorem RunPoint.advance_stepsLeft (hlaw : spur.LoopLaw) {runner : SpurRunner}
    {settings : Settings} {entropy : Nat} {target : Int} {p : RunPoint μ}
    (hforward : p.Forward spur target) (hask : ∀ l, p ≠ .asking l)
    (hflush : ∀ l place, p ≠ .flushing l place) (hraised : ∀ e, p ≠ .raised e) :
    (runner.advance spur settings entropy p).stepsLeft spur target < p.stepsLeft spur target := by
  cases p with
  | building =>
      simp only [SpurRunner.advance]
      split <;> simp only [stepsLeft] <;> omega
  | starting model =>
      rw [SpurRunner.advance]
      cases hstart : (spur.start model).result with
      | error e =>
          simp only [stepsLeft]
          omega
      | ok model' =>
          have hnow : spur.now model' = 0 := hforward model' hstart
          dsimp only
          split
          · simp only [stepsLeft]
            omega
          · rename_i target' _
            split
            · simp only [stepsLeft]
              omega
            · rename_i chunk _
              have hhead := Loop.head_stepsLeft spur
                ⟨model', (spur.start model).emitted, target', chunk⟩ target
              simp only [hnow] at hhead
              refine Nat.lt_of_le_of_lt hhead ?_
              simp only [stepsLeft]
              omega
  | advancing l =>
      obtain ⟨rfl, hchunk, hlt⟩ := hforward
      rw [SpurRunner.advance]
      cases hrun : (spur.run l.model (l.nextCheckpoint spur)).result with
      | error e =>
          simp only [stepsLeft]
          omega
      | ok model' =>
          have hnow := hlaw.run hrun
          rw [Loop.nextCheckpoint] at hnow
          simp only [stepsLeft, hnow]
          omega
  | logging l =>
      rw [SpurRunner.advance]
      split <;> simp only [stepsLeft] <;> omega
  | asking l => exact absurd rfl (hask l)
  | flushing l place => exact absurd rfl (hflush l place)
  | finished outcome => exact hforward.elim
  | raised e => exact absurd rfl (hraised e)

theorem settle_stepsLeft (w : WorkerSession) (p : RunPoint μ) (target : Int) :
    (w.settle p).stepsLeft spur target ≤ p.stepsLeft spur target := by
  cases p <;> exact Nat.le_refl _

variable {env : Env μ}

/-- The runner is where its clock says, with positive chunks. -/
def WorkerPoint.Timely (spur : Spur μ) (target : Int) : WorkerPoint μ → Prop
  | .running w p => p.Clocked spur target w.row.cancelRequested ∧ p.Chunked ∧
      (∀ e, p ≠ .raised e)
  | _ => True

/-- **Every step of an invocation brings it nearer to its end.** -/
theorem WorkerMove.stepsLeft_lt (hclock : env.spur.ClockLaw) {project : Option ProjectRow}
    {io : Io} {p p' : WorkerPoint μ} {db db' : RunSlice} {target : Int}
    (h : p.Timely env.spur target) (hmove : WorkerMove env project io db p p' db') :
    p'.stepsLeft env.spur target < p.stepsLeft env.spur target := by
  cases hmove with
  | asked =>
      obtain ⟨⟨rfl, -, hlt⟩, -⟩ := h
      simp only [WorkerPoint.stepsLeft]
      split <;> simp only [RunPoint.stepsLeft] <;> omega
  | @flushed w w' l place =>
      refine Nat.lt_of_le_of_lt (settle_stepsLeft _ _ _) ?_
      cases place with
      | chunk =>
          have hhead := Loop.head_stepsLeft env.spur { l with eventsBatch := [] } target
          refine Nat.lt_of_le_of_lt hhead ?_
          simp only [WorkerPoint.stepsLeft, RunPoint.stepsLeft]
          omega
      | cancelled | final =>
          simp only [RunPoint.flushed, WorkerPoint.stepsLeft, RunPoint.stepsLeft]
          omega
  | advanced hask hflush =>
      obtain ⟨hclocked, hchunked, hraised⟩ := h
      exact Nat.lt_of_le_of_lt (settle_stepsLeft _ _ _)
        (RunPoint.advance_stepsLeft hclock.loopLaw (hclocked.forward hclock hchunked) hask hflush
          hraised)
  | @flushRaised w l place =>
      cases place <;> simp only [WorkerPoint.stepsLeft, RunPoint.stepsLeft] <;> omega
  | _ =>
      simp only [WorkerPoint.stepsLeft, RunPoint.stepsLeft]
      omega

/-! ### Without errors -/

/-- The call of the model that the runner makes at this point, if it makes one, returns. -/
def SpurRunner.Returns (runner : SpurRunner) (spur : Spur μ) (entropy : Nat) : RunPoint μ → Prop
  | .building =>
      ∃ model, spur.fromProjectDictionary entropy runner.projectDict runner.seed = .ok model
  | .starting model => ∃ model', (spur.start model).result = .ok model'
  | .advancing l => ∃ model', (spur.run l.model (l.nextCheckpoint spur)).result = .ok model'
  | .logging l => ∃ model', (spur.logCurrentState l.model).result = .ok model'
  | _ => True

/-- An exception was raised in the invocation. -/
def WorkerPoint.failed : WorkerPoint μ → Bool
  | .handling _ _ | .raised _ => true
  | _ => false

theorem settle_failed {w : WorkerSession} {p : RunPoint μ} (h : ∀ e, p ≠ .raised e) :
    (w.settle p).failed = false := by
  cases p with
  | raised e => exact absurd rfl (h e)
  | _ => rfl

theorem Loop.head_ne_raised (l : Loop μ) (e : Exn) : l.head spur ≠ .raised e := by
  rw [Loop.head]
  split <;> simp

theorem RunPoint.advance_ne_raised {runner : SpurRunner} {settings : Settings} {entropy : Nat}
    (htarget : runner.untilTime.isSome) (hchunk : ChunkOk settings runner.chunkSize)
    {p : RunPoint μ} (hmodel : runner.Returns spur entropy p) (h : ∀ e, p ≠ .raised e) (e : Exn) :
    runner.advance spur settings entropy p ≠ .raised e := by
  cases p with
  | building =>
      obtain ⟨model, hbuild⟩ := hmodel
      simp [SpurRunner.advance, SpurRunner.buildModel, hbuild]
  | starting model =>
      obtain ⟨model', hstart⟩ := hmodel
      obtain ⟨target, ht⟩ := Option.isSome_iff_exists.mp htarget
      obtain ⟨chunk, hc⟩ := SpurRunner.chunk_of_chunkOk hchunk target
      simp only [SpurRunner.advance, hstart, SpurRunner.untilTarget, ht, hc]
      exact Loop.head_ne_raised _ e
  | advancing l =>
      obtain ⟨model', hrun⟩ := hmodel
      simp [SpurRunner.advance, hrun]
  | logging l =>
      obtain ⟨model', hlog⟩ := hmodel
      simp [SpurRunner.advance, hlog]
  | _ => exact h e

theorem RunPoint.flushed_ne_raised (l : Loop μ) (place : Flush) (e : Exn) :
    (RunPoint.flushing l place).flushed spur ≠ .raised e := by
  cases place with
  | chunk => exact Loop.head_ne_raised _ e
  | cancelled | final => simp [RunPoint.flushed]

/-- What a step without an error needs: the columns of a submission, a chunk size, and event
numbers that are not taken. -/
def WorkerPoint.Ready (settings : Settings) (events : List RunEventRow) : WorkerPoint μ → Prop
  | .loadingProject _ => False
  | .running w p => w.runner.untilTime.isSome ∧ ChunkOk settings w.row.chunkSize ∧
      (∀ e, p ≠ .raised e) ∧ ∀ l place, p = .flushing l place → l.eventsBatch = [] ∨
        ((events ++ eventRows w.seq l.eventsBatch).map RunEventRow.seq).Nodup
  | _ => True

/-- **A step without an error leads to no handler.** -/
theorem WorkerMove.not_failed {project : Option ProjectRow} {io : Io} {p p' : WorkerPoint μ}
    {row : SimulationRunRow} {events : List RunEventRow} {db' : RunSlice}
    (hmodel : ∀ w q, p = .running w q → w.runner.Returns env.spur io.entropy q)
    (hfault : io.fault = none) (hp : p.failed = false) (hready : p.Ready env.settings events)
    (hmove : WorkerMove env project io ⟨some row, events⟩ p p' db') : p'.failed = false := by
  have hquiet : ∀ loaded assigned e,
      commitRun io loaded assigned [] ⟨some row, events⟩ ≠ .error e := by
    intro loaded assigned e
    rw [commitRun_succeeds hfault (.inl rfl)]
    simp
  cases hmove with
  | loadRaised h => simp [hfault] at h
  | projectRaised => exact hready.elim
  | markRaised h | finishRaised h => exact absurd h (hquiet _ _ _)
  | askRaised h => simp [isCancelled, hfault] at h
  | flushRaised h =>
      rename_i w l place e
      have hnodup : eventRows w.seq l.eventsBatch = [] ∨
          ((events ++ eventRows w.seq l.eventsBatch).map RunEventRow.seq).Nodup := by
        refine (hready.2.2.2 l place rfl).imp_left fun hempty => ?_
        rw [hempty]
        rfl
      simp [onChunk, commitRun_succeeds hfault hnodup] at h
  | flushed => exact settle_failed (RunPoint.flushed_ne_raised _ _)
  | advanced =>
      exact settle_failed
        (RunPoint.advance_ne_raised hready.1 hready.2.1 (hmodel _ _ rfl) hready.2.2.1)
  | handlerLost | handlerRaised => simp [WorkerPoint.failed] at hp
  | _ => rfl

/-- An invocation that is not over can go on. -/
theorem workerStep_isSome {project : Option ProjectRow} {io : Io} {p : WorkerPoint μ}
    {db : RunSlice} (h : p.ended = false) : (workerStep env project io db p).isSome := by
  cases p with
  | returned | raised => simp [WorkerPoint.ended] at h
  | loading | loadingProject =>
      simp only [workerStep]
      repeat' split
      all_goals rfl
  | running w p => rfl
  | marking | handling | finishing =>
      simp only [workerStep]
      repeat' split
      all_goals rfl

/-! ### In a history -/

variable {s₀ s s' : State μ} {a : Action} {run : Uuid} {tr : List (Entry (State μ) Action)}

/-- The runner has not raised, and its chunks are positive when the chunk size of the run is not
negative. -/
def Working (row : SimulationRunRow) : Option (WorkerPoint μ) → Prop
  | some (.running _ p) => (∀ e, p ≠ .raised e) ∧
      ((∀ c, row.chunkSize = some c → 0 ≤ c) → p.Chunked)
  | _ => True

private theorem working_settle {w : WorkerSession} {p : RunPoint μ} {row : SimulationRunRow}
    (h : (∀ c, row.chunkSize = some c → 0 ≤ c) → p.Chunked) : Working row (some (w.settle p)) := by
  cases p with
  | finished | raised => trivial
  | _ => exact ⟨by simp, h⟩

private theorem working_of_move {project : Option ProjectRow} {io : Io} {p p' : WorkerPoint μ}
    {row row' : SimulationRunRow} {events : List RunEventRow} {db' : RunSlice}
    (hok : p.Ok env.spur row events) (h : Working row (some p))
    (hmove : WorkerMove env project io ⟨some row, events⟩ p p' db')
    (hrow' : db'.row = some row') : Working row' (some p') := by
  cases hmove with
  | marked => exact ⟨by simp, fun _ => trivial⟩
  | asked =>
      rw [Option.some.injEq] at hrow'
      subst hrow'
      refine ⟨fun e => ?_, fun hsize => ?_⟩
      · split <;> simp
      · have hchunked := h.2 hsize
        split <;> exact hchunked
  | flushed hchunk =>
      obtain ⟨-, rfl⟩ := onChunk_ok hok.2.1.same hchunk
      rw [Option.some.injEq] at hrow'
      subst hrow'
      exact working_settle fun hsize => (h.2 hsize).flushed
  | advanced =>
      rw [Option.some.injEq] at hrow'
      subst hrow'
      have hsame := hok.2.1.same
      rw [SameButClient] at hsame
      refine working_settle fun hsize =>
        RunPoint.Chunked.advance (fun c hc => hsize c ?_) (h.2 hsize)
      rw [hsame]
      exact hc
  | _ => trivial

theorem working_of_exec (h₀ : s₀.Initial) (h : Exec (system env) s₀ tr s) :
    ∀ row, (s.slice run).row = some row → Working row (s.workers run) := by
  induction h with
  | nil =>
      intro row _
      rw [h₀.workers]
      trivial
  | @snoc tr s s' a h hstep ih =>
      intro row' hrow'
      cases run_change (RunsOk.exec h₀ h) hstep hrow' with
      | inserted _ _ _ _ _ _ _ _ hworker' | delivered _ _ hworker' =>
          rw [hworker']
          trivial
      | edited _ hrow hworker _ hedit =>
          have hold := ih _ hrow
          have hsame := hedit.same
          rw [SameButClient] at hsame
          rw [hworker, hsame]
          exact hold
      | worked _ hrow hworker hworker' hok hmove =>
          have hold := ih _ hrow
          rw [hworker] at hold
          rw [hworker']
          exact working_of_move hok hold hmove hrow'

/-- The worker of the run moves. -/
def isWork (run : Uuid) (e : Entry (State μ) Action) : Bool :=
  match e.act with
  | .work run' _ => run' == run
  | _ => false

/-- How often the worker of the run moved. -/
def works (run : Uuid) (tr : List (Entry (State μ) Action)) : Nat := tr.countP (isWork run)

theorem works_snoc_other {e : Entry (State μ) Action} (h : ∀ io, e.act ≠ .work run io) :
    works run (tr ++ [e]) = works run tr := by
  have hnot : isWork run e = false := by
    unfold isWork
    split
    · rename_i run' io hact
      rw [beq_eq_false_iff_ne]
      rintro rfl
      exact h io hact
    · rfl
  simp [works, List.countP_append, hnot]

theorem works_snoc_work {io : Io} :
    works run (tr ++ [⟨s, .work run io, s'⟩]) = works run tr + 1 := by
  simp [works, List.countP_append, isWork]

/-- How many steps are left to the worker of a run at most; it may not have started. -/
def stepsLeft (spur : Spur μ) (target : Int) : Option (WorkerPoint μ) → Nat
  | none => 3 * target.toNat + 8
  | some p => p.stepsLeft spur target

theorem timely_of_exec (hclock : env.spur.ClockLaw) (h₀ : s₀.Initial)
    (h : Exec (system env) s₀ tr s) {row : SimulationRunRow} (hrow : (s.slice run).row = some row)
    {target : Int} (htarget : row.untilTarget = some target)
    (hsize : ∀ c, row.chunkSize = some c → 0 ≤ c) {p : WorkerPoint μ}
    (hworker : s.workers run = some p) : p.Timely env.spur target := by
  obtain ⟨-, hok⟩ := (RunsOk.exec h₀ h).runs run row hrow
  have hworking := working_of_exec h₀ h row hrow
  rw [hworker] at hok hworking
  cases p with
  | running w q =>
      obtain ⟨-, -, -, -, -, target', htarget', hclocked⟩ := hok
      rw [htarget, Option.some.injEq] at htarget'
      subst htarget'
      exact ⟨hclocked hclock, hworking.2 hsize, hworking.1⟩
  | _ => trivial

/-- The worker that has not started has not moved. -/
private theorem works_of_none (h₀ : s₀.Initial) (h : Exec (system env) s₀ tr s) :
    s.workers run = none → works run tr = 0 := by
  induction h with
  | nil => exact fun _ => rfl
  | @snoc tr s s' a h hstep ih =>
      intro hnone
      cases step_run (IdsApart.exec h₀ h) hstep run with
      | client hact hworker =>
          rw [works_snoc_other hact]
          exact ih (hworker ▸ hnone)
      | inserted hact _ _ _ _ hworker =>
          rw [works_snoc_other hact]
          exact ih hworker
      | delivered _ _ _ hworker' | worked _ _ hworker' => simp [hworker'] at hnone

/-- **An invocation is over after this many steps.** -/
theorem works_bounded (hclock : env.spur.ClockLaw) (h₀ : s₀.Initial)
    (h : Exec (system env) s₀ tr s) : ∀ row target, (s.slice run).row = some row →
      row.untilTarget = some target → (∀ c, row.chunkSize = some c → 0 ≤ c) →
        works run tr + stepsLeft env.spur target (s.workers run) ≤ 3 * target.toNat + 8 := by
  induction h with
  | nil =>
      intro row target hrow
      exact (h₀.not_row hrow).elim
  | @snoc tr s s' a h hstep ih =>
      intro row' target hrow' htarget hsize
      cases run_change (RunsOk.exec h₀ h) hstep hrow' with
      | inserted hact _ _ _ _ _ _ hworker hworker' =>
          rw [works_snoc_other hact, works_of_none h₀ h hworker, hworker', stepsLeft]
          omega
      | @edited row hact hrow hworker _ hedit =>
          rw [works_snoc_other hact, hworker]
          have hsub := hedit.same.submission
          have htarget' : row'.untilTarget = row.untilTarget := congrArg Submission.untilTarget hsub
          have hsize' : row'.chunkSize = row.chunkSize := congrArg Submission.chunkSize hsub
          exact ih _ target hrow (htarget' ▸ htarget) (hsize' ▸ hsize)
      | delivered hact hworker hworker' =>
          rw [works_snoc_other hact, works_of_none h₀ h hworker, hworker', stepsLeft,
            WorkerPoint.stepsLeft]
          omega
      | @worked io row p p' ha hrow hworker hworker' hok hmove =>
          have hsub := (hmove.write hok.copies hrow').submission
          have htarget' : row'.untilTarget = row.untilTarget := congrArg Submission.untilTarget hsub
          have hsize' : row'.chunkSize = row.chunkSize := congrArg Submission.chunkSize hsub
          rw [htarget'] at htarget
          rw [hsize'] at hsize
          have hlt := hmove.stepsLeft_lt hclock
            (timely_of_exec hclock h₀ h hrow htarget hsize hworker)
          have hbound := ih row target hrow htarget hsize
          rw [hworker, stepsLeft] at hbound
          rw [ha, works_snoc_work, hworker', stepsLeft]
          omega

/-- A worker that is not over can move. -/
theorem exists_step_of_worker {p : WorkerPoint μ} (hworker : s.workers run = some p)
    (h : p.ended = false) (io : Io) : ∃ s', s.step env (.work run io) = some s' := by
  have hgoes : (workerStep env (s.liveProject p) io (s.slice run) p).isSome :=
    workerStep_isSome h
  obtain ⟨⟨p', d⟩, hpoint⟩ := Option.isSome_iff_exists.mp hgoes
  obtain ⟨s', hstep, -, -⟩ := step_work hworker hpoint
  exact ⟨s', hstep⟩

/-- The database fails at nothing in the steps of the worker of the run. -/
def NoFaults (run : Uuid) (tr : List (Entry (State μ) Action)) : Prop :=
  ∀ e ∈ tr, ∀ io, e.act = .work run io → io.fault = none

/-- No call of the model raises in the steps of the worker of the run. -/
def CallsReturn (env : Env μ) (run : Uuid) (tr : List (Entry (State μ) Action)) : Prop :=
  ∀ e ∈ tr, ∀ io w q, e.act = .work run io → e.pre.workers run = some (.running w q) →
    w.runner.Returns env.spur io.entropy q

/-- The database does not fail in the action. -/
def Action.unfailing : Action → Bool
  | .work _ io => io.fault.isNone
  | _ => true

theorem noFaults_of_all (h : ∀ e ∈ tr, e.act.unfailing = true) : NoFaults run tr := by
  intro e he io hact
  have hfine := h e he
  rw [hact] at hfine
  exact Option.isNone_iff_eq_none.mp hfine

private theorem ready_of_ok {spur : Spur μ} {settings : Settings} {row : SimulationRunRow}
    {events : List RunEventRow} {p : WorkerPoint μ} (hok : p.Ok spur row events)
    (hworking : Working row (some p)) (hchunk : ChunkOk settings row.chunkSize) :
    p.Ready settings events := by
  cases p with
  | loadingProject => exact hok.elim
  | running w q =>
      obtain ⟨-, hcopy, -, -, hseq, target, htarget, -⟩ := hok
      have hsub := hcopy.same.submission
      have htarget' : row.untilTarget = w.row.untilTarget := congrArg Submission.untilTarget hsub
      have hsize : row.chunkSize = w.row.chunkSize := congrArg Submission.chunkSize hsub
      refine ⟨?_, hsize ▸ hchunk, hworking.1, fun l place _ => .inr ?_⟩
      · simp [WorkerSession.runner, ← htarget', htarget]
      · rw [seq_append hseq]
        exact List.nodup_range
  | _ => trivial

/-- **Without errors no exception is raised in an invocation.** -/
theorem not_failed_of_exec (h₀ : s₀.Initial) (h : Exec (system env) s₀ tr s)
    (hmodel : CallsReturn env run tr) (hfault : NoFaults run tr) : ∀ row,
      (s.slice run).row = some row → ChunkOk env.settings row.chunkSize →
        row.status ≠ .failed ∧ ∀ p, s.workers run = some p → p.failed = false := by
  induction h with
  | nil =>
      intro row hrow
      exact (h₀.not_row hrow).elim
  | @snoc tr s s' a h hstep ih =>
      intro row' hrow' hchunk
      replace ih := ih (fun e he => hmodel e (List.mem_append_left _ he))
        fun e he => hfault e (List.mem_append_left _ he)
      cases run_change (RunsOk.exec h₀ h) hstep hrow' with
      | inserted _ _ _ _ _ hnew _ _ hworker' =>
          exact ⟨by simp [hnew.isQueued.status], by simp [hworker']⟩
      | @edited row _ hrow hworker _ hedit =>
          have hsize : row'.chunkSize = row.chunkSize :=
            congrArg Submission.chunkSize hedit.same.submission
          obtain ⟨hstatus, hp⟩ := ih row hrow (hsize ▸ hchunk)
          rw [hworker, hedit.same]
          exact ⟨hstatus, hp⟩
      | delivered _ _ hworker' hslice =>
          refine ⟨(ih row' (hslice ▸ hrow') hchunk).1, fun p' hp' => ?_⟩
          rw [hworker', Option.some.injEq] at hp'
          rw [← hp']
          rfl
      | @worked io row p p' ha hrow hworker hworker' hok hmove =>
          have hwrite := hmove.write hok.copies hrow'
          have hsize : row'.chunkSize = row.chunkSize :=
            congrArg Submission.chunkSize hwrite.submission
          rw [hsize] at hchunk
          obtain ⟨hstatus, hp⟩ := ih row hrow hchunk
          have hworking := working_of_exec h₀ h row hrow
          rw [hworker] at hworking
          refine ⟨?_, fun p₁ hp₁ => ?_⟩
          · have hfailed := hp p hworker
            cases hwrite with
            | none | progress => exact hstatus
            | running => simp [markRunning]
            | failed => simp [WorkerPoint.failed] at hfailed
            | finished w outcome => cases outcome <;> simp [markFinished, Outcome.status]
          · rw [hworker', Option.some.injEq] at hp₁
            subst hp₁
            have hlast : (⟨s, a, s'⟩ : Entry (State μ) Action) ∈ tr ++ [⟨s, a, s'⟩] :=
              List.mem_append_right tr (List.mem_singleton.mpr rfl)
            have hreturns : ∀ w q, p = .running w q → w.runner.Returns env.spur io.entropy q :=
              fun w q hq => hmodel _ hlast io w q ha (hq ▸ hworker)
            exact hmove.not_failed hreturns (hfault _ hlast io ha) (hp p hworker)
              (ready_of_ok hok hworking hchunk)

end

end SpurApi
