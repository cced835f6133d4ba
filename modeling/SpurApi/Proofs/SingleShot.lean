/-
A run in chunks against one call.

Nobody cancels and no call of the model raises.  Then the clock comes nearer to the target with
every chunk, so the runner gets past its loop, and by `SplitLaw` its calls of `model.run` have
emitted what one call to the target emits.  What it has handed to `on_chunk` by then is all of
it, in order, whatever the chunk size was.
-/
import Mathlib.Order.OrderIsoNat
import SpurApi.Proofs.Replay
import SpurApi.Proofs.Trail

namespace SpurApi

section

variable {μ : Type} (spur : Spur μ) (settings : Settings) (runner : SpurRunner)

/-- What the runner hands to `on_chunk` at a point: the clock and the batch. -/
def RunPoint.report : RunPoint μ → Option (Int × List SimEvent)
  | .flushing l _ => some (spur.now l.model, l.eventsBatch)
  | _ => none

/-- What it has handed to `on_chunk` in its first `n` steps. -/
def SpurRunner.reports : Nat → List (Int × List SimEvent)
  | 0 => []
  | n + 1 => reports n ++ ((runner.trail spur settings n).1.report spur).toList

/-- `SpurRunner.run` returns `"completed"`, and this is what it has handed to `on_chunk`. -/
def SpurRunner.CompletesWith (reports : List (Int × List SimEvent)) : Prop :=
  ∃ n, (runner.trail spur settings n).1 = .finished .completed ∧
    runner.reports spur settings n = reports

/-- The same run in other chunks. -/
def SpurRunner.withChunkSize (runner : SpurRunner) (size : Option Int) : SpurRunner :=
  { runner with chunkSize := size }

/-- All the events among them. -/
def reportedEvents (reports : List (Int × List SimEvent)) : List SimEvent :=
  (reports.map Prod.snd).flatten

end

section

variable {μ : Type} {spur : Spur μ} {settings : Settings} {runner : SpurRunner} {target : Int}

theorem SpurRunner.reports_events (n : Nat) :
    reportedEvents (runner.reports spur settings n) = (runner.trail spur settings n).2 := by
  induction n with
  | zero => rfl
  | succ n ih =>
      rw [reports, trail, reportedEvents, List.map_append, List.flatten_append]
      rw [reportedEvents] at ih
      rw [ih]
      congr 1
      cases (runner.trail spur settings n).1 <;> simp [RunPoint.report, RunPoint.handed]

/-! ### The run ends -/

/-- Every step of a run that is not over brings it nearer to its end. -/
theorem SpurRunner.next_stepsLeft (hclock : spur.ClockLaw) {p : RunPoint μ} {flag : Bool}
    (hclocked : p.Clocked spur target flag) (hchunked : p.Chunked) (hraised : ∀ e, p ≠ .raised e) :
    (runner.next spur settings p).stepsLeft spur target < p.stepsLeft spur target := by
  cases p with
  | asking l => exact Nat.lt_succ_self _
  | flushing l place =>
      cases place with
      | chunk =>
          have hhead := Loop.head_stepsLeft spur { l with eventsBatch := [] } target
          refine Nat.lt_of_le_of_lt hhead ?_
          simp only [RunPoint.stepsLeft]
          omega
      | cancelled | final => exact Nat.lt_succ_self _
  | _ =>
      rw [next_eq_advance (by simp) (by simp)]
      exact RunPoint.advance_stepsLeft hclock.loopLaw (hclocked.forward hclock hchunked) (by simp)
        (by simp) hraised

/-- The uninterrupted run is over after finitely many steps. -/
theorem SpurRunner.trail_finishes (hclock : spur.ClockLaw)
    (htarget : runner.untilTarget settings = .ok target)
    (hchunk : ChunkOk settings runner.chunkSize) (hmodel : runner.ModelReturns spur settings) :
    ∃ n, (runner.trail spur settings n).1 = .finished .completed := by
  have hchunks : runner.Chunks settings := by
    obtain ⟨chunk, hc⟩ := chunk_of_chunkOk hchunk target
    exact ⟨target, chunk, htarget, hc⟩
  have hpast : ∀ n, (runner.trail spur settings n).1.Past (runner.Chunks settings) :=
    trail_past hmodel
  -- the measure is what is left of the run, which cannot get smaller for ever
  by_contra hnone
  refine not_strictAnti_of_wellFoundedLT
    (fun n => (runner.trail spur settings n).1.stepsLeft spur target)
    (strictAnti_nat_of_succ_lt fun n => ?_)
  have hp := hpast n
  rcases trail_clocked hclock htarget n with ⟨outcome, hfinished⟩ | hclocked
  · cases outcome with
    | completed => exact absurd ⟨n, hfinished⟩ hnone
    | cancelled =>
        rw [hfinished] at hp
        exact hp.elim
  · refine next_stepsLeft hclock hclocked (trail_chunked hchunk.nonneg n) fun e he => ?_
    rw [he] at hp
    exact hp hchunks

/-! ### What it has emitted -/

/-- On its way the runner has emitted what one call to its clock emits. -/
theorem SpurRunner.trail_replays (hclock : spur.ClockLaw) (hsplit : spur.SplitLaw)
    (htarget : runner.untilTarget settings = .ok target)
    (hsize : ∀ c, runner.chunkSize = some c → 0 ≤ c) (n : Nat) :
    ∃ emitted, (runner.trail spur settings n).1.Batched (runner.trail spur settings n).2 emitted ∧
      (runner.trail spur settings n).1.Replays spur runner.projectDict runner.seed target
        emitted := by
  induction n with
  | zero => exact ⟨[], ⟨rfl, rfl⟩, rfl⟩
  | succ n ih =>
      have hclocked := trail_clocked hclock htarget n
      have hchunked : (runner.trail spur settings n).1.Chunked := trail_chunked hsize n
      simp only [trail]
      generalize runner.trail spur settings n = t at ih hclocked hchunked
      obtain ⟨p, es⟩ := t
      dsimp only at ih hclocked hchunked ⊢
      obtain ⟨emitted, hbatched, hreplays⟩ := ih
      have hadvance : (∀ l, p ≠ .asking l) → (∀ l place, p ≠ .flushing l place) →
          (∀ outcome, p ≠ .finished outcome) → p.handed = [] →
          ∃ emitted, (runner.next spur settings p).Batched (es ++ p.handed) emitted ∧
            (runner.next spur settings p).Replays spur runner.projectDict runner.seed target
              emitted := by
        intro hask hflush hfinished hhanded
        have hnot : ¬ ∃ outcome, p = .finished outcome := not_exists.mpr hfinished
        rw [next_eq_advance hask hflush, hhanded, List.append_nil]
        exact ⟨_, hbatched.advance, hreplays.advance hclock hsplit rfl rfl rfl
          (hclocked.resolve_left hnot) hchunked⟩
      cases p with
      | asking l => exact ⟨emitted, (List.append_nil es).symm ▸ hbatched, hreplays⟩
      | flushing l place =>
          have hall : es ++ l.eventsBatch = emitted := hbatched
          rw [RunPoint.handed, hall]
          exact ⟨emitted, RunPoint.Batched.flushed l place, hreplays.flushed⟩
      | finished outcome => exact ⟨emitted, (List.append_nil es).symm ▸ hbatched, hreplays⟩
      | _ => exact hadvance (by simp) (by simp) (by simp) rfl

/-- The last report of a run that completed is at its target. -/
theorem SpurRunner.last_report (hclock : spur.ClockLaw)
    (htarget : runner.untilTarget settings = .ok target) (n : Nat)
    (hfinished : (runner.trail spur settings n).1 = .finished .completed) :
    (runner.reports spur settings n).getLast?.map Prod.fst = some (max 0 target) := by
  induction n with
  | zero => simp [trail] at hfinished
  | succ n ih =>
      have hclocked := trail_clocked hclock htarget n
      rw [trail] at hfinished
      rw [reports]
      cases hp : (runner.trail spur settings n).1 with
      | flushing l place =>
          rw [hp] at hfinished hclocked
          cases place with
          | chunk =>
              simp only [next, RunPoint.flushed, Loop.head] at hfinished
              split at hfinished <;> simp at hfinished
          | cancelled => simp [next, RunPoint.flushed] at hfinished
          | final =>
              have hnow : spur.now l.model = max 0 target := by
                rcases hclocked with ⟨outcome, h⟩ | h
                · simp at h
                · exact h.2
              simp [RunPoint.report, hnow]
      | finished outcome =>
          rw [hp] at hfinished ih
          simp only [next, advance] at hfinished
          simpa [RunPoint.report] using ih hfinished
      | asking l =>
          rw [hp] at hfinished
          simp [next, RunPoint.answered] at hfinished
      | building | starting | advancing | logging | raised =>
          rw [hp] at hfinished
          simp only [next, advance, Loop.head] at hfinished
          repeat' split at hfinished
          all_goals simp at hfinished

/-- What a completed run has reported. -/
theorem SpurRunner.CompletesWith.refines (hclock : spur.ClockLaw) (hsplit : spur.SplitLaw)
    (htarget : runner.untilTarget settings = .ok target)
    (hsize : ∀ c, runner.chunkSize = some c → 0 ≤ c) {reports : List (Int × List SimEvent)}
    (h : runner.CompletesWith spur settings reports) :
    reportedEvents reports = spur.reference runner.projectDict runner.seed target ∧
      reports.getLast?.map Prod.fst = some (max 0 target) := by
  obtain ⟨n, hfinished, rfl⟩ := h
  refine ⟨?_, last_report hclock htarget n hfinished⟩
  obtain ⟨emitted, hbatched, hreplays⟩ := trail_replays hclock hsplit htarget hsize n
  rw [hfinished] at hbatched hreplays
  rw [reports_events, show (runner.trail spur settings n).2 = emitted from hbatched]
  exact hreplays

theorem SpurRunner.exists_reports (hclock : spur.ClockLaw) (hsplit : spur.SplitLaw)
    (htarget : runner.untilTarget settings = .ok target)
    (hchunk : ChunkOk settings runner.chunkSize) (hmodel : runner.ModelReturns spur settings) :
    ∃ reports, runner.CompletesWith spur settings reports ∧
      reportedEvents reports = spur.reference runner.projectDict runner.seed target ∧
      reports.getLast?.map Prod.fst = some (max 0 target) := by
  obtain ⟨n, hn⟩ := trail_finishes hclock htarget hchunk hmodel
  have hcompleted : runner.CompletesWith spur settings (runner.reports spur settings n) :=
    ⟨n, hn, rfl⟩
  exact ⟨_, hcompleted, hcompleted.refines hclock hsplit htarget hchunk.nonneg⟩

/-- **The run in chunks refines the run in one call**, for every project, seed and target and every
chunk size that is positive, zero or absent: it returns, with the same events in the same order,
and so does the run with any other such chunk size. -/
theorem chunks_refine_single_shot (hclock : spur.ClockLaw) (hsplit : spur.SplitLaw)
    (htarget : runner.untilTarget settings = .ok target)
    (hchunk : ChunkOk settings runner.chunkSize) (hmodel : runner.ModelReturns spur settings) :
    ∃ reports, runner.CompletesWith spur settings reports ∧
      reportedEvents reports = spur.reference runner.projectDict runner.seed target ∧
      reports.getLast?.map Prod.fst = some (max 0 target) ∧
      ∀ size, ChunkOk settings size → (runner.withChunkSize size).ModelReturns spur settings →
        ∃ reports', (runner.withChunkSize size).CompletesWith spur settings reports' ∧
          reportedEvents reports' = reportedEvents reports := by
  obtain ⟨reports, hcompleted, hevents, hlast⟩ :=
    SpurRunner.exists_reports hclock hsplit htarget hchunk hmodel
  refine ⟨reports, hcompleted, hevents, hlast, fun size hsize hreturns => ?_⟩
  have htarget' : (runner.withChunkSize size).untilTarget settings = .ok target := htarget
  obtain ⟨reports', hcompleted', hevents', -⟩ :=
    SpurRunner.exists_reports hclock hsplit htarget' hsize hreturns
  exact ⟨reports', hcompleted', hevents'.trans hevents.symm⟩

end

/-- Three instants in chunks of two: the last chunk is cut short. -/
def shortRunner : SpurRunner := .bare (some 3) (some 2)

example : shortRunner.CompletesWith Spur.clock {}
    [(2, [Spur.tick 1, Spur.tick 2]), (3, [Spur.tick 3]), (3, [Spur.tick 3])] :=
  ⟨10, rfl, rfl⟩

/-- It refines the run in one call, and so it does in chunks of one. -/
theorem short_chunks_refine_single_shot : ∃ reports,
    shortRunner.CompletesWith Spur.clock {} reports ∧
      reportedEvents reports = Spur.clock.reference shortRunner.projectDict (some 7) 3 ∧
      reports.getLast?.map Prod.fst = some 3 ∧
      ∀ size, ChunkOk {} size →
        (shortRunner.withChunkSize size).ModelReturns Spur.clock {} →
          ∃ reports', (shortRunner.withChunkSize size).CompletesWith Spur.clock {} reports' ∧
            reportedEvents reports' = reportedEvents reports :=
  chunks_refine_single_shot Spur.clock_clockLaw Spur.clock_splitLaw rfl
    (.inl ⟨2, rfl, by decide⟩)
    (SpurRunner.clock_modelReturns rfl (by simp [shortRunner, SpurRunner.bare]))

end SpurApi
