/-
A run whose job is delivered again.

Every invocation starts the simulation anew and numbers its events from 0, on top of
whatever an earlier invocation committed.  While no invocation that was cut short had
committed an event, the next one finds an empty run and goes the way of an
uninterrupted one.  Once there are events, the first chunk with events meets their
numbers: the insert is refused, the session cannot be used any more, and the run
stays as it is.
-/
import SpurApi.Redelivery
import SpurApi.Proofs.Trail

namespace SpurApi

open Transition

/-- The runner that an invocation makes for this row and this spec. -/
def SimulationRunRow.runner (row : SimulationRunRow) (spec : Json.Object) : SpurRunner :=
  WorkerSession.runner ⟨row, spec, 0, true⟩

theorem SimulationRunRow.runner_congr {row row' : SimulationRunRow}
    (h : row'.submission = row.submission) (spec : Json.Object) :
    row'.runner spec = row.runner spec := by
  have htarget : row'.untilTarget = row.untilTarget := congrArg Submission.untilTarget h
  have huntil : row'.requestedUntil = row.requestedUntil := congrArg Submission.requestedUntil h
  have hchunk : row'.chunkSize = row.chunkSize := congrArg Submission.chunkSize h
  have hseed : row'.seed = row.seed := congrArg Submission.seed h
  simp only [runner, WorkerSession.runner, htarget, huntil, hchunk, hseed]

/-- The uninterrupted run of this row raises no error. -/
def SimulationRunRow.ModelReturns {μ : Type} (env : Env μ) (row : SimulationRunRow) : Prop :=
  ∀ spec, row.specSnapshot = some spec → (row.runner spec).ModelReturns env.spur env.settings

theorem SimulationRunRow.ModelReturns.congr {μ : Type} {env : Env μ} {row row' : SimulationRunRow}
    (h : row'.ModelReturns env) (hsub : row'.submission = row.submission) :
    row.ModelReturns env := by
  intro spec hspec
  rw [← runner_congr hsub]
  exact h spec ((congrArg Submission.specSnapshot hsub).trans hspec)

section

variable {μ : Type}

/-! ### The worker of a run that may have events already -/

/-- What is stored is what the runner handed over on its way to the `n`-th point, or it has handed
over nothing and never can. -/
structure Follows (env : Env μ) (runner : SpurRunner) (spoiled : Prop)
    (events : List RunEventRow) (n : Nat) : Prop where
  lost : spoiled → (runner.trail env.spur env.settings n).2 = []
  kept : ¬ spoiled → events = eventRows 0 (runner.trail env.spur env.settings n).2

/-- The events are those of the uninterrupted run. -/
def Done (env : Env μ) (runner : SpurRunner) (events : List RunEventRow) : Prop :=
  ∃ es, runner.Completes env.spur env.settings es ∧ events = eventRows 0 es

/-- What keeps the run from its end: events of an invocation that was cut short, or a chunk that
cannot be worked out. -/
def Hopeless (env : Env μ) (runner : SpurRunner) (spoiled : Prop) : Prop :=
  spoiled ∨ ¬ runner.Chunks env.settings

/-- What holds of the row and the events of a run at a point of its worker; `spoiled` says that an
invocation that was cut short left events. -/
def WorkerPoint.Reruns (env : Env μ) (runner : SpurRunner) (spoiled : Prop)
    (row : SimulationRunRow) (events : List RunEventRow) : WorkerPoint μ → Prop
  | .loading => (row.status = .completed → Done env runner events) ∧ (¬ spoiled → events = [])
  | .loadingProject _ => False
  | .marking copy spec =>
      (row.status = .completed → Done env runner events) ∧ (¬ spoiled → events = []) ∧
        IsCopy copy row ∧ row.specSnapshot = some spec
  | .running w p =>
      row.status ≠ .completed ∧ IsCopy w.row row ∧ row.specSnapshot = some w.spec ∧
        (∀ outcome, p ≠ .finished outcome) ∧ (∀ e, p ≠ .raised e) ∧
          ∃ n, (runner.trail env.spur env.settings n).1 = p ∧
            w.seq = (runner.trail env.spur env.settings n).2.length ∧
              Follows env runner spoiled events n
  | .handling w _ =>
      row.status ≠ .completed ∧ IsCopy w.row row ∧ Hopeless env runner spoiled
  | .finishing w outcome =>
      row.status ≠ .completed ∧ IsCopy w.row row ∧ outcome = .completed ∧ ¬ spoiled ∧
        Done env runner events
  | .returned =>
      (row.status = .completed ∧ ¬ spoiled ∧ Done env runner events) ∨
        (row.status ≠ .completed ∧ Hopeless env runner spoiled)
  | .raised _ => row.status ≠ .completed ∧ Hopeless env runner spoiled

/-- The invariant of a run whose job may be delivered again. -/
structure Rerun (env : Env μ) (runner : SpurRunner) (spoiled : Prop) (row : SimulationRunRow)
    (events : List RunEventRow) (worker : Option (WorkerPoint μ)) : Prop where
  submitted : IsSubmitted row
  fresh : spoiled → events ≠ []
  stored : ∃ n, events = eventRows 0 (runner.trail env.spur env.settings n).2
  point : match worker with
    | none => (row.status = .completed → Done env runner events) ∧ (¬ spoiled → events = [])
    | some p => p.Reruns env runner spoiled row events

variable {env : Env μ} {runner : SpurRunner} {spoiled : Prop} {row row' : SimulationRunRow}
  {events : List RunEventRow}

theorem WorkerPoint.Reruns.copies {p : WorkerPoint μ}
    (h : p.Reruns env runner spoiled row events) : p.Copies row := by
  cases p with
  | marking => exact h.2.2.1.same
  | running | handling | finishing => exact h.2.1.same
  | _ => trivial

/-- At no point is the run completed without all the events. -/
theorem WorkerPoint.Reruns.done {p : WorkerPoint μ} (h : p.Reruns env runner spoiled row events)
    (hstatus : row.status = .completed) : Done env runner events := by
  cases p with
  | loading | marking => exact h.1 hstatus
  | loadingProject => exact h.elim
  | returned =>
      rcases h with ⟨-, -, hdone⟩ | ⟨hne, -⟩
      · exact hdone
      · exact absurd hstatus hne
  | _ => exact absurd hstatus h.1

theorem Rerun.done {worker : Option (WorkerPoint μ)}
    (h : Rerun env runner spoiled row events worker) (hstatus : row.status = .completed) :
    Done env runner events := by
  have hpoint := h.point
  cases worker with
  | none => exact hpoint.1 hstatus
  | some p => exact WorkerPoint.Reruns.done hpoint hstatus

/-- The stored events of a complete run cannot be those of a run that handed over nothing. -/
private theorem not_spoiled_of_done {n : Nat} (hfresh : spoiled → events ≠ [])
    (hstored : ∃ n, events = eventRows 0 (runner.trail env.spur env.settings n).2)
    (hfollows : Follows env runner spoiled events n)
    (hdone : runner.Completes env.spur env.settings (runner.trail env.spur env.settings n).2) :
    ¬ spoiled := by
  intro hspoiled
  obtain ⟨m, rfl⟩ := hstored
  have hpre := hdone.prefix_of m
  rw [hfollows.lost hspoiled, List.prefix_nil] at hpre
  exact hfresh hspoiled (by rw [hpre]; rfl)

/-- The runner goes on, is done, or cannot work out its chunk. -/
private theorem settle_reruns (hmodel : runner.ModelReturns env.spur env.settings)
    {w : WorkerSession} {n : Nat} (hstatus : row.status ≠ .completed) (hcopy : IsCopy w.row row)
    (hspec : row.specSnapshot = some w.spec) (hfresh : spoiled → events ≠ [])
    (hstored : ∃ n, events = eventRows 0 (runner.trail env.spur env.settings n).2)
    (hseq : w.seq = (runner.trail env.spur env.settings n).2.length)
    (hfollows : Follows env runner spoiled events n) :
    (w.settle (runner.trail env.spur env.settings n).1).Reruns env runner spoiled row events := by
  have hpast : (runner.trail env.spur env.settings n).1.Past (runner.Chunks env.settings) :=
    SpurRunner.trail_past hmodel n
  cases hq : (runner.trail env.spur env.settings n).1 with
  | finished outcome =>
      rw [hq] at hpast
      cases outcome with
      | cancelled => exact hpast.elim
      | completed =>
          have hdone : runner.Completes env.spur env.settings
              (runner.trail env.spur env.settings n).2 := ⟨n, Prod.ext hq rfl⟩
          have hclean := not_spoiled_of_done hfresh hstored hfollows hdone
          exact ⟨hstatus, hcopy, rfl, hclean, _, hdone, hfollows.kept hclean⟩
  | raised e =>
      rw [hq] at hpast
      exact ⟨hstatus, hcopy, .inr hpast⟩
  | _ => exact ⟨hstatus, hcopy, hspec, by simp, by simp, n, hq, hseq, hfollows⟩

/-! ### One step -/

/-- Clients do not touch what the run depends on. -/
theorem Rerun.edited {cancels : Prop} {worker : Option (WorkerPoint μ)}
    (h : Rerun env runner spoiled row events worker) (hedit : ClientEdit cancels row row') :
    Rerun env runner spoiled row' events worker := by
  obtain ⟨hsub, hfresh, hstored, hpoint⟩ := h
  have hstatus : row'.status = row.status := by rw [hedit.same]
  have hspec : row'.specSnapshot = row.specSnapshot := by rw [hedit.same]
  refine ⟨hsub.edited hedit, hfresh, hstored, ?_⟩
  cases worker with
  | none => exact hstatus ▸ hpoint
  | some p =>
      cases p with
      | loading => exact ⟨hstatus ▸ hpoint.1, hpoint.2⟩
      | loadingProject => exact hpoint
      | marking copy spec =>
          exact ⟨hstatus ▸ hpoint.1, hpoint.2.1, hpoint.2.2.1.edited hedit,
            hspec.trans hpoint.2.2.2⟩
      | running w q =>
          obtain ⟨hrow, hcopy, hw, hrest⟩ := hpoint
          exact ⟨hstatus ▸ hrow, hcopy.edited hedit, hspec.trans hw, hrest⟩
      | handling w e => exact ⟨hstatus ▸ hpoint.1, hpoint.2.1.edited hedit, hpoint.2.2⟩
      | finishing w outcome => exact ⟨hstatus ▸ hpoint.1, hpoint.2.1.edited hedit, hpoint.2.2⟩
      | returned => simpa only [WorkerPoint.Reruns, hstatus] using hpoint
      | raised e => exact ⟨hstatus ▸ hpoint.1, hpoint.2⟩

theorem zero_mem_seq {es : List SimEvent} (h : es ≠ []) :
    0 ∈ (eventRows 0 es).map RunEventRow.seq := by
  cases es with
  | nil => exact absurd rfl h
  | cons e es => simp [eventRows]

/-- Events that are there take the numbers of the first chunk. -/
private theorem not_onChunk_of_taken {io : Io} {w w' : WorkerSession} {t : Int}
    {es stored : List SimEvent} {db' : RunSlice} (hevents : eventRows 0 stored ≠ [])
    (hseq : w.seq = 0) (hes : es ≠ []) :
    onChunk io ⟨some row, eventRows 0 stored⟩ w t es ≠ .ok (w', db') := by
  intro h
  have hnodup := nodup_of_onChunk h hes
  rw [hseq, List.map_append, List.nodup_append] at hnodup
  have hstored : stored ≠ [] := by
    rintro rfl
    exact hevents rfl
  exact hnodup.2.2 0 (zero_mem_seq hstored) 0 (zero_mem_seq hes) rfl

/-- On an empty run the numbers of the next chunk are free. -/
private theorem nodup_of_kept {es es' : List SimEvent} :
    ((eventRows 0 es ++ eventRows es.length es').map RunEventRow.seq).Nodup := by
  have hseq : (eventRows 0 es).map RunEventRow.seq = List.range es.length := by
    rw [eventRows_seq]
    simp
  rw [seq_append hseq]
  exact List.nodup_range

/-- A chunk that is committed.  In a run that is spoiled it has no events: those it would have
take numbers that are stored. -/
private theorem Rerun.flushed (hmodel : runner.ModelReturns env.spur env.settings) {io : Io}
    {w w' : WorkerSession} {l : Loop μ} {place : Flush} {db' : RunSlice}
    (h : Rerun env runner spoiled row events (some (.running w (.flushing l place))))
    (hchunk : onChunk io ⟨some row, events⟩ w (env.spur.now l.model) l.eventsBatch = .ok (w', db'))
    (hrow' : db'.row = some row') :
    Rerun env runner spoiled row' db'.events
      (some (w'.settle ((RunPoint.flushing l place).flushed env.spur))) := by
  obtain ⟨hsub, hfresh, hstored, hpoint⟩ := h
  obtain ⟨hstatus, hcopy, hspec, -, -, n, hn, hseq, hfollows⟩ := hpoint
  have hnext := SpurRunner.trail_succ hn
  have hbatch : spoiled → l.eventsBatch = [] := by
    intro hspoiled
    by_contra hne
    obtain ⟨m, rfl⟩ := hstored
    rw [hfollows.lost hspoiled] at hseq
    exact not_onChunk_of_taken (hfresh hspoiled) hseq hne hchunk
  obtain ⟨rfl, rfl⟩ := onChunk_ok hcopy.same hchunk
  rw [Option.some.injEq] at hrow'
  subst hrow'
  have hfollows' : Follows env runner spoiled (events ++ eventRows w.seq l.eventsBatch)
      (n + 1) := by
    rw [hseq]
    refine ⟨fun hspoiled => ?_, fun hclean => ?_⟩
    · rw [hnext, hfollows.lost hspoiled]
      exact hbatch hspoiled
    · rw [hnext, eventRows_append, ← hfollows.kept hclean, Nat.zero_add]
      rfl
  have hfresh' : spoiled → events ++ eventRows w.seq l.eventsBatch ≠ [] :=
    fun hspoiled => List.append_ne_nil_of_left_ne_nil (hfresh hspoiled) _
  have hstored' : ∃ n, events ++ eventRows w.seq l.eventsBatch =
      eventRows 0 (runner.trail env.spur env.settings n).2 := by
    by_cases hspoiled : spoiled
    · simpa only [hbatch hspoiled, eventRows, List.append_nil] using hstored
    · exact ⟨n + 1, hfollows'.kept hspoiled⟩
  refine ⟨⟨hsub.spec, hsub.target, hsub.seed⟩, hfresh', hstored', ?_⟩
  have hstatus' : (markProgress (env.spur.now l.model) row).status ≠ .completed := hstatus
  have hseq' : w.seq + l.eventsBatch.length =
      (runner.trail env.spur env.settings (n + 1)).2.length := by
    rw [hnext, List.length_append, ← hseq]
    rfl
  have hpoint' := settle_reruns (w := { w with
    row := markProgress (env.spur.now l.model) w.row
    seq := w.seq + l.eventsBatch.length }) hmodel hstatus' (hcopy.markProgress _) hspec
    hfresh' hstored' hseq' hfollows'
  rw [hnext] at hpoint'
  exact hpoint'

/-- **One step of the worker of a run that may have been delivered before.** -/
theorem Rerun.step (hdet : env.spur.Deterministic) {spec : Json.Object}
    (hmodel : (row.runner spec).ModelReturns env.spur env.settings)
    {project : Option ProjectRow} {io : Io} {p p' : WorkerPoint μ}
    {db' : RunSlice} (hfault : io.fault = none) (hcancel : row.cancelRequested = false)
    (hspec : row.specSnapshot = some spec)
    (h : Rerun env (row.runner spec) spoiled row events (some p))
    (hmove : WorkerMove env project io ⟨some row, events⟩ p p' db') (hrow' : db'.row = some row') :
    Rerun env (row.runner spec) spoiled row' db'.events (some p') := by
  obtain ⟨hsub, hfresh, hstored, hpoint⟩ := h
  have hquiet : ∀ loaded assigned e,
      commitRun io loaded assigned [] ⟨some row, events⟩ ≠ .error e := by
    intro loaded assigned e
    rw [commitRun_succeeds hfault (.inl rfl)]
    simp
  cases hmove with
  | loadRaised h => simp [hfault] at h
  | @loaded row₁ spec₁ hrow hspec₁ =>
      rw [Option.some.injEq] at hrow hrow'
      subst hrow hrow'
      exact ⟨hsub, hfresh, hstored, hpoint.1, hpoint.2, .refl row, hspec₁⟩
  | loadedBare hrow hspec₁ =>
      rw [Option.some.injEq] at hrow
      rw [← hrow, hspec] at hspec₁
      simp at hspec₁
  | projectRaised | projectLoaded => exact hpoint.elim
  | markRaised h | finishRaised h => exact absurd h (hquiet _ _ _)
  | @marked copy spec₁ _ hcommit =>
      obtain ⟨-, hclean, hcopy, hspec₁⟩ := hpoint
      rw [commitRun_ok hcommit, flush_markRunning hcopy.same] at hrow' ⊢
      rw [Option.some.injEq] at hrow'
      subst hrow'
      rw [List.append_nil]
      refine ⟨⟨hsub.spec, hsub.target, hsub.seed⟩, hfresh, hstored, ?_⟩
      refine ⟨by simp [markRunning], hcopy.markRunning _, hspec₁, by simp, by simp, 0, rfl, rfl, ?_⟩
      exact ⟨fun _ => rfl, hclean⟩
  | askRaised h => simp [isCancelled, hfault] at h
  | @asked w l stored _ hrow =>
      rw [Option.some.injEq] at hrow hrow'
      subst hrow hrow'
      obtain ⟨hstatus, hcopy, hspec₁, -, -, n, hn, hseq, hfollows⟩ := hpoint
      have hnext := SpurRunner.trail_succ hn
      simp only [SpurRunner.next, RunPoint.answered, RunPoint.handed, List.append_nil,
        Bool.false_eq_true, if_false] at hnext
      refine ⟨hsub, hfresh, hstored, ?_⟩
      simp only [hcancel, Bool.false_eq_true, if_false]
      refine ⟨hstatus, ⟨?_, by simp⟩, hspec₁, by simp, by simp, n + 1, ?_, ?_, ?_, ?_⟩
      · have hsame := hcopy.same
        rw [SameButClient] at hsame ⊢
        rw [hsame]
      · rw [hnext]
      · rw [hnext]
        exact hseq
      · rw [hnext]
        exact hfollows.lost
      · rw [hnext]
        exact hfollows.kept
  | @flushRaised w l place e h =>
      obtain ⟨hstatus, hcopy, -, -, -, n, hn, hseq, hfollows⟩ := hpoint
      rw [Option.some.injEq] at hrow'
      subst hrow'
      refine ⟨hsub, hfresh, hstored, hstatus, hcopy, .inl ?_⟩
      by_contra hclean
      have hnodup : ((events ++ eventRows w.seq l.eventsBatch).map RunEventRow.seq).Nodup := by
        rw [hfollows.kept hclean, hseq]
        exact nodup_of_kept
      simp [onChunk, commitRun_succeeds hfault (.inr hnodup)] at h
  | flushed hchunk => exact flushed hmodel ⟨hsub, hfresh, hstored, hpoint⟩ hchunk hrow'
  | @advanced w q hask hflush =>
      obtain ⟨hstatus, hcopy, hspec₁, -, -, n, hn, hseq, hfollows⟩ := hpoint
      rw [Option.some.injEq] at hrow'
      subst hrow'
      have hrunner : w.runner = row.runner spec := by
        rw [hspec, Option.some.injEq] at hspec₁
        rw [hspec₁]
        exact (SimulationRunRow.runner_congr hcopy.same.submission w.spec).symm
      have hseed : (row.runner spec).seed.isSome := hsub.seed
      rw [hrunner, SpurRunner.advance_entropy hdet hseed io.entropy 0,
        ← SpurRunner.next_eq_advance hask hflush]
      have hnext := SpurRunner.trail_succ hn
      have hhanded : q.handed = [] := by
        cases q with
        | flushing l place => exact absurd rfl (hflush l place)
        | _ => rfl
      rw [hhanded, List.append_nil] at hnext
      refine ⟨hsub, hfresh, hstored, ?_⟩
      have hpoint' := settle_reruns (n := n + 1) hmodel hstatus hcopy hspec₁ hfresh hstored
        (by rw [hnext]; exact hseq) ⟨by rw [hnext]; exact hfollows.lost,
          by rw [hnext]; exact hfollows.kept⟩
      rw [hnext] at hpoint'
      exact hpoint'
  | handlerLost | handlerRaised =>
      rw [Option.some.injEq] at hrow'
      subst hrow'
      exact ⟨hsub, hfresh, hstored, hpoint.1, hpoint.2.2⟩
  | handled _ hcommit =>
      obtain ⟨-, hcopy, hhopeless⟩ := hpoint
      rw [commitRun_ok hcommit, flush_markFailed hcopy.same] at hrow' ⊢
      rw [Option.some.injEq] at hrow'
      subst hrow'
      rw [List.append_nil]
      exact ⟨⟨hsub.spec, hsub.target, hsub.seed⟩, hfresh, hstored,
        .inr ⟨by simp [markFailed], hhopeless⟩⟩
  | finished hcommit =>
      obtain ⟨-, hcopy, rfl, hclean, hdone⟩ := hpoint
      rw [commitRun_ok hcommit, flush_markFinished hcopy.same] at hrow' ⊢
      rw [Option.some.injEq] at hrow'
      subst hrow'
      rw [List.append_nil]
      exact ⟨⟨hsub.spec, hsub.target, hsub.seed⟩, hfresh, hstored, .inl ⟨rfl, hclean, hdone⟩⟩

/-- Cutting an invocation short leaves a run that can be delivered again. -/
theorem Rerun.cut {p : WorkerPoint μ} (h : Rerun env runner spoiled row events (some p)) :
    Rerun env runner (spoiled ∨ events ≠ []) row events none := by
  obtain ⟨hsub, hfresh, hstored, hpoint⟩ := h
  refine ⟨hsub, fun hspoiled => hspoiled.elim hfresh id, hstored, hpoint.done, fun hclean => ?_⟩
  · by_contra hevents
    exact hclean (.inr hevents)

/-! ### What the points say -/

theorem SimulationRunRow.runner_untilTime {target : Int} (htarget : row.untilTarget = some target)
    (spec : Json.Object) : (row.runner spec).untilTime = some target := by
  simp [runner, WorkerSession.runner, htarget]

/-- The clock of an invocation is where it should be. -/
theorem WorkerPoint.Reruns.timely (hclock : env.spur.ClockLaw) {p : WorkerPoint μ}
    {spec : Json.Object} {target : Int} (htarget : row.untilTarget = some target)
    (hsize : ∀ c, row.chunkSize = some c → 0 ≤ c) (hcancel : row.cancelRequested = false)
    (h : p.Reruns env (row.runner spec) spoiled row events) : p.Timely env.spur target := by
  cases p with
  | running w q =>
      obtain ⟨-, hcopy, -, hfinished, hraised, n, hn, -⟩ := h
      have hflag : w.row.cancelRequested = false := by
        rw [← Bool.not_eq_true]
        intro hset
        simp [hcopy.flag hset] at hcancel
      have hclocked : (∃ outcome,
          ((row.runner spec).trail env.spur env.settings n).1 = .finished outcome) ∨
            ((row.runner spec).trail env.spur env.settings n).1.Clocked env.spur target false :=
        SpurRunner.trail_clocked hclock
          (SpurRunner.untilTarget_some (SimulationRunRow.runner_untilTime htarget spec)) n
      have hchunked : ((row.runner spec).trail env.spur env.settings n).1.Chunked :=
        SpurRunner.trail_chunked hsize n
      rw [hn] at hclocked hchunked
      refine ⟨?_, hchunked, hraised⟩
      rw [hflag]
      exact hclocked.resolve_left fun ⟨outcome, houtcome⟩ => hfinished outcome houtcome
  | _ => trivial

/-- An invocation that is over has made the run what an uninterrupted one would be, or never could
have. -/
theorem Rerun.ended (hmodel : runner.ModelReturns env.spur env.settings) {p : WorkerPoint μ}
    (h : Rerun env runner spoiled row events (some p)) (hended : p.ended = true) :
    row.status = .completed ∧ Done env runner events ↔
      ¬ spoiled ∧ runner.Chunks env.settings := by
  have hchunks : Done env runner events → runner.Chunks env.settings := by
    rintro ⟨es, ⟨n, hn⟩, -⟩
    have hpast : (runner.trail env.spur env.settings n).1.Past (runner.Chunks env.settings) :=
      SpurRunner.trail_past hmodel n
    rwa [hn] at hpast
  have hpoint : (row.status = .completed ∧ ¬ spoiled ∧ Done env runner events) ∨
      (row.status ≠ .completed ∧ Hopeless env runner spoiled) := by
    cases p with
    | returned => exact h.point
    | raised e => exact .inr h.point
    | _ => simp [WorkerPoint.ended] at hended
  rcases hpoint with ⟨hstatus, hclean, hdone⟩ | ⟨hstatus, hhopeless⟩
  · exact ⟨fun _ => ⟨hclean, hchunks hdone⟩, fun _ => ⟨hstatus, hdone⟩⟩
  · refine ⟨fun hdone => absurd hdone.1 hstatus, fun hcan => ?_⟩
    exact absurd hhopeless (not_or.mpr ⟨hcan.1, not_not.mpr hcan.2⟩)

end

end SpurApi
