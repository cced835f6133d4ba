/-
Two runs of one spec, seed and target.

Whatever the chunks are, the calls of `model.run` cut one simulation: by `SplitLaw` the
calls up to a checkpoint emit what one call to that checkpoint emits.  So a run that
completes has the events of `Spur.reference`, which has no chunks in it, and reads
nothing but the columns its submission fixed.  Two such runs have the same events, and
whoever analyses them finds the same.
-/
import SpurApi.Proofs.Executions
import SpurApi.Proofs.PersistedEvents
import SpurApi.Proofs.OutOfDate

namespace SpurApi

open Transition

/-! ### One simulation without chunks -/

section

variable {μ : Type}

/-- The events from a model that was built, with one call of `run` to the target. -/
def Spur.wholeRun (spur : Spur μ) (target : Int) (model : μ) : List SimEvent :=
  match (spur.start model).result with
  | .error _ => (spur.start model).emitted
  | .ok model' =>
      if 0 < target then
        match (spur.run model' target).result with
        | .error _ => (spur.start model).emitted ++ (spur.run model' target).emitted
        | .ok model'' =>
            (spur.start model).emitted ++ (spur.run model' target).emitted ++
              (spur.logCurrentState model'').emitted
      else (spur.start model).emitted ++ (spur.logCurrentState model').emitted

/-- The events of a simulation of a spec with a seed. -/
def Spur.reference (spur : Spur μ) (spec : Json.Object) (seed : Option Int) (target : Int) :
    List SimEvent :=
  match spur.fromProjectDictionary 0 spec seed with
  | .error _ => []
  | .ok model => spur.wholeRun target model

/-- The model was built, started and run to where its clock stands in one call, and this is what
it emitted. -/
def Spur.Reaches (spur : Spur μ) (spec : Json.Object) (seed : Option Int)
    (emitted : List SimEvent) (model : μ) : Prop :=
  ∃ built started, spur.fromProjectDictionary 0 spec seed = .ok built ∧
    (spur.start built).result = .ok started ∧
      ((model = started ∧ emitted = (spur.start built).emitted) ∨
        (0 < spur.now model ∧ (spur.run started (spur.now model)).result = .ok model ∧
          emitted = (spur.start built).emitted ++ (spur.run started (spur.now model)).emitted))

variable {spur : Spur μ} {spec : Json.Object} {seed : Option Int} {emitted : List SimEvent}

theorem Spur.Reaches.now (hclock : spur.ClockLaw) {model : μ}
    (h : spur.Reaches spec seed emitted model) : 0 ≤ spur.now model := by
  obtain ⟨built, started, hbuild, hstart, ⟨rfl, -⟩ | ⟨hpos, -⟩⟩ := h
  · exact Int.le_of_eq ((hclock.start hstart).trans (hclock.build hbuild)).symm
  · exact Int.le_of_lt hpos

/-- One more call of `run` is a longer call of `run`. -/
theorem Spur.Reaches.run (hclock : spur.ClockLaw) (hsplit : spur.SplitLaw) {model model' : μ}
    {checkpoint : Int} (h : spur.Reaches spec seed emitted model)
    (hlt : spur.now model < checkpoint) (hrun : (spur.run model checkpoint).result = .ok model') :
    spur.Reaches spec seed (emitted ++ (spur.run model checkpoint).emitted) model' := by
  have hpos : 0 < checkpoint := Int.lt_of_le_of_lt (h.now hclock) hlt
  have hnow : spur.now model' = checkpoint := hclock.run hrun
  obtain ⟨built, started, hbuild, hstart, ⟨rfl, rfl⟩ | ⟨hpos', hrun', rfl⟩⟩ := h
  · exact ⟨built, model, hbuild, hstart, .inr ⟨hnow ▸ hpos, hnow ▸ hrun, by rw [hnow]⟩⟩
  · have hstarted : spur.now started = 0 := (hclock.start hstart).trans (hclock.build hbuild)
    have hcall := hsplit (hstarted ▸ hpos') hlt hrun'
    refine ⟨built, started, hbuild, hstart, .inr ⟨hnow ▸ hpos, ?_, ?_⟩⟩
    · rw [hnow, hcall]
      exact hrun
    · rw [hnow, hcall, List.append_assoc]

/-- At the target the log completes the simulation. -/
theorem Spur.Reaches.log (hclock : spur.ClockLaw) {model : μ} {target : Int}
    (h : spur.Reaches spec seed emitted model) (hnow : spur.now model = max 0 target) :
    emitted ++ (spur.logCurrentState model).emitted = spur.reference spec seed target := by
  obtain ⟨built, started, hbuild, hstart, ⟨rfl, rfl⟩ | ⟨hpos, hrun, rfl⟩⟩ := h
  · have hzero : spur.now model = 0 := (hclock.start hstart).trans (hclock.build hbuild)
    have hnot : ¬ 0 < target := by omega
    simp only [Spur.reference, Spur.wholeRun, hbuild, hstart, hnot, if_false]
  · have htarget : spur.now model = target := by omega
    rw [htarget] at hpos hrun ⊢
    simp only [Spur.reference, Spur.wholeRun, hbuild, hstart, hpos, hrun, if_true]

/-! ### The runner -/

/-- What was emitted, at each point of the runner. -/
def RunPoint.Replays (spur : Spur μ) (spec : Json.Object) (seed : Option Int) (target : Int)
    (emitted : List SimEvent) : RunPoint μ → Prop
  | .building => emitted = []
  | .starting model => spur.fromProjectDictionary 0 spec seed = .ok model ∧ emitted = []
  | .asking l | .advancing l | .flushing l .chunk | .flushing l .cancelled | .logging l =>
      spur.Reaches spec seed emitted l.model
  | .flushing _ .final | .finished .completed => emitted = spur.reference spec seed target
  | .finished .cancelled | .raised _ => True

theorem Loop.head_replays {target : Int} {l : Loop μ}
    (h : spur.Reaches spec seed emitted l.model) :
    (l.head spur).Replays spur spec seed target emitted := by
  rw [Loop.head]
  split <;> exact h

/-- The runner's calls of the model cut one simulation. -/
theorem RunPoint.Replays.advance (hclock : spur.ClockLaw) (hsplit : spur.SplitLaw)
    {runner : SpurRunner} {settings : Settings} {entropy : Nat} {target : Int} {flag : Bool}
    (hspec : runner.projectDict = spec) (hseed : runner.seed = seed)
    (hdet : spur.fromProjectDictionary entropy spec seed = spur.fromProjectDictionary 0 spec seed)
    {p : RunPoint μ} (hclocked : p.Clocked spur target flag) (hchunked : p.Chunked)
    (h : p.Replays spur spec seed target emitted) :
    (runner.advance spur settings entropy p).Replays spur spec seed target
      (emitted ++ p.emits spur) := by
  subst hspec hseed
  cases p with
  | building =>
      rw [SpurRunner.advance]
      cases hbuild : runner.buildModel spur entropy with
      | error e => trivial
      | ok model =>
          have hmodel := SpurRunner.buildModel_eq_ok hbuild
          rw [hdet] at hmodel
          exact ⟨hmodel, (List.append_nil _).trans h⟩
  | starting model =>
      obtain ⟨hbuild, rfl⟩ := h
      rw [SpurRunner.advance]
      cases hstart : (spur.start model).result with
      | error e => trivial
      | ok model' =>
          dsimp only
          split
          · trivial
          · split
            · trivial
            · exact Loop.head_replays ⟨model, model', hbuild, hstart, .inl ⟨rfl, rfl⟩⟩
  | advancing l =>
      obtain ⟨rfl, -, hlt⟩ := hclocked
      have hreach : spur.Reaches runner.projectDict runner.seed emitted l.model := h
      have hchunk : 1 ≤ l.chunk := hchunked
      rw [SpurRunner.advance]
      cases hrun : (spur.run l.model (l.nextCheckpoint spur)).result with
      | error e => trivial
      | ok model' =>
          refine hreach.run hclock hsplit ?_ hrun
          rw [Loop.nextCheckpoint]
          omega
  | logging l =>
      rw [SpurRunner.advance]
      cases hlog : (spur.logCurrentState l.model).result with
      | error e => trivial
      | ok model' => exact Spur.Reaches.log hclock h hclocked.2
  | _ => simpa [SpurRunner.advance, RunPoint.emits] using h

/-- A flush emits nothing. -/
theorem RunPoint.Replays.flushed {target : Int} {l : Loop μ} {place : Flush}
    (h : (RunPoint.flushing l place).Replays spur spec seed target emitted) :
    ((RunPoint.flushing l place).flushed spur).Replays spur spec seed target emitted := by
  cases place with
  | chunk => exact Loop.head_replays h
  | cancelled => trivial
  | final => exact h

/-! ### The worker -/

/-- What a run has emitted, by the columns that its submission fixed. -/
def Replayed (spur : Spur μ) (emitted : List SimEvent) (row : SimulationRunRow)
    (worker : Option (WorkerPoint μ)) : Prop :=
  ∀ spec target, row.specSnapshot = some spec → row.untilTarget = some target →
    (∀ c, row.chunkSize = some c → 0 ≤ c) →
      match worker with
      | some (.running _ p) => p.Replays spur spec row.seed target emitted
      | some (.finishing _ .completed) => emitted = spur.reference spec row.seed target
      | some .returned => row.status = .completed → emitted = spur.reference spec row.seed target
      | _ => True

theorem settle_replayed {w : WorkerSession} {p : RunPoint μ} {row : SimulationRunRow}
    (h : ∀ spec target, row.specSnapshot = some spec → row.untilTarget = some target →
      (∀ c, row.chunkSize = some c → 0 ≤ c) → p.Replays spur spec row.seed target emitted) :
    Replayed spur emitted row (some (w.settle p)) := by
  intro spec target hspec htarget hsize
  have hp := h spec target hspec htarget hsize
  cases p with
  | finished outcome => cases outcome with
    | completed => exact hp
    | cancelled => trivial
  | raised e => trivial
  | _ => exact hp

/-- Clients do not touch what the run replays from. -/
theorem Replayed.edited {cancels : Prop} {row row' : SimulationRunRow}
    {worker : Option (WorkerPoint μ)} (h : Replayed spur emitted row worker)
    (hedit : ClientEdit cancels row row') : Replayed spur emitted row' worker := by
  have hsame := hedit.same
  rw [SameButClient] at hsame
  rw [Replayed, hsame]
  exact h

variable {env : Env μ}

/-- One step of the worker. -/
theorem Replayed.step (hclock : env.spur.ClockLaw) (hsplit : env.spur.SplitLaw)
    (hdet : env.spur.Deterministic) {project : Option ProjectRow} {io : Io}
    {p p' : WorkerPoint μ} {pr : Progress} {row row' : SimulationRunRow}
    {events : List RunEventRow} {db' : RunSlice} (hseed : row.seed.isSome)
    (hok : p.Ok env.spur row events)
    (hbatch : p.Batched pr) (hworking : Working row (some p))
    (h : Replayed env.spur pr.emitted row (some p))
    (hmove : WorkerMove env project io ⟨some row, events⟩ p p' db')
    (hrow' : db'.row = some row') :
    Replayed env.spur (pr.next env.spur p p').emitted row' (some p') := by
  cases hmove with
  | marked hcommit =>
      rw [show pr = .start from hbatch]
      exact fun _ _ _ _ _ => rfl
  | @asked w l stored hfault hrow =>
      rw [Option.some.injEq] at hrow hrow'
      subst hrow hrow'
      have hnext : (pr.next env.spur (.running w (.asking l)) (.running
          { w with row := { w.row with cancelRequested := row.cancelRequested } }
          (if row.cancelRequested then .flushing l .cancelled else .advancing l))).emitted =
            pr.emitted := List.append_nil _
      rw [hnext]
      intro spec target hspec htarget hsize
      have hreplays := h spec target hspec htarget hsize
      dsimp only
      split <;> exact hreplays
  | @flushed w w' l place _ hchunk =>
      obtain ⟨-, hcopy, -⟩ := hok
      obtain ⟨-, rfl⟩ := onChunk_ok hcopy.same hchunk
      rw [Option.some.injEq] at hrow'
      subst hrow'
      rw [Progress.next, flushes_settle]
      exact settle_replayed fun spec target hspec htarget hsize =>
        (h spec target hspec htarget hsize).flushed
  | @advanced w q hask hflush =>
      obtain ⟨-, hcopy, hspec₀, -, -, target₀, htarget₀, hclocked⟩ := hok
      rw [Option.some.injEq] at hrow'
      subst hrow'
      rw [Progress.next, flushes_running hflush]
      refine settle_replayed fun spec target hspec htarget hsize => ?_
      rw [htarget₀, Option.some.injEq] at htarget
      rw [hspec₀, Option.some.injEq] at hspec
      subst htarget hspec
      have hsame := hcopy.same
      rw [SameButClient] at hsame
      refine RunPoint.Replays.advance hclock hsplit rfl ?_ (hdet.of_seed hseed _ _ _)
        (hclocked hclock)
        (hworking.2 hsize) (h _ _ hspec₀ htarget₀ hsize)
      rw [hsame]
      rfl
  | finished hcommit =>
      rename_i w outcome
      rw [commitRun_ok hcommit, flush_markFinished hok.2.1.same, Option.some.injEq] at hrow'
      subst hrow'
      intro spec target hspec htarget hsize hstatus
      cases outcome with
      | completed => exact h spec target hspec htarget hsize
      | cancelled => simp [markFinished, Outcome.status] at hstatus
  | handled _ hcommit =>
      rw [commitRun_ok hcommit, flush_markFailed hok.2.same, Option.some.injEq] at hrow'
      subst hrow'
      intro spec target hspec htarget hsize hstatus
      simp [markFailed] at hstatus
  | _ => exact fun _ _ _ _ _ => trivial

/-- **A run replays its spec, seed and target**, in every state that is reached. -/
theorem replayed_of_exec (hclock : env.spur.ClockLaw) (hsplit : env.spur.SplitLaw)
    (hdet : env.spur.Deterministic) {s₀ s : State μ} {tr : List (Entry (State μ) Action)}
    (h₀ : s₀.Initial) (h : Exec (system env) s₀ tr s) (run : Uuid) :
    ∀ row, (s.slice run).row = some row →
      Replayed env.spur (progress env run tr).emitted row (s.workers run) := by
  induction h with
  | nil =>
      intro row hrow
      exact (h₀.not_row hrow).elim
  | @snoc tr s s' a h hstep ih =>
      intro row' hrow'
      have hok := RunsOk.exec h₀ h
      have hp := persisted_of_exec h₀ h run
      rw [progress_snoc]
      cases run_change hok hstep hrow' with
      | inserted _ _ _ _ _ _ _ _ hworker' =>
          rw [hworker']
          exact fun _ _ _ _ _ => trivial
      | edited hact hrow hworker _ hedit =>
          rw [Progress.entry_other hact, hworker]
          exact (ih _ hrow).edited hedit
      | delivered _ _ hworker' =>
          rw [hworker']
          exact fun _ _ _ _ _ => trivial
      | worked ha hrow hw hw' hpok hmove =>
          subst ha
          rw [Progress.entry_work hw hw', hw']
          have hbatched := hp.batched
          have hworking := working_of_exec h₀ h _ hrow
          have hold := ih _ hrow
          rw [hw] at hbatched hworking hold
          exact hold.step hclock hsplit hdet (hok.runs run _ hrow).1.seed hpok hbatched hworking
            hmove hrow'

/-! ### Reading the results -/

variable {s₀ m s : State μ} {run run' : Uuid} {tr : List (Entry (State μ) Action)}
  {row row' : SimulationRunRow} {rows rows' : List RunEventRow}

/-- In some history a reader finds the run completed, with this row, and its query for the events
finds these while the run is still there; anything may happen before, in between and after. -/
def ReadsCompleted (env : Env μ) (run : Uuid) (row : SimulationRunRow)
    (rows : List RunEventRow) : Prop :=
  ∃ s₀ tr u tr' v, State.Initial s₀ ∧ Exec (system env) s₀ tr u ∧ Exec (system env) u tr' v ∧
    (u.slice run).row = some row ∧ row.status = .completed ∧ (v.slice run).row.isSome ∧
      rows = (v.slice run).events

/-- A completed run has the events of its spec, seed and target. -/
theorem ReadsCompleted.reference (hclock : env.spur.ClockLaw) (hsplit : env.spur.SplitLaw)
    (hdet : env.spur.Deterministic) (h : ReadsCompleted env run row rows)
    (hsize : ∀ c, row.chunkSize = some c → 0 ≤ c) : ∃ spec target,
      row.specSnapshot = some spec ∧ row.untilTarget = some target ∧ row.status = .completed ∧
        rows = eventRows 0 (env.spur.reference spec row.seed target) := by
  obtain ⟨s₀, tr, u, tr', v, h₀, hu, hv, hrow, hstatus, hsome, rfl⟩ := h
  obtain ⟨row', hrow'⟩ := Option.isSome_iff_exists.mp hsome
  have hexec := hu.append hv
  have huok := RunsOk.exec h₀ hu
  have hsub := (submission_run huok hv hrow).2 row' hrow'
  have hstatus' : row'.status = .completed :=
    ((terminal_run huok hv hrow (by rw [hstatus]; rfl)).2 row' hrow').trans hstatus
  have hreturned := returned_of_terminal (RunsOk.exec h₀ hexec) hrow'
    (by rw [hstatus']; rfl)
  have hp := persisted_of_exec h₀ hexec run
  obtain ⟨hissub, -⟩ := (RunsOk.exec h₀ hexec).runs run row' hrow'
  obtain ⟨spec, hspec⟩ := Option.isSome_iff_exists.mp hissub.spec
  obtain ⟨target, htarget⟩ := Option.isSome_iff_exists.mp hissub.target
  have hsize' : row'.chunkSize = row.chunkSize := congrArg Submission.chunkSize hsub
  have hreplayed := replayed_of_exec hclock hsplit hdet h₀ hexec run row' hrow' spec target hspec
    htarget (hsize' ▸ hsize)
  rw [hreturned] at hreplayed
  refine ⟨spec, target, ?_, ?_, hstatus, ?_⟩
  · rw [← hspec]
    exact (congrArg Submission.specSnapshot hsub).symm
  · rw [← htarget]
    exact (congrArg Submission.untilTarget hsub).symm
  · rw [(hp.stored row' hrow').1, hp.returned hreturned row' hrow' (by simp [hstatus']),
      hreplayed hstatus', show row'.seed = row.seed from congrArg Submission.seed hsub]

/-- The analysis of a completed run reads its own spec. -/
private theorem analyzeRun_completed {ρ : Type} (analyze : Analyze ρ) {spec : Json.Object}
    (hspec : row.specSnapshot = some spec) (hstatus : row.status = .completed)
    (project : Option ProjectRow) (threshold : Int) (result : RunStatus × Analysis ρ) :
    analyzeRun analyze run (some row) project rows threshold = .ok result ↔
      result.1 = .completed ∧
        analyze ((orderBySeq rows).map eventFromRow) spec threshold = .ok result.2 := by
  simp only [analyzeRun, hstatus, hspec, reduceCtorEq, if_false, Option.orElse_some]
  cases analyze ((orderBySeq rows).map eventFromRow) spec threshold with
  | error e => dsimp only; split <;> simp
  | ok analysis =>
      obtain ⟨status, found⟩ := result
      simp only [Except.ok.injEq, Prod.mk.injEq]
      exact and_congr_left' eq_comm

private theorem getRunSummary_ok {ρ : Type} {analyzed : Except ApiError (RunStatus × Analysis ρ)}
    {summary : RunSummary ρ} : getRunSummary analyzed = .ok summary ↔
      ∃ result, analyzed = .ok result ∧ getRunSummary (.ok result) = .ok summary := by
  cases analyzed with
  | error e => simp [getRunSummary]
  | ok result => simp

private theorem getRunVisits_ok {ρ : Type} {analyzed : Except ApiError (RunStatus × Analysis ρ)}
    {train component : Option String} {limit offset : Nat} {visits : List (Visit ρ)} :
    getRunVisits analyzed train component limit offset = .ok visits ↔
      ∃ result, analyzed = .ok result ∧
        getRunVisits (.ok result) train component limit offset = .ok visits := by
  cases analyzed with
  | error e => simp [getRunVisits]
  | ok result => simp

/-- What two reads of completed runs agree in. -/
structure SameResults (run run' : Uuid) (row row' : SimulationRunRow)
    (rows rows' : List RunEventRow) : Prop where
  events : rows = rows'
  summary : ∀ {ρ : Type} (analyze : Analyze ρ) project project' threshold summary,
    getRunSummary (analyzeRun analyze run (some row) project rows threshold) = .ok summary ↔
      getRunSummary (analyzeRun analyze run' (some row') project' rows' threshold) = .ok summary
  visits : ∀ {ρ : Type} (analyze : Analyze ρ) project project' train component limit offset visits,
    getRunVisits (analyzeRun analyze run (some row) project rows visitsThreshold)
        train component limit offset = .ok visits ↔
      getRunVisits (analyzeRun analyze run' (some row') project' rows' visitsThreshold)
        train component limit offset = .ok visits

/-- **Replay.**  Two completed runs of equal spec, target and seed have equal events, and equal
summaries and visits, in whatever histories. -/
theorem completed_runs_replay (hclock : env.spur.ClockLaw) (hsplit : env.spur.SplitLaw)
    (hdet : env.spur.Deterministic) (h : ReadsCompleted env run row rows)
    (h' : ReadsCompleted env run' row' rows') (hspec : row.specSnapshot = row'.specSnapshot)
    (htarget : row.untilTarget = row'.untilTarget) (hseed : row.seed = row'.seed)
    (hsize : ∀ c, row.chunkSize = some c → 0 ≤ c)
    (hsize' : ∀ c, row'.chunkSize = some c → 0 ≤ c) :
    SameResults run run' row row' rows rows' := by
  obtain ⟨spec, target, hspec₁, htarget₁, hstatus, hrows⟩ := h.reference hclock hsplit hdet hsize
  obtain ⟨spec', target', hspec₂, htarget₂, hstatus', hrows'⟩ :=
    h'.reference hclock hsplit hdet hsize'
  have heq : spec = spec' := by
    rw [hspec₁, hspec₂, Option.some.injEq] at hspec
    exact hspec
  have heq' : target = target' := by
    rw [htarget₁, htarget₂, Option.some.injEq] at htarget
    exact htarget
  subst heq heq'
  have hevents : rows = rows' := by rw [hrows, hrows', hseed]
  subst hevents
  refine ⟨rfl, fun analyze project project' threshold summary => ?_,
    fun analyze project project' train component limit offset visits => ?_⟩
  · rw [getRunSummary_ok, getRunSummary_ok]
    simp only [analyzeRun_completed analyze hspec₁ hstatus,
      analyzeRun_completed analyze hspec₂ hstatus']
  · rw [getRunVisits_ok, getRunVisits_ok]
    simp only [analyzeRun_completed analyze hspec₁ hstatus,
      analyzeRun_completed analyze hspec₂ hstatus']

end

/-- The same run in one chunk, of a project that is edited before a worker takes the job. -/
def editedRun : List (Entry (State Int) Action) × State Int :=
  (system clockEnv).played State.empty
    (submitOne (.single (some 2) (some 2)) ++
      [.arrive 2 (.updateProject 1 none (.blank "B") .received), .request 2 {}, .request 2 {},
        .request 2 {}] ++ executeOne 10) (by decide)

/-- It has the results of `shortRun`. -/
theorem edited_run_replays : ∃ row row',
    (shortRun.2.slice 3).row = some row ∧ (editedRun.2.slice 3).row = some row' ∧
      row.chunkSize = some 1 ∧ row'.chunkSize = some 2 ∧
        SameResults 3 3 row row' (shortRun.2.slice 3).events (editedRun.2.slice 3).events := by
  obtain ⟨row, hrow, hchunk, hstatus, hspec, htarget, hseed⟩ : ∃ row,
      (shortRun.2.slice 3).row = some row ∧ row.chunkSize = some 1 ∧ row.status = .completed ∧
        row.specSnapshot = some (ProjectSpec.blank "A").dump ∧ row.untilTarget = some 2 ∧
          row.seed = some 7 := ⟨_, rfl, rfl, rfl, rfl, rfl, rfl⟩
  obtain ⟨row', hrow', hchunk', hstatus', hspec', htarget', hseed'⟩ : ∃ row,
      (editedRun.2.slice 3).row = some row ∧ row.chunkSize = some 2 ∧ row.status = .completed ∧
        row.specSnapshot = some (ProjectSpec.blank "A").dump ∧ row.untilTarget = some 2 ∧
          row.seed = some 7 := ⟨_, rfl, rfl, rfl, rfl, rfl, rfl⟩
  have hread : ReadsCompleted clockEnv 3 row (shortRun.2.slice 3).events :=
    ⟨_, _, _, _, _, State.empty_initial, Machine.played_exec _, Exec.nil, hrow, hstatus, rfl, rfl⟩
  have hread' : ReadsCompleted clockEnv 3 row' (editedRun.2.slice 3).events :=
    ⟨_, _, _, _, _, State.empty_initial, Machine.played_exec _, Exec.nil, hrow', hstatus', rfl, rfl⟩
  refine ⟨row, row', hrow, hrow', hchunk, hchunk', ?_⟩
  exact completed_runs_replay Spur.clock_clockLaw Spur.clock_splitLaw Spur.clock_deterministic
    hread hread' (hspec.trans hspec'.symm) (htarget.trans htarget'.symm) (hseed.trans hseed'.symm)
    (by simp [hchunk]) (by simp [hchunk'])

end SpurApi
