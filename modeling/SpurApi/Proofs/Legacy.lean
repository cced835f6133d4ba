/-
Runs whose rows are older than two of their columns.

An invocation of a row from before the migrations does what one of the full row does, as
long as nobody edits the project.  Every step commutes with forgetting the columns, and
the one step it takes more reads the project that the snapshot was made of, so each of
the two has a history for each history of the other, with the same turns.
-/
import SpurApi.Proofs.NullColumns
import SpurApi.Proofs.Origins
import SpurApi.Proofs.OutOfDate

namespace SpurApi

open Transition

section

variable {μ : Type} {env : Env μ} {project : Option ProjectRow} {io : Io} {db : RunSlice}
  {k : NullColumns} {spec : Json.Object} {target : Int} {sub : Submission}

/-! ### Histories -/

/-- How far the two invocations are: level, or the one without the columns has to read the project
yet. -/
inductive Lags (k : NullColumns) (spec : Json.Object) : Invocation μ → Invocation μ → Prop
  | level (i : Invocation μ) : Lags k spec i (i.without k)
  | behind (row : SimulationRunRow) (db : RunSlice) :
      Lags k spec ⟨.marking row spec, db⟩ ⟨.loadingProject (row.without k), db.without k⟩

/-- Both views at once. -/
def seen (e : Entry (Invocation μ) Turn) :
    Option (Turn × Option (Json.Object × Option Int × RunPoint μ)) :=
  (turnOf e).map fun turn => (turn, ranAt e)

theorem turns_eq_seen (tr : List (Entry (Invocation μ) Turn)) :
    turns tr = (shown seen tr).map Prod.fst := by
  simp only [turns, shown, List.map_filterMap]
  refine List.filterMap_congr fun e _ => ?_
  simp [seen, Function.comp_def]

/-- Where an entry does not count the runner does nothing. -/
theorem ranAt_of_turnOf {e : Entry (Invocation μ) Turn} (h : turnOf e = none) : ranAt e = none := by
  obtain ⟨⟨point, slice⟩, turn, post⟩ := e
  cases point <;> cases turn <;> first | rfl | simp [turnOf] at h

theorem ran_eq_seen (tr : List (Entry (Invocation μ) Turn)) :
    ran tr = (shown seen tr).filterMap Prod.snd := by
  simp only [ran, shown, List.filterMap_filterMap]
  refine List.filterMap_congr fun e _ => ?_
  cases h : turnOf e with
  | none => simp [seen, h, ranAt_of_turnOf h]
  | some turn => simp [seen, h]

theorem seen_without (i j j' : Invocation μ) (turn : Turn) :
    seen ⟨i.without k, turn, j'⟩ = seen ⟨i, turn, j⟩ := by
  obtain ⟨point, slice⟩ := i
  cases point <;> cases turn <;> rfl

/-- Every turn but the first step commutes with forgetting the columns. -/
theorem Invocation.step_without {i : Invocation μ} {turn : Turn}
    (hgoes : sub.GoesTo env.settings spec target) (hi : i.Carries sub spec)
    (h : i.point = .loading → ∀ io, turn ≠ .work io) :
    (i.without k).step env project turn =
      (i.step env project turn).map (Invocation.without k) := by
  cases turn with
  | work io =>
      have hloading : i.point ≠ .loading := fun hpoint => h hpoint io rfl
      have hstep : workerStep env project io (i.slice.without k) (i.point.without k) = _ :=
        workerStep_without hgoes hi.point hloading
      simp only [step, Invocation.without, hstep]
      cases workerStep env project io i.slice i.point <;> rfl
  | write name cancelRequested arqJobId =>
      obtain ⟨point, row, events⟩ := i
      cases row <;> rfl
  | delete => rfl

/-- The first step of either. -/
theorem Invocation.step_loading_without {i : Invocation μ}
    (hgoes : sub.GoesTo env.settings spec target) (hi : i.Carries sub spec)
    (h : i.point = .loading) :
    (i.without k).step env project (.work io) =
      (i.step env project (.work io)).map fun j =>
        ⟨j.point.loadedWithout k, j.slice.without k⟩ := by
  obtain ⟨point, db⟩ := i
  subst h
  have hstep : workerStep env project io (db.without k) .loading = _ :=
    workerStep_loading_without (k := k) fun row hrow => (hi.row row hrow).symm ▸ hgoes
  simp only [step, Invocation.without, WorkerPoint.without, hstep]
  cases workerStep env project io db .loading <;> rfl

/-- After its first step an invocation is about to mark the run, or over. -/
theorem loading_lags {i j : Invocation μ} (h : i.point = .loading)
    (hstep : i.step env project (.work io) = some j) (hj : j.Carries sub spec) :
    Lags k spec j ⟨j.point.loadedWithout k, j.slice.without k⟩ := by
  obtain ⟨point, db⟩ := i
  subst h
  simp only [Invocation.step] at hstep
  split at hstep
  · simp at hstep
  · rename_i point' db' hworker
    simp only [Option.some.injEq] at hstep
    subst hstep
    cases workerMove_of_step hworker with
    | loadRaised => exact .level _
    | @loaded row =>
        obtain ⟨-, rfl⟩ := hj.point
        simp only [WorkerPoint.loadedWithout]
        split
        · exact .behind row db
        · exact .level ⟨.marking row _, db⟩
    | loadedBare => exact .level _

/-! ### Each mirrors the other -/

/-- What is known of the two invocations. -/
structure Twins (k : NullColumns) (sub : Submission) (spec : Json.Object) (i i' : Invocation μ) :
    Prop where
  carries : i.Carries sub spec
  lags : Lags k spec i i'

section

variable {q : ProjectRow}

private theorem carries_step {i j : Invocation μ} {turn : Turn}
    (hgoes : sub.GoesTo env.settings q.spec target) (hi : i.Carries sub q.spec)
    (hstep : (invocation env (some q)).step i turn = some j) : j.Carries sub q.spec :=
  hi.step (fun _ ht => Option.some.inj (ht.symm.trans hgoes.snapshot))
    (fun _ hp => Option.some.inj hp ▸ rfl) hstep

/-- Level invocations take a turn together. -/
theorem twins_of_level {i : Invocation μ} (turn : Turn)
    (hgoes : sub.GoesTo env.settings q.spec target) (hi : i.Carries sub q.spec) :
    ∃ f : Invocation μ → Invocation μ,
      (invocation env (some q)).step (i.without k) turn =
          ((invocation env (some q)).step i turn).map f ∧
        ∀ j, (invocation env (some q)).step i turn = some j → Twins k sub q.spec j (f j) := by
  by_cases hfirst : i.point = .loading → ∀ io, turn ≠ .work io
  · exact ⟨_, Invocation.step_without hgoes hi hfirst, fun j hstep =>
      ⟨carries_step hgoes hi hstep, .level j⟩⟩
  · push Not at hfirst
    obtain ⟨hloading, io, rfl⟩ := hfirst
    refine ⟨_, Invocation.step_loading_without hgoes hi hloading, fun j hstep => ?_⟩
    have hj := carries_step hgoes hi hstep
    exact ⟨hj, loading_lags hloading hstep hj⟩

/-- The query finds the spec that the snapshot has. -/
private theorem query_step (io : Io) (row : SimulationRunRow) (db : RunSlice)
    (hfault : io.fault = none) :
    (invocation env (some q)).step ⟨.loadingProject (row.without k), db.without k⟩ (.work io) =
      some (Invocation.without k ⟨.marking row q.spec, db⟩) := by
  simp only [invocation, Invocation.step, workerStep, hfault]
  rfl

/-- A query that fails ends the invocation. -/
private theorem query_fails (row : SimulationRunRow) (db : RunSlice) {f : Fault}
    (hfault : io.fault = some f) :
    (invocation env (some q)).step ⟨.loadingProject (row.without k), db.without k⟩ (.work io) =
      some (Invocation.without k ⟨.raised f.exn, db⟩) := by
  simp only [invocation, Invocation.step, workerStep, hfault]
  rfl

/-- As a commit does that fails so. -/
private theorem mark_fails (row : SimulationRunRow) (db : RunSlice) {f : Fault}
    (hfault : io.fault = some f) :
    (invocation env (some q)).step ⟨.marking row spec, db⟩ (.work io) =
      some ⟨.raised f.exn, db⟩ := by
  simp only [invocation, Invocation.step, workerStep, commitRun, hfault]

/-- A client's turn is the same for an invocation that has to read the project yet. -/
private theorem twins_of_client {row : SimulationRunRow} {turn : Turn}
    (hclient : ∀ io, turn ≠ .work io) (hgoes : sub.GoesTo env.settings q.spec target)
    (hi : Invocation.Carries sub q.spec (⟨.marking row q.spec, db⟩ : Invocation μ)) :
    ∃ j j' : Invocation μ,
      (invocation env (some q)).step ⟨.marking row q.spec, db⟩ turn = some j ∧
      (invocation env (some q)).step ⟨.loadingProject (row.without k), db.without k⟩ turn =
          some j' ∧
        Twins k sub q.spec j j' ∧
          seen ⟨⟨.loadingProject (row.without k), db.without k⟩, turn, j'⟩ =
            seen ⟨⟨.marking row q.spec, db⟩, turn, j⟩ := by
  cases turn with
  | work io => exact absurd rfl (hclient io)
  | write name cancelRequested arqJobId =>
      have hstep : (invocation env (some q)).step ⟨.marking row q.spec, db⟩
          (.write name cancelRequested arqJobId) = some _ := rfl
      refine ⟨_, _, hstep, rfl, ⟨carries_step hgoes hi hstep, ?_⟩, rfl⟩
      obtain ⟨stored, events⟩ := db
      cases stored <;> exact .behind row _
  | delete =>
      have hstep : (invocation env (some q)).step ⟨.marking row q.spec, db⟩ .delete = some _ :=
        rfl
      exact ⟨_, _, hstep, rfl, ⟨carries_step hgoes hi hstep, .behind row _⟩, rfl⟩

/-- The invocation without the columns has a history for every step of the other. -/
theorem without_mirrors (hgoes : sub.GoesTo env.settings q.spec target) :
    Mirrors (invocation env (some q)) (invocation env (some q))
      (fun i' i : Invocation μ => Twins k sub q.spec i i') seen seen := by
  intro i' i turn j htwins hstep
  obtain ⟨hi, hlags⟩ := htwins
  obtain ⟨f, hf, htwins⟩ := twins_of_level (k := k) turn hgoes hi
  have hlevel : (invocation env (some q)).step (i.without k) turn = some (f j) :=
    hf.trans (Option.map_eq_some_iff.mpr ⟨j, hstep, rfl⟩)
  cases hlags with
  | level =>
      refine ⟨_, f j, Exec.single hlevel, htwins j hstep, ?_⟩
      rw [shown_single, seen_without]
  | behind row db =>
      by_cases hclient : ∀ io, turn ≠ .work io
      · obtain ⟨j₁, j', hstep₁, hstep', htwins', hseen⟩ := twins_of_client hclient hgoes hi
        obtain rfl : j₁ = j := Option.some.inj (hstep₁.symm.trans hstep)
        exact ⟨_, j', Exec.single hstep', htwins', by rw [shown_single, hseen]⟩
      · -- the query comes first, and then the two are level
        push Not at hclient
        obtain ⟨io, rfl⟩ := hclient
        refine ⟨_, f j, Exec.cons (query_step {} row db rfl) (Exec.single hlevel),
          htwins j hstep, ?_⟩
        rw [← List.singleton_append, shown_append, shown_single, shown_single, seen_without]
        rfl

/-- And the other way round. -/
theorem mirrors_without (hgoes : sub.GoesTo env.settings q.spec target) :
    Mirrors (invocation env (some q)) (invocation env (some q))
      (fun i i' : Invocation μ => Twins k sub q.spec i i') seen seen := by
  intro i i' turn j' htwins hstep'
  obtain ⟨hi, hlags⟩ := htwins
  cases hlags with
  | level =>
      obtain ⟨f, hf, htwins⟩ := twins_of_level (k := k) turn hgoes hi
      obtain ⟨j, hstep, rfl⟩ := Option.map_eq_some_iff.mp (hf.symm.trans hstep')
      refine ⟨_, j, Exec.single hstep, htwins j hstep, ?_⟩
      rw [shown_single, seen_without]
  | behind row db =>
      by_cases hclient : ∀ io, turn ≠ .work io
      · obtain ⟨j, j₁, hstep, hstep₁, htwins, hseen⟩ := twins_of_client hclient hgoes hi
        obtain rfl : j₁ = j' := Option.some.inj (hstep₁.symm.trans hstep')
        exact ⟨_, j, Exec.single hstep, htwins, by rw [shown_single, hseen]⟩
      · push Not at hclient
        obtain ⟨io, rfl⟩ := hclient
        cases hfault : io.fault with
        | none =>
            obtain rfl := Option.some.inj ((query_step io row db hfault).symm.trans hstep')
            refine ⟨[], _, Exec.nil, ⟨hi, .level _⟩, ?_⟩
            simp [seen, turnOf, hfault]
        | some f =>
            obtain rfl := Option.some.inj ((query_fails row db hfault).symm.trans hstep')
            have hstep : (invocation env (some q)).step ⟨.marking row q.spec, db⟩ (.work io) = _ :=
              mark_fails row db hfault
            refine ⟨_, _, Exec.single hstep, ⟨carries_step hgoes hi hstep, .level _⟩, ?_⟩
            rw [shown_single]
            simp [seen, turnOf, ranAt, hfault]

/-! ### The same turns -/

/-- Every turn counts for an invocation whose run has a snapshot. -/
theorem turns_of_exec {i j : Invocation μ} {tr : List (Entry (Invocation μ) Turn)}
    (hgoes : sub.GoesTo env.settings q.spec target) (h : Exec (invocation env (some q)) i tr j)
    (hi : i.Carries sub q.spec) :
    turns tr = tr.map (fun e => e.act.plain) ∧ j.Carries sub q.spec := by
  induction h with
  | nil => exact ⟨rfl, hi⟩
  | @snoc tr s s' turn _ hstep ih =>
      obtain ⟨hturns, hs⟩ := ih
      refine ⟨?_, carries_step hgoes hs hstep⟩
      have hcounts : turnOf ⟨s, turn, s'⟩ = some turn.plain := by
        obtain ⟨point, slice⟩ := s
        cases point with
        | loadingProject row => exact absurd hs.point.2 (by simp [hgoes.snapshot])
        | _ => rfl
      rw [turns, shown_append, shown_single, hcounts, List.map_append]
      exact congrArg (· ++ [turn.plain]) hturns

/-- What only a model depends on that is not deterministic is not in what the runner did. -/
theorem ran_plain (tr : List (Entry (Invocation μ) Turn)) :
    ran (tr.map (Entry.rename Turn.plain)) = ran tr := by
  rw [ran, shown, List.filterMap_map]
  refine List.filterMap_congr fun e _ => ?_
  obtain ⟨⟨point, slice⟩, turn, post⟩ := e
  cases point <;> cases turn <;> rfl

/-- Histories with the same turns of a full row and of the same row without the columns. -/
theorem twins_of_turns (hdet : env.spur.Deterministic)
    (hgoes : sub.GoesTo env.settings q.spec target) {i i' j j' : Invocation μ}
    {tr tr' : List (Entry (Invocation μ) Turn)} (htwins : Twins k sub q.spec i i')
    (h : Exec (invocation env (some q)) i tr j) (h' : Exec (invocation env (some q)) i' tr' j')
    (hturns : turns tr' = turns tr) : ran tr' = ran tr ∧ Twins k sub q.spec j j' := by
  obtain ⟨tr₁, j₁, h₁, htwins₁, hseen⟩ := Mirrors.exec (mirrors_without hgoes) htwins h'
  have hturns₁ : turns tr₁ = turns tr := by rw [turns_eq_seen, hseen, ← turns_eq_seen, hturns]
  rw [(turns_of_exec hgoes h₁ htwins.carries).1, (turns_of_exec hgoes h htwins.carries).1]
    at hturns₁
  obtain ⟨htr, rfl⟩ := h₁.determined_rename (I := fun i => i.Carries sub q.spec)
    (fun _ _ _ => carries_step hgoes)
    (fun _ turn hi => Invocation.step_plain hdet hgoes.seeded hi turn) htwins.carries h hturns₁
  refine ⟨?_, htwins₁⟩
  calc ran tr' = ran tr₁ := by rw [ran_eq_seen, ← hseen, ← ran_eq_seen]
    _ = ran (tr₁.map (Entry.rename Turn.plain)) := (ran_plain tr₁).symm
    _ = ran (tr.map (Entry.rename Turn.plain)) := by rw [htr]
    _ = ran tr := ran_plain tr

/-! ### Reading the results -/

/-- The analysis falls back on the project where the snapshot is null. -/
theorem analyzeRun_without {ρ : Type} (analyze : Analyze ρ) (id : Uuid) {d : RunSlice}
    (hrow : ∀ row, d.row = some row → row.specSnapshot = some spec) {live : Option ProjectRow}
    (hlive : live.map ProjectRow.spec = some spec) (project : Option ProjectRow) (threshold : Int) :
    analyzeRun analyze id (d.without k).row live (d.without k).events threshold =
      analyzeRun analyze id d.row project d.events threshold := by
  obtain ⟨stored, events⟩ := d
  cases stored with
  | none => rfl
  | some row =>
      have hspec := hrow row rfl
      have hused : ((row.without k).specSnapshot.orElse fun _ => live.map ProjectRow.spec) =
          row.specSnapshot.orElse fun _ => project.map ProjectRow.spec := by
        rw [hspec]
        cases hk : k.specSnapshot <;> simp [SimulationRunRow.without, hk, hspec, hlive]
      simp only [analyzeRun, RunSlice.without, Option.map_some, hused]
      rfl

end

/-! ### Rows from before the migrations -/

/-- What is the same of two invocations of a run, and of what is read of it afterwards. -/
structure SameOutcome (k : NullColumns) (run : Uuid) (spec : Json.Object)
    (tr tr' : List (Entry (Invocation μ) Turn)) (i i' : Invocation μ) : Prop where
  ran : ran tr' = ran tr
  stored : i'.slice = i.slice.without k
  ended : i'.point.ended = i.point.ended
  ending : i.point.ended = true → i'.point = i.point
  summary : ∀ {ρ : Type} (analyze : Analyze ρ) (threshold : Int) (project live : Option ProjectRow),
    live.map ProjectRow.spec = some spec →
      getRunSummary (analyzeRun analyze run i'.slice.row live i'.slice.events threshold) =
        getRunSummary (analyzeRun analyze run i.slice.row project i.slice.events threshold)
  visits : ∀ {ρ : Type} (analyze : Analyze ρ) (trainUid componentUid : Option String)
    (limit offset : Nat) (project live : Option ProjectRow),
    live.map ProjectRow.spec = some spec →
      getRunVisits (analyzeRun analyze run i'.slice.row live i'.slice.events visitsThreshold)
          trainUid componentUid limit offset =
        getRunVisits (analyzeRun analyze run i.slice.row project i.slice.events visitsThreshold)
          trainUid componentUid limit offset

theorem Twins.stored {i i' : Invocation μ} (h : Twins k sub spec i i') :
    i'.slice = i.slice.without k := by
  cases h.lags <;> rfl

theorem Twins.sameOutcome {i i' : Invocation μ} {tr tr' : List (Entry (Invocation μ) Turn)}
    (hgoes : sub.GoesTo env.settings spec target) (h : Twins k sub spec i i')
    (hran : ran tr' = ran tr) (run : Uuid) : SameOutcome k run spec tr tr' i i' := by
  have hspec : ∀ row, i.slice.row = some row → row.specSnapshot = some spec := by
    intro row hrow
    have hsame : row.specSnapshot = sub.specSnapshot :=
      congrArg Submission.specSnapshot (h.carries.row row hrow)
    rw [hsame, hgoes.snapshot]
  refine ⟨hran, h.stored, ?_, ?_, ?_, ?_⟩
  · cases h.lags with
    | level =>
        obtain ⟨point, slice⟩ := i
        cases point <;> rfl
    | behind => rfl
  · intro hended
    cases h.lags with
    | level =>
        obtain ⟨point, slice⟩ := i
        cases point <;> first | rfl | simp [WorkerPoint.ended] at hended
    | behind => simp [WorkerPoint.ended] at hended
  · intro ρ analyze threshold project live hlive
    rw [h.stored, analyzeRun_without analyze run hspec hlive project]
  · intro ρ analyze trainUid componentUid limit offset project live hlive
    rw [h.stored, analyzeRun_without analyze run hspec hlive project]

/-- What is promised of a run without the columns: the target derived at its submission, the one
the worker passes on and the one the runner works out agree, each history of an invocation is one
of the full row's and the other way round, and those with the same turns have the same outcome. -/
structure RunsWithout (env : Env μ) (k : NullColumns) (run : Uuid) (row : SimulationRunRow)
    (d : RunSlice) (project : ProjectRow) : Prop where
  target : ∃ target, row.untilTarget = some target ∧
    (∀ body : RunCreate, body.untilTime = row.requestedUntil →
      submittedTarget env.settings project body = .ok target) ∧
    (∀ t, ((row.without k).runner project.spec).untilTime = some t → t = target) ∧
    ((row.without k).runner project.spec).untilTarget env.settings = .ok target
  reached : ∀ {tr i}, Exec (invocation env (some project)) (.ofSlice d) tr i →
    ∃ tr' i', Exec (invocation env (some project)) (.ofSlice (d.without k)) tr' i' ∧
      turns tr' = turns tr
  reaches : ∀ {tr' i'}, Exec (invocation env (some project)) (.ofSlice (d.without k)) tr' i' →
    ∃ tr i, Exec (invocation env (some project)) (.ofSlice d) tr i ∧ turns tr = turns tr'
  same : ∀ {tr i tr' i'}, Exec (invocation env (some project)) (.ofSlice d) tr i →
    Exec (invocation env (some project)) (.ofSlice (d.without k)) tr' i' →
      turns tr' = turns tr → SameOutcome k run project.spec tr tr' i i'

end

section

variable {μ : Type} {env : Env μ} {s₀ s : State μ} {run : Uuid} {row : SimulationRunRow}
  {project : ProjectRow} {tr tr' : List (Entry (State μ) Action)} {target : Int}

/-- A submission stores the target that the fallbacks lead to. -/
theorem goesTo_of_row (h₀ : s₀.Initial) (h : Exec (system env) s₀ tr s)
    (hrow : (s.slice run).row = some row) :
    ∃ spec target, row.submission.GoesTo env.settings spec target := by
  obtain ⟨r, pid, body, w, sub, -, ⟨e, -, hbuilt⟩, hmem, -, -, hsub⟩ := origin_of_row h₀ h row hrow
  obtain ⟨i, id, -, rfl⟩ := Build.mem_rows_iff.mp hmem
  have htarget := hbuilt.valid.target
  rw [hsub]
  refine ⟨w.read.spec, w.target, rfl, rfl, rfl, fun t ht => ?_, fun hnone => ?_⟩
  · have huntil : body.untilTime = some t := ht
    simpa [submittedTarget, huntil] using htarget
  · have huntil : body.untilTime = none := hnone
    simpa [submittedTarget, huntil] using htarget

/-- A run whose project is at the version it was submitted at has the spec of its project. -/
theorem spec_of_version (h₀ : s₀.Initial) (h : Exec (system env) s₀ tr s)
    (hrow : (s.slice run).row = some row)
    (hproject : s.backend.db.projects row.projectId = some project)
    (hversion : row.projectVersion = some project.version) :
    row.specSnapshot = some project.spec := by
  obtain ⟨spec, v, hspec, hv, had⟩ := (snapshots h₀ h).stored run row hrow
  have hlive : HadSpec tr s row.projectId v project.spec :=
    ⟨project, Option.some.inj (hversion.symm.trans hv), rfl, .inr hproject⟩
  rw [had.unique h₀ h hlive]
  exact hspec

/-- What the worker starts from, with the columns and without. -/
private theorem twins_of_row (hrow : (s.slice run).row = some row) (k : NullColumns) :
    Twins k row.submission project.spec (.ofSlice (s.slice run) : Invocation μ)
      (.ofSlice ((s.slice run).without k)) := by
  refine ⟨⟨fun stored hstored => ?_, trivial⟩, .level _⟩
  rw [Option.some.inj (hrow.symm.trans hstored)]

/-- The target of a run whose project is as it was. -/
private theorem goesTo_of_version (h₀ : s₀.Initial) (h : Exec (system env) s₀ tr s)
    (hrow : (s.slice run).row = some row)
    (hproject : s.backend.db.projects row.projectId = some project)
    (hversion : row.projectVersion = some project.version) :
    ∃ target, row.submission.GoesTo env.settings project.spec target := by
  obtain ⟨spec, target, hgoes⟩ := goesTo_of_row h₀ h hrow
  have hsnapshot : row.specSnapshot = some spec := hgoes.snapshot
  rw [spec_of_version h₀ h hrow hproject hversion, Option.some.injEq] at hsnapshot
  exact ⟨target, hsnapshot ▸ hgoes⟩

/-- **A run whose project nobody edits goes on as before when a migration finds its row, whichever
of the two columns it leaves null.** -/
theorem old_rows_run_the_same (hdet : env.spur.Deterministic) (h₀ : s₀.Initial)
    (h : Exec (system env) s₀ tr s) (hrow : (s.slice run).row = some row)
    (hproject : s.backend.db.projects row.projectId = some project)
    (hunedited : row.projectVersion = some project.version) (k : NullColumns) :
    RunsWithout env k run row (s.slice run) project := by
  obtain ⟨target, hgoes⟩ := goesTo_of_version h₀ h hrow hproject hunedited
  have hstart : Twins k row.submission project.spec (_ : Invocation μ) _ := twins_of_row hrow k
  refine ⟨⟨target, hgoes.stored, fun body hbody => ?_, fun t ht => ?_, hgoes.untilTarget k⟩,
    fun hexec => ?_, fun hexec' => ?_, fun hexec hexec' hturns => ?_⟩
  · cases hrequested : row.requestedUntil with
    | none => simpa [submittedTarget, hbody, hrequested] using hgoes.derived hrequested
    | some t =>
        rw [hgoes.requested t hrequested] at hrequested
        simp [submittedTarget, hbody, hrequested]
  · rcases hgoes.passed k with hpassed | ⟨hpassed, -⟩
    · exact Option.some.inj (ht.symm.trans hpassed)
    · rw [hpassed] at ht
      simp at ht
  · obtain ⟨tr', i', hexec', -, hseen⟩ := Mirrors.exec (without_mirrors hgoes) hstart hexec
    exact ⟨tr', i', hexec', by rw [turns_eq_seen, hseen, turns_eq_seen]⟩
  · obtain ⟨tr, i, hexec, -, hseen⟩ := Mirrors.exec (mirrors_without hgoes) hstart hexec'
    exact ⟨tr, i, hexec, by rw [turns_eq_seen, hseen, turns_eq_seen]⟩
  · obtain ⟨hran, htwins⟩ := twins_of_turns hdet hgoes hstart hexec hexec' hturns
    exact htwins.sameOutcome hgoes hran run

/-! ### In the service -/

/-- The service with the row of this run from before the migration. -/
def State.without (k : NullColumns) (run : Uuid) (s : State μ) : State μ :=
  s.setSlice run ((s.slice run).without k)

private theorem slice_without (k : NullColumns) (s : State μ) :
    (s.without k run).slice run = (s.slice run).without k := by
  simp [State.without, State.setSlice, State.slice, Db.setRun, Db.setEvents]

private theorem idsApart_without (k : NullColumns) (h : IdsApart s)
    (hworker : s.workers run ≠ none) : IdsApart (s.without k run) := by
  refine h.of_requests_eq rfl rfl rfl (fun run' hnone => ?_) fun _ hnone _ => hnone
  have hne : run' ≠ run := fun heq => hworker (heq ▸ hnone)
  simp [State.without, State.setSlice, State.slice, Db.setRun, Db.setEvents, hne]

/-- **What the service does to the old row under its worker, an invocation of the full row can do
to that one.** -/
theorem service_mirrored (h₀ : s₀.Initial) (h : Exec (system env) s₀ tr s)
    (hrow : (s.slice run).row = some row)
    (hproject : s.backend.db.projects row.projectId = some project)
    (hunedited : row.projectVersion = some project.version) (k : NullColumns)
    (hworker : s.workers run = some .loading) {tr' : List (Entry (State μ) Action)} {t : State μ}
    (h' : Exec (system env) (s.without k run) tr' t)
    (hkept : ∀ e ∈ tr',
      (e.pre.backend.db.projects row.projectId).map ProjectRow.spec = some project.spec) :
    ∃ tr₁ i, Exec (invocation env (some project)) (.ofSlice (s.slice run)) tr₁ i ∧
      t.slice run = i.slice.without k := by
  obtain ⟨target, hgoes⟩ := goesTo_of_version h₀ h hrow hproject hunedited
  have hapart : IdsApart (s.without k run) :=
    idsApart_without k (IdsApart.exec h₀ h) (by simp [hworker])
  have hslice : (s.without k run).slice run = (s.slice run).without k := slice_without k s
  have hcarries : Invocation.Carries (row.without k).submission project.spec
      (⟨.loading, (s.without k run).slice run⟩ : Invocation μ) := by
    refine ⟨fun stored hstored => ?_, trivial⟩
    simp only [hslice, RunSlice.without, hrow, Option.map_some, Option.some.injEq] at hstored
    rw [hstored]
  have hsnapshot : ∀ spec, (row.without k).submission.specSnapshot = some spec →
      spec = project.spec := by
    intro spec hspec
    have hstored : row.specSnapshot = some project.spec := hgoes.snapshot
    simp only [SimulationRunRow.submission, SimulationRunRow.without, hstored] at hspec
    split at hspec
    · simp at hspec
    · exact (Option.some.inj hspec).symm
  obtain ⟨tr₂, p, hexec, -, -⟩ := history_of_exec hapart h' hworker hsnapshot hcarries hkept
  rw [hslice] at hexec
  obtain ⟨tr₁, i, hexec₁, htwins, -⟩ :=
    Mirrors.exec (mirrors_without hgoes) (twins_of_row hrow k) hexec
  exact ⟨tr₁, i, hexec₁, htwins.stored⟩

end

/-- A run to time 0 is submitted. -/
def submittedAtZero : List (Entry (State Int) Action) × State Int :=
  (system clockEnv).played State.empty (submitOne (.single (some 0) none)) (by decide)

/-- With both columns null it goes to 0 still. -/
theorem run_at_zero_is_the_same : ∃ row project,
    (submittedAtZero.2.slice 3).row = some row ∧ row.status = .queued ∧
      row.untilTarget = some 0 ∧
      RunsWithout clockEnv ⟨true, true⟩ 3 row (submittedAtZero.2.slice 3) project := by
  obtain ⟨row, project, hrow, hstatus, htarget, hproject, hversion⟩ : ∃ row project,
      (submittedAtZero.2.slice 3).row = some row ∧ row.status = .queued ∧
        row.untilTarget = some 0 ∧
        submittedAtZero.2.backend.db.projects row.projectId = some project ∧
        row.projectVersion = some project.version := ⟨_, _, rfl, rfl, rfl, rfl, rfl⟩
  exact ⟨row, project, hrow, hstatus, htarget, old_rows_run_the_same Spur.clock_deterministic
    State.empty_initial (Machine.played_exec _) hrow hproject hversion ⟨true, true⟩⟩

end SpurApi
