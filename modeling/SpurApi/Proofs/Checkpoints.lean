/-
The loop of the runner and its clock.

`path` follows a run in which the caller answers every check as it likes.  Where the chunks are
positive each call of `model.run` is for an instant that lies ahead and not behind the target, so
the clock rises from check to check and the loop ends.  A chunk size is taken from the request as
it is, and only the one that is derived is kept above zero: with a negative one the first call of
`model.run` is for an instant that is over.
-/
import Mathlib.Order.OrderIsoNat
import SpurApi.Proofs.Executions

namespace SpurApi

section

variable {μ : Type} (spur : Spur μ) (settings : Settings) (runner : SpurRunner) (entropy : Nat)

/-- One step of the runner, when `is_cancelled` answers this. -/
def SpurRunner.move (cancelled : Bool) : RunPoint μ → RunPoint μ
  | .asking l => (RunPoint.asking l).answered cancelled
  | .flushing l place => (RunPoint.flushing l place).flushed spur
  | p => runner.advance spur settings entropy p

def RunPoint.asks : RunPoint μ → Bool
  | .asking _ => true
  | _ => false

/-- The runner after `n` steps, and how often it has called `is_cancelled`, which answers
`answers k` to its call number `k`. -/
def SpurRunner.path (answers : Nat → Bool) : Nat → RunPoint μ × Nat
  | 0 => (.building, 0)
  | n + 1 =>
      (runner.move spur settings entropy (answers (path answers n).2) (path answers n).1,
        if (path answers n).1.asks then (path answers n).2 + 1 else (path answers n).2)

/-- The loop of a run always advances and ends. -/
structure LoopAdvances (answers : Nat → Bool) : Prop where
  /-- a call `model.run(until=u)` has `model.now < u <= until_target` -/
  ahead : ∀ n l, (runner.path spur settings entropy answers n).1 = .advancing l →
    spur.now l.model < l.nextCheckpoint spur ∧ l.nextCheckpoint spur ≤ l.untilTarget
  /-- the clock is later at a later iteration -/
  rises : ∀ n n' l l', n < n' → (runner.path spur settings entropy answers n).1 = .asking l →
    (runner.path spur settings entropy answers n').1 = .asking l' →
      spur.now l.model < spur.now l'.model
  /-- the run is over after finitely many steps -/
  ends : ∃ n, (∃ outcome, (runner.path spur settings entropy answers n).1 = .finished outcome) ∨
    ∃ e, (runner.path spur settings entropy answers n).1 = .raised e

/-- The loop is entered with a negative chunk, and not left at its first check. -/
structure EntersBackwards (answers : Nat → Bool) : Prop where
  negative : ∃ c, runner.chunkSize = some c ∧ c < 0
  started : ∃ model model', spur.fromProjectDictionary entropy runner.projectDict runner.seed =
    .ok model ∧ (spur.start model).result = .ok model'
  ahead : ∃ target, runner.untilTarget settings = .ok target ∧ 0 < target
  goes : answers 0 = false

/-- Where the loop stands when it advances; a chunk that is not positive only gets to a first check
that cancels. -/
def SpurRunner.Steady (first : Bool) (checks : Nat) : RunPoint μ → Prop
  | .building => checks = 0
  | .starting model => checks = 0 ∧
      spur.fromProjectDictionary entropy runner.projectDict runner.seed = .ok model
  | .asking l => runner.untilTarget settings = .ok l.untilTarget ∧
      spur.now l.model < l.untilTarget ∧ (1 ≤ l.chunk ∨ checks = 0 ∧ first = true)
  | .advancing l => runner.untilTarget settings = .ok l.untilTarget ∧
      spur.now l.model < l.untilTarget ∧ 1 ≤ l.chunk
  | .flushing l .chunk => runner.untilTarget settings = .ok l.untilTarget ∧ 1 ≤ l.chunk
  | _ => True

/-- The target of the run, if it has one. -/
def SpurRunner.horizon : Int :=
  match runner.untilTarget settings with
  | .ok target => target
  | .error _ => 0

end

section

variable {μ : Type} {spur : Spur μ} {settings : Settings} {runner : SpurRunner} {entropy : Nat}
  {answers : Nat → Bool} {first : Bool} {checks : Nat}

theorem SpurRunner.horizon_of_ok {target : Int} (h : runner.untilTarget settings = .ok target) :
    runner.horizon settings = target := by
  rw [horizon, h]

theorem Loop.lt_nextCheckpoint {l : Loop μ} (hlt : spur.now l.model < l.untilTarget)
    (hchunk : 1 ≤ l.chunk) : spur.now l.model < l.nextCheckpoint spur := by
  rw [nextCheckpoint]
  omega

theorem Loop.nextCheckpoint_le (l : Loop μ) : l.nextCheckpoint spur ≤ l.untilTarget := by
  rw [nextCheckpoint]
  omega

/-! ### The loop advances -/

/-- At the head of the loop a chunk is positive, or it is negative and the loop is left. -/
private theorem head_steady (hnot : ¬ EntersBackwards spur settings runner entropy answers)
    {model model' : μ} {target chunk : Int} {batch : List SimEvent}
    (hbuild : spur.fromProjectDictionary entropy runner.projectDict runner.seed = .ok model)
    (hstart : (spur.start model).result = .ok model') (hnow : spur.now model' = 0)
    (htarget : runner.untilTarget settings = .ok target)
    (hchunk : runner.chunk settings target = .ok chunk) :
    runner.Steady spur settings entropy (answers 0) 0
      (Loop.head spur ⟨model', batch, target, chunk⟩) := by
  rw [Loop.head]
  split
  · rename_i hlt
    refine ⟨htarget, hlt, ?_⟩
    by_cases hsize : ∀ c, runner.chunkSize = some c → 0 ≤ c
    · exact .inl (SpurRunner.one_le_chunk hsize hchunk)
    · have hnegative : ∃ c, runner.chunkSize = some c ∧ c < 0 := by
        by_contra hnone
        exact hsize fun c hc => Int.not_lt.mp fun hneg => hnone ⟨c, hc, hneg⟩
      have hpos : 0 < target := hnow ▸ hlt
      cases hgoes : answers 0 with
      | true => exact .inr ⟨rfl, rfl⟩
      | false =>
          exact absurd ⟨hnegative, ⟨model, model', hbuild, hstart⟩, ⟨target, htarget, hpos⟩, hgoes⟩
            hnot
  · trivial

private theorem move_steady (hlaw : spur.LoopLaw)
    (hnot : ¬ EntersBackwards spur settings runner entropy answers) {p : RunPoint μ}
    {checks' : Nat} (hchecks : p.asks = false → checks' = checks)
    (h : runner.Steady spur settings entropy (answers 0) checks p) :
    runner.Steady spur settings entropy (answers 0) checks'
      (runner.move spur settings entropy (answers checks) p) := by
  cases p with
  | building =>
      have hzero : checks' = 0 := (hchecks rfl).trans h
      simp only [SpurRunner.move, SpurRunner.advance]
      cases hbuild : runner.buildModel spur entropy with
      | error e => trivial
      | ok model => exact ⟨hzero, SpurRunner.buildModel_eq_ok hbuild⟩
  | starting model =>
      obtain ⟨hzero, hbuild⟩ := h
      rw [(hchecks rfl).trans hzero]
      simp only [SpurRunner.move, SpurRunner.advance]
      cases hstart : (spur.start model).result with
      | error e => trivial
      | ok model' =>
          dsimp only
          split
          · trivial
          · split
            · trivial
            · exact head_steady hnot hbuild hstart (hlaw.start hbuild hstart) ‹_› ‹_›
  | asking l =>
      obtain ⟨htarget, hlt, hchunk⟩ := h
      simp only [SpurRunner.move, RunPoint.answered]
      split
      · trivial
      · rename_i hgoes
        rcases hchunk with hchunk | ⟨rfl, hfirst⟩
        · exact ⟨htarget, hlt, hchunk⟩
        · exact absurd hfirst hgoes
  | advancing l =>
      simp only [SpurRunner.move, SpurRunner.advance]
      split
      · trivial
      · exact ⟨h.1, h.2.2⟩
  | flushing l place =>
      cases place with
      | chunk =>
          simp only [SpurRunner.move, RunPoint.flushed, Loop.head]
          split
          · exact ⟨h.1, ‹_›, .inl h.2⟩
          · trivial
      | cancelled | final => trivial
  | logging l =>
      simp only [SpurRunner.move, SpurRunner.advance]
      split <;> trivial
  | finished outcome | raised e => trivial

theorem SpurRunner.path_steady (hlaw : spur.LoopLaw)
    (hnot : ¬ EntersBackwards spur settings runner entropy answers) (n : Nat) :
    runner.Steady spur settings entropy (answers 0)
      (runner.path spur settings entropy answers n).2
      (runner.path spur settings entropy answers n).1 := by
  induction n with
  | zero => rfl
  | succ n ih =>
      refine move_steady hlaw hnot (fun hasks => ?_) ih
      simp only [path, hasks, Bool.false_eq_true, if_false]

/-! ### The clock rises -/

/-- The clock at a point, seen from an earlier check at `c`. -/
def RunPoint.Later (spur : Spur μ) (c : Int) : RunPoint μ → Prop
  | .building | .starting _ => False
  | .asking l | .flushing l .chunk => c < spur.now l.model
  | .advancing l => c ≤ spur.now l.model
  | _ => True

private theorem move_later (hlaw : spur.LoopLaw) {p : RunPoint μ} {cancelled : Bool} {c : Int}
    (hsteady : runner.Steady spur settings entropy first checks p) (h : p.Later spur c) :
    (runner.move spur settings entropy cancelled p).Later spur c := by
  cases p with
  | building | starting model => exact h.elim
  | asking l =>
      simp only [SpurRunner.move, RunPoint.answered]
      split
      · trivial
      · exact Int.le_of_lt h
  | advancing l =>
      simp only [SpurRunner.move, SpurRunner.advance]
      cases hrun : (spur.run l.model (l.nextCheckpoint spur)).result with
      | error e => trivial
      | ok model' =>
          have hle : c ≤ spur.now l.model := h
          have hlt := Loop.lt_nextCheckpoint hsteady.2.1 hsteady.2.2
          have hnow : spur.now model' = l.nextCheckpoint spur := hlaw.run hrun
          simp only [RunPoint.Later, hnow]
          omega
  | flushing l place =>
      cases place with
      | chunk =>
          simp only [SpurRunner.move, RunPoint.flushed, Loop.head]
          split
          · exact h
          · trivial
      | cancelled | final => trivial
  | logging l =>
      simp only [SpurRunner.move, SpurRunner.advance]
      split <;> trivial
  | finished outcome | raised e => trivial

/-- From a check on, the clock is later at every check to come. -/
private theorem path_later (hlaw : spur.LoopLaw)
    (hnot : ¬ EntersBackwards spur settings runner entropy answers) {n : Nat} {l : Loop μ}
    (hn : (runner.path spur settings entropy answers n).1 = .asking l) (k : Nat) :
    (runner.path spur settings entropy answers (n + 1 + k)).1.Later spur (spur.now l.model) := by
  induction k with
  | zero =>
      rw [Nat.add_zero, SpurRunner.path, hn]
      simp only [SpurRunner.move, RunPoint.answered]
      split
      · trivial
      · exact Int.le_refl _
  | succ k ih => exact move_later hlaw (SpurRunner.path_steady hlaw hnot (n + 1 + k)) ih

/-! ### The loop ends -/

private theorem move_stepsLeft (hlaw : spur.LoopLaw) {p : RunPoint μ} {cancelled : Bool}
    (hsteady : runner.Steady spur settings entropy first checks p)
    (hfinished : ∀ outcome, p ≠ .finished outcome) (hraised : ∀ e, p ≠ .raised e) :
    (runner.move spur settings entropy cancelled p).stepsLeft spur (runner.horizon settings) <
      p.stepsLeft spur (runner.horizon settings) := by
  have hadvance : (∀ l, p ≠ .asking l) → (∀ l place, p ≠ .flushing l place) →
      p.Forward spur (runner.horizon settings) →
        (runner.advance spur settings entropy p).stepsLeft spur (runner.horizon settings) <
          p.stepsLeft spur (runner.horizon settings) :=
    fun hask hflush hforward =>
      RunPoint.advance_stepsLeft hlaw hforward hask hflush hraised
  cases p with
  | building => exact hadvance (by simp) (by simp) trivial
  | starting model =>
      exact hadvance (by simp) (by simp) fun model' hstart => hlaw.start hsteady.2 hstart
  | asking l =>
      obtain ⟨htarget, hlt, -⟩ := hsteady
      simp only [SpurRunner.move, RunPoint.answered, SpurRunner.horizon_of_ok htarget]
      split <;> simp only [RunPoint.stepsLeft] <;> omega
  | advancing l =>
      obtain ⟨htarget, hlt, hchunk⟩ := hsteady
      have hhorizon : runner.horizon settings = l.untilTarget := SpurRunner.horizon_of_ok htarget
      exact hadvance (by simp) (by simp) ⟨hhorizon.symm, hchunk, hhorizon ▸ hlt⟩
  | flushing l place =>
      cases place with
      | chunk =>
          have hhead := Loop.head_stepsLeft spur { l with eventsBatch := [] }
            (runner.horizon settings)
          refine Nat.lt_of_le_of_lt hhead ?_
          simp only [RunPoint.stepsLeft]
          omega
      | cancelled | final => exact Nat.lt_succ_self _
  | logging l => exact hadvance (by simp) (by simp) trivial
  | finished outcome => exact absurd rfl (hfinished outcome)
  | raised e => exact absurd rfl (hraised e)

/-- **The loop always advances and ends** exactly when it is not entered with a negative chunk: for
every project, target, chunk size and model, and whatever `is_cancelled` answers. -/
theorem loop_advances_iff (hlaw : spur.LoopLaw) :
    LoopAdvances spur settings runner entropy answers ↔
      ¬ EntersBackwards spur settings runner entropy answers := by
  constructor
  · rintro ⟨hahead, -, -⟩ ⟨⟨c, hsize, hneg⟩, ⟨model, model', hbuild, hstart⟩,
      ⟨target, htarget, hpos⟩, hgoes⟩
    have hne : c ≠ 0 := by omega
    have hnow : spur.now model' = 0 := hlaw.start hbuild hstart
    have hlt : spur.now model' < target := hnow ▸ hpos
    -- the model is built and started, and the first check is answered with False
    have hfirst : (runner.path spur settings entropy answers 3).1 =
        .advancing ⟨model', (spur.start model).emitted, target, c⟩ := by
      simp [SpurRunner.path, SpurRunner.move, SpurRunner.advance, SpurRunner.buildModel, hbuild,
        hstart, htarget, SpurRunner.chunk, hsize, hne, Loop.head, hlt, RunPoint.asks,
        RunPoint.answered, hgoes]
    obtain ⟨hcall, -⟩ := hahead 3 _ hfirst
    simp only [Loop.nextCheckpoint, hnow] at hcall
    omega
  · intro hnot
    have hsteady : ∀ n, runner.Steady spur settings entropy (answers 0)
        (runner.path spur settings entropy answers n).2
        (runner.path spur settings entropy answers n).1 := SpurRunner.path_steady hlaw hnot
    refine ⟨fun n l hn => ?_, fun n n' l l' hlt hn hn' => ?_, ?_⟩
    · have hl := hsteady n
      rw [hn] at hl
      exact ⟨Loop.lt_nextCheckpoint hl.2.1 hl.2.2, l.nextCheckpoint_le⟩
    · obtain ⟨k, rfl⟩ := Nat.exists_eq_add_of_le hlt
      have hlater := path_later hlaw hnot hn k
      rw [hn'] at hlater
      exact hlater
    · by_contra hnone
      refine not_strictAnti_of_wellFoundedLT
        (fun n => (runner.path spur settings entropy answers n).1.stepsLeft spur
          (runner.horizon settings)) (strictAnti_nat_of_succ_lt fun n => ?_)
      exact move_stepsLeft hlaw (hsteady n) (fun outcome h => hnone ⟨n, .inl ⟨outcome, h⟩⟩)
        fun e h => hnone ⟨n, .inr ⟨e, h⟩⟩

end

/-- In chunks of three it advances. -/
theorem chunks_of_three_advance :
    LoopAdvances Spur.clock {} (.bare (some 10) (some 3)) 0 fun _ => false :=
  (loop_advances_iff Spur.clock_clockLaw.loopLaw).mpr fun h => by
    obtain ⟨c, hsize, hneg⟩ := h.negative
    simp only [SpurRunner.bare, Option.some.injEq] at hsize
    omega

/-- A request may ask for `chunk_size=-1`, and then the first call is `model.run(until=-1)`. -/
theorem negative_chunk_goes_back : ∃ body : RunCreate,
    body.untilTime = some 10 ∧ body.chunkSize = some (-1) ∧
      ¬ LoopAdvances Spur.clock {} (.bare body.untilTime body.chunkSize) 0 fun _ => false := by
  refine ⟨.single (some 10) (some (-1)), rfl, rfl, fun h => ?_⟩
  have hcall := h.ahead 3 ⟨0, [], 10, -1⟩ rfl
  exact absurd hcall.1 (by decide)

end SpurApi
