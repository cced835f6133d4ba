/-
One uninterrupted run.

Where nobody cancels and every callback returns, the runner of a deterministic model
has one way to go: `trail` follows it, and collects what is handed to `on_chunk`.
`Completes` is the specification of a run that nothing cuts short: the events handed
over when the runner is done.
-/
import SpurApi.Proofs.Executions

namespace SpurApi

section

variable {μ : Type} (spur : Spur μ) (settings : Settings) (runner : SpurRunner)

/-- Where the runner goes from a point. -/
def SpurRunner.next : RunPoint μ → RunPoint μ
  | .asking l => (RunPoint.asking l).answered false
  | .flushing l place => (RunPoint.flushing l place).flushed spur
  | p => runner.advance spur settings 0 p

/-- The events of a chunk that is handed to `on_chunk`. -/
def RunPoint.handed : RunPoint μ → List SimEvent
  | .flushing l _ => l.eventsBatch
  | _ => []

/-- The runner after `n` steps, and the events it has handed to `on_chunk`. -/
def SpurRunner.trail : Nat → RunPoint μ × List SimEvent
  | 0 => (.building, [])
  | n + 1 => (runner.next spur settings (trail n).1, (trail n).2 ++ (trail n).1.handed)

/-- The uninterrupted run completes, with these events. -/
def SpurRunner.Completes (es : List SimEvent) : Prop :=
  ∃ n, runner.trail spur settings n = (.finished .completed, es)

/-- No call of the model raises in the uninterrupted run. -/
def SpurRunner.ModelReturns : Prop := ∀ n, runner.Returns spur 0 (runner.trail spur settings n).1

/-- The runner can work out its target and its chunk. -/
def SpurRunner.Chunks : Prop :=
  ∃ target chunk, runner.untilTarget settings = .ok target ∧
    runner.chunk settings target = .ok chunk

end

/-- There is a chunk size, or a chunk count to derive it from. -/
def CanChunk (settings : Settings) (size : Option Int) : Prop :=
  (∃ c, size = some c ∧ c ≠ 0) ∨ settings.defaultChunkCount ≠ 0

theorem SpurRunner.untilTarget_some {settings : Settings} {runner : SpurRunner} {target : Int}
    (htarget : runner.untilTime = some target) : runner.untilTarget settings = .ok target := by
  simp [untilTarget, htarget]

theorem SpurRunner.chunks_iff {settings : Settings} {runner : SpurRunner} {target : Int}
    (htarget : runner.untilTime = some target) :
    runner.Chunks settings ↔ CanChunk settings runner.chunkSize := by
  have huntil : runner.untilTarget settings = .ok target := untilTarget_some htarget
  simp only [Chunks, CanChunk, huntil, Except.ok.injEq, exists_and_left, exists_eq_left', chunk]
  cases hsize : runner.chunkSize with
  | none => by_cases hcount : settings.defaultChunkCount = 0 <;> simp [hcount]
  | some c =>
      by_cases hc : c = 0
      · by_cases hcount : settings.defaultChunkCount = 0 <;> simp [hc, hcount]
      · simp [hc]

section

variable {μ : Type} {spur : Spur μ} {settings : Settings} {runner : SpurRunner} {n m : Nat}

/-- One step further. -/
theorem SpurRunner.trail_succ {p : RunPoint μ} (h : (runner.trail spur settings n).1 = p) :
    runner.trail spur settings (n + 1) =
      (runner.next spur settings p, (runner.trail spur settings n).2 ++ p.handed) := by
  rw [trail, h]

/-- A deterministic model leaves a runner with a seed no choice. -/
theorem SpurRunner.advance_entropy (hdet : spur.Deterministic) (hseed : runner.seed.isSome)
    (entropy entropy' : Nat) (p : RunPoint μ) :
    runner.advance spur settings entropy p = runner.advance spur settings entropy' p := by
  cases p with
  | building =>
      simp only [advance, buildModel, hdet.of_seed hseed entropy entropy' runner.projectDict]
  | _ => rfl

/-! ### The points of the trail -/

theorem SpurRunner.next_eq_advance {p : RunPoint μ} (hask : ∀ l, p ≠ .asking l)
    (hflush : ∀ l place, p ≠ .flushing l place) :
    runner.next spur settings p = runner.advance spur settings 0 p := by
  cases p with
  | asking l => exact absurd rfl (hask l)
  | flushing l place => exact absurd rfl (hflush l place)
  | _ => rfl

/-- Whether the runner has got past its target and its chunk. -/
def RunPoint.Past (chunks : Prop) : RunPoint μ → Prop
  | .building | .starting _ => True
  | .flushing _ .cancelled | .finished .cancelled => False
  | .raised _ => ¬ chunks
  | _ => chunks

theorem Loop.head_past {chunks : Prop} (l : Loop μ) (h : chunks) : (l.head spur).Past chunks := by
  rw [Loop.head]
  split <;> exact h

theorem RunPoint.Past.next {p : RunPoint μ} (hmodel : runner.Returns spur 0 p)
    (h : p.Past (runner.Chunks settings)) :
    (runner.next spur settings p).Past (runner.Chunks settings) := by
  cases p with
  | building =>
      obtain ⟨model, hbuild⟩ := hmodel
      simp only [SpurRunner.next, SpurRunner.advance, SpurRunner.buildModel, hbuild]
      trivial
  | starting model =>
      obtain ⟨model', hstart⟩ := hmodel
      simp only [SpurRunner.next, SpurRunner.advance, hstart]
      cases htarget : runner.untilTarget settings with
      | error e =>
          dsimp only
          rintro ⟨target, chunk, ht, -⟩
          rw [htarget] at ht
          simp at ht
      | ok target =>
          dsimp only
          cases hchunk : runner.chunk settings target with
          | error e =>
              rintro ⟨target', chunk, ht, hc⟩
              rw [htarget, Except.ok.injEq] at ht
              rw [← ht, hchunk] at hc
              simp at hc
          | ok chunk => exact Loop.head_past _ ⟨target, chunk, htarget, hchunk⟩
  | advancing l =>
      obtain ⟨model', hrun⟩ := hmodel
      simp only [SpurRunner.next, SpurRunner.advance, hrun]
      exact h
  | logging l =>
      obtain ⟨model', hlog⟩ := hmodel
      simp only [SpurRunner.next, SpurRunner.advance, hlog]
      exact h
  | flushing l place =>
      cases place with
      | chunk => exact Loop.head_past { l with eventsBatch := [] } h
      | cancelled => exact h.elim
      | final => exact h
  | _ => exact h

theorem SpurRunner.trail_past (hmodel : runner.ModelReturns spur settings) :
    ∀ n, (runner.trail spur settings n).1.Past (runner.Chunks settings) := by
  intro n
  induction n with
  | zero => trivial
  | succ n ih => exact ih.next (hmodel n)

/-! ### The events of the trail -/

/-- What was handed over stays so. -/
theorem SpurRunner.trail_prefix (h : n ≤ m) :
    (runner.trail spur settings n).2 <+: (runner.trail spur settings m).2 := by
  induction m with
  | zero =>
      obtain rfl : n = 0 := by omega
      exact List.prefix_rfl
  | succ m ih =>
      rcases Nat.lt_or_eq_of_le h with hlt | rfl
      · exact (ih (by omega)).trans (List.prefix_append ..)
      · exact List.prefix_rfl

/-- At its end the runner stands still. -/
theorem SpurRunner.trail_of_finished {outcome : Outcome} {es : List SimEvent}
    (hn : runner.trail spur settings n = (.finished outcome, es)) (h : n ≤ m) :
    runner.trail spur settings m = (.finished outcome, es) := by
  induction m with
  | zero =>
      obtain rfl : n = 0 := by omega
      exact hn
  | succ m ih =>
      rcases Nat.lt_or_eq_of_le h with hlt | rfl
      · rw [trail, ih (by omega)]
        simp [next, advance, RunPoint.handed]
      · exact hn

/-- A run that completes has handed over all there is. -/
theorem SpurRunner.Completes.prefix_of {es : List SimEvent}
    (h : runner.Completes spur settings es) (m : Nat) :
    (runner.trail spur settings m).2 <+: es := by
  obtain ⟨n, hn⟩ := h
  rcases Nat.le_total m n with hle | hle
  · have hpre : (runner.trail spur settings m).2 <+: (runner.trail spur settings n).2 :=
      trail_prefix hle
    rwa [hn] at hpre
  · simp only [trail_of_finished hn hle, List.prefix_rfl]

theorem SpurRunner.Completes.unique {es es' : List SimEvent}
    (h : runner.Completes spur settings es) (h' : runner.Completes spur settings es') :
    es = es' := by
  obtain ⟨n, hn⟩ := h
  obtain ⟨n', hn'⟩ := h'
  rcases Nat.le_total n n' with hle | hle
  · have heq := (trail_of_finished hn hle).symm.trans hn'
    exact (Prod.mk.inj heq).2
  · have heq := (trail_of_finished hn' hle).symm.trans hn
    exact (Prod.mk.inj heq).2.symm

/-! ### The clock on the trail -/

/-- The runner is done, or its clock is where it should be. -/
theorem SpurRunner.trail_clocked (hclock : spur.ClockLaw) {target : Int}
    (htarget : runner.untilTarget settings = .ok target) (n : Nat) :
    (∃ outcome, (runner.trail spur settings n).1 = .finished outcome) ∨
      (runner.trail spur settings n).1.Clocked spur target false := by
  induction n with
  | zero => exact .inr trivial
  | succ n ih =>
      simp only [trail]
      generalize runner.trail spur settings n = t at ih
      obtain ⟨p, es⟩ := t
      dsimp only at ih ⊢
      rcases ih with ⟨outcome, rfl⟩ | hclocked
      · exact .inl ⟨outcome, rfl⟩
      · cases p with
        | asking l => exact .inr hclocked
        | flushing l place =>
            cases place with
            | chunk =>
                obtain ⟨rfl, hin⟩ := hclocked
                exact .inr (Loop.head_clocked (l := { l with eventsBatch := [] }) _ hin)
            | cancelled => exact .inl ⟨.cancelled, rfl⟩
            | final => exact .inl ⟨.completed, rfl⟩
        | _ =>
            rw [next_eq_advance (by simp) (by simp)]
            exact .inr (RunPoint.advance_clocked hclock htarget hclocked)

/-- The chunk is at least 1 on the whole trail. -/
theorem SpurRunner.trail_chunked (hsize : ∀ c, runner.chunkSize = some c → 0 ≤ c) (n : Nat) :
    (runner.trail spur settings n).1.Chunked := by
  induction n with
  | zero => trivial
  | succ n ih =>
      simp only [trail]
      generalize runner.trail spur settings n = t at ih
      obtain ⟨p, es⟩ := t
      cases p with
      | asking l => exact ih
      | flushing l place => exact RunPoint.Chunked.flushed ih
      | _ =>
          rw [next_eq_advance (by simp) (by simp)]
          exact RunPoint.Chunked.advance hsize ih

end

/-- In chunks of at least 1 the calls of the clock all return. -/
theorem SpurRunner.clock_modelReturns {settings : Settings} {runner : SpurRunner} {target : Int}
    (htarget : runner.untilTarget settings = .ok target)
    (hsize : ∀ c, runner.chunkSize = some c → 0 ≤ c) :
    runner.ModelReturns Spur.clock settings := by
  intro n
  have hclocked := trail_clocked Spur.clock_clockLaw htarget n
  have hchunked : (runner.trail Spur.clock settings n).1.Chunked := trail_chunked hsize n
  cases hp : (runner.trail Spur.clock settings n).1 with
  | building | starting | logging => exact ⟨_, rfl⟩
  | advancing l =>
      rw [hp] at hclocked hchunked
      obtain ⟨hl, -, hlt⟩ := hclocked.resolve_left (by simp)
      have hforward : l.model < l.nextCheckpoint Spur.clock := by
        have hchunk : 1 ≤ l.chunk := hchunked
        have hbefore : l.model < l.untilTarget := hl ▸ hlt
        have hnow : Spur.clock.now l.model = l.model := rfl
        rw [Loop.nextCheckpoint, hnow]
        omega
      exact ⟨_, congrArg Call.result (Spur.clock_run hforward)⟩
  | _ => trivial

end SpurApi
