/-
How many chunks a run has.

A run that nobody cancels walks from 0 to its target in strides of one chunk size, and
after every stride it reports the clock; `Strides` counts them.  The invariant says of
every point of the runner how far it has come: so many reports, the clock at the end of
the last stride, and one stride more as long as the loop goes on.  Behind the loop the
count is complete, and the final report adds the target once more.
-/
import SpurApi.Lib.Strides
import SpurApi.Proofs.SingleShot

namespace SpurApi

section

variable {μ : Type} {spur : Spur μ} {settings : Settings} {runner : SpurRunner} {target c : Int}
  {times : List Int}

/-- The loop has made `k` strides, and the clock is where the last one ended. -/
structure Loop.Strode (spur : Spur μ) (l : Loop μ) (target c : Int) (k : Nat)
    (times : List Int) : Prop where
  times : times = Strides.stops target c k
  now : spur.now l.model = min (k * c) target
  chunk : l.chunk = c

/-- How far the runner has come when it has reported these times. -/
def RunPoint.Strode (spur : Spur μ) (target c : Int) (times : List Int) : RunPoint μ → Prop
  | .building | .starting _ => times = []
  | .asking l | .advancing l => ∃ k < Strides.count target c, l.Strode spur target c k times
  | .flushing l .chunk =>
      ∃ k ≤ Strides.count target c, l.Strode spur target c k (times ++ [spur.now l.model])
  | .logging _ | .flushing _ .final => times = Strides.stops target c (Strides.count target c)
  | .finished .completed => times = Strides.stops target c (Strides.count target c) ++ [target]
  | .flushing _ .cancelled | .finished .cancelled | .raised _ => True

/-- The loop goes on as long as there is a stride to make. -/
theorem Loop.Strode.head {l : Loop μ} {k : Nat} (hc : 1 ≤ c) (htarget : l.untilTarget = target)
    (hk : k ≤ Strides.count target c) (h : l.Strode spur target c k times) :
    (l.head spur).Strode spur target c times := by
  have hnow := h.now
  unfold Loop.head
  by_cases hgo : spur.now l.model < l.untilTarget
  · rw [if_pos hgo]
    refine ⟨k, ?_, h⟩
    rw [Strides.lt_count_iff hc]
    omega
  · rw [if_neg hgo]
    have hall : Strides.count target c ≤ k := by
      rw [Strides.count_le_iff hc]
      omega
    show times = Strides.stops target c (Strides.count target c)
    rw [h.times, Nat.le_antisymm hk hall]

/-- One step: what the runner reports is where the next stride ends. -/
theorem RunPoint.Strode.next (hclock : spur.ClockLaw)
    (htarget : runner.untilTarget settings = .ok target)
    (hchunk : runner.chunk settings target = .ok c) (hpos : 1 ≤ target) (hc : 1 ≤ c)
    {p : RunPoint μ} (hclocked : (∃ outcome, p = .finished outcome) ∨ p.Clocked spur target false)
    (h : p.Strode spur target c times) :
    (runner.next spur settings p).Strode spur target c
      (times ++ ((p.report spur).map Prod.fst).toList) := by
  have hat : ∀ {q : RunPoint μ}, p = q → (∀ outcome, q ≠ .finished outcome) →
      q.Clocked spur target false := by
    rintro q rfl hnot
    exact hclocked.resolve_left (not_exists.mpr hnot)
  cases p with
  | building =>
      obtain rfl : times = [] := h
      unfold SpurRunner.next SpurRunner.advance
      cases runner.buildModel spur 0 with
      | error e => trivial
      | ok model => rfl
  | starting model =>
      obtain rfl : times = [] := h
      have hzero : spur.now model = 0 := hat rfl (by simp)
      unfold SpurRunner.next SpurRunner.advance
      dsimp only
      cases hstart : (spur.start model).result with
      | error e => trivial
      | ok model' =>
          rw [htarget]
          dsimp only
          rw [hchunk]
          have hnow : spur.now model' = 0 := (hclock.start hstart).trans hzero
          refine Loop.Strode.head (k := 0) hc rfl (Nat.zero_le _) ⟨rfl, ?_, rfl⟩
          rw [hnow]
          omega
  | asking l =>
      obtain ⟨k, hk, hl⟩ := h
      exact ⟨k, hk, by simpa [RunPoint.report] using hl⟩
  | advancing l =>
      obtain ⟨k, hk, hl⟩ := h
      have huntil : l.untilTarget = target := (hat rfl (by simp)).1
      unfold SpurRunner.next SpurRunner.advance
      dsimp only
      cases hrun : (spur.run l.model (l.nextCheckpoint spur)).result with
      | error e => trivial
      | ok model' =>
          have hnow : spur.now model' = min ((k + 1) * c) target := by
            rw [hclock.run hrun, Loop.nextCheckpoint, hl.now, hl.chunk, huntil]
            have hbelow := (Strides.lt_count_iff hc).mp hk
            have hmul : (k + 1 : Int) * c = k * c + c := by ring
            omega
          refine ⟨k + 1, hk, ?_, by exact_mod_cast hnow, hl.chunk⟩
          show times ++ [] ++ [spur.now model'] = Strides.stops target c (k + 1)
          rw [List.append_nil, Strides.stops_succ, hnow, hl.times]
  | flushing l place =>
      have hclocked' := hat rfl (by simp)
      cases place with
      | chunk =>
          obtain ⟨k, hk, hl⟩ := h
          exact Loop.Strode.head (l := { l with eventsBatch := [] }) hc hclocked'.1 hk
            ⟨hl.times, hl.now, hl.chunk⟩
      | cancelled => trivial
      | final =>
          have hnow : spur.now l.model = target := by
            have := hclocked'.2
            omega
          show times ++ [spur.now l.model] = _ ++ [target]
          rw [hnow, show times = _ from h]
  | logging l =>
      unfold SpurRunner.next SpurRunner.advance
      dsimp only
      cases (spur.logCurrentState l.model).result with
      | error e => trivial
      | ok model' => exact (List.append_nil times).trans h
  | finished outcome =>
      cases outcome with
      | completed => exact (List.append_nil times).trans h
      | cancelled => trivial
  | raised e => trivial

/-- **So it is along the whole run.** -/
theorem SpurRunner.trail_strode (hclock : spur.ClockLaw)
    (htarget : runner.untilTarget settings = .ok target)
    (hchunk : runner.chunk settings target = .ok c) (hpos : 1 ≤ target) (hc : 1 ≤ c) (n : Nat) :
    (runner.trail spur settings n).1.Strode spur target c
      ((runner.reports spur settings n).map Prod.fst) := by
  induction n with
  | zero => rfl
  | succ n ih =>
      have hclocked := trail_clocked hclock htarget n
      have hnext := ih.next hclock htarget hchunk hpos hc hclocked
      rw [reports, List.map_append, trail, ← Option.toList_map]
      exact hnext

/-- What a completed run has reported. -/
theorem SpurRunner.CompletesWith.strides (hclock : spur.ClockLaw)
    (htarget : runner.untilTarget settings = .ok target)
    (hchunk : runner.chunk settings target = .ok c) (hpos : 1 ≤ target) (hc : 1 ≤ c)
    {reports : List (Int × List SimEvent)} (h : runner.CompletesWith spur settings reports) :
    reports.map Prod.fst = Strides.stops target c (Strides.count target c) ++ [target] := by
  obtain ⟨n, hfinished, rfl⟩ := h
  have hstrode := trail_strode hclock htarget hchunk hpos hc n
  rw [hfinished] at hstrode
  exact hstrode

/-! ### The chunk size -/

/-- The chunk size that a run goes by: its own if that is positive, otherwise its target divided
up into the configured number of chunks. -/
def chunkFor (settings : Settings) (size : Option Int) (target : Int) : Int :=
  match size with
  | some c => if 0 < c then c else max 1 (target / settings.defaultChunkCount)
  | none => max 1 (target / settings.defaultChunkCount)

theorem SpurRunner.chunk_eq_chunkFor (hcount : 1 ≤ settings.defaultChunkCount)
    (hsize : ∀ c, runner.chunkSize = some c → 0 ≤ c) :
    runner.chunk settings target = .ok (chunkFor settings runner.chunkSize target) := by
  have hne : settings.defaultChunkCount ≠ 0 := by omega
  have hdiv : target.fdiv settings.defaultChunkCount = target / settings.defaultChunkCount :=
    Int.fdiv_eq_ediv_of_nonneg _ (by omega)
  unfold SpurRunner.chunk chunkFor
  rw [if_neg hne, hdiv]
  cases hcs : runner.chunkSize with
  | none => rfl
  | some c =>
      have hnonneg := hsize c hcs
      by_cases hzero : c = 0
      · simp [hzero]
      · have hpos : 0 < c := by omega
        simp [hzero, hpos]

theorem one_le_chunkFor (size : Option Int) : 1 ≤ chunkFor settings size target := by
  unfold chunkFor
  cases size with
  | none => exact le_max_left ..
  | some c =>
      dsimp only
      split
      · omega
      · exact le_max_left ..

/-- **A run has as many chunks as its target has strides of one chunk**, for every target, chunk
count and chunk size that is positive, zero or absent; it reports where they end, and at last the
target again.  Without a chunk size of its own it has at least as many as are configured, or as the
target allows, and fewer than twice as many. -/
theorem chunks_are_strides (hclock : spur.ClockLaw)
    (htarget : runner.untilTarget settings = .ok target) (hpos : 1 ≤ target)
    (hcount : 1 ≤ settings.defaultChunkCount) (hsize : ∀ c, runner.chunkSize = some c → 0 ≤ c)
    (hmodel : runner.ModelReturns spur settings) :
    (∃ reports, runner.CompletesWith spur settings reports) ∧
      (∀ reports, runner.CompletesWith spur settings reports →
        reports.map Prod.fst =
          Strides.stops target (chunkFor settings runner.chunkSize target)
            (Strides.count target (chunkFor settings runner.chunkSize target)) ++ [target]) ∧
      (runner.chunkSize = none ∨ runner.chunkSize = some 0 →
        min target settings.defaultChunkCount ≤
            Strides.count target (chunkFor settings runner.chunkSize target) ∧
          Strides.count target (chunkFor settings runner.chunkSize target) ≤
            2 * settings.defaultChunkCount - 1) := by
  have hchunk : runner.chunk settings target =
      .ok (chunkFor settings runner.chunkSize target) :=
    SpurRunner.chunk_eq_chunkFor hcount hsize
  have hchunkOk : ChunkOk settings runner.chunkSize := by
    cases hcs : runner.chunkSize with
    | none => exact .inr ⟨.inl rfl, by omega⟩
    | some c =>
        have hnonneg := hsize c hcs
        by_cases hzero : c = 0
        · exact .inr ⟨.inr (by rw [hzero]), by omega⟩
        · exact .inl ⟨c, rfl, by omega⟩
  refine ⟨?_, ?_, ?_⟩
  · obtain ⟨n, hn⟩ := SpurRunner.trail_finishes hclock htarget hchunkOk hmodel
    exact ⟨_, n, hn, rfl⟩
  · intro reports hcompletes
    exact hcompletes.strides hclock htarget hchunk hpos (one_le_chunkFor _)
  · intro hderived
    have hdefault : chunkFor settings runner.chunkSize target =
        max 1 (target / settings.defaultChunkCount) := by
      rcases hderived with hcs | hcs <;> simp [chunkFor, hcs]
    rw [hdefault]
    exact Strides.between hpos hcount

end

/-- Three instants in two chunks by default: rounding down makes it three. -/
def crowdedRunner : SpurRunner := .bare (some 3) none

theorem three_chunks_for_two :
    (∃ reports, crowdedRunner.CompletesWith Spur.clock ⟨2, 86400⟩ reports) ∧
      (∀ reports, crowdedRunner.CompletesWith Spur.clock ⟨2, 86400⟩ reports →
        reports.map Prod.fst = [1, 2, 3, 3]) ∧
      min 3 2 ≤ (Strides.count 3 1 : Int) ∧ (Strides.count 3 1 : Int) ≤ 2 * 2 - 1 := by
  have hthree : Strides.count 3 1 = 3 :=
    Nat.le_antisymm ((Strides.count_le_iff (le_refl 1)).mpr (by decide))
      ((Strides.lt_count_iff (le_refl 1)).mpr (by decide))
  obtain ⟨hcompletes, htimes, hbounds⟩ := @chunks_are_strides Int Spur.clock ⟨2, 86400⟩
    crowdedRunner 3 Spur.clock_clockLaw rfl (by decide) (by decide)
    (by simp [crowdedRunner, SpurRunner.bare])
    (SpurRunner.clock_modelReturns rfl (by simp [crowdedRunner, SpurRunner.bare]))
  refine ⟨hcompletes, fun reports hreports => ?_, hbounds (.inl rfl)⟩
  have htimes' : reports.map Prod.fst = Strides.stops 3 1 (Strides.count 3 1) ++ [3] :=
    htimes reports hreports
  rw [htimes', hthree]
  rfl

end SpurApi
