/-
Paging through the events of a run while it runs.

A client asks for the events behind all it has received so far.  The rows of a run are
numbered in the order they are inserted and a filter looks at one row at a time, so what a
query can find only grows at its end, and `Paging.append_page_isPrefix` applies to every page
although each is cut from a longer list.
-/
import SpurApi.Proofs.Finality

namespace SpurApi

open Transition

section

variable {μ : Type} {env : Env μ} {s₀ u v s s' : State μ} {run : Uuid} {filter : EventFilter}
  {tr tr' : List (Entry (State μ) Action)} {row : SimulationRunRow} {got : List SimEvent}

/-! ### A client that pages -/

/-- What a client has that reads a run page by page. -/
structure Client where
  /-- the events received so far -/
  got : List SimEvent
  /-- a terminal status was seen -/
  seen : Bool
  /-- a page shorter than its limit was read after that -/
  done : Bool

/-- What the client has in this history: it waits, reads the run, or asks for the next page, which
takes two queries, for the run and for its events. -/
inductive Paged (env : Env μ) (s₀ : State μ) (run : Uuid) (filter : EventFilter) :
    List (Entry (State μ) Action) → State μ → Client → Prop
  | start : Paged env s₀ run filter [] s₀ ⟨[], false, false⟩
  | wait {tr tr' : List (Entry (State μ) Action)} {s s' : State μ} {c : Client}
      (h : Paged env s₀ run filter tr s c) (hexec : Exec (system env) s tr' s') :
      Paged env s₀ run filter (tr ++ tr') s' c
  | status {tr : List (Entry (State μ) Action)} {s : State μ} {c : Client} {answer : Run}
      (h : Paged env s₀ run filter tr s c)
      (hread : getRun run (s.slice run).row = .ok answer) :
      Paged env s₀ run filter tr s { c with seen := c.seen || answer.status.terminal }
  | page {tr tr' : List (Entry (State μ) Action)} {u v : State μ} {c : Client}
      {page : List SimEvent} {limit : Int} (h : Paged env s₀ run filter tr u c)
      (hexec : Exec (system env) u tr' v) (hlimit : 1 ≤ limit)
      (hpage : getRunEvents run (u.slice run).row (v.slice run).events filter limit
        c.got.length = .ok page) :
      Paged env s₀ run filter (tr ++ tr') v
        ⟨c.got ++ page, c.seen, c.done || (c.seen && decide (page.length < limit.toNat))⟩

variable {c : Client}

theorem Paged.exec (h : Paged env s₀ run filter tr s c) : Exec (system env) s₀ tr s := by
  induction h with
  | start => exact Exec.nil
  | wait _ hexec ih | page _ hexec _ _ ih => exact ih.append hexec
  | status _ _ ih => exact ih

/-- What was received is the first of what there is; nothing is received of a run that was not
there. -/
def Received (s : State μ) (run : Uuid) (filter : EventFilter) (got : List SimEvent) : Prop :=
  got = [] ∨ NotPending s run ∧ ∀ row, (s.slice run).row = some row →
    got <+: filteredEvents (s.slice run).events filter

/-- Waiting does not change that. -/
theorem Received.wait (hs : Readable s) (h : Received s run filter got)
    (hexec : Exec (system env) s tr' s') : Received s' run filter got := by
  rcases h with hnil | ⟨hnot, hgot⟩
  · exact .inl hnil
  · refine .inr ⟨hnot.exec hexec, fun row' hrow' => ?_⟩
    obtain ⟨row, hrow⟩ := row_of_later hs.toRunsApart hnot hexec hrow'
    have hgrow := events_grow hs.toRunsApart hnot hexec hrow'
    exact (hgot row hrow).trans
      (filteredEvents_grow (hs.numbered hrow) ((hs.later hexec).numbered hrow') hgrow filter)

theorem Received.first (h : Received s run filter got) (hrow : (s.slice run).row = some row) :
    got <+: filteredEvents (s.slice run).events filter := by
  rcases h with rfl | ⟨-, hgot⟩
  · exact List.nil_prefix
  · exact hgot row hrow

theorem Paged.readable (h₀ : s₀.Resting) (h : Paged env s₀ run filter tr s c) : Readable s :=
  Readable.exec h₀ h.exec

theorem Paged.received (h₀ : s₀.Resting) (h : Paged env s₀ run filter tr s c) :
    Received s run filter c.got := by
  induction h with
  | start => exact .inl rfl
  | wait h hexec ih => exact ih.wait (h.readable h₀) hexec
  | status _ _ ih => exact ih
  | page h hexec hlimit hpage ih =>
      obtain ⟨hsome, rfl⟩ := getRunEvents_eq hlimit hpage
      obtain ⟨row, hrow⟩ := Option.isSome_iff_exists.mp hsome
      have hnot := notPending_of_row (h.readable h₀).apart hrow
      refine .inr ⟨hnot.exec hexec, fun row' hrow' => ?_⟩
      exact Paging.append_page_isPrefix ((ih.wait (h.readable h₀) hexec).first hrow') _

/-! ### The last page -/

/-- Who has seen a terminal status has seen a run that is over. -/
theorem Paged.returned_of_seen (h₀ : s₀.Resting) (h : Paged env s₀ run filter tr s c) :
    c.seen = true → NotPending s run ∧ s.workers run = some .returned := by
  induction h with
  | start => simp
  | wait h hexec ih | page h hexec _ _ ih =>
      intro hseen
      obtain ⟨hnot, hreturned⟩ := ih hseen
      exact ⟨hnot.exec hexec, returned_exec (h.readable h₀).toRunsApart hreturned hexec⟩
  | @status tr s c answer h hread ih =>
      intro hseen
      rw [Bool.or_eq_true] at hseen
      rcases hseen with hseen | hterminal
      · exact ih hseen
      · have hreadable := h.readable h₀
        cases hrow : (s.slice run).row with
        | none => simp [getRun, hrow] at hread
        | some row =>
            simp only [getRun, hrow, Except.ok.injEq] at hread
            subst hread
            exact ⟨notPending_of_row hreadable.apart hrow, hreadable.returned hrow hterminal⟩

/-- The client is done: it has all there will be. -/
def Whole (s : State μ) (run : Uuid) (filter : EventFilter) (got : List SimEvent) : Prop :=
  (NotPending s run ∧ s.workers run = some .returned) ∧ ∀ row, (s.slice run).row = some row →
    got = filteredEvents (s.slice run).events filter

theorem Whole.wait (hs : RunsApart s) (h : Whole s run filter got)
    (hexec : Exec (system env) s tr' s') : Whole s' run filter got := by
  obtain ⟨⟨hnot, hreturned⟩, hgot⟩ := h
  refine ⟨⟨hnot.exec hexec, returned_exec hs hreturned hexec⟩, fun row' hrow' => ?_⟩
  obtain ⟨row, hrow, -, hevents⟩ := settled_run hs hreturned hexec hrow'
  rw [hevents]
  exact hgot row hrow

theorem Paged.whole (h₀ : s₀.Resting) (h : Paged env s₀ run filter tr s c) :
    c.done = true → Whole s run filter c.got := by
  induction h with
  | start => simp
  | wait h hexec ih =>
      exact fun hdone => (ih hdone).wait (h.readable h₀).toRunsApart hexec
  | status _ _ ih => exact ih
  | @page tr tr' u v c page limit h hexec hlimit hpage ih =>
      intro hdone
      obtain ⟨-, rfl⟩ := getRunEvents_eq hlimit hpage
      rw [Bool.or_eq_true, Bool.and_eq_true, decide_eq_true_eq] at hdone
      rcases hdone with hdone | ⟨hseen, hshort⟩
      · -- behind the last page there is nothing
        obtain ⟨hover, hgot⟩ := (ih hdone).wait (h.readable h₀).toRunsApart hexec
        refine ⟨hover, fun row' hrow' => ?_⟩
        rw [← hgot row' hrow', Paging.page, List.drop_length, List.take_nil, List.append_nil]
      · have hover := (Paged.wait h hexec).returned_of_seen h₀ hseen
        refine ⟨hover, fun row' hrow' => ?_⟩
        have hfirst := ((h.received h₀).wait (h.readable h₀) hexec).first hrow'
        exact Paging.append_page_of_short hfirst hshort

/-! ### Pages neither skip nor repeat -/

/-- **What a client has received is, at every moment, the first of the filtered events that the
run ends with**, and all of them once a short page came behind a terminal status. -/
theorem pages_neither_skip_nor_repeat (h₀ : s₀.Resting) (h : Paged env s₀ run filter tr s c) :
    ∀ tr' s', Exec (system env) s tr' s' → ∀ row, (s'.slice run).row = some row →
      c.got <+: filteredEvents (s'.slice run).events filter ∧
        (c.done = true → c.got = filteredEvents (s'.slice run).events filter) := by
  intro tr' s' hexec row hrow
  have hlater := Paged.wait h hexec
  exact ⟨(hlater.received h₀).first hrow, fun hdone => (hlater.whole h₀ hdone).2 row hrow⟩

end

/-- A run in two parts: two chunks are committed in the first. -/
def firstHalf : List (Entry (State Int) Action) × State Int :=
  (system clockEnv).played State.empty (submitOne (.single (some 3) (some 1)) ++ executeOne 10)
    (by decide)

def otherHalf : List (Entry (State Int) Action) × State Int :=
  (system clockEnv).played firstHalf.2 (List.replicate 6 (.work 3 {})) (by decide)

/-- The events from 2 on. -/
def fromTwo : EventFilter := { sinceTime := some 2 }

/-- A client reads a page of them while the run is running, and the last one behind its end. -/
theorem pages_of_two_halves : ∃ tr c,
    Paged clockEnv State.empty 3 fromTwo tr otherHalf.2 c ∧
      c.got = [Spur.tick 2, Spur.tick 3, Spur.tick 3] ∧ c.done = true ∧
      (otherHalf.2.slice 3).events.map eventFromRow =
        [Spur.tick 1, Spur.tick 2, Spur.tick 3, Spur.tick 3] ∧
      ∀ tr' s', Exec (system clockEnv) otherHalf.2 tr' s' → ∀ row, (s'.slice 3).row = some row →
        c.got <+: filteredEvents (s'.slice 3).events fromTwo ∧
          (c.done = true → c.got = filteredEvents (s'.slice 3).events fromTwo) := by
  have hpage : getRunEvents 3 (firstHalf.2.slice 3).row (firstHalf.2.slice 3).events fromTwo 5 0 =
      .ok [Spur.tick 2] := by
    obtain ⟨row, hrow⟩ : ∃ row, (firstHalf.2.slice 3).row = some row := ⟨_, rfl⟩
    have hnumbered : Numbered (firstHalf.2.slice 3).events := rfl
    rw [hrow, getRunEvents_some 3 row (by decide), hnumbered.filteredEvents]
    rfl
  have hlast : getRunEvents 3 (otherHalf.2.slice 3).row (otherHalf.2.slice 3).events fromTwo 5 1 =
      .ok [Spur.tick 3, Spur.tick 3] := by
    obtain ⟨row, hrow⟩ : ∃ row, (otherHalf.2.slice 3).row = some row := ⟨_, rfl⟩
    have hnumbered : Numbered (otherHalf.2.slice 3).events := rfl
    rw [hrow, getRunEvents_some 3 row (by decide), hnumbered.filteredEvents]
    rfl
  have hexec : Exec (system clockEnv) State.empty firstHalf.1 firstHalf.2 := Machine.played_exec _
  have hrest : Exec (system clockEnv) firstHalf.2 otherHalf.1 otherHalf.2 := Machine.played_exec _
  have hfirst := Paged.page (.wait .start hexec) Exec.nil (by decide) hpage
  have hseen := Paged.status (hfirst.wait hrest) rfl
  have hdone := hseen.page Exec.nil (by decide) hlast
  exact ⟨_, _, hdone, rfl, rfl, rfl,
    pages_neither_skip_nor_repeat State.empty_initial.resting hdone⟩

end SpurApi
