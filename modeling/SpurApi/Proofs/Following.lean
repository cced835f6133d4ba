/-
Following a run whose job is delivered again.

A second invocation numbers its events from 0, and the unique index refuses the numbers that
are taken.  So it adds nothing to a run that has events rather than adding them twice, and
what is stored of a run only grows at its end, whichever invocation writes it.  What a
client has read of a run stays right, and is all there is once the client has seen the run
end, unless the invocation that ended it is cut short while its session is closed: then the
run is started once more, and where it had no events yet it can get some.
-/
import SpurApi.Proofs.Paging
import SpurApi.Proofs.Restarts

namespace SpurApi

open Transition

section

variable {μ : Type} {env : Env μ} {s₀ u v s s' : State μ} {a : Action ⊕ Cut} {run : Uuid}
  {tr tr' : List (Entry (State μ) (Action ⊕ Cut))} {row row' : SimulationRunRow}
  {filter : EventFilter}

/-! ### The events grow at their end -/

/-- An operation on a run that is there before and after it. -/
theorem TakesAgain.events_grow {db db' : Db} {op : Option (Op ⊕ Restart)}
    (h : TakesAgain db op db') (hrow : db.runs run = some row) (hrow' : db'.runs run = some row') :
    db.events run <+: db'.events run := by
  match op, h with
  | none, h => exact (show db' = db from h) ▸ List.prefix_rfl
  | some (.inr restart), h =>
      obtain ⟨_, _, -, rfl⟩ := Db.modify_eq_some h
      exact List.prefix_rfl
  | some (.inl op), h =>
      have happly : op.apply db = some db' := h
      cases Op.fate happly run with
      | kept _ _ hevents => exact hevents.symm ▸ List.prefix_rfl
      | reported _ _ _ hevents =>
          rw [hevents]
          exact List.prefix_append _ _
      | deleted _ hnone => simp [hnone] at hrow'
      | @submitted project runs new read hop hmem hread =>
          subst hop
          simp only [Op.apply, hread, Option.ite_none_right_eq_some, Db.admits, Bool.and_eq_true,
            List.all_eq_true] at happly
          have hadmitted := happly.1.2 _ hmem
          simp [hrow] at hadmitted

theorem NotPending.again (h : NotPending s run) (hexec : Exec (redelivering env) s tr' s') :
    NotPending s' run := by
  refine hexec.invariant (I := fun s => NotPending s run) h fun s a s' hI hstep => ?_
  cases a with
  | inl a => exact hI.step hstep
  | inr cut =>
      obtain ⟨-, -, rfl⟩ := State.cutShort_some hstep
      exact hI

/-- A run that is there after a step was there before it, unless that inserted it. -/
theorem Resumed.row_before (h : Resumed tr s) (hnot : NotPending s run)
    (hstep : (redelivering env).step s a = some s') (hrow' : (s'.slice run).row = some row') :
    ∃ row, (s.slice run).row = some row := by
  cases a with
  | inr cut =>
      obtain ⟨-, -, rfl⟩ := State.cutShort_some hstep
      exact ⟨row', hrow'⟩
  | inl a => exact row_of_step h.toRunsApart hnot hstep hrow'

/-- **The events of a run that is there are the first of those it has later.** -/
theorem events_later (h₀ : s₀.Initial) (hs : Exec (redelivering env) s₀ tr s)
    (hnot : NotPending s run) (h : Exec (redelivering env) s tr' s')
    (hrow' : (s'.slice run).row = some row') :
    (∃ row, (s.slice run).row = some row) ∧ (s.slice run).events <+: (s'.slice run).events := by
  induction h generalizing row' with
  | nil => exact ⟨⟨row', hrow'⟩, List.prefix_rfl⟩
  | @snoc tr' u v a h hstep ih =>
      have hresumed := Resumed.exec h₀ (hs.append h)
      obtain ⟨row, hrow⟩ := hresumed.row_before (hnot.again h) hstep hrow'
      obtain ⟨hthere, hgrow⟩ := ih hrow
      exact ⟨hthere, hgrow.trans ((hresumed.takes hstep).events_grow hrow hrow')⟩

theorem filteredEvents_later (h₀ : s₀.Initial) (hs : Exec (redelivering env) s₀ tr s)
    (hnot : NotPending s run) (h : Exec (redelivering env) s tr' s')
    (hrow' : (s'.slice run).row = some row') (filter : EventFilter) :
    filteredEvents (s.slice run).events filter <+: filteredEvents (s'.slice run).events filter :=
  filteredEvents_grow ((Resumed.exec h₀ hs).sound.events run)
    ((Resumed.exec h₀ (hs.append h)).sound.events run) (events_later h₀ hs hnot h hrow').2 filter

/-! ### A run that is over -/

/-- The invocation of the run has ended. -/
def Over (s : State μ) (run : Uuid) : Prop := ∃ p, s.workers run = some p ∧ p.ended = true

/-- No invocation of the run was cut short that had ended. -/
def EndsUncut (run : Uuid) (tr : List (Entry (State μ) (Action ⊕ Cut))) : Prop :=
  ∀ e ∈ tr, e.act = .inr ⟨run⟩ → ∀ p, e.pre.workers run = some p → p.ended = false

theorem EndsUncut.left (h : EndsUncut run (tr ++ tr')) : EndsUncut run tr :=
  fun e he => h e (List.mem_append_left _ he)

theorem EndsUncut.right (h : EndsUncut run (tr ++ tr')) : EndsUncut run tr' :=
  fun e he => h e (List.mem_append_right _ he)

theorem EndsUncut.last (h : EndsUncut run (tr ++ [⟨s, a, s'⟩])) :
    a = .inr ⟨run⟩ → ∀ p, s.workers run = some p → p.ended = false :=
  h _ (List.mem_append_right _ (List.mem_singleton_self _))

theorem WorkerMove.not_ended {project : Option ProjectRow} {io : Io} {d d' : RunSlice}
    {p p' : WorkerPoint μ} (h : WorkerMove env project io d p p' d') : p.ended = false := by
  cases h <;> rfl

/-- A run that is over stays so, and no events come to it. -/
theorem Over.step (h : Over s run) (hr : Resumed tr s)
    (huncut : a = .inr ⟨run⟩ → ∀ p, s.workers run = some p → p.ended = false)
    (hstep : (redelivering env).step s a = some s') :
    Over s' run ∧ ∀ row', (s'.slice run).row = some row' →
      (s'.slice run).events = (s.slice run).events := by
  obtain ⟨p, hp, hended⟩ := h
  cases a with
  | inr cut =>
      have hne : run ≠ cut.run := by
        rintro rfl
        simp [huncut rfl p hp] at hended
      obtain ⟨-, -, rfl⟩ := State.cutShort_some hstep
      exact ⟨⟨p, (Function.update_of_ne hne ..).trans hp, hended⟩, fun _ _ => rfl⟩
  | inl a =>
      have hserved : s.step env a = some s' := hstep
      constructor
      · cases step_run hr.apart hserved run with
        | client _ hworker => exact ⟨p, hworker.trans hp, hended⟩
        | inserted _ _ _ _ _ hnone | delivered _ _ hnone => simp [hp] at hnone
        | worked _ hp' _ hpstep =>
            rw [hp, Option.some.injEq] at hp'
            subst hp'
            cases p <;> simp [WorkerPoint.ended] at hended <;> simp [workerStep] at hpstep
      · intro row' hrow'
        cases (hr.runs run).change hr.toRunsApart hserved hrow' with
        | inserted _ _ _ _ _ _ _ hnone | delivered _ hnone => simp [hp] at hnone
        | edited _ _ _ hevents => exact hevents
        | worked _ _ hp' _ _ hmove =>
            rw [hp, Option.some.injEq] at hp'
            rw [hp', hmove.not_ended] at hended
            simp at hended

theorem Over.again (h : Over s run) (h₀ : s₀.Initial) (hs : Exec (redelivering env) s₀ tr s)
    (hexec : Exec (redelivering env) s tr' s') (huncut : EndsUncut run tr') : Over s' run := by
  induction hexec with
  | nil => exact h
  | snoc hexec hstep ih =>
      exact ((ih huncut.left).step (Resumed.exec h₀ (hs.append hexec)) huncut.last hstep).1

theorem Over.events (h : Over s run) (h₀ : s₀.Initial) (hs : Exec (redelivering env) s₀ tr s)
    (hnot : NotPending s run) (hexec : Exec (redelivering env) s tr' s')
    (huncut : EndsUncut run tr') (hrow' : (s'.slice run).row = some row') :
    (s'.slice run).events = (s.slice run).events := by
  induction hexec generalizing row' with
  | nil => rfl
  | snoc hexec hstep ih =>
      have hresumed := Resumed.exec h₀ (hs.append hexec)
      obtain ⟨row, hrow⟩ := hresumed.row_before (hnot.again hexec) hstep hrow'
      have hover := h.again h₀ hs hexec huncut.left
      rw [(hover.step hresumed huncut.last hstep).2 row' hrow', ih huncut.left hrow]

/-- A worker writes a terminal status in its last step only. -/
theorem WorkerMove.ended_of_terminal {project : Option ProjectRow} {io : Io}
    {p p' : WorkerPoint μ} {events : List RunEventRow} {d : RunSlice} (hcopies : p.Copies row)
    (hmove : WorkerMove env project io ⟨some row, events⟩ p p' d) (hrow' : d.row = some row')
    (hterminal : row'.status.terminal = true) :
    row.status.terminal = true ∨ p'.ended = true := by
  cases hmove with
  | marked hcommit =>
      rw [commitRun_ok hcommit, flush_markRunning hcopies, Option.some.injEq] at hrow'
      subst hrow'
      simp [markRunning, RunStatus.terminal] at hterminal
  | flushed hchunk =>
      obtain ⟨-, rfl⟩ := onChunk_ok hcopies hchunk
      rw [Option.some.injEq] at hrow'
      subst hrow'
      exact .inl hterminal
  | handled | finished => exact .inr rfl
  | _ =>
      rw [Option.some.injEq] at hrow'
      subst hrow'
      exact .inl hterminal

/-- A run with a terminal status is over, unless an invocation was cut short that had ended. -/
theorem over_of_terminal (h₀ : s₀.Initial) (h : Exec (redelivering env) s₀ tr s)
    (huncut : EndsUncut run tr) : ∀ row, (s.slice run).row = some row →
      row.status.terminal = true → Over s run := by
  induction h with
  | nil =>
      intro row hrow
      exact (h₀.not_row hrow).elim
  | @snoc tr s s' a h hstep ih =>
      intro row' hrow' hterminal
      replace ih := ih huncut.left
      have hresumed := Resumed.exec h₀ h
      -- a run that was over before the step still is
      have hkept : ∀ row, (s.slice run).row = some row → row.status.terminal = true →
          Over s' run := fun row hrow hstatus =>
        ((ih row hrow hstatus).step hresumed huncut.last hstep).1
      cases a with
      | inr cut =>
          have hslice : s'.slice run = s.slice run := by
            obtain ⟨-, -, rfl⟩ := State.cutShort_some hstep
            rfl
          exact hkept row' (hslice ▸ hrow') hterminal
      | inl a =>
          have hserved : s.step env a = some s' := hstep
          cases (hresumed.runs run).change hresumed.toRunsApart hserved hrow' with
          | inserted _ _ _ _ _ hnew =>
              simp [hnew.isQueued.status, RunStatus.terminal] at hterminal
          | edited _ hrow _ _ hedit =>
              rw [hedit.same] at hterminal
              exact hkept _ hrow hterminal
          | delivered _ _ _ hslice => exact hkept row' (hslice ▸ hrow') hterminal
          | worked _ hrow _ hworker' hresumes hmove =>
              rcases hmove.ended_of_terminal hresumes.copies hrow' hterminal with
                hbefore | hended
              · exact hkept _ hrow hbefore
              · exact ⟨_, hworker', hended⟩

/-! ### A client that follows -/

/-- What a client has in a history in which jobs are delivered again.  It waits, reads the run, or
asks for the next page. -/
inductive Followed (env : Env μ) (s₀ : State μ) (run : Uuid) (filter : EventFilter) :
    List (Entry (State μ) (Action ⊕ Cut)) → State μ → Client → Prop
  | start : Followed env s₀ run filter [] s₀ ⟨[], false, false⟩
  | wait {tr tr' : List (Entry (State μ) (Action ⊕ Cut))} {s s' : State μ} {c : Client}
      (h : Followed env s₀ run filter tr s c) (hexec : Exec (redelivering env) s tr' s') :
      Followed env s₀ run filter (tr ++ tr') s' c
  | status {tr : List (Entry (State μ) (Action ⊕ Cut))} {s : State μ} {c : Client} {answer : Run}
      (h : Followed env s₀ run filter tr s c)
      (hread : getRun run (s.slice run).row = .ok answer) :
      Followed env s₀ run filter tr s { c with seen := c.seen || answer.status.terminal }
  | page {tr tr' : List (Entry (State μ) (Action ⊕ Cut))} {u v : State μ} {c : Client}
      {page : List SimEvent} {limit : Int} (h : Followed env s₀ run filter tr u c)
      (hexec : Exec (redelivering env) u tr' v) (hlimit : 1 ≤ limit)
      (hpage : getRunEvents run (u.slice run).row (v.slice run).events filter limit
        c.got.length = .ok page) :
      Followed env s₀ run filter (tr ++ tr') v
        ⟨c.got ++ page, c.seen, c.done || (c.seen && decide (page.length < limit.toNat))⟩

variable {c : Client} {got : List SimEvent}

theorem Followed.exec (h : Followed env s₀ run filter tr s c) :
    Exec (redelivering env) s₀ tr s := by
  induction h with
  | start => exact Exec.nil
  | wait _ hexec ih | page _ hexec _ _ ih => exact ih.append hexec
  | status _ _ ih => exact ih

/-- Waiting takes nothing back, whatever is delivered again. -/
theorem Received.again (h₀ : s₀.Initial) (hs : Exec (redelivering env) s₀ tr s)
    (h : Received s run filter got) (hexec : Exec (redelivering env) s tr' s') :
    Received s' run filter got := by
  rcases h with hnil | ⟨hnot, hgot⟩
  · exact .inl hnil
  · refine .inr ⟨hnot.again hexec, fun row' hrow' => ?_⟩
    obtain ⟨⟨row, hrow⟩, -⟩ := events_later h₀ hs hnot hexec hrow'
    exact (hgot row hrow).trans (filteredEvents_later h₀ hs hnot hexec hrow' filter)

theorem Followed.received (h₀ : s₀.Initial) (h : Followed env s₀ run filter tr s c) :
    Received s run filter c.got := by
  induction h with
  | start => exact .inl rfl
  | wait h hexec ih => exact ih.again h₀ h.exec hexec
  | status _ _ ih => exact ih
  | page h hexec hlimit hpage ih =>
      obtain ⟨hsome, rfl⟩ := getRunEvents_eq hlimit hpage
      obtain ⟨row, hrow⟩ := Option.isSome_iff_exists.mp hsome
      have hnot := notPending_of_row (Resumed.exec h₀ h.exec).apart hrow
      refine .inr ⟨hnot.again hexec, fun row' hrow' => ?_⟩
      have hfirst := (ih.again h₀ h.exec hexec).first hrow'
      exact Paging.append_page_isPrefix hfirst _

/-- Who has seen a terminal status has seen a run that is over. -/
theorem Followed.over (h₀ : s₀.Initial) (h : Followed env s₀ run filter tr s c) :
    EndsUncut run tr → c.seen = true → NotPending s run ∧ Over s run := by
  induction h with
  | start => simp
  | wait h hexec ih | page h hexec _ _ ih =>
      intro huncut hseen
      obtain ⟨hnot, hover⟩ := ih huncut.left hseen
      exact ⟨hnot.again hexec, hover.again h₀ h.exec hexec huncut.right⟩
  | @status tr s c answer h hread ih =>
      intro huncut hseen
      rw [Bool.or_eq_true] at hseen
      rcases hseen with hseen | hterminal
      · exact ih huncut hseen
      · have hresumed := Resumed.exec h₀ h.exec
        cases hrow : (s.slice run).row with
        | none => simp [getRun, hrow] at hread
        | some row =>
            simp only [getRun, hrow, Except.ok.injEq] at hread
            subst hread
            exact ⟨notPending_of_row hresumed.apart hrow,
              over_of_terminal h₀ h.exec huncut row hrow hterminal⟩

/-- The client has all there will be. -/
def HasAll (s : State μ) (run : Uuid) (filter : EventFilter) (got : List SimEvent) : Prop :=
  (NotPending s run ∧ Over s run) ∧ ∀ row, (s.slice run).row = some row →
    got = filteredEvents (s.slice run).events filter

theorem HasAll.again (h₀ : s₀.Initial) (hs : Exec (redelivering env) s₀ tr s)
    (h : HasAll s run filter got) (hexec : Exec (redelivering env) s tr' s')
    (huncut : EndsUncut run tr') : HasAll s' run filter got := by
  obtain ⟨⟨hnot, hover⟩, hgot⟩ := h
  refine ⟨⟨hnot.again hexec, hover.again h₀ hs hexec huncut⟩, fun row' hrow' => ?_⟩
  obtain ⟨⟨row, hrow⟩, -⟩ := events_later h₀ hs hnot hexec hrow'
  rw [hover.events h₀ hs hnot hexec huncut hrow']
  exact hgot row hrow

theorem Followed.hasAll (h₀ : s₀.Initial) (h : Followed env s₀ run filter tr s c) :
    EndsUncut run tr → c.done = true → HasAll s run filter c.got := by
  induction h with
  | start => simp
  | wait h hexec ih =>
      exact fun huncut hdone => (ih huncut.left hdone).again h₀ h.exec hexec huncut.right
  | status _ _ ih => exact ih
  | @page tr tr' u v c page limit h hexec hlimit hpage ih =>
      intro huncut hdone
      obtain ⟨-, rfl⟩ := getRunEvents_eq hlimit hpage
      rw [Bool.or_eq_true, Bool.and_eq_true, decide_eq_true_eq] at hdone
      rcases hdone with hdone | ⟨hseen, hshort⟩
      · -- behind the last page there is nothing
        obtain ⟨hover, hgot⟩ := (ih huncut.left hdone).again h₀ h.exec hexec huncut.right
        refine ⟨hover, fun row' hrow' => ?_⟩
        rw [← hgot row' hrow', Paging.page, List.drop_length, List.take_nil, List.append_nil]
      · refine ⟨(Followed.wait h hexec).over h₀ huncut hseen, fun row' hrow' => ?_⟩
        have hfirst := ((h.received h₀).again h₀ h.exec hexec).first hrow'
        exact Paging.append_page_of_short hfirst hshort

/-- **What a client has read of a run stays right when its job is delivered again**: it is at every
later moment the first of the run's filtered events, and all of them once a short page came
behind a terminal status, unless an invocation of the run is cut short that had ended. -/
theorem following_survives_redelivery (h₀ : s₀.Initial)
    (h : Followed env s₀ run filter tr s c) :
    ∀ tr' s', Exec (redelivering env) s tr' s' → ∀ row, (s'.slice run).row = some row →
      c.got <+: filteredEvents (s'.slice run).events filter ∧
        (c.done = true → EndsUncut run (tr ++ tr') →
          c.got = filteredEvents (s'.slice run).events filter) := by
  intro tr' s' hexec row hrow
  have hlater := Followed.wait h hexec
  exact ⟨(hlater.received h₀).first hrow,
    fun hdone huncut => (hlater.hasAll h₀ huncut hdone).2 row hrow⟩

end

/-- A run to 2 in chunks of 1 whose first chunk is committed. -/
def followedHalf : List (Entry (State Int) (Action ⊕ Cut)) × State Int :=
  (redelivering clockEnv).played State.empty
    ((submitOne (.single (some 2) (some 1)) ++ executeOne 7).map Sum.inl) (by decide)

/-- Its invocation is cut short, and the next one ends on the events that are there. -/
def cutHalf : List (Entry (State Int) (Action ⊕ Cut)) × State Int :=
  (redelivering clockEnv).played followedHalf.2
    (.inr ⟨3⟩ :: (executeOne 8).map Sum.inl) (by decide)

/-- What was read before the cut is what is stored after the second invocation. -/
theorem page_survives_a_cut : ∃ c,
    Followed clockEnv State.empty 3 {} followedHalf.1 followedHalf.2 c ∧
      c.got = [Spur.tick 1] ∧ (cutHalf.2.workers 3).map WorkerPoint.ended = some true ∧
      ∀ tr' s', Exec (redelivering clockEnv) followedHalf.2 tr' s' →
        ∀ row, (s'.slice 3).row = some row → c.got <+: filteredEvents (s'.slice 3).events {} ∧
          (c.done = true → EndsUncut 3 (followedHalf.1 ++ tr') →
            c.got = filteredEvents (s'.slice 3).events {}) := by
  have hexec : Exec (redelivering clockEnv) State.empty followedHalf.1 followedHalf.2 :=
    Machine.played_exec _
  have hpage : getRunEvents 3 (followedHalf.2.slice 3).row (followedHalf.2.slice 3).events {} 5 0 =
      .ok [Spur.tick 1] := by
    obtain ⟨row, hrow⟩ : ∃ row, (followedHalf.2.slice 3).row = some row := ⟨_, rfl⟩
    have hnumbered : Numbered (followedHalf.2.slice 3).events := rfl
    rw [hrow, getRunEvents_some 3 row (by decide), hnumbered.filteredEvents]
    rfl
  have hread := Followed.page (.wait .start hexec) Exec.nil (by decide) hpage
  rw [List.append_nil, List.nil_append] at hread
  exact ⟨_, hread, rfl, rfl, following_survives_redelivery State.empty_initial hread⟩

end SpurApi
