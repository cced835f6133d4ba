/-
What a reader of a run can rely on.

A reader makes two queries, first for the row and then for the events, and other sessions
commit in between.  The worker commits the terminal status last, so that a reader which has
seen one finds all the events there will ever be; and it only appends, so that a reader which
has seen `RUNNING` finds the first of them.

None of this depends on what a submission stores, so it holds of a run whose row is older than
some of its columns as well.  Only its summaries do: without a snapshot they are made with the
spec that the project has when they are asked for, and change with it.
-/
import SpurApi.Proofs.Gone

namespace SpurApi

open Transition

/-! ### What a query finds -/

/-- The events that pass the filter, in the order of their numbers. -/
def filteredEvents (rows : List RunEventRow) (filter : EventFilter) : List SimEvent :=
  (orderBySeq (rows.filter filter.accepts)).map eventFromRow

theorem filteredEvents_all (rows : List RunEventRow) :
    filteredEvents rows {} = (orderBySeq rows).map eventFromRow := by
  have hall : rows.filter (EventFilter.accepts {}) = rows :=
    List.filter_eq_self.mpr fun row _ => rfl
  rw [filteredEvents, hall]

/-- The rows are numbered from 0 on, in the order they were inserted. -/
def Numbered (rows : List RunEventRow) : Prop :=
  rows.map RunEventRow.seq = List.range rows.length

theorem Numbered.nil : Numbered [] := rfl

/-- A chunk is numbered on from the rows that are stored. -/
theorem Numbered.append {rows : List RunEventRow} (h : Numbered rows) (es : List SimEvent) :
    Numbered (rows ++ eventRows rows.length es) := by
  rw [Numbered, seq_append h, List.length_append, eventRows_length]

section

variable {rows rows' : List RunEventRow} {filter : EventFilter}

/-- Rows that are numbered in order are in the order of their numbers. -/
theorem Numbered.orderBySeq (h : Numbered rows) (hsub : rows'.Sublist rows) :
    SpurApi.orderBySeq rows' = rows' := by
  have hlt : (rows.map RunEventRow.seq).Pairwise (· < ·) := by
    rw [h]
    exact List.pairwise_lt_range
  have hpair : rows'.Pairwise fun a b => a.seq < b.seq := (List.pairwise_map.mp hlt).sublist hsub
  exact List.mergeSort_of_pairwise (hpair.imp fun h => by simpa using Nat.le_of_lt h)

theorem Numbered.filteredEvents (h : Numbered rows) (filter : EventFilter) :
    filteredEvents rows filter = (rows.filter filter.accepts).map eventFromRow := by
  rw [SpurApi.filteredEvents, h.orderBySeq List.filter_sublist]

/-- What a query finds grows at its end. -/
theorem filteredEvents_grow (hrows : Numbered rows) (hrows' : Numbered rows') (h : rows <+: rows')
    (filter : EventFilter) : filteredEvents rows filter <+: filteredEvents rows' filter := by
  rw [hrows.filteredEvents, hrows'.filteredEvents]
  exact (h.filter _).map _

/-- A page is cut from what the query finds. -/
theorem getRunEvents_eq {id : Uuid} {row : Option SimulationRunRow} {limit : Int} {offset : Nat}
    {page : List SimEvent} (hlimit : 1 ≤ limit)
    (h : getRunEvents id row rows filter limit offset = .ok page) :
    row.isSome ∧ page = Paging.page (filteredEvents rows filter) offset limit.toNat := by
  unfold getRunEvents at h
  split at h
  · simp at h
  · have hpos : ¬ limit < 0 := by omega
    simp only [hpos, if_false, Except.ok.injEq] at h
    exact ⟨rfl, by rw [← h, Paging.page_map, filteredEvents]⟩

theorem getRunEvents_some (id : Uuid) (row : SimulationRunRow) {limit : Int}
    (hlimit : 0 ≤ limit) (offset : Nat) :
    getRunEvents id (some row) rows filter limit offset =
      .ok (Paging.page (filteredEvents rows filter) offset limit.toNat) := by
  have hpos : ¬ limit < 0 := by omega
  simp only [getRunEvents, hpos, if_false, Paging.page_map, filteredEvents]

end

section

variable {μ : Type} {env : Env μ} {s₀ m u v s s' : State μ} {a : Action} {run : Uuid}
  {tr tr₁ tr₂ : List (Entry (State μ) Action)} {row row' : SimulationRunRow}
  {events : List RunEventRow}

/-! ### The events of a run only grow -/

/-- A step appends to the events of a run, if to anything. -/
theorem events_grow_step (hapart : RunsApart s) (hnot : NotPending s run)
    (hstep : s.step env a = some s') (hrow' : (s'.slice run).row = some row') :
    (s.slice run).events <+: (s'.slice run).events := by
  cases hapart.changed hstep hrow' with
  | inserted _ hreq hsub hid =>
      exact absurd (List.mem_map.mpr ⟨_, hsub, hid⟩) (hnot.2 _ _ hreq)
  | edited _ _ _ hevents => exact hevents.symm ▸ List.prefix_rfl
  | delivered _ _ _ hslice => exact hslice.symm ▸ List.prefix_rfl
  | worked _ _ _ _ _ hmove =>
      obtain ⟨-, -, hevents⟩ := hmove.extends
      exact hevents

/-- **The events of a run are a prefix of what they become.** -/
theorem events_grow (hm : RunsApart m) (hnot : NotPending m run) (h : Exec (system env) m tr s)
    (hrow' : (s.slice run).row = some row') :
    (m.slice run).events <+: (s.slice run).events := by
  induction h generalizing row' with
  | nil => exact List.prefix_rfl
  | snoc h hstep ih =>
      obtain ⟨row, hrow⟩ := row_of_step (hm.later h) (hnot.exec h) hstep hrow'
      exact (ih hrow).trans (events_grow_step (hm.later h) (hnot.exec h) hstep hrow')

/-! ### A run that is over -/

theorem returned_step (hapart : IdsApart s) (hreturned : s.workers run = some .returned)
    (hstep : s.step env a = some s') : s'.workers run = some .returned := by
  cases step_run hapart hstep run with
  | client _ hworker => rw [hworker, hreturned]
  | inserted _ _ _ _ _ hnone | delivered _ _ hnone => simp [hreturned] at hnone
  | worked _ hp _ hpstep =>
      rw [hreturned, Option.some.injEq] at hp
      subst hp
      simp [workerStep] at hpstep

/-- After the invocation has returned, a step leaves the run to clients. -/
theorem settled_step (hapart : RunsApart s) (hreturned : s.workers run = some .returned)
    (hstep : s.step env a = some s') (hrow' : (s'.slice run).row = some row') :
    ∃ row, (s.slice run).row = some row ∧ SameButClient row row' ∧
      (s'.slice run).events = (s.slice run).events := by
  cases hapart.changed hstep hrow' with
  | inserted _ _ _ _ _ _ _ hnone | delivered _ hnone => simp [hreturned] at hnone
  | edited _ hrow _ hevents hedit => exact ⟨_, hrow, hedit.same, hevents⟩
  | worked _ _ hp _ _ hmove =>
      rw [hreturned, Option.some.injEq] at hp
      subst hp
      nomatch hmove

theorem returned_exec (hm : RunsApart m) (hreturned : m.workers run = some .returned)
    (h : Exec (system env) m tr s) : s.workers run = some .returned := by
  induction h with
  | nil => exact hreturned
  | snoc h hstep ih => exact returned_step (hm.later h).apart ih hstep

/-- **A run that is over keeps what the worker wrote.** -/
theorem settled_run (hm : RunsApart m) (hreturned : m.workers run = some .returned)
    (h : Exec (system env) m tr s) (hrow' : (s.slice run).row = some row') :
    ∃ row, (m.slice run).row = some row ∧ SameButClient row row' ∧
      (s.slice run).events = (m.slice run).events := by
  induction h generalizing row' with
  | nil => exact ⟨row', hrow', .refl row', rfl⟩
  | snoc h hstep ih =>
      obtain ⟨row, hrow, hclient, hevents⟩ :=
        settled_step (hm.later h) (returned_exec hm hreturned h) hstep hrow'
      obtain ⟨row₀, hrow₀, hclient₀, hevents₀⟩ := ih hrow
      exact ⟨row₀, hrow₀, hclient₀.trans hclient, hevents.trans hevents₀⟩

/-! ### What is stored of a run -/

/-- What is stored of a run while its worker stands at a point, however old its row is. -/
def WorkerPoint.Leaves (row : SimulationRunRow) (events : List RunEventRow) :
    WorkerPoint μ → Prop
  | .loading => row.status = .queued ∧ events = []
  | .loadingProject copy | .marking copy _ =>
      row.status = .queued ∧ events = [] ∧ SameButClient copy row
  | .running w _ =>
      row.status = .running ∧ SameButClient w.row row ∧ Numbered events ∧ w.seq = events.length
  | .handling w _ | .finishing w _ =>
      row.status = .running ∧ SameButClient w.row row ∧ Numbered events
  | .returned => row.status.terminal = true ∧ Numbered events
  | .raised _ => row.status.terminal = false ∧ Numbered events

/-- What is stored of a run, by where its worker stands. -/
def RunLeaves (d : RunSlice) (worker : Option (WorkerPoint μ)) : Prop :=
  ∀ row, d.row = some row →
    match worker with
    | none => row.status = .queued ∧ d.events = []
    | some p => p.Leaves row d.events

variable {p p' : WorkerPoint μ}

theorem WorkerPoint.Leaves.numbered (h : p.Leaves row events) : Numbered events := by
  cases p with
  | loading => exact h.2 ▸ .nil
  | loadingProject | marking => exact h.2.1 ▸ .nil
  | running => exact h.2.2.1
  | handling | finishing => exact h.2.2
  | returned | raised => exact h.2

theorem WorkerPoint.Leaves.edited {cancels : Prop} (h : p.Leaves row events)
    (hedit : ClientEdit cancels row row') : p.Leaves row' events := by
  have hstatus : row'.status = row.status := by rw [hedit.same]
  cases p with
  | loading | returned | raised => exact ⟨hstatus ▸ h.1, h.2⟩
  | loadingProject | marking => exact ⟨hstatus ▸ h.1, h.2.1, h.2.2.trans hedit.same⟩
  | running => exact ⟨hstatus ▸ h.1, h.2.1.trans hedit.same, h.2.2⟩
  | handling | finishing => exact ⟨hstatus ▸ h.1, h.2.1.trans hedit.same, h.2.2⟩

private theorem settle_leaves {w : WorkerSession} {q : RunPoint μ}
    (hstatus : row.status = .running) (hcopy : SameButClient w.row row)
    (hnumbered : Numbered events) (hseq : w.seq = events.length) :
    (w.settle q).Leaves row events := by
  cases q with
  | finished | raised => exact ⟨hstatus, hcopy, hnumbered⟩
  | _ => exact ⟨hstatus, hcopy, hnumbered, hseq⟩

/-- One step of a worker. -/
theorem WorkerPoint.Leaves.step {project : Option ProjectRow} {io : Io} {d : RunSlice}
    (h : p.Leaves row events)
    (hmove : WorkerMove env project io ⟨some row, events⟩ p p' d) :
    ∃ row', d.row = some row' ∧ p'.Leaves row' d.events := by
  cases hmove with
  | loadRaised =>
      exact ⟨row, rfl, by rw [h.1]; rfl, h.2 ▸ .nil⟩
  | loaded hrow | loadedBare hrow =>
      rw [Option.some.injEq] at hrow
      subst hrow
      exact ⟨row, rfl, h.1, h.2, .refl row⟩
  | projectRaised | markRaised =>
      exact ⟨row, rfl, by rw [h.1]; rfl, h.2.1 ▸ .nil⟩
  | projectLoaded => exact ⟨row, rfl, h⟩
  | @marked copy spec _ hcommit =>
      obtain ⟨-, hevents, hcopy⟩ := h
      subst hevents
      rw [commitRun_ok hcommit, flush_markRunning hcopy]
      refine ⟨_, rfl, rfl, ?_, .nil, rfl⟩
      rw [hcopy]
      rfl
  | askRaised hask =>
      obtain ⟨hcopy, -, -⟩ := row_of_isCancelled_error hask
      exact ⟨row, rfl, h.1, hcopy ▸ h.2.1, h.2.2.1⟩
  | @asked w l row₁ _ hrow =>
      rw [Option.some.injEq] at hrow
      subst hrow
      refine ⟨row, rfl, h.1, ?_, h.2.2⟩
      have hsame := h.2.1
      rw [SameButClient] at hsame ⊢
      rw [hsame]
  | flushRaised => exact ⟨row, rfl, h.1, h.2.1, h.2.2.1⟩
  | @flushed w w' l place _ hchunk =>
      obtain ⟨hstatus, hcopy, hnumbered, hseq⟩ := h
      obtain ⟨rfl, rfl⟩ := onChunk_ok hcopy hchunk
      refine ⟨_, rfl, settle_leaves hstatus ?_ ?_ ?_⟩
      · rw [hcopy]
        rfl
      · rw [hseq]
        exact hnumbered.append _
      · simp only [List.length_append, eventRows_length, hseq]
  | advanced => exact ⟨row, rfl, settle_leaves h.1 h.2.1 h.2.2.1 h.2.2.2⟩
  | handlerLost | handlerRaised | finishRaised =>
      exact ⟨row, rfl, by rw [h.1]; rfl, h.2.2⟩
  | handled _ hcommit =>
      rw [commitRun_ok hcommit, flush_markFailed h.2.1, List.append_nil]
      exact ⟨_, rfl, rfl, h.2.2⟩
  | @finished _ outcome _ hcommit =>
      rw [commitRun_ok hcommit, flush_markFinished h.2.1, List.append_nil]
      exact ⟨_, rfl, by cases outcome <;> rfl, h.2.2⟩

/-- Every run that is there is as its worker leaves it. -/
structure Readable (s : State μ) : Prop extends RunsApart s where
  runs : ∀ run, RunLeaves (s.slice run) (s.workers run)

theorem Readable.numbered (h : Readable s) (hrow : (s.slice run).row = some row) :
    Numbered (s.slice run).events := by
  have hleaves := h.runs run row hrow
  cases hworker : s.workers run with
  | none =>
      rw [hworker] at hleaves
      exact hleaves.2 ▸ .nil
  | some p =>
      rw [hworker] at hleaves
      exact WorkerPoint.Leaves.numbered hleaves

/-- A run that is over has been executed to its end. -/
theorem Readable.returned (h : Readable s) (hrow : (s.slice run).row = some row)
    (hterminal : row.status.terminal = true) : s.workers run = some .returned := by
  have hleaves := h.runs run row hrow
  cases hworker : s.workers run with
  | none =>
      rw [hworker] at hleaves
      simp [hleaves.1, RunStatus.terminal] at hterminal
  | some p =>
      rw [hworker] at hleaves
      cases p with
      | returned => rfl
      | raised => simp [hleaves.1] at hterminal
      | _ => simp [hleaves.1, RunStatus.terminal] at hterminal

theorem Readable.step (h : Readable s) (hstep : s.step env a = some s') : Readable s' where
  toRunsApart := h.toRunsApart.step hstep
  runs run row' hrow' := by
    have hchange : RunChange env WorkerPoint.Leaves s a s' run row' :=
      h.toRunsApart.change hstep hrow' fun row p hrow hp => by
        have hleaves := h.runs run row hrow
        rwa [hp] at hleaves
    cases hchange with
    | inserted _ _ _ _ _ hnew _ _ hworker' hevents' =>
        rw [hworker']
        exact ⟨hnew.isQueued.status, hevents'⟩
    | edited _ hrow hworker hevents hedit =>
        have hleaves := h.runs run _ hrow
        rw [hworker, hevents]
        cases hp : s.workers run with
        | none =>
            rw [hp] at hleaves
            exact ⟨by rw [hedit.same]; exact hleaves.1, hleaves.2⟩
        | some p =>
            rw [hp] at hleaves
            exact WorkerPoint.Leaves.edited hleaves hedit
    | delivered _ hworker hworker' hslice =>
        rw [hslice] at hrow' ⊢
        have hleaves := h.runs run _ hrow'
        rw [hworker] at hleaves
        rw [hworker']
        exact hleaves
    | worked _ hrow _ hworker' hleaves hmove =>
        obtain ⟨row₁, hrow₁, hleaves'⟩ := WorkerPoint.Leaves.step hleaves hmove
        rw [hrow', Option.some.injEq] at hrow₁
        subst hrow₁
        rw [hworker']
        exact hleaves'

theorem Readable.later (hm : Readable m) (h : Exec (system env) m tr s) : Readable s :=
  h.invariant hm fun _ _ _ hI hstep => hI.step hstep

/-! ### Where a history starts -/

/-- Nothing is in flight.  The runs that are stored, which can be older than some of the columns
of their rows, wait for a worker or have been executed. -/
structure State.Resting (s : State μ) : Prop where
  requests : ∀ r, s.requests r = none
  minted : ∀ run, s.slice run ≠ .blank ∨ s.workers run ≠ none ∨
    (∃ j ∈ s.backend.jobs, j.run = run) → run ∈ s.backend.minted
  waiting : ∀ run row, (s.slice run).row = some row → s.workers run = none →
    row.status = .queued ∧ (s.slice run).events = []
  executed : ∀ run row p, (s.slice run).row = some row → s.workers run = some p →
    p.ended = true ∧ p.Leaves row (s.slice run).events

theorem State.Initial.resting (h : s.Initial) : s.Resting where
  requests := h.requests
  minted := h.idsApart.minted
  waiting _ _ hrow := (h.not_row hrow).elim
  executed _ _ _ hrow := (h.not_row hrow).elim

theorem State.Resting.readable (h : s.Resting) : Readable s where
  apart := {
    minted := h.minted
    ids := fun r q hq => by simp [h.requests] at hq
    nodup := fun r q hq => by simp [h.requests] at hq
    disjoint := fun r r' q q' _ hq => by simp [h.requests] at hq
    pending := fun r q hq => by simp [h.requests] at hq }
  pending r project body rows hreq := by simp [h.requests] at hreq
  runs run row hrow := by
    cases hworker : s.workers run with
    | none => exact h.waiting run row hrow hworker
    | some p => exact (h.executed run row p hrow hworker).2

theorem Readable.exec (h₀ : s₀.Resting) (h : Exec (system env) s₀ tr s) : Readable s :=
  h₀.readable.later h

/-! ### Two queries -/

/-- What `_analyze_run` returns for a run with this status and these events. -/
def analysisOf {ρ : Type} (analyze : Analyze ρ) (run : Uuid) (status : RunStatus)
    (events : List SimEvent) (spec : Json.Object) (threshold : Int) :
    Except ApiError (RunStatus × Analysis ρ) :=
  match analyze events spec threshold with
  | .ok analysis => .ok (status, analysis)
  | .error e =>
      if e.kind = .inputMismatchError then
        .error (.runAnalysis s!"Run {run.text}'s events do not match its project: {e.text}")
      else .error (.unhandled e)

/-- What a run is analysed against: its snapshot, or where it has none what its project holds. -/
def usedSpec (row : SimulationRunRow) (project : Option ProjectRow) : Option Json.Object :=
  row.specSnapshot.orElse fun _ => project.map ProjectRow.spec

/-- A run with a snapshot is always analysed against it. -/
theorem usedSpec_congr {project project' : Option ProjectRow} (hspec : row.specSnapshot = none →
    project'.map ProjectRow.spec = project.map ProjectRow.spec) :
    usedSpec row project' = usedSpec row project := by
  cases hsnapshot : row.specSnapshot with
  | none => simp only [usedSpec, hsnapshot, Option.orElse, hspec hsnapshot]
  | some spec => simp only [usedSpec, hsnapshot, Option.orElse]

section

variable {rows : List RunEventRow} {project project' : Option ProjectRow} {spec : Json.Object}
  {ρ : Type} (analyze : Analyze ρ) (threshold : Int)

theorem analyzeRun_eq (hstatus : row.status ≠ .queued) (hspec : usedSpec row project = some spec) :
    analyzeRun analyze run (some row) project rows threshold =
      analysisOf analyze run row.status (filteredEvents rows {}) spec threshold := by
  rw [usedSpec] at hspec
  rw [filteredEvents_all]
  cases hanalyzed : analyze ((orderBySeq rows).map eventFromRow) spec threshold with
  | ok analysis => simp only [analyzeRun, hstatus, if_false, hspec, analysisOf, hanalyzed]
  | error e => simp only [analyzeRun, hstatus, if_false, hspec, analysisOf, hanalyzed]

/-- An analysis depends on what clients do not edit, and on the spec that is used. -/
theorem analyzeRun_congr (hsame : SameButClient row row')
    (hspec : usedSpec row project' = usedSpec row project) :
    analyzeRun analyze run (some row') project' rows threshold =
      analyzeRun analyze run (some row) project rows threshold := by
  have hused : usedSpec row' project' = usedSpec row project := by
    rw [hsame]
    exact hspec
  have hstatus : row'.status = row.status := by rw [hsame]
  rw [usedSpec, usedSpec] at hused
  simp only [analyzeRun, hused, hstatus]

end

/-- A query for the run in `u` and, behind it, one for its events in `v`, both after `s`; the run
is not deleted meanwhile. -/
structure TwoQueries (env : Env μ) (s : State μ) (run : Uuid) (u v : State μ) : Prop where
  first : ∃ tr, Exec (system env) s tr u
  second : ∃ tr, Exec (system env) u tr v
  there : ∃ row, (v.slice run).row = some row

/-- What a reader can rely on that got `answer` for the run in `s`.  Its own next queries are among
those that are spoken of, and so is everybody else's. -/
structure ReadsFinal (env : Env μ) (s : State μ) (run : Uuid) (answer : Run) : Prop where
  /-- the invocation is over -/
  finished : answer.status.terminal = true → s.workers run = some .returned
  /-- no step but a deletion adds an event, or removes or changes one -/
  events : answer.status.terminal = true → ∀ u v, TwoQueries env s run u v →
    (v.slice run).events = (s.slice run).events
  /-- a query finds the page of all of them, in the order of their numbers -/
  pages : answer.status.terminal = true → ∀ u v, TwoQueries env s run u v →
    ∀ filter limit offset, 0 ≤ limit →
      getRunEvents run (u.slice run).row (v.slice run).events filter limit offset =
        .ok (Paging.page (filteredEvents (s.slice run).events filter) offset limit.toNat)
  /-- and an analysis is one of all of them -/
  analysis : answer.status.terminal = true → ∀ u v, TwoQueries env s run u v →
    ∀ row project spec, (s.slice run).row = some row → usedSpec row project = some spec →
      ∀ {ρ : Type} (analyze : Analyze ρ) (threshold : Int),
        analyzeRun analyze run (u.slice run).row project (v.slice run).events threshold =
          analysisOf analyze run answer.status (filteredEvents (s.slice run).events {}) spec
            threshold
  /-- so any two summaries are the same, unless the run has no snapshot and the project another
  spec than it had -/
  summary : answer.status.terminal = true → ∀ u v u' v', TwoQueries env s run u v →
    TwoQueries env s run u' v' → ∀ row project project', (s.slice run).row = some row →
      (row.specSnapshot = none → project'.map ProjectRow.spec = project.map ProjectRow.spec) →
        ∀ {ρ : Type} (analyze : Analyze ρ) (threshold : Int),
          getRunSummary (analyzeRun analyze run (u'.slice run).row project'
              (v'.slice run).events threshold) =
            getRunSummary (analyzeRun analyze run (u.slice run).row project
              (v.slice run).events threshold)
  /-- and any two pages of visits -/
  visits : answer.status.terminal = true → ∀ u v u' v', TwoQueries env s run u v →
    TwoQueries env s run u' v' → ∀ row project project', (s.slice run).row = some row →
      (row.specSnapshot = none → project'.map ProjectRow.spec = project.map ProjectRow.spec) →
        ∀ {ρ : Type} (analyze : Analyze ρ) (trainUid componentUid : Option String)
          (limit offset : Nat),
          getRunVisits (analyzeRun analyze run (u'.slice run).row project'
              (v'.slice run).events visitsThreshold) trainUid componentUid limit offset =
            getRunVisits (analyzeRun analyze run (u.slice run).row project
              (v.slice run).events visitsThreshold) trainUid componentUid limit offset
  /-- a reader that saw `RUNNING` gets pages of what is the first part of what there will be -/
  running : answer.status = .running → ∀ u v, TwoQueries env s run u v →
    ∀ filter, (∀ limit offset, 0 ≤ limit →
      getRunEvents run (u.slice run).row (v.slice run).events filter limit offset =
        .ok (Paging.page (filteredEvents (v.slice run).events filter) offset limit.toNat)) ∧
      ∀ tr t, Exec (system env) v tr t → ∀ row, (t.slice run).row = some row →
        filteredEvents (v.slice run).events filter <+: filteredEvents (t.slice run).events filter
  /-- or an analysis of it -/
  runningAnalysis : answer.status = .running → ∀ v, TwoQueries env s run s v →
    ∀ row project spec, (s.slice run).row = some row → usedSpec row project = some spec →
      ∀ {ρ : Type} (analyze : Analyze ρ) (threshold : Int),
        analyzeRun analyze run (s.slice run).row project (v.slice run).events threshold =
          analysisOf analyze run .running (filteredEvents (v.slice run).events {}) spec threshold

/-- The run is there at the first of two queries. -/
theorem TwoQueries.exists_row (h : TwoQueries env s run u v) (hs : RunsApart s)
    (hnot : NotPending s run) : ∃ row, (u.slice run).row = some row := by
  obtain ⟨tr₁, hu⟩ := h.first
  obtain ⟨tr₂, hv⟩ := h.second
  obtain ⟨row', hrow'⟩ := h.there
  exact row_of_later (hs.later hu) (hnot.exec hu) hv hrow'

/-- What two queries find of a run that is over. -/
theorem TwoQueries.settled (h : TwoQueries env s run u v) (hs : RunsApart s)
    (hreturned : s.workers run = some .returned) (hrow : (s.slice run).row = some row) :
    ∃ row', (u.slice run).row = some row' ∧ SameButClient row row' ∧
      (v.slice run).events = (s.slice run).events := by
  obtain ⟨rowᵤ, hrowᵤ⟩ := h.exists_row hs (notPending_of_row hs.apart hrow)
  obtain ⟨tr₁, hu⟩ := h.first
  obtain ⟨tr₂, hv⟩ := h.second
  obtain ⟨rowᵥ, hrowᵥ⟩ := h.there
  obtain ⟨row₀, hrow₀, hsame, -⟩ := settled_run hs hreturned hu hrowᵤ
  rw [hrow, Option.some.injEq] at hrow₀
  subst hrow₀
  obtain ⟨-, -, -, hevents⟩ := settled_run hs hreturned (hu.append hv) hrowᵥ
  exact ⟨rowᵤ, hrowᵤ, hsame, hevents⟩

/-- Two analyses of a run that is over are the same, if they use the same spec. -/
theorem TwoQueries.same_analysis {u' v' : State μ} (h : TwoQueries env s run u v)
    (h' : TwoQueries env s run u' v') (hs : RunsApart s)
    (hreturned : s.workers run = some .returned) (hrow : (s.slice run).row = some row)
    {project project' : Option ProjectRow} (hspec : usedSpec row project' = usedSpec row project)
    {ρ : Type} (analyze : Analyze ρ) (threshold : Int) :
    analyzeRun analyze run (u'.slice run).row project' (v'.slice run).events threshold =
      analyzeRun analyze run (u.slice run).row project (v.slice run).events threshold := by
  obtain ⟨_, hrowᵤ, hsame, hevents⟩ := h.settled hs hreturned hrow
  obtain ⟨_, hrowᵤ', hsame', hevents'⟩ := h'.settled hs hreturned hrow
  rw [hrowᵤ, hrowᵤ', hevents, hevents', analyzeRun_congr analyze threshold hsame' hspec,
    analyzeRun_congr analyze threshold hsame (rfl : _ = usedSpec row project)]

/-- **A reader that has seen a terminal status has the final results**, whatever commits come
between its queries and after them. -/
theorem reads_final (h₀ : s₀.Resting) (hs : Exec (system env) s₀ tr s) {answer : Run}
    (hread : getRun run (s.slice run).row = .ok answer) : ReadsFinal env s run answer := by
  have hreadable := Readable.exec h₀ hs
  have hapart := hreadable.toRunsApart
  obtain ⟨row, hrow, rfl⟩ : ∃ row, (s.slice run).row = some row ∧ toRun run row = answer := by
    cases hrow : (s.slice run).row with
    | none => simp [getRun, hrow] at hread
    | some row => exact ⟨row, rfl, by simpa [getRun, hrow] using hread⟩
  have hnot : NotPending s run := notPending_of_row hapart.apart hrow
  have hthe : ∀ {row'}, (s.slice run).row = some row' → row' = row := fun hrow' =>
    Option.some.inj (hrow'.symm.trans hrow)
  have hover : row.status.terminal = true → s.workers run = some .returned :=
    hreadable.returned hrow
  exact {
    finished := hover
    events := fun hterminal u v h => by
      obtain ⟨_, -, -, hevents⟩ := h.settled hapart (hover hterminal) hrow
      exact hevents
    pages := fun hterminal u v h filter limit offset hlimit => by
      obtain ⟨_, hrowᵤ, -, hevents⟩ := h.settled hapart (hover hterminal) hrow
      rw [hrowᵤ, hevents, getRunEvents_some run _ hlimit]
    analysis := fun hterminal u v h row₁ project spec hrow₁ hspec ρ analyze threshold => by
      obtain rfl := hthe hrow₁
      obtain ⟨_, hrowᵤ, hsame, hevents⟩ := h.settled hapart (hover hterminal) hrow
      have hstatus : row₁.status ≠ .queued := by
        intro hqueued
        rw [show (toRun run row₁).status = row₁.status from rfl, hqueued] at hterminal
        simp [RunStatus.terminal] at hterminal
      rw [hrowᵤ, hevents,
        analyzeRun_congr analyze threshold hsame (rfl : _ = usedSpec row₁ project),
        analyzeRun_eq analyze threshold hstatus hspec]
      rfl
    summary := fun hterminal u v u' v' h h' row₁ project project' hrow₁ hspec ρ analyze
        threshold => by
      obtain rfl := hthe hrow₁
      rw [h.same_analysis h' hapart (hover hterminal) hrow (usedSpec_congr hspec)]
    visits := fun hterminal u v u' v' h h' row₁ project project' hrow₁ hspec ρ analyze _ _ _ _ => by
      obtain rfl := hthe hrow₁
      rw [h.same_analysis h' hapart (hover hterminal) hrow (usedSpec_congr hspec)]
    running := fun _ u v h filter => by
      refine ⟨fun limit offset hlimit => ?_, fun tr t ht rowₜ hrowₜ => ?_⟩
      · obtain ⟨rowᵤ, hrowᵤ⟩ := h.exists_row hapart hnot
        rw [hrowᵤ, getRunEvents_some run rowᵤ hlimit]
      · obtain ⟨tr₁, hu⟩ := h.first
        obtain ⟨tr₂, hv⟩ := h.second
        obtain ⟨rowᵥ, hrowᵥ⟩ := h.there
        have hreadableᵥ := hreadable.later (hu.append hv)
        exact filteredEvents_grow (hreadableᵥ.numbered hrowᵥ)
          ((hreadableᵥ.later ht).numbered hrowₜ)
          (events_grow hreadableᵥ.toRunsApart (hnot.exec (hu.append hv)) ht hrowₜ) filter
    runningAnalysis := fun hrunning v h row₁ project spec hrow₁ hspec ρ analyze threshold => by
      obtain rfl := hthe hrow₁
      have hstatus : row₁.status = .running := hrunning
      rw [hrow, analyzeRun_eq analyze threshold (by simp [hstatus]) hspec, hstatus] }

end

/-- A reader of a run that completed. -/
theorem short_run_reads_final : ∃ answer, getRun 3 (shortRun.2.slice 3).row = .ok answer ∧
    answer.status = .completed ∧ ReadsFinal clockEnv shortRun.2 3 answer :=
  ⟨_, rfl, rfl, reads_final State.empty_initial.resting (Machine.played_exec _) rfl⟩

/-! ### A run without a snapshot -/

/-- A row from the first revision. -/
def oldRow : SimulationRunRow where
  projectId := 1
  status := .queued
  name := none
  requestedUntil := some 0
  untilTarget := none
  chunkSize := none
  seed := none
  batchId := none
  specSnapshot := none
  projectVersion := none
  simTimeNow := none
  arqJobId := some "job"
  errorMessage := none
  cancelRequested := false
  startedAt := none
  finishedAt := none

def oldProjectRow : ProjectRow where
  owner := none
  name := some "A"
  spurVersion := "1"
  spec := (ProjectSpec.blank "A").dump
  version := 1
  inputsVersion := 1
  baseProjectId := none
  createdAt := 0
  updatedAt := 0

/-- The service with one such run of one project, which waits for a worker. -/
def oldService : State Int where
  backend := {
    db := {
      projects := Function.update (fun _ => none) 1 (some oldProjectRow)
      runs := Function.update (fun _ => none) 3 (some oldRow)
      events := fun _ => [] }
    locks := fun _ => none
    jobs := [⟨"job", 3⟩]
    minted := [1, 3] }
  requests := fun _ => none
  workers := fun _ => none

theorem oldService_row {run : Uuid} {row : SimulationRunRow}
    (hrow : (oldService.slice run).row = some row) : run = 3 ∧ row = oldRow := by
  simp only [State.slice, oldService, Function.update_apply] at hrow
  split at hrow
  · exact ⟨‹_›, (Option.some.inj hrow).symm⟩
  · simp at hrow

theorem oldService_resting : oldService.Resting where
  requests _ := rfl
  minted run h := by
    rcases h with hslice | hworker | ⟨j, hj, rfl⟩
    · cases hrow : (oldService.slice run).row with
      | none => exact absurd (RunSlice.eq_blank hrow rfl) hslice
      | some row =>
          rw [(oldService_row hrow).1]
          simp [oldService]
    · exact absurd rfl hworker
    · rw [List.mem_singleton.mp hj]
      simp [oldService]
  waiting run row hrow _ := by
    rw [(oldService_row hrow).2]
    exact ⟨rfl, rfl⟩
  executed _ _ _ _ hworker := by simp [oldService] at hworker

/-- A project with one component. -/
def oneComponent : ProjectSpec where
  dump :=
    ⟨[("type", .str "SpurProject"), ("spur_version", .str "1"),
      ("components", .arr [.obj [("type", .str "TimedTrack"), ("u", .str "t")]]),
      ("routes", .arr []), ("tours", .arr []), ("trains", .arr [])], by decide⟩
  shape := rfl

/-- As an analysis does, this one lists the components of the spec. -/
def listedComponents : Analyze Json := fun _ spec _ =>
  match spec.get "components" with
  | .arr components => .ok ⟨.null, components, [], []⟩
  | _ => .error ⟨.typeError, "components is not a list"⟩

def oldRun : List (Entry (State Int) Action) × State Int :=
  (system clockEnv).played oldService (executeOne 8) (by decide)

/-- Its project is saved with a component more. -/
def editedSince : List (Entry (State Int) Action) × State Int :=
  (system clockEnv).played oldRun.2
    [.arrive 1 (.updateProject 1 (some (bareVersion 1)) oneComponent .received),
      .request 1 {}, .request 1 {}, .request 1 {}, .request 1 {}] (by decide)

/-- The summary of the old run, from what is stored of it and of its project. -/
def oldSummary (s : State Int) : Except ApiError (RunSummary Json) :=
  getRunSummary (analyzeRun listedComponents 3 (s.slice 3).row (s.backend.db.projects 1)
    (s.slice 3).events 120)

/-- **A later summary that is another one**, of a run that is over. -/
theorem old_summary_follows_project : oldService.Resting ∧
    Exec (system clockEnv) oldService oldRun.1 oldRun.2 ∧
      Exec (system clockEnv) oldRun.2 editedSince.1 editedSince.2 ∧
      (∃ answer, getRun 3 (oldRun.2.slice 3).row = .ok answer ∧ answer.status = .completed) ∧
      (∃ row, (editedSince.2.slice 3).row = some row) ∧
      oldSummary editedSince.2 ≠ oldSummary oldRun.2 := by
  refine ⟨oldService_resting, Machine.played_exec _, Machine.played_exec _, ⟨_, rfl, rfl⟩,
    ⟨_, rfl⟩, fun h => ?_⟩
  have hold : oldSummary oldRun.2 = .ok ⟨.completed, .null, [], []⟩ := rfl
  have hlater : oldSummary editedSince.2 =
      .ok ⟨.completed, .null, [.obj [("type", .str "TimedTrack"), ("u", .str "t")]], []⟩ := rfl
  rw [hold, hlater] at h
  simp at h

end SpurApi
