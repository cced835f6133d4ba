/-
Histories in which jobs are delivered again.

Cutting an invocation short keeps ids apart and leaves the rows as they are, so the
invariant of `Reruns` holds in every history with redelivery.  When the latest
invocation is over, the run is what an uninterrupted one would be exactly when no
invocation that was cut short had left events.
-/
import SpurApi.Proofs.Reruns

namespace SpurApi

open Transition

section

variable {μ : Type} {env : Env μ} {s₀ s s' : State μ} {run : Uuid}
  {tr : List (Entry (State μ) (Action ⊕ Cut))} {row : SimulationRunRow}

/-! ### Cutting an invocation short -/

theorem State.cutShort_some {cut : Cut} (h : s.cutShort cut = some s') :
    ∃ p, s.workers cut.run = some p ∧
      s' = { s with workers := Function.update s.workers cut.run none } := by
  unfold State.cutShort at h
  split at h
  · simp at h
  · rename_i p hp
    exact ⟨p, hp, (Option.some.inj h).symm⟩

/-- A worker that is there after a cut was there before it. -/
private theorem workers_of_cut {cut : Cut} (h : s.cutShort cut = some s') (run : Uuid) :
    s'.workers run = none ∧ run = cut.run ∨ s'.workers run = s.workers run ∧ run ≠ cut.run := by
  obtain ⟨-, -, rfl⟩ := State.cutShort_some h
  by_cases hrun : run = cut.run
  · exact .inl ⟨hrun ▸ Function.update_self .., hrun⟩
  · exact .inr ⟨Function.update_of_ne hrun .., hrun⟩

theorem RunsApart.cut {cut : Cut} (h : RunsApart s) (hcut : s.cutShort cut = some s') :
    RunsApart s' := by
  have hworker : ∀ run, s.workers run = none → s'.workers run = none := by
    intro run hnone
    rcases workers_of_cut hcut run with ⟨hnone', -⟩ | ⟨hsame, -⟩
    · exact hnone'
    · exact hsame.trans hnone
  obtain ⟨-, -, rfl⟩ := State.cutShort_some hcut
  obtain ⟨⟨hminted, hids, hnodup, hdisjoint, hpending⟩, hnew⟩ := h
  refine ⟨⟨fun run htouched => hminted run ?_, hids, hnodup, hdisjoint, fun r q hq id hid => ?_⟩,
    hnew⟩
  · exact htouched.imp_right (.imp_left fun hw hnone => hw (hworker run hnone))
  · obtain ⟨hslice, hw, hjobs⟩ := hpending r q hq id hid
    exact ⟨hslice, hworker id hw, hjobs⟩

theorem RunsApart.redelivering (h₀ : s₀.Initial) (h : Exec (redelivering env) s₀ tr s) :
    RunsApart s := by
  refine h.invariant h₀.runsApart fun s a s' hI hstep => ?_
  cases a with
  | inl a => exact hI.step hstep
  | inr cut => exact hI.cut hstep

/-- A run whose invocation was cut short is not about to be inserted. -/
private theorem notPending_of_cut (h₀ : s₀.Initial) (h : Exec (redelivering env) s₀ tr s)
    (hcut : ∃ e ∈ tr, e.act = .inr ⟨run⟩) : NotPending s run := by
  obtain ⟨e, he, hact⟩ := hcut
  obtain ⟨_, _, _, hpre, hstep, hrest⟩ := h.of_mem he
  have hkept : ∀ (s s' : State μ) (a : Action ⊕ Cut), NotPending s run →
      (redelivering env).step s a = some s' → NotPending s' run := by
    intro s s' a hI hs
    cases a with
    | inl a => exact hI.step hs
    | inr cut =>
        obtain ⟨-, -, rfl⟩ := State.cutShort_some hs
        exact hI
  rw [hact] at hstep
  obtain ⟨p, hp, -⟩ := State.cutShort_some hstep
  have hapart := (RunsApart.redelivering h₀ hpre).apart
  have hstart : NotPending e.pre run := by
    refine ⟨hapart.minted run (.inr (.inl (by simp [hp]))), fun r q hq hpending => ?_⟩
    have hnone := (hapart.pending r q hq run hpending).2.1
    rw [hp] at hnone
    simp at hnone
  exact hrest.invariant (hkept _ _ _ hstart hstep) fun s a s' hI hs => hkept s s' a hI hs

/-! ### In a history -/

/-- An invocation of the run was cut short when there were events. -/
def Spoiled (run : Uuid) (tr : List (Entry (State μ) (Action ⊕ Cut))) : Prop :=
  ∃ e ∈ tr, e.act = .inr ⟨run⟩ ∧ (e.pre.slice run).events ≠ []

/-- The database fails at nothing in the steps of the workers of the run. -/
def Unfailing (run : Uuid) (tr : List (Entry (State μ) (Action ⊕ Cut))) : Prop :=
  ∀ e ∈ tr, ∀ io, e.act = .inl (.work run io) → io.fault = none

theorem spoiled_snoc {e : Entry (State μ) (Action ⊕ Cut)}
    (h : e.act = .inr ⟨run⟩ → (e.pre.slice run).events = []) :
    Spoiled run (tr ++ [e]) ↔ Spoiled run tr := by
  constructor
  · rintro ⟨e', he', hact, hevents⟩
    rcases List.mem_append.mp he' with he' | he'
    · exact ⟨e', he', hact, hevents⟩
    · rw [List.mem_singleton] at he'
      subst he'
      exact absurd (h hact) hevents
  · rintro ⟨e', he', hact, hevents⟩
    exact ⟨e', List.mem_append_left _ he', hact, hevents⟩

theorem spoiled_snoc_cut : Spoiled run (tr ++ [⟨s, .inr ⟨run⟩, s'⟩]) ↔
    Spoiled run tr ∨ (s.slice run).events ≠ [] := by
  constructor
  · rintro ⟨e, he, hact, hevents⟩
    rcases List.mem_append.mp he with he | he
    · exact .inl ⟨e, he, hact, hevents⟩
    · rw [List.mem_singleton] at he
      subst he
      exact .inr hevents
  · rintro (⟨e, he, hact, hevents⟩ | hevents)
    · exact ⟨e, List.mem_append_left _ he, hact, hevents⟩
    · exact ⟨_, List.mem_append_right _ (List.mem_singleton.mpr rfl), rfl, hevents⟩

/-- **The invariant of a run whose job may be delivered again**, in every state that is reached. -/
theorem rerun_of_exec (hdet : env.spur.Deterministic) (h₀ : s₀.Initial)
    (h : Exec (redelivering env) s₀ tr s) (hfault : Unfailing run tr) :
    ∀ row, (s.slice run).row = some row → row.cancelRequested = false → row.ModelReturns env →
      ∃ spec, row.specSnapshot = some spec ∧
        Rerun env (row.runner spec) (Spoiled run tr) row (s.slice run).events (s.workers run) := by
  induction h with
  | nil =>
      intro row hrow
      exact (h₀.not_row hrow).elim
  | @snoc tr s s' a h hstep ih =>
      intro row' hrow' hcancel hmodel
      replace ih := ih fun e he => hfault e (List.mem_append_left _ he)
      have hapart := RunsApart.redelivering h₀ h
      cases a with
      | inr cut =>
          have hslice : s'.slice run = s.slice run := by
            obtain ⟨-, -, rfl⟩ := State.cutShort_some hstep
            rfl
          rw [hslice] at hrow' ⊢
          obtain ⟨spec, hspec, hrerun⟩ := ih row' hrow' hcancel hmodel
          refine ⟨spec, hspec, ?_⟩
          rcases workers_of_cut hstep run with ⟨hnone, rfl⟩ | ⟨hsame, hne⟩
          · obtain ⟨p, hp, -⟩ := State.cutShort_some hstep
            rw [hp] at hrerun
            rw [hnone, spoiled_snoc_cut]
            exact hrerun.cut
          · have hact : (Sum.inr cut : Action ⊕ Cut) ≠ .inr ⟨run⟩ := by
              rintro heq
              rw [Sum.inr.injEq] at heq
              exact hne (congrArg Cut.run heq).symm
            rw [hsame, spoiled_snoc fun h => absurd h hact]
            exact hrerun
      | inl a =>
          rw [spoiled_snoc (by simp)]
          have hchange : RunChange env (fun _ _ _ => True) s a s' run row' :=
            hapart.change hstep hrow' fun _ _ _ _ => trivial
          cases hchange with
          | inserted _ hreq hsub hid _ hnew _ _ hworker' hevents' =>
              have hclean : ¬ Spoiled run tr := by
                rintro ⟨e, he, hact, -⟩
                have hnot := notPending_of_cut h₀ h ⟨e, he, hact⟩
                exact hnot.2 _ _ hreq (List.mem_map.mpr ⟨_, hsub, hid⟩)
              obtain ⟨spec, hspec⟩ := Option.isSome_iff_exists.mp hnew.isSubmitted.spec
              rw [hworker', hevents']
              exact ⟨spec, hspec, hnew.isSubmitted, fun hspoiled => absurd hspoiled hclean,
                ⟨0, rfl⟩, by simp [hnew.isQueued.status], fun _ => rfl⟩
          | @edited row _ hrow hworker hevents hedit =>
              have hsub := hedit.same.submission
              obtain ⟨spec, hspec, hrerun⟩ := ih row hrow (hedit.not_cancelled hcancel)
                (hmodel.congr hsub)
              rw [hworker, hevents]
              refine ⟨spec, (congrArg Submission.specSnapshot hsub).trans hspec, ?_⟩
              rw [SimulationRunRow.runner_congr hsub]
              exact hrerun.edited hedit
          | delivered _ hworker hworker' hslice =>
              rw [hslice] at hrow' ⊢
              obtain ⟨spec, hspec, hsub, hfresh, hstored, hpoint⟩ := ih row' hrow' hcancel hmodel
              rw [hworker] at hpoint
              rw [hworker']
              exact ⟨spec, hspec, hsub, hfresh, hstored, hpoint⟩
          | @worked io row p p' ha hrow hworker hworker' _ hmove =>
              have hcancel' : row.cancelRequested = false :=
                (hmove.cancelRequested hrow').symm.trans hcancel
              have hsub : row'.submission = row.submission := hmove.submission hrow'
              obtain ⟨spec, hspec, hrerun⟩ := ih row hrow hcancel' (hmodel.congr hsub)
              rw [hworker] at hrerun
              have hfine : io.fault = none := hfault _
                (List.mem_append_right tr (List.mem_singleton.mpr rfl)) io (congrArg Sum.inl ha)
              refine ⟨spec, (congrArg Submission.specSnapshot hsub).trans hspec, ?_⟩
              rw [SimulationRunRow.runner_congr hsub, hworker']
              exact hrerun.step hdet (hmodel.congr hsub spec hspec) hfine hcancel' hspec hmove hrow'

/-! ### An invocation ends -/

/-- A job is not delivered to a run that has a worker. -/
private theorem not_deliver_of_worker {p : WorkerPoint μ} (hp : s.workers run = some p)
    (hstep : s.step env (.deliver run) = some s') : False := by
  cases service_step hstep with
  | deliver _ hnone => simp [hp] at hnone

/-- An entry of the history, counted for the latest invocation of the run. -/
def takes (run : Uuid) (n : Nat) (e : Entry (State μ) (Action ⊕ Cut)) : Nat :=
  match e.act with
  | .inl (.deliver run') => if run' = run then 0 else n
  | .inl (.work run' _) => if run' = run then n + 1 else n
  | _ => n

/-- How many steps the latest invocation of the run has taken. -/
def stepsTaken (run : Uuid) (tr : List (Entry (State μ) (Action ⊕ Cut))) : Nat :=
  tr.foldl (takes run) 0

theorem stepsTaken_snoc (e : Entry (State μ) (Action ⊕ Cut)) :
    stepsTaken run (tr ++ [e]) = takes run (stepsTaken run tr) e := by
  rw [stepsTaken, List.foldl_append]
  rfl

theorem takes_other {n : Nat} {a : Action} (hwork : ∀ io, a ≠ .work run io)
    (hdeliver : a ≠ .deliver run) : takes run n ⟨s, .inl a, s'⟩ = n := by
  cases a with
  | deliver run' =>
      have hne : run' ≠ run := fun heq => hdeliver (heq ▸ rfl)
      simp [takes, hne]
  | work run' io =>
      have hne : run' ≠ run := fun heq => hwork io (heq ▸ rfl)
      simp [takes, hne]
  | _ => rfl

/-- **An invocation is over after this many steps**, whatever was cut short before it. -/
theorem stepsTaken_bounded (hclock : env.spur.ClockLaw) (hdet : env.spur.Deterministic)
    (h₀ : s₀.Initial) (h : Exec (redelivering env) s₀ tr s) (hfault : Unfailing run tr) :
    ∀ row target p, (s.slice run).row = some row → row.ModelReturns env →
      row.untilTarget = some target → (∀ c, row.chunkSize = some c → 0 ≤ c) →
        row.cancelRequested = false → s.workers run = some p →
          stepsTaken run tr + p.stepsLeft env.spur target ≤ 3 * target.toNat + 8 := by
  induction h with
  | nil =>
      intro row target p hrow
      exact (h₀.not_row hrow).elim
  | @snoc tr s s' a h hstep ih =>
      intro row' target p' hrow' hmodel htarget hsize hcancel hp'
      have hfault' : Unfailing run tr := fun e he => hfault e (List.mem_append_left _ he)
      replace ih := ih hfault'
      rw [stepsTaken_snoc]
      cases a with
      | inr cut =>
          rcases workers_of_cut hstep run with ⟨hnone, -⟩ | ⟨hsame, -⟩
          · simp [hnone] at hp'
          · obtain ⟨-, -, rfl⟩ := State.cutShort_some hstep
            exact ih row' target p' hrow' hmodel htarget hsize hcancel (hsame ▸ hp')
      | inl a =>
          have hchange : RunChange env (fun _ _ _ => True) s a s' run row' :=
            (RunsApart.redelivering h₀ h).change hstep hrow' fun _ _ _ _ => trivial
          cases hchange with
          | inserted _ _ _ _ _ _ _ _ hnone => simp [hnone] at hp'
          | @edited row hact hrow hworker _ hedit =>
              have hsub := hedit.same.submission
              have htarget' : row'.untilTarget = row.untilTarget :=
                congrArg Submission.untilTarget hsub
              have hsize' : row'.chunkSize = row.chunkSize := congrArg Submission.chunkSize hsub
              rw [hworker] at hp'
              have hnot : a ≠ .deliver run := by
                rintro rfl
                have hdeliver : s.step env (.deliver run) = some s' := hstep
                exact not_deliver_of_worker hp' hdeliver
              rw [takes_other hact hnot]
              exact ih row target p' hrow (hmodel.congr hsub) (htarget' ▸ htarget)
                (hsize' ▸ hsize) (hedit.not_cancelled hcancel) hp'
          | delivered _ _ hworker' _ ha =>
              rw [hworker', Option.some.injEq] at hp'
              subst ha hp'
              simp [takes, WorkerPoint.stepsLeft]
          | @worked io row p _ ha hrow hworker hworker' _ hmove =>
              have hcancel' : row.cancelRequested = false :=
                (hmove.cancelRequested hrow').symm.trans hcancel
              have hsub : row'.submission = row.submission := hmove.submission hrow'
              have hmodel' := hmodel.congr hsub
              obtain ⟨spec, -, hrerun⟩ := rerun_of_exec hdet h₀ h hfault' row hrow hcancel' hmodel'
              rw [hworker] at hrerun
              rw [hworker', Option.some.injEq] at hp'
              have htarget' : row'.untilTarget = row.untilTarget :=
                congrArg Submission.untilTarget hsub
              have hsize' : row'.chunkSize = row.chunkSize := congrArg Submission.chunkSize hsub
              rw [htarget'] at htarget
              rw [hsize'] at hsize
              have hlt := hmove.stepsLeft_lt hclock
                (hrerun.point.timely hclock htarget hsize hcancel')
              have hbound := ih row target p hrow hmodel' htarget hsize hcancel' hworker
              subst ha hp'
              simp only [takes, if_true]
              omega

/-! ### Redelivery -/

/-- The run is completed, with the events of one uninterrupted run of its spec. -/
def CompletesOnce (env : Env μ) (row : SimulationRunRow) (events : List RunEventRow) : Prop :=
  row.status = .completed ∧ ∃ spec es, row.specSnapshot = some spec ∧
    (row.runner spec).Completes env.spur env.settings es ∧ events = eventRows 0 es

/-- A completed run has the events of one uninterrupted run, however often it was delivered. -/
theorem completesOnce_of_exec (hdet : env.spur.Deterministic) (h₀ : s₀.Initial)
    (h : Exec (redelivering env) s₀ tr s) (hfault : Unfailing run tr)
    (hrow : (s.slice run).row = some row) (hmodel : row.ModelReturns env)
    (hcancel : row.cancelRequested = false) (hstatus : row.status = .completed) :
    CompletesOnce env row (s.slice run).events := by
  obtain ⟨spec, hspec, hrerun⟩ := rerun_of_exec hdet h₀ h hfault row hrow hcancel hmodel
  obtain ⟨es, hcompletes, hevents⟩ := hrerun.done hstatus
  exact ⟨hstatus, spec, es, hspec, hcompletes, hevents⟩

theorem CompletesOnce.unique {row' : SimulationRunRow} {events events' : List RunEventRow}
    (h : CompletesOnce env row events) (h' : CompletesOnce env row' events')
    (hsub : row'.submission = row.submission) : events' = events := by
  obtain ⟨-, spec, es, hspec, hcompletes, rfl⟩ := h
  obtain ⟨-, spec', es', hspec', hcompletes', rfl⟩ := h'
  have hsame : row'.specSnapshot = row.specSnapshot := congrArg Submission.specSnapshot hsub
  rw [hsame, hspec, Option.some.injEq] at hspec'
  rw [← hspec', SimulationRunRow.runner_congr hsub] at hcompletes'
  rw [hcompletes'.unique hcompletes]

/-- **A completed run does not show how often its job was delivered**: where the same submission
completes in a history without redelivery, it has the same events. -/
theorem redelivered_agrees (hdet : env.spur.Deterministic) (h₀ : s₀.Initial)
    (h : Exec (redelivering env) s₀ tr s) (hfault : Unfailing run tr)
    (hrow : (s.slice run).row = some row) (hmodel : row.ModelReturns env)
    (hcancel : row.cancelRequested = false)
    (hstatus : row.status = .completed) {t₀ t : State μ} {tr' : List (Entry (State μ) Action)}
    {run' : Uuid} {row' : SimulationRunRow} (ht₀ : t₀.Initial)
    (h' : Exec (system env) t₀ tr' t)
    (hfault' : ∀ e ∈ tr', ∀ io, e.act = .work run' io → io.fault = none)
    (hrow' : (t.slice run').row = some row') (hcancel' : row'.cancelRequested = false)
    (hstatus' : row'.status = .completed) (hsub : row'.submission = row.submission) :
    (t.slice run').events = (s.slice run).events := by
  have hfine : Unfailing run' (tr'.map (Entry.inl Cut)) := by
    intro e he io hact
    obtain ⟨e', he', rfl⟩ := List.mem_map.mp he
    exact hfault' e' he' io (Sum.inl.inj hact)
  have honce := completesOnce_of_exec hdet h₀ h hfault hrow hmodel hcancel hstatus
  have honce' := completesOnce_of_exec hdet ht₀ (h'.inl ⟨State.cutShort⟩) hfine hrow'
    (hmodel.congr hsub.symm) hcancel' hstatus'
  exact honce.unique honce' hsub

/-- **Redelivery.**  An invocation that is not cut short ends, and the run is then what one
uninterrupted invocation would have made of it exactly when no invocation that was cut short had
left events.  The model is asked only what it is asked in the uninterrupted run. -/
theorem redelivered_run_iff (hclock : env.spur.ClockLaw) (hdet : env.spur.Deterministic)
    (h₀ : s₀.Initial) (h : Exec (redelivering env) s₀ tr s) (hfault : Unfailing run tr)
    (hrow : (s.slice run).row = some row) (hmodel : row.ModelReturns env)
    (hcancel : row.cancelRequested = false) {p : WorkerPoint μ}
    (hworker : s.workers run = some p) :
    (∀ target, row.untilTarget = some target → (∀ c, row.chunkSize = some c → 0 ≤ c) →
      stepsTaken run tr ≤ 3 * target.toNat + 8) ∧
    (p.ended = false → ∀ io, ∃ s', s.step env (.work run io) = some s') ∧
    (p.ended = true → (CompletesOnce env row (s.slice run).events ↔
      ¬ Spoiled run tr ∧ CanChunk env.settings row.chunkSize)) := by
  refine ⟨fun target htarget hsize => ?_, exists_step_of_worker hworker, fun hended => ?_⟩
  · have hbound := stepsTaken_bounded hclock hdet h₀ h hfault row target p hrow hmodel htarget
      hsize hcancel hworker
    omega
  · obtain ⟨spec, hspec, hrerun⟩ := rerun_of_exec hdet h₀ h hfault row hrow hcancel hmodel
    rw [hworker] at hrerun
    obtain ⟨target, htarget⟩ := Option.isSome_iff_exists.mp hrerun.submitted.target
    have hiff := hrerun.ended (hmodel spec hspec) hended
    rw [SpurRunner.chunks_iff (SimulationRunRow.runner_untilTime htarget spec)] at hiff
    refine Iff.trans ⟨?_, ?_⟩ hiff
    · rintro ⟨hstatus, spec', es, hspec', hcompletes, hevents⟩
      rw [hspec, Option.some.injEq] at hspec'
      exact ⟨hstatus, es, hspec' ▸ hcompletes, hevents⟩
    · rintro ⟨hstatus, es, hcompletes, hevents⟩
      exact ⟨hstatus, spec, es, hspec, hcompletes, hevents⟩

end

/-- A run to 2 in chunks of 1, whose first invocation is cut short after this many steps; the
second one takes so many. -/
def cutAfter (first second : Nat) : List (Action ⊕ Cut) :=
  (submitOne (.single (some 2) (some 1)) ++ executeOne first).map Sum.inl ++
    .inr ⟨3⟩ :: (executeOne second).map Sum.inl

theorem SimulationRunRow.clock_modelReturns (row : SimulationRunRow) {target size : Int}
    (htarget : row.untilTarget = some target) (hsize : row.chunkSize = some size)
    (hnonneg : 0 ≤ size) : row.ModelReturns clockEnv := by
  intro spec _
  refine SpurRunner.clock_modelReturns
    (SpurRunner.untilTarget_some (SimulationRunRow.runner_untilTime htarget spec)) ?_
  simpa [runner, WorkerSession.runner, hsize] using hnonneg

theorem unfailing_of_all {tr : List (Entry (State Int) (Action ⊕ Cut))} {run : Uuid}
    (h : ∀ e ∈ tr, Sum.elim Action.unfailing (fun _ => true) e.act = true) : Unfailing run tr := by
  intro e he io hact
  have hfine := h e he
  rw [hact] at hfine
  exact Option.isNone_iff_eq_none.mp hfine

theorem not_spoiled_of_all {tr : List (Entry (State Int) (Action ⊕ Cut))} {run : Uuid}
    (h : (tr.all fun e =>
      Sum.elim (fun _ => true) (fun _ => (e.pre.slice run).events.isEmpty) e.act) = true) :
    ¬ Spoiled run tr := by
  rintro ⟨e, he, hact, hevents⟩
  have hempty := List.all_eq_true.mp h e he
  rw [hact] at hempty
  exact hevents (List.isEmpty_iff.mp hempty)

/-- The first invocation is cut short before its first chunk is committed. -/
def redeliveredRun : List (Entry (State Int) (Action ⊕ Cut)) × State Int :=
  (redelivering clockEnv).played State.empty (cutAfter 6 13) (by decide)

theorem redelivered_run_completes : ∃ row, (redeliveredRun.2.slice 3).row = some row ∧
    CompletesOnce clockEnv row (redeliveredRun.2.slice 3).events := by
  obtain ⟨row, hrow, hcancel, hsize, htarget⟩ : ∃ row,
      (redeliveredRun.2.slice 3).row = some row ∧ row.cancelRequested = false ∧
        row.chunkSize = some 1 ∧ row.untilTarget = some 2 := ⟨_, rfl, rfl, rfl, rfl⟩
  have hmodel := row.clock_modelReturns htarget hsize (by decide)
  have hfault : Unfailing 3 redeliveredRun.1 := unfailing_of_all (Machine.played_all _ rfl)
  have hexec : Exec (redelivering clockEnv) State.empty redeliveredRun.1 redeliveredRun.2 :=
    Machine.played_exec _
  have hworker : redeliveredRun.2.workers 3 = some .returned := rfl
  obtain ⟨-, -, hiff⟩ := redelivered_run_iff Spur.clock_clockLaw Spur.clock_deterministic
    State.empty_initial hexec hfault hrow hmodel hcancel hworker
  have hclean : ¬ Spoiled 3 redeliveredRun.1 := not_spoiled_of_all rfl
  exact ⟨row, hrow, (hiff rfl).mpr ⟨hclean, .inl ⟨1, hsize, by decide⟩⟩⟩

/-- It is cut short right after. -/
def spoiledRun : List (Entry (State Int) (Action ⊕ Cut)) × State Int :=
  (redelivering clockEnv).played State.empty (cutAfter 7 8) (by decide)

/-- The second invocation is over, uncut, and the run is `running` with the events of the first. -/
theorem spoiled_run_stays_running :
    Exec (redelivering clockEnv) State.empty spoiledRun.1 spoiledRun.2 ∧
      Unfailing 3 spoiledRun.1 ∧ (spoiledRun.2.workers 3).map WorkerPoint.ended = some true ∧
        ∃ row, (spoiledRun.2.slice 3).row = some row ∧ row.cancelRequested = false ∧
          row.ModelReturns clockEnv ∧
          (spoiledRun.2.slice 3).events = eventRows 0 [Spur.tick 1] ∧ row.status = .running ∧
            ¬ CompletesOnce clockEnv row (spoiledRun.2.slice 3).events := by
  obtain ⟨row, hrow, hcancel, hstatus, htarget, hsize⟩ : ∃ row,
      (spoiledRun.2.slice 3).row = some row ∧ row.cancelRequested = false ∧
        row.status = .running ∧ row.untilTarget = some 2 ∧ row.chunkSize = some 1 :=
    ⟨_, rfl, rfl, rfl, rfl, rfl⟩
  have hmodel := row.clock_modelReturns htarget hsize (by decide)
  have hfault : Unfailing 3 spoiledRun.1 := unfailing_of_all (Machine.played_all _ rfl)
  refine ⟨Machine.played_exec _, hfault, rfl, row, hrow, hcancel, hmodel, rfl, hstatus,
    fun h => ?_⟩
  have hcompleted := h.1
  simp [hstatus] at hcompleted

end SpurApi
