/-
What a run reports of its clock.

The clock of a worker that makes positive chunks never goes back, and at each commit of a chunk
it becomes the `sim_time_now` of the run.  So what is reported only rises, from 0 to the target.
A target below 0 comes from a request, which may ask for any `until`: there the loop never runs,
and the run completes at 0, past its target.
-/
import SpurApi.Proofs.Gone
import SpurApi.Proofs.Executions
import SpurApi.Proofs.Origins

namespace SpurApi

open Transition

/-! ### The target of a request -/

/-- No tour of the spec is deleted before 0. -/
def DeletionsNonneg (spec : Json.Object) : Prop :=
  ∀ tours, toursOf spec = .ok tours → ∀ tour ∈ tours, ∀ n, deletionTime tour = .ok n → 0 ≤ n

/-- The request asks for a target from 0 on, or leaves it to the tours, or, where there are none,
to a default horizon from 0 on. -/
def AsksForward (settings : Settings) (body : RunCreate) (spec : Json.Object) : Prop :=
  match body.untilTime with
  | some target => 0 ≤ target
  | none => toursOf spec = .ok [] → 0 ≤ settings.defaultRunHorizon

theorem mem_of_mapM_deletionTime {tours : List Json} : ∀ {times : List Int},
    tours.mapM deletionTime = .ok times → times.length = tours.length ∧
      ∀ n ∈ times, ∃ tour ∈ tours, deletionTime tour = .ok n := by
  induction tours with
  | nil =>
      intro times h
      cases h
      simp
  | cons tour tours ih =>
      intro times h
      simp only [List.mapM_cons, bind, Except.bind, pure, Except.pure] at h
      split at h
      · simp at h
      · rename_i time htime
        split at h
        · simp at h
        · rename_i rest hrest
          cases h
          obtain ⟨hlen, hmem⟩ := ih hrest
          refine ⟨by simp [hlen], fun n hn => ?_⟩
          rcases List.mem_cons.mp hn with rfl | hn
          · exact ⟨tour, List.mem_cons_self, htime⟩
          · obtain ⟨other, hother, hdeletion⟩ := hmem n hn
            exact ⟨other, List.mem_cons_of_mem tour hother, hdeletion⟩

theorem le_foldl_max (ts : List Int) : ∀ t : Int, t ≤ ts.foldl max t := by
  induction ts with
  | nil => exact fun t => Int.le_refl t
  | cons u ts ih => exact fun t => Int.le_trans (Int.le_max_left t u) (ih (max t u))

/-- **The target is not below 0** exactly when the request does not ask for one that is. -/
theorem target_nonneg_iff {settings : Settings} {project : ProjectRow} {body : RunCreate}
    {target : Int} (htarget : submittedTarget settings project body = .ok target)
    (hdeletions : DeletionsNonneg project.spec) :
    0 ≤ target ↔ AsksForward settings body project.spec := by
  rw [submittedTarget] at htarget
  rw [AsksForward]
  cases hbody : body.untilTime with
  | some t =>
      simp only [hbody, Except.ok.injEq] at htarget
      simp only [htarget]
  | none =>
      simp only [hbody, deriveUntil] at htarget ⊢
      cases htours : toursOf project.spec with
      | error e => simp [htours] at htarget
      | ok tours =>
          simp only [htours] at htarget
          split at htarget
          · simp at htarget
          · -- no tours: the default horizon
            rename_i hnone
            have hlen := (mem_of_mapM_deletionTime hnone).1
            have hempty : tours = [] := List.eq_nil_of_length_eq_zero hlen.symm
            simp only [Except.ok.injEq] at htarget
            simp [hempty, htarget]
          · rename_i time times htimes
            obtain ⟨hlen, hmem⟩ := mem_of_mapM_deletionTime htimes
            obtain ⟨tour, htour, hdeletion⟩ := hmem time List.mem_cons_self
            have hne : tours ≠ [] := List.ne_nil_of_mem htour
            have hpos : 0 ≤ time := hdeletions tours htours tour htour time hdeletion
            simp only [Except.ok.injEq] at htarget
            refine ⟨fun _ hnone => absurd (Except.ok.inj hnone) hne, fun _ => ?_⟩
            exact Int.le_trans hpos (htarget ▸ le_foldl_max times time)

/-! ### The clock and what was reported -/

section

variable {μ : Type} {spur : Spur μ} {reported : Option Int}

/-- The clock at a point has started at 0 and is not behind what was reported. -/
def RunPoint.Ahead (spur : Spur μ) (reported : Option Int) : RunPoint μ → Prop
  | .building | .starting _ => reported = none
  | .asking l | .advancing l | .flushing l _ | .logging l =>
      0 ≤ spur.now l.model ∧ ∀ t, reported = some t → t ≤ spur.now l.model
  | .finished _ | .raised _ => True

theorem Loop.head_ahead {l : Loop μ} (h : 0 ≤ spur.now l.model)
    (hreported : ∀ t, reported = some t → t ≤ spur.now l.model) :
    (l.head spur).Ahead spur reported := by
  rw [Loop.head]
  split <;> exact ⟨h, hreported⟩

/-- A call of the model does not turn the clock back. -/
theorem RunPoint.Ahead.advance (hclock : spur.ClockLaw) {runner : SpurRunner}
    {settings : Settings} {entropy : Nat} {target : Int} {flag : Bool} {p : RunPoint μ}
    (hclocked : p.Clocked spur target flag) (hchunked : p.Chunked) (h : p.Ahead spur reported) :
    (runner.advance spur settings entropy p).Ahead spur reported := by
  cases p with
  | building =>
      rw [SpurRunner.advance]
      split
      · trivial
      · exact h
  | starting model =>
      rw [SpurRunner.advance]
      cases hstart : (spur.start model).result with
      | error e => trivial
      | ok model' =>
          have hnone : reported = none := h
          have hnow : spur.now model' = 0 := (hclock.start hstart).trans hclocked
          dsimp only
          split
          · trivial
          · split
            · trivial
            · exact Loop.head_ahead (Int.le_of_eq hnow.symm) (by simp [hnone])
  | advancing l =>
      obtain ⟨rfl, -, hlt⟩ := hclocked
      have hchunk : 1 ≤ l.chunk := hchunked
      rw [SpurRunner.advance]
      cases hrun : (spur.run l.model (l.nextCheckpoint spur)).result with
      | error e => trivial
      | ok model' =>
          have hnow : spur.now model' = l.nextCheckpoint spur := hclock.run hrun
          have hle : spur.now l.model ≤ spur.now model' := by
            rw [hnow, Loop.nextCheckpoint]
            omega
          exact ⟨Int.le_trans h.1 hle, fun t ht => Int.le_trans (h.2 t ht) hle⟩
  | logging l =>
      rw [SpurRunner.advance]
      cases hlog : (spur.logCurrentState l.model).result with
      | error e => trivial
      | ok model' =>
          have hnow : spur.now model' = spur.now l.model := hclock.logCurrentState hlog
          exact ⟨hnow ▸ h.1, fun t ht => hnow ▸ h.2 t ht⟩
  | _ => exact h

/-- What is committed at a flush is not past the target, or the clock never ran. -/
theorem RunPoint.Clocked.now_le {target : Int} {flag : Bool} {l : Loop μ} {place : Flush}
    (h : (RunPoint.flushing l place).Clocked spur target flag) :
    spur.now l.model ≤ max 0 target := by
  cases place with
  | chunk =>
      obtain ⟨rfl, hin⟩ := h
      rcases hin with hin | hin <;> omega
  | cancelled =>
      have hlt := h.2.1
      omega
  | final => exact Int.le_of_eq h.2

/-! ### The worker -/

/-- What the run has reported lies between 0 and its target, and the clock of its worker is not
behind it. -/
structure Paced (spur : Spur μ) (row : SimulationRunRow) (worker : Option (WorkerPoint μ)) :
    Prop where
  bounds : ∀ target t, row.untilTarget = some target → row.simTimeNow = some t →
    0 ≤ t ∧ t ≤ max 0 target
  ahead : ∀ w p, worker = some (.running w p) → p.Ahead spur row.simTimeNow

theorem Paced.edited {cancels : Prop} {row row' : SimulationRunRow}
    {worker : Option (WorkerPoint μ)} (h : Paced spur row worker)
    (hedit : ClientEdit cancels row row') : Paced spur row' worker := by
  have hsame := hedit.same
  rw [SameButClient] at hsame
  rw [hsame]
  exact ⟨h.bounds, h.ahead⟩

theorem settle_ahead {w w' : WorkerSession} {p q : RunPoint μ} (h : p.Ahead spur reported)
    (hsettle : some (w.settle p) = some (WorkerPoint.running w' q)) : q.Ahead spur reported := by
  cases p with
  | finished | raised => simp [WorkerSession.settle] at hsettle
  | _ =>
      simp only [WorkerSession.settle, Option.some.injEq, WorkerPoint.running.injEq] at hsettle
      exact hsettle.2 ▸ h

variable {env : Env μ}

/-- **One step of the worker**: what is reported stays in its bounds, and does not fall. -/
theorem Paced.step (hclock : env.spur.ClockLaw) {project : Option ProjectRow} {io : Io}
    {p p' : WorkerPoint μ} {row row' : SimulationRunRow} {events : List RunEventRow}
    {db' : RunSlice} (hsize : ∀ c, row.chunkSize = some c → 0 ≤ c)
    (hok : p.Ok env.spur row events) (hworking : Working row (some p))
    (h : Paced env.spur row (some p))
    (hmove : WorkerMove env project io ⟨some row, events⟩ p p' db')
    (hrow' : db'.row = some row') : Paced env.spur row' (some p') ∧
      ∀ t, row.simTimeNow = some t → ∃ t', row'.simTimeNow = some t' ∧ t ≤ t' := by
  cases hmove with
  | marked hcommit =>
      obtain ⟨hqueued, -, hcopy, -⟩ := hok
      rw [commitRun_ok hcommit, flush_markRunning hcopy.same, Option.some.injEq] at hrow'
      subst hrow'
      refine ⟨⟨h.bounds, fun w p hp => ?_⟩, fun t ht => ⟨t, ht, Int.le_refl t⟩⟩
      rw [Option.some.injEq, WorkerPoint.running.injEq] at hp
      exact hp.2 ▸ hqueued.simTimeNow
  | @asked w l stored hfault hrow =>
      rw [Option.some.injEq] at hrow hrow'
      subst hrow hrow'
      refine ⟨⟨h.bounds, fun w' p hp => ?_⟩, fun t ht => ⟨t, ht, Int.le_refl t⟩⟩
      rw [Option.some.injEq, WorkerPoint.running.injEq] at hp
      rw [← hp.2]
      have hahead := h.ahead _ _ rfl
      split <;> exact hahead
  | @flushed w w' l place _ hchunk =>
      obtain ⟨-, hcopy, -, -, -, target, htarget, hclocked⟩ := hok
      obtain ⟨-, rfl⟩ := onChunk_ok hcopy.same hchunk
      rw [Option.some.injEq] at hrow'
      subst hrow'
      obtain ⟨hnow, hreported⟩ := h.ahead _ _ rfl
      refine ⟨⟨fun target' t htarget' ht => ?_, fun w₂ p hp => ?_⟩,
        fun t ht => ⟨_, rfl, hreported t ht⟩⟩
      · have hsame : target = target' := Option.some.inj (htarget.symm.trans htarget')
        have ht' : env.spur.now l.model = t := Option.some.inj ht
        exact ⟨ht' ▸ hnow, ht' ▸ hsame ▸ (hclocked hclock).now_le⟩
      · refine settle_ahead ?_ hp
        cases place with
        | chunk =>
            exact Loop.head_ahead (l := { l with eventsBatch := [] }) hnow fun t ht =>
              Int.le_of_eq (Option.some.inj ht).symm
        | cancelled | final => trivial
  | advanced hask hflush =>
      obtain ⟨-, -, -, -, -, target, -, hclocked⟩ := hok
      rw [Option.some.injEq] at hrow'
      subst hrow'
      refine ⟨⟨h.bounds, fun w₂ p hp => ?_⟩, fun t ht => ⟨t, ht, Int.le_refl t⟩⟩
      exact settle_ahead ((h.ahead _ _ rfl).advance hclock (hclocked hclock) (hworking.2 hsize)) hp
  | handled _ hcommit =>
      rw [commitRun_ok hcommit, flush_markFailed hok.2.same, Option.some.injEq] at hrow'
      subst hrow'
      exact ⟨⟨h.bounds, by simp⟩, fun t ht => ⟨t, ht, Int.le_refl t⟩⟩
  | finished hcommit =>
      rw [commitRun_ok hcommit, flush_markFinished hok.2.1.same, Option.some.injEq] at hrow'
      subst hrow'
      exact ⟨⟨h.bounds, by simp⟩, fun t ht => ⟨t, ht, Int.le_refl t⟩⟩
  | _ =>
      rw [Option.some.injEq] at hrow'
      subst hrow'
      exact ⟨⟨h.bounds, by simp⟩, fun t ht => ⟨t, ht, Int.le_refl t⟩⟩

end

section

variable {μ : Type} {env : Env μ} {s₀ m s s' : State μ} {a : Action} {run : Uuid}
  {tr tr₀ : List (Entry (State μ) Action)} {row row' : SimulationRunRow}

/-- The chunk size of a run is one its submission fixed. -/
private theorem nonneg_size_congr (hsame : row'.submission = row.submission)
    (hsize : ∀ c, row.chunkSize = some c → 0 ≤ c) : ∀ c, row'.chunkSize = some c → 0 ≤ c := by
  have hchunk : row'.chunkSize = row.chunkSize := congrArg Submission.chunkSize hsame
  rwa [hchunk]

/-- **Every run is paced**, in every state that is reached. -/
theorem paced_of_exec (hclock : env.spur.ClockLaw) (h₀ : s₀.Initial)
    (h : Exec (system env) s₀ tr s) : ∀ row, (s.slice run).row = some row →
      (∀ c, row.chunkSize = some c → 0 ≤ c) → Paced env.spur row (s.workers run) := by
  induction h with
  | nil =>
      intro row hrow
      exact (h₀.not_row hrow).elim
  | @snoc tr s s' a h hstep ih =>
      intro row' hrow' hsize
      cases run_change (RunsOk.exec h₀ h) hstep hrow' with
      | inserted _ _ _ _ _ hnew _ _ hworker' =>
          rw [hworker']
          exact ⟨fun _ t _ ht => by simp [hnew.isQueued.simTimeNow] at ht, by simp⟩
      | @edited row _ hrow hworker _ hedit =>
          rw [hworker]
          exact (ih row hrow (nonneg_size_congr hedit.same.submission.symm hsize)).edited hedit
      | delivered _ _ hworker' hslice =>
          rw [hworker']
          exact ⟨(ih row' (hslice ▸ hrow') hsize).bounds, by simp⟩
      | @worked io row p p' _ hrow hworker hworker' hok hmove =>
          have hsize' :=
            nonneg_size_congr (hmove.write hok.copies hrow').submission.symm hsize
          have hold := ih row hrow hsize'
          have hworking := working_of_exec h₀ h row hrow
          rw [hworker] at hold hworking
          rw [hworker']
          exact (hold.step hclock hsize' hok hworking hmove hrow').1

/-- One step of the service: what a run has reported does not fall. -/
theorem reported_step (hclock : env.spur.ClockLaw) (h₀ : s₀.Initial)
    (h : Exec (system env) s₀ tr s) (hstep : s.step env a = some s')
    (hrow : (s.slice run).row = some row) (hrow' : (s'.slice run).row = some row')
    (hsize : ∀ c, row.chunkSize = some c → 0 ≤ c) {t : Int} (ht : row.simTimeNow = some t) :
    ∃ t', row'.simTimeNow = some t' ∧ t ≤ t' := by
  cases run_change (RunsOk.exec h₀ h) hstep hrow' with
  | inserted _ _ _ _ _ _ hblank =>
      rw [hblank] at hrow
      simp [RunSlice.blank] at hrow
  | edited _ hold _ _ hedit =>
      rw [hrow, Option.some.injEq] at hold
      subst hold
      have hsame : row'.simTimeNow = row.simTimeNow := by rw [hedit.same]
      exact ⟨t, hsame.trans ht, Int.le_refl t⟩
  | delivered _ _ _ hslice =>
      rw [hslice, hrow, Option.some.injEq] at hrow'
      exact ⟨t, hrow' ▸ ht, Int.le_refl t⟩
  | worked _ hold hworker _ hok hmove =>
      rw [hrow, Option.some.injEq] at hold
      subst hold
      have hpaced := paced_of_exec hclock h₀ h row hrow hsize
      have hworking := working_of_exec h₀ h row hrow
      rw [hworker] at hpaced hworking
      exact (hpaced.step hclock hsize hok hworking hmove hrow').2 t ht

/-- **What a run has reported never falls.** -/
theorem reported_grows (hclock : env.spur.ClockLaw) (h₀ : s₀.Initial)
    (hm : Exec (system env) s₀ tr₀ m) (h : Exec (system env) m tr s)
    (hrow : (m.slice run).row = some row) (hsize : ∀ c, row.chunkSize = some c → 0 ≤ c) {t : Int}
    (ht : row.simTimeNow = some t) : ∀ row', (s.slice run).row = some row' →
      ∃ t', row'.simTimeNow = some t' ∧ t ≤ t' := by
  have hnot := notPending_of_row (IdsApart.exec h₀ hm) hrow
  induction h with
  | nil =>
      intro row' hrow'
      rw [hrow, Option.some.injEq] at hrow'
      exact ⟨t, hrow' ▸ ht, Int.le_refl t⟩
  | @snoc tr s s' a h hstep ih =>
      intro row' hrow'
      obtain ⟨row₁, hrow₁⟩ := row_of_step (RunsOk.exec h₀ (hm.append h)).toRunsApart (hnot.exec h)
        hstep hrow'
      obtain ⟨t₁, ht₁, hle⟩ := ih row₁ hrow₁
      have hsame := (submission_run (RunsOk.exec h₀ hm) h hrow).2 row₁ hrow₁
      have hsize₁ := nonneg_size_congr hsame hsize
      obtain ⟨t', ht', hle'⟩ := reported_step hclock h₀ (hm.append h) hstep hrow₁ hrow' hsize₁ ht₁
      exact ⟨t', ht', Int.le_trans hle hle'⟩

/-! ### The progress of a run -/

/-- What is promised to a client that reads `sim_time_now / until_target` as progress, at every
state of a history. -/
structure ProgressIsFraction (env : Env μ) (s₀ : State μ) (tr : List (Entry (State μ) Action))
    (run : Uuid) : Prop where
  bounds : ∀ tr₁ tr₂ m row t, tr = tr₁ ++ tr₂ → Exec (system env) s₀ tr₁ m →
    (m.slice run).row = some row → row.simTimeNow = some t →
      ∃ target, row.untilTarget = some target ∧ 0 ≤ t ∧ t ≤ target
  grows : ∀ tr₁ tr₂ tr₃ m m' row row' t, tr = tr₁ ++ (tr₂ ++ tr₃) → Exec (system env) s₀ tr₁ m →
    Exec (system env) m tr₂ m' → (m.slice run).row = some row →
      (m'.slice run).row = some row' → row.simTimeNow = some t →
        ∃ t', row'.simTimeNow = some t' ∧ t ≤ t'
  completed : ∀ tr₁ tr₂ m row, tr = tr₁ ++ tr₂ → Exec (system env) s₀ tr₁ m →
    (m.slice run).row = some row → row.status = .completed →
      ∃ target, row.untilTarget = some target ∧ row.simTimeNow = some target
  cancelled : ∀ tr₁ tr₂ m row, tr = tr₁ ++ tr₂ → Exec (system env) s₀ tr₁ m →
    (m.slice run).row = some row → row.status = .cancelled →
      ∃ target t, row.untilTarget = some target ∧ row.simTimeNow = some t ∧ t < target

theorem endsWell_of_exec (hclock : env.spur.ClockLaw) (h₀ : s₀.Initial)
    (h : Exec (system env) s₀ tr s) (hrow : (s.slice run).row = some row)
    (hterminal : row.status.terminal = true) : EndsWell row := by
  have hok := RunsOk.exec h₀ h
  obtain ⟨-, hrun⟩ := hok.runs run row hrow
  rw [returned_of_terminal hok hrow hterminal] at hrun
  exact hrun.2 hclock

/-- Where the target is not below 0, progress is a fraction of it. -/
theorem progressIsFraction_of_nonneg (hclock : env.spur.ClockLaw) (h₀ : s₀.Initial)
    (h : Exec (system env) s₀ tr s) (hrow : (s.slice run).row = some row) {target : Int}
    (htarget : row.untilTarget = some target) (hpos : 0 ≤ target)
    (hsize : ∀ c, row.chunkSize = some c → 0 ≤ c) : ProgressIsFraction env s₀ tr run := by
  -- at every state of the history the run has the target and the chunk size of its last row
  have hsame : ∀ {tr₁ tr₂ m row₁}, tr = tr₁ ++ tr₂ → Exec (system env) s₀ tr₁ m →
      (m.slice run).row = some row₁ →
        row₁.untilTarget = some target ∧ ∀ c, row₁.chunkSize = some c → 0 ≤ c := by
    intro tr₁ tr₂ m row₁ htr hm hrow₁
    subst htr
    obtain ⟨m', h₁, h₂⟩ := h.split
    rw [h₁.unique hm] at h₂
    have hkept := (submission_run (RunsOk.exec h₀ hm) h₂ hrow₁).2 row hrow
    have htarget₁ : row.untilTarget = row₁.untilTarget :=
      congrArg Submission.untilTarget hkept
    exact ⟨htarget₁ ▸ htarget, nonneg_size_congr hkept.symm hsize⟩
  have hmax : max 0 target = target := Int.max_eq_right hpos
  constructor
  · intro tr₁ tr₂ m row₁ t htr hm hrow₁ ht
    obtain ⟨htarget₁, hsize₁⟩ := hsame htr hm hrow₁
    have hbounds := (paced_of_exec hclock h₀ hm row₁ hrow₁ hsize₁).bounds target t htarget₁ ht
    exact ⟨target, htarget₁, hmax ▸ hbounds⟩
  · intro tr₁ tr₂ tr₃ m m' row₁ row' t htr hm hm' hrow₁ hrow' ht
    exact reported_grows hclock h₀ hm hm' hrow₁ (hsame htr hm hrow₁).2 ht row' hrow'
  · intro tr₁ tr₂ m row₁ htr hm hrow₁ hstatus
    have hend := endsWell_of_exec hclock h₀ hm hrow₁ (by rw [hstatus]; rfl)
    obtain ⟨target₁, now, htarget₁, hnow, hat⟩ := hend.completed hstatus
    rw [(hsame htr hm hrow₁).1, Option.some.injEq] at htarget₁
    subst htarget₁
    exact ⟨target, (hsame htr hm hrow₁).1, by rw [hnow, hat, hmax]⟩
  · intro tr₁ tr₂ m row₁ htr hm hrow₁ hstatus
    have hend := endsWell_of_exec hclock h₀ hm hrow₁ (by rw [hstatus]; rfl)
    obtain ⟨target₁, now, htarget₁, hnow, hlt, -⟩ := hend.cancelled hstatus
    exact ⟨target₁, now, htarget₁, hnow, hlt⟩

/-- **Reported progress is a fraction of the target** exactly when the request did not ask for a
target below 0, for every run that has reported any. -/
theorem progress_is_fraction_iff (hclock : env.spur.ClockLaw) (h₀ : s₀.Initial)
    (h : Exec (system env) s₀ tr s) (hrow : (s.slice run).row = some row)
    (hreported : row.simTimeNow.isSome = true) (hsize : ∀ c, row.chunkSize = some c → 0 ≤ c)
    (hdeletions : ∀ spec, row.specSnapshot = some spec → DeletionsNonneg spec) :
    ∃ r project body w sub, Origin env tr s run row r project body w sub ∧
      (ProgressIsFraction env s₀ tr run ↔ AsksForward env.settings body w.read.spec) := by
  obtain ⟨r, project, body, w, sub, horigin⟩ := origin_of_row h₀ h row hrow
  refine ⟨r, project, body, w, sub, horigin, ?_⟩
  obtain ⟨e, he, hbuilt⟩ := horigin.built
  obtain ⟨i, id, hid, rfl⟩ := Build.mem_rows_iff.mp horigin.mem
  have htarget : row.untilTarget = some w.target :=
    congrArg Submission.untilTarget horigin.submission
  have hspec : row.specSnapshot = some w.read.spec :=
    congrArg Submission.specSnapshot horigin.submission
  rw [← target_nonneg_iff hbuilt.valid.target (hdeletions _ hspec)]
  constructor
  · intro hfraction
    obtain ⟨t, ht⟩ := Option.isSome_iff_exists.mp hreported
    obtain ⟨target, htarget', hpos, hle⟩ :=
      hfraction.bounds tr [] s row t (List.append_nil tr).symm h hrow ht
    rw [htarget, Option.some.injEq] at htarget'
    omega
  · exact fun hpos => progressIsFraction_of_nonneg hclock h₀ h hrow htarget hpos hsize

end

/-- A run to instant 2 has reported 2. -/
theorem short_run_reports_fraction : ∃ row,
    (shortRun.2.slice 3).row = some row ∧ row.simTimeNow = some 2 ∧
      ∃ r project body w sub, Origin clockEnv shortRun.1 shortRun.2 3 row r project body w sub ∧
        (ProgressIsFraction clockEnv State.empty shortRun.1 3 ↔
          AsksForward {} body w.read.spec) := by
  refine ⟨_, rfl, rfl, progress_is_fraction_iff Spur.clock_clockLaw State.empty_initial
    (Machine.played_exec _) rfl rfl (fun c hc => ?_) fun spec hspec tours htours tour htour => ?_⟩
  · have hc' : some 1 = some c := hc
    rw [Option.some.injEq] at hc'
    omega
  · have hspec' : (ProjectSpec.blank "A").dump = spec := Option.some.inj hspec
    subst hspec'
    have hnone : ([] : List Json) = tours := Except.ok.inj htours
    simp [← hnone] at htour

/-- A run with `until=-5`. -/
def backwardRun : List (Entry (State Int) Action) × State Int :=
  (system clockEnv).played State.empty (submitOne (.single (some (-5)) none) ++ executeOne 7)
    (by decide)

/-- It completes at 0, past its target. -/
theorem backward_run_passes_its_target : ∃ row, (backwardRun.2.slice 3).row = some row ∧
    row.status = .completed ∧ row.simTimeNow = some 0 ∧ row.untilTarget = some (-5) ∧
      ¬ ProgressIsFraction clockEnv State.empty backwardRun.1 3 := by
  refine ⟨_, rfl, rfl, rfl, rfl, fun h => ?_⟩
  obtain ⟨target, htarget, hnow⟩ := h.completed backwardRun.1 [] backwardRun.2 _
    (List.append_nil _).symm (Machine.played_exec _) rfl rfl
  have hfive : some (-5) = some target := htarget
  have hzero : some 0 = some target := hnow
  rw [Option.some.injEq] at hfive hzero
  omega

end SpurApi
