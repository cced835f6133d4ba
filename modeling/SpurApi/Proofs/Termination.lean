/-
Everything that is begun ends.

A step of a request brings it nearer to its answer: the only loops are the ones over the
seeds of a submission, and these are walked once.  So a request has taken its last step
when it has taken as many as it had before it at its arrival, and then it is answered.
What keeps it from its next step, such as the lock of a row, does not count here.  A worker
likewise has a bounded number of steps, for its clock goes to the target of its run.
-/
import SpurApi.Proofs.Atomic
import SpurApi.Proofs.Executions

namespace SpurApi

open Transition

/-! ### How many steps are left -/

def UpdateProject.rank : UpdateProject → Nat
  | .received => 4
  | .reading _ => 3
  | .checked _ _ => 2
  | .refused _ | .saved => 1
  | .answered _ => 0

def CreateProject.rank : CreateProject → Nat
  | .received => 3
  | .inserting _ => 2
  | .created _ => 1
  | .answered _ => 0

def DeleteProject.rank : DeleteProject → Nat
  | .received => 2
  | .deleting => 1
  | .answered _ => 0

/-- Two steps for each run, and four around them. -/
def SubmitRun.rank (seeds : Nat) : SubmitRun → Nat
  | .received => 2 * seeds + 4
  | .inserting rows => 2 * rows.length + 3
  | .refreshing _ _ todo => 2 * todo.length + 4
  | .enqueueing _ _ todo => 2 * todo.length + 3
  | .recording _ => 2
  | .reloading _ => 1
  | .answered _ => 0

def EditRun.rank : EditRun → Nat
  | .received => 3
  | .loaded _ => 2
  | .committed => 1
  | .answered _ => 0

def DeleteRun.rank : DeleteRun → Nat
  | .received => 2
  | .deleting => 1
  | .answered _ => 0

/-- The steps of its own that a request has before it at most. -/
def Request.rank : Request → Nat
  | .updateProject _ _ _ point => point.rank
  | .createProject _ _ _ point => point.rank
  | .deleteProject _ point => point.rank
  | .submitRun _ body point => point.rank body.seeds
  | .editRun _ _ point => point.rank
  | .deleteRun _ point => point.rank

/-- The request has its answer. -/
def Request.isAnswered : Request → Bool
  | .updateProject _ _ _ (.answered _) => true
  | .createProject _ _ _ (.answered _) => true
  | .deleteProject _ (.answered _) => true
  | .submitRun _ _ (.answered _) => true
  | .editRun _ _ (.answered _) => true
  | .deleteRun _ (.answered _) => true
  | _ => false

section

variable {μ : Type} {env : Env μ} {s₀ s s' : State μ} {a : Action} {r : RequestId} {run : Uuid}
  {tr : List (Entry (State μ) Action)} {b b' : Backend} {q q' : Request} {io : Io}

theorem SubmitRun.rank_loop (seeds : Nat) (done todo : List Submitted) :
    (SubmitRun.loop done todo).rank seeds ≤ 2 * todo.length + 2 := by
  cases todo with
  | nil => exact Nat.le_refl _
  | cons next todo =>
      simp only [loop, rank, List.length_cons]
      omega

theorem SubmitMove.rank_lt {spur : Spur μ} {settings : Settings} {id : Uuid} {body : RunCreate}
    {point point' : SubmitRun} (h : SubmitMove spur settings id body io b point point' b') :
    point'.rank body.seeds < point.rank body.seeds := by
  cases h with
  | built _ _ _ hlen =>
      simp only [SubmitRun.rank, runRows_length, hlen]
      omega
  | @inserted rows =>
      exact Nat.lt_of_le_of_lt (SubmitRun.rank_loop body.seeds [] rows) (Nat.lt_succ_self _)
  | @enqueued done todo next =>
      exact Nat.lt_of_le_of_lt (SubmitRun.rank_loop body.seeds _ todo) (Nat.lt_succ_self _)
  | _ =>
      simp only [SubmitRun.rank]
      omega

/-- **A step of a request brings it nearer to its answer.** -/
theorem Request.rank_lt (h : q.step env r io b = some (q', b')) : q'.rank < q.rank := by
  cases q with
  | updateProject id ifMatch body point =>
      simp only [Request.step, Option.map_eq_some_iff, Prod.exists, Prod.mk.injEq] at h
      obtain ⟨_, _, hpoint, rfl, rfl⟩ := h
      cases putMove_of_step hpoint <;> simp [rank, UpdateProject.rank]
  | createProject body owner base point =>
      simp only [Request.step, Option.map_eq_some_iff, Prod.exists, Prod.mk.injEq] at h
      obtain ⟨_, _, hpoint, rfl, rfl⟩ := h
      cases createMove_of_step hpoint <;> simp [rank, CreateProject.rank]
  | deleteProject id point =>
      simp only [Request.step, Option.map_eq_some_iff, Prod.exists, Prod.mk.injEq] at h
      obtain ⟨_, _, hpoint, rfl, rfl⟩ := h
      cases point <;> simp only [DeleteProject.step] at hpoint
      all_goals repeat' split at hpoint
      all_goals cases hpoint <;> simp [rank, DeleteProject.rank]
  | submitRun project body point =>
      simp only [Request.step, Option.map_eq_some_iff, Prod.exists, Prod.mk.injEq] at h
      obtain ⟨_, _, hpoint, rfl, rfl⟩ := h
      exact (submitMove_of_step hpoint).rank_lt
  | editRun run edit point =>
      simp only [Request.step, Option.map_eq_some_iff, Prod.exists, Prod.mk.injEq] at h
      obtain ⟨_, _, hpoint, rfl, rfl⟩ := h
      cases editMove_of_step hpoint <;> simp [rank, EditRun.rank]
  | deleteRun run point =>
      simp only [Request.step, Option.map_eq_some_iff, Prod.exists, Prod.mk.injEq] at h
      obtain ⟨_, _, hpoint, rfl, rfl⟩ := h
      cases point <;> simp only [DeleteRun.step] at hpoint
      all_goals repeat' split at hpoint
      all_goals cases hpoint <;> simp [rank, DeleteRun.rank]

theorem Request.isAnswered_iff : q.isAnswered = true ↔ q.rank = 0 := by
  cases q with
  | updateProject _ _ _ point => cases point <;> simp [isAnswered, rank, UpdateProject.rank]
  | createProject _ _ _ point => cases point <;> simp [isAnswered, rank, CreateProject.rank]
  | deleteProject _ point => cases point <;> simp [isAnswered, rank, DeleteProject.rank]
  | submitRun _ _ point => cases point <;> simp [isAnswered, rank, SubmitRun.rank]
  | editRun _ _ point => cases point <;> simp [isAnswered, rank, EditRun.rank]
  | deleteRun _ point => cases point <;> simp [isAnswered, rank, DeleteRun.rank]

/-! ### A history -/

/-- The entry is a step of the request. -/
def isStepOf (r : RequestId) (e : Entry (State μ) Action) : Bool :=
  match e.act with
  | .request r' _ => r' == r
  | _ => false

/-- The steps that the request has taken. -/
def ownSteps (r : RequestId) (tr : List (Entry (State μ) Action)) : Nat := tr.countP (isStepOf r)

theorem isStepOf_iff {e : Entry (State μ) Action} :
    isStepOf r e = true ↔ ∃ io, e.act = .request r io := by
  unfold isStepOf
  split
  · rename_i r' io hact
    rw [beq_iff_eq, hact]
    constructor
    · rintro rfl
      exact ⟨io, rfl⟩
    · rintro ⟨io', heq⟩
      rw [Action.request.injEq] at heq
      exact heq.1
  · rename_i hne
    simp only [Bool.false_eq_true, false_iff]
    rintro ⟨io, hact⟩
    exact hne r io hact

/-- The steps the request has left at most. -/
def State.stepsLeft (r : RequestId) (s : State μ) : Nat :=
  match s.requests r with
  | some q => q.rank
  | none => 0

theorem State.stepsLeft_of_request (h : s.requests r = some q) : s.stepsLeft r = q.rank := by
  rw [stepsLeft, h]

/-- Nobody else's step changes how many are left, and a step of its own lowers it. -/
theorem stepsLeft_step (hsome : (s.requests r).isSome = true) (hstep : s.step env a = some s') :
    (s'.requests r).isSome = true ∧ s'.stepsLeft r ≤ s.stepsLeft r ∧
      (isStepOf r (⟨s, a, s'⟩ : Entry (State μ) Action) = true →
        s'.stepsLeft r < s.stepsLeft r) := by
  have hsome' := requests_isSome_step hstep hsome
  refine ⟨hsome', ?_⟩
  obtain ⟨q, hq⟩ := Option.isSome_iff_exists.mp hsome
  obtain ⟨q', hq'⟩ := Option.isSome_iff_exists.mp hsome'
  rw [State.stepsLeft_of_request hq, State.stepsLeft_of_request hq']
  cases request_step hstep hq' with
  | kept hact hkept =>
      rw [hq, Option.some.injEq] at hkept
      subst hkept
      refine ⟨Nat.le_refl _, fun hown => ?_⟩
      obtain ⟨io, ha⟩ := isStepOf_iff.mp hown
      exact absurd ha (hact io)
  | arrived _ hnone => simp [hq] at hnone
  | stepped _ hq₀ hqstep =>
      rw [hq, Option.some.injEq] at hq₀
      subst hq₀
      have hlt := Request.rank_lt hqstep
      exact ⟨Nat.le_of_lt hlt, fun _ => hlt⟩

/-- **The steps a request has taken and those it has left are no more than it had when it
arrived.** -/
theorem ownSteps_add_stepsLeft_le (h : Exec (system env) s₀ tr s)
    (harrive : .arrive r q ∈ tr.map Entry.act) :
    (s.requests r).isSome = true ∧ ownSteps r tr + s.stepsLeft r ≤ q.rank := by
  obtain ⟨e, he, hact⟩ := List.mem_map.mp harrive
  obtain ⟨tr₁, tr₂, rfl, hpre, hstep, hrest⟩ := h.of_mem he
  rw [hact] at hstep
  have hstep' : e.pre.step env (.arrive r q) = some e.post := hstep
  simp only [State.step, Option.ite_none_right_eq_some, Bool.and_eq_true,
    Option.isNone_iff_eq_none, Option.some.injEq] at hstep'
  obtain ⟨⟨hnone, -⟩, hpost⟩ := hstep'
  have hreq : e.post.requests r = some q := by rw [← hpost, State.setRequest_requests_self]
  -- it has not stepped before it arrived
  have hbefore : tr₁.countP (isStepOf r) = 0 := by
    rw [List.countP_eq_zero]
    intro e' he' hown
    obtain ⟨io, ha⟩ := isStepOf_iff.mp hown
    exact not_acted_of_none hpre hnone e' he' io ha
  have harrival : isStepOf r e = false := by
    rw [← Bool.not_eq_true, isStepOf_iff, hact]
    simp
  have hlower : ∀ s a s', (s.requests r).isSome = true → (system env).step s a = some s' →
      (s'.requests r).isSome = true ∧ s'.stepsLeft r ≤ s.stepsLeft r ∧
        (isStepOf r (⟨s, a, s'⟩ : Entry (State μ) Action) = true →
          s'.stepsLeft r < s.stepsLeft r) :=
    fun _ _ _ hsome hs => stepsLeft_step hsome hs
  obtain ⟨hsome, hcount⟩ := Exec.count_le_rank (by simp [hreq]) hlower hrest
  rw [State.stepsLeft_of_request hreq] at hcount
  refine ⟨hsome, ?_⟩
  rw [ownSteps, List.countP_append, List.countP_cons_of_neg (by simp [harrival]), hbefore]
  omega

/-- What is promised of a history: its requests are answered when they have taken the steps they
came with, and its workers are over after as many as their targets allow. -/
structure AllEnds (env : Env μ) (tr : List (Entry (State μ) Action)) (s : State μ) : Prop where
  requests : ∀ r q, .arrive r q ∈ tr.map Entry.act → ownSteps r tr ≤ q.rank ∧
    (ownSteps r tr = q.rank → ∃ q', s.requests r = some q' ∧ q'.isAnswered = true)
  answered : ∀ r q, s.requests r = some q → q.isAnswered = true →
    ∀ io, s.step env (.request r io) = none
  workers : ∀ run row target, (s.slice run).row = some row → row.untilTarget = some target →
    (∀ c, row.chunkSize = some c → 0 ≤ c) → works run tr ≤ 3 * target.toNat + 8

/-- **Nothing goes on for ever**: whatever the others do, each request and each worker takes a
bounded number of steps. -/
theorem everything_ends (hclock : env.spur.ClockLaw) (h₀ : s₀.Initial)
    (h : Exec (system env) s₀ tr s) : AllEnds env tr s where
  requests r q harrive := by
    obtain ⟨hsome, hsteps⟩ := ownSteps_add_stepsLeft_le h harrive
    obtain ⟨q', hq'⟩ := Option.isSome_iff_exists.mp hsome
    rw [State.stepsLeft_of_request hq'] at hsteps
    refine ⟨by omega, fun hall => ⟨q', hq', Request.isAnswered_iff.mpr ?_⟩⟩
    omega
  answered r q hq hanswered io := by
    rw [Option.eq_none_iff_forall_ne_some]
    intro s' hstep
    obtain ⟨q', hqstep, -⟩ := step_of_request hstep hq
    have hlt := Request.rank_lt hqstep
    rw [Request.isAnswered_iff.mp hanswered] at hlt
    exact Nat.not_lt_zero _ hlt
  workers run row target hrow htarget hsize := by
    have hbound := works_bounded hclock h₀ h row target hrow htarget hsize
    omega

end

/-- A project is created and a run of it submitted and executed; all of it is over. -/
theorem short_run_ends :
    (ownSteps 0 shortRun.1, ownSteps 1 shortRun.1, works 3 shortRun.1) = (2, 5, 13) ∧
      AllEnds clockEnv shortRun.1 shortRun.2 :=
  ⟨by decide, everything_ends Spur.clock_clockLaw State.empty_initial (Machine.played_exec _)⟩

end SpurApi
