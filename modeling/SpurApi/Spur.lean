/-
The parts of the `spur` package that the service calls.

`spur` is not part of this repository, so it is a parameter: a model has some type
`μ` of states, and a call of it hands a list of events to the event sink and then
returns or raises.  What the code relies on is stated as laws (`ClockLaw`, `LoopLaw`,
`SplitLaw`, `Deterministic`), and a theorem names those it needs.
-/
import SpurApi.Basic
import SpurApi.Lib.Json

namespace SpurApi

/-- `spur.core.event.SimEvent`; `event` is the value of its `SimEventType`. -/
structure SimEvent where
  time : Int
  event : String
  trainUid : String
  componentUid : String
  componentType : String
deriving DecidableEq, Repr

/-- `spur.validation.Issue`. -/
structure Issue where
  severity : String
  path : String
  message : String
deriving DecidableEq, Repr

/-- `spur.validation.ValidationResult`. -/
structure ValidationResult where
  valid : Bool
  issues : List Issue
deriving DecidableEq, Repr

/-- A call of the model: what it passed to the event sink, and how it ended. -/
structure Call (μ : Type) where
  emitted : List SimEvent
  result : Except Exn μ

/-- What is used of `spur`.  The first argument of `fromProjectDictionary` numbers whatever
a model can depend on besides the project and the seed. -/
structure Spur (μ : Type) where
  validate : Json.Object → ValidationResult
  fromProjectDictionary : (entropy : Nat) → Json.Object → (seed : Option Int) → Except Exn μ
  now : μ → Int
  start : μ → Call μ
  run : μ → Int → Call μ
  logCurrentState : μ → Call μ

namespace Spur

variable {μ : Type} (spur : Spur μ)

/-- The clock starts at 0, `start` leaves it there, a `run(until=u)` that returns leaves it
at `u`, and `log_current_state` does not move it. -/
structure ClockLaw : Prop where
  build : ∀ {e p s m}, spur.fromProjectDictionary e p s = .ok m → spur.now m = 0
  start : ∀ {m m'}, (spur.start m).result = .ok m' → spur.now m' = spur.now m
  run : ∀ {m u m'}, (spur.run m u).result = .ok m' → spur.now m' = u
  logCurrentState : ∀ {m m'}, (spur.logCurrentState m).result = .ok m' →
    spur.now m' = spur.now m

/-- What the loop of the runner needs of the clock: a model that was built and started stands at
0, and a `run(until=u)` that returns leaves it at `u`. -/
structure LoopLaw : Prop where
  start : ∀ {e p s m m'}, spur.fromProjectDictionary e p s = .ok m →
    (spur.start m).result = .ok m' → spur.now m' = 0
  run : ∀ {m u m'}, (spur.run m u).result = .ok m' → spur.now m' = u

theorem ClockLaw.loopLaw {spur : Spur μ} (h : spur.ClockLaw) : spur.LoopLaw where
  start hbuild hstart := (h.start hstart).trans (h.build hbuild)
  run := h.run

/-- `run(until=a)` followed by `run(until=b)` with `a < b` behaves as `run(until=b)`. -/
def SplitLaw : Prop :=
  ∀ {m a m' b}, spur.now m < a → a < b → (spur.run m a).result = .ok m' →
    spur.run m b = ⟨(spur.run m a).emitted ++ (spur.run m' b).emitted, (spur.run m' b).result⟩

/-- The same project and seed give the same model.  Without a seed they need not. -/
def Deterministic : Prop :=
  ∀ e e' p n, spur.fromProjectDictionary e p (some n) = spur.fromProjectDictionary e' p (some n)

theorem Deterministic.of_seed {spur : Spur μ} (h : spur.Deterministic) {seed : Option Int}
    (hseed : seed.isSome) (e e' : Nat) (p : Json.Object) :
    spur.fromProjectDictionary e p seed = spur.fromProjectDictionary e' p seed := by
  obtain ⟨n, rfl⟩ := Option.isSome_iff_exists.mp hseed
  exact h e e' p n

/-! ### A model that obeys the laws

Its state is its clock, and it emits one event at every instant it passes.
As in SimPy, `run` refuses an end that is not after now.
-/

/-- The event of one instant. -/
def tick (t : Int) : SimEvent := ⟨t, "tick", "train", "track", "TimedTrack"⟩

/-- The events of the instants after `m`, up to `u`. -/
def ticks (m u : Int) : List SimEvent :=
  (List.range (u - m).toNat).map fun i : Nat => tick (m + i + 1)

/-- What SimPy says of an end that is not after now. -/
def notAfterNow : Exn := ⟨.valueError, "until must be greater than the current simulation time"⟩

def clock : Spur Int where
  validate _ := ⟨true, []⟩
  fromProjectDictionary _ _ _ := .ok 0
  now m := m
  start m := ⟨[], .ok m⟩
  run m u := if m < u then ⟨ticks m u, .ok u⟩ else ⟨[], .error notAfterNow⟩
  logCurrentState m := ⟨[tick m], .ok m⟩

theorem ticks_split {m a b : Int} (hma : m < a) (hab : a < b) :
    ticks m b = ticks m a ++ ticks a b := by
  have hlen : (b - m).toNat = (a - m).toNat + (b - a).toNat := by omega
  rw [ticks, hlen, List.range_add, List.map_append, List.map_map]
  congr 1
  refine List.map_congr_left fun i _ => ?_
  simp only [Function.comp_apply, tick, SimEvent.mk.injEq, and_self, and_true]
  omega

theorem clock_run {m u : Int} (h : m < u) : clock.run m u = ⟨ticks m u, .ok u⟩ := if_pos h

theorem clock_clockLaw : clock.ClockLaw where
  build h := (Except.ok.inj h).symm
  start h := (Except.ok.inj h).symm
  run {m u m'} h := by
    by_cases hlt : m < u
    · rw [clock_run hlt] at h
      exact (Except.ok.inj h).symm
    · simp [clock, hlt] at h
  logCurrentState h := (Except.ok.inj h).symm

theorem clock_splitLaw : clock.SplitLaw := by
  intro m a m' b (hma : m < a) hab hrun
  obtain rfl : a = m' := by
    rw [clock_run hma] at hrun
    exact Except.ok.inj hrun
  rw [clock_run hma, clock_run hab, clock_run (Int.lt_trans hma hab), ticks_split hma hab]

theorem clock_deterministic : clock.Deterministic := fun _ _ _ _ => rfl

end Spur

end SpurApi
