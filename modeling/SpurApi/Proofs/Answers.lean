/-
What a save is answered.

The commit of a save releases the lock, and the row is read again after it.  So the
answer describes whatever save of the project was committed last before that
read, and a client takes the version in it for the version of its own save.
`own_answer_iff` says exactly when the answer is the save's own, and
`another_tabs_answer` shows two clients for whom it is not.  The spec in it is the one that
is stored, which is the one that was sent unless that equals the old one and is another.
-/
import SpurApi.Proofs.NoLostUpdate

namespace SpurApi

open Transition

section

variable {μ : Type} {env : Env μ} {s₀ s : State μ} {p : Uuid}
  {tr : List (Entry (State μ) Action)} {i j k : Nat} {v w : Save}

/-- Entry `i` of a history is the commit of a save. -/
def Commits (tr : List (Entry (State μ) Action)) (p : Uuid) (i : Nat) (v : Save) : Prop :=
  ∃ e, tr[i]? = some e ∧ saveOf p e = some v

/-- Entry `j` reads the row again and answers the `PUT` of request `r`. -/
def Answers (tr : List (Entry (State μ) Action)) (p : Uuid) (j : Nat) (r : RequestId)
    (answer : Project) : Prop :=
  ∃ e ifMatch body, tr[j]? = some e ∧ (∃ io, e.act = .request r io) ∧
    e.pre.put p r ifMatch body .saved ∧ e.post.put p r ifMatch body (.answered (.ok answer))

/-- The saves committed after entry `i` and before entry `j`. -/
def savesBetween (p : Uuid) (tr : List (Entry (State μ) Action)) (i j : Nat) : List Save :=
  saves p ((tr.take j).drop (i + 1))

/-- The save committed by entry `i` is answered with its own state: the spec it sent, at the
version after the one it replaced.  And a client that goes on from the version of this answer
overwrites no save that came in between. -/
structure OwnAnswer (tr : List (Entry (State μ) Action)) (p : Uuid) (i : Nat) (v : Save) (j : Nat)
    (answer : Project) : Prop where
  spec : answer.spec.same v.body.dump = true
  version : answer.version = v.replaced.version + 1
  next : ∀ k w, j < k → Commits tr p k w → w.expected = some answer.version →
    savesBetween p tr i k = []

/-! ### Counting saves -/

private theorem saves_take_succ (hv : Commits tr p i v) :
    saves p (tr.take (i + 1)) = saves p (tr.take i) ++ [v] := by
  obtain ⟨e, he, hev⟩ := hv
  rw [List.take_add_one, he, Option.toList_some, saves_append, saves_singleton, hev]
  rfl

private theorem saves_take (hv : Commits tr p i v) (hij : i < j) :
    saves p (tr.take j) = saves p (tr.take i) ++ [v] ++ savesBetween p tr i j := by
  have hcut : tr.take j = tr.take (i + 1) ++ (tr.take j).drop (i + 1) := by
    have htake : tr.take (i + 1) = (tr.take j).take (i + 1) := by
      rw [List.take_take, Nat.min_eq_left hij]
    rw [htake, List.take_append_drop]
  calc saves p (tr.take j)
      = saves p (tr.take (i + 1) ++ (tr.take j).drop (i + 1)) := by rw [← hcut]
    _ = saves p (tr.take i) ++ [v] ++ savesBetween p tr i j := by
      rw [saves_append, saves_take_succ hv, savesBetween]

/-- The version a save replaced counts the saves before it. -/
private theorem replaced_version_at (h₀ : s₀.Initial) (h : Exec (system env) s₀ tr s)
    (hv : Commits tr p i v) :
    v.replaced.version = startVersion s₀ p + (saves p (tr.take i)).length := by
  obtain ⟨e, he, hev⟩ := hv
  have hsave := isSave_of_entry h₀ h (List.mem_of_getElem? he) hev
  exact version_eq_count h₀ (h.at_index he).1 hsave.replaced

/-- The answer is the row that is there when it is read. -/
private theorem row_of_answer (h : Exec (system env) s₀ tr s) {r : RequestId} {answer : Project}
    (hanswer : Answers tr p j r answer) : ∃ m row, Exec (system env) s₀ (tr.take j) m ∧
      m.projectRow p = some row ∧ answer = toProject p row := by
  obtain ⟨e, ifMatch, body, he, ⟨io, hact⟩, hput, hput'⟩ := hanswer
  obtain ⟨hpre, hstep⟩ := h.at_index he
  refine ⟨e.pre, ?_⟩
  rcases put_step hstep hput with ⟨hne, -⟩ | ⟨_, q', -, hq', hmove⟩
  · exact absurd hact (hne io)
  · obtain ⟨-, -, rfl⟩ := State.put_unique hq' hput'
    generalize e.post.backend = b' at hmove
    cases hmove with
    | reloaded hrow => exact ⟨_, hpre, hrow, rfl⟩

/-! ### When the answer is the save's own -/

/-- **The answer to a save is its own exactly when no other save comes between its commit and
the second read of the row**, and a spec that equals the one it replaces is the same one. -/
theorem own_answer_iff (h₀ : s₀.Initial) (h : Exec (system env) s₀ tr s)
    (hv : Commits tr p i v) (hij : i < j) {answer : Project}
    (hanswer : Answers tr p j v.request answer) :
    OwnAnswer tr p i v j answer ↔ savesBetween p tr i j = [] ∧
      (v.body.dump.pyEq v.replaced.spec = true → v.replaced.spec.same v.body.dump = true) := by
  obtain ⟨m, row, hm, hrow, rfl⟩ := row_of_answer h hanswer
  have hreplaced := replaced_version_at h₀ h hv
  have hversion : row.version = startVersion s₀ p + (saves p (tr.take j)).length :=
    version_eq_count h₀ hm hrow
  have hcount := congrArg List.length (saves_take hv hij)
  simp only [List.length_append, List.length_singleton] at hcount
  obtain ⟨e, he, hev⟩ := hv
  have hsave := isSave_of_entry h₀ h (List.mem_of_getElem? he) hev
  have hlast : savesBetween p tr i j = [] → row.doc = v.stored.doc := fun hnone =>
    doc_of_last h₀ hm hrow (by
      rw [saves_take ⟨e, he, hev⟩ hij, hnone, List.append_nil, List.getLast?_concat])
  constructor
  · intro hown
    have hnext : row.version = v.replaced.version + 1 := hown.version
    have hnone : savesBetween p tr i j = [] := List.length_eq_zero_iff.mp (by omega)
    have hspec : row.spec = v.stored.spec := congrArg Revision.Doc.content (hlast hnone)
    have hsame : row.spec.same v.body.dump = true := hown.spec
    rw [hspec] at hsame
    exact ⟨hnone, hsave.same_iff.mp hsame⟩
  · rintro ⟨hnone, htold⟩
    have hdoc := hlast hnone
    have hspec : row.spec = v.stored.spec := congrArg Revision.Doc.content hdoc
    refine ⟨?_, ?_, fun k w hjk hw hexpected => ?_⟩
    · show row.spec.same v.body.dump = true
      rw [hspec]
      exact hsave.same_iff.mpr htold
    · exact (congrArg Revision.Doc.version hdoc).trans hsave.version
    · obtain ⟨e', he', hew⟩ := hw
      have hcurrent := (isSave_of_entry h₀ h (List.mem_of_getElem? he') hew).current _ hexpected
      have hcountk := congrArg List.length (saves_take ⟨e, he, hev⟩ (Nat.lt_trans hij hjk))
      have hw' := replaced_version_at h₀ h ⟨e', he', hew⟩
      have hsame : row.version = w.replaced.version := hcurrent
      simp only [List.length_append, List.length_singleton] at hcountk
      exact List.length_eq_zero_iff.mp (by rw [hnone] at hcount; simp at hcount; omega)

end

/-! ### Two tabs for which it is not

Tab 1 saves a new project, and tab 2 saves it again before the row is read for the
answer to tab 1.  Tab 1 is answered version 3, and its next save, sent with that
version, overwrites the save of tab 2.
-/

def racingTabs : List Action :=
  [.arrive 0 (.createProject (.blank "A") none none .received), .request 0 {},
    .request 0 { ids := [1] },
    .arrive 1 (.updateProject 1 (some (bareVersion 1)) (.blank "B") .received),
    .request 1 {}, .request 1 {}, .request 1 {},
    .arrive 2 (.updateProject 1 (some (bareVersion 2)) (.blank "C") .received),
    .request 2 {}, .request 2 {}, .request 2 {}, .request 1 {},
    .arrive 3 (.updateProject 1 (some (bareVersion 3)) (.blank "D") .received),
    .request 3 {}, .request 3 {}, .request 3 {}, .request 3 {}]

def racingRun : List (Entry (State Int) Action) × State Int :=
  (system clockEnv).played State.empty racingTabs (by decide)

/-- **A save that is not answered with its own version.** -/
theorem another_tabs_answer : Exec (system clockEnv) State.empty racingRun.1 racingRun.2 ∧
    ∃ v answer, Commits racingRun.1 1 6 v ∧ Answers racingRun.1 1 11 v.request answer ∧
      v.replaced.version = 1 ∧ answer.version = 3 ∧ answer.spec = (ProjectSpec.blank "C").dump ∧
      ¬ OwnAnswer racingRun.1 1 6 v 11 answer ∧
      ∃ w, Commits racingRun.1 1 15 w ∧ w.expected = some answer.version ∧
        (savesBetween 1 racingRun.1 6 15).map Save.request = [2] := by
  refine ⟨Machine.played_exec _, _, _, ⟨_, rfl, rfl⟩, ⟨_, _, _, rfl, ⟨_, rfl⟩, rfl, rfl⟩, rfl, rfl,
    rfl, fun hown => ?_, _, ⟨_, rfl, rfl⟩, rfl, rfl⟩
  exact absurd hown.version (by decide)

/-- The last of the three saves is answered with its own version. -/
theorem own_answer_of_last_save : ∃ v answer, Commits racingRun.1 1 15 v ∧
    Answers racingRun.1 1 16 v.request answer ∧ OwnAnswer racingRun.1 1 15 v 16 answer := by
  obtain ⟨v, answer, hv, hanswer⟩ : ∃ v answer, Commits racingRun.1 1 15 v ∧
      Answers racingRun.1 1 16 v.request answer :=
    ⟨_, _, ⟨_, rfl, rfl⟩, _, _, _, rfl, ⟨_, rfl⟩, rfl, rfl⟩
  have hiff := own_answer_iff State.empty_initial (Machine.played_exec _) hv (by decide) hanswer
  refine ⟨v, answer, hv, hanswer, hiff.mpr ⟨rfl, ?_⟩⟩
  obtain ⟨e, he, hev⟩ := hv
  cases he
  cases hev
  exact fun heq => absurd heq (by decide)

end SpurApi
