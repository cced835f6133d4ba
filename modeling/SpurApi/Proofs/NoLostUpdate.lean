/-
Saves never lose an update.

The statement is about one project in one history, whatever else the history holds.
`SavesInSequence` collects what holds of every history: the version decides a save, and
what an accepted save stores equals what it carried.  `NoLostUpdate` adds what is promised
beyond that: the spec is stored exactly, and a save with the right version is accepted.
The promise breaks where the database's session takes two specs for equal that are not
the same, and where a column cannot hold what was sent, and `no_lost_update_iff` says that
it breaks nowhere else.

The two run lemmas say what becomes of a `PUT` once it holds the lock: one that passed the
check writes its row by its next step, one that failed it only answers.
-/
import SpurApi.Proofs.Saves

namespace SpurApi

open Transition

section

variable {μ : Type} {env : Env μ} {s₀ m s s' : State μ} {a : Action} {p : Uuid}
  {tr tr₁ tr₂ : List (Entry (State μ) Action)} {r : RequestId} {ifMatch : Option HeaderValue}
  {body : ProjectSpec}

/-! ### What becomes of a `PUT` that holds the lock -/

/-- The save was accepted. -/
def Accepted (p : Uuid) (tr : List (Entry (State μ) Action)) (r : RequestId) : Prop :=
  ∃ v ∈ saves p tr, v.request = r

theorem Accepted.append_left (h : Accepted p tr₂ r) (tr₁ : List (Entry (State μ) Action)) :
    Accepted p (tr₁ ++ tr₂) r := by
  obtain ⟨v, hv, hr⟩ := h
  exact ⟨v, by rw [saves_append]; exact List.mem_append_right _ hv, hr⟩

theorem Accepted.append_right (h : Accepted p tr₁ r) (tr₂ : List (Entry (State μ) Action)) :
    Accepted p (tr₁ ++ tr₂) r := by
  obtain ⟨v, hv, hr⟩ := h
  exact ⟨v, by rw [saves_append]; exact List.mem_append_left _ hv, hr⟩

/-- What the next step of a `PUT` that passed the check does. -/
private theorem saved_of_step {io : Io} {expected : Option Int} {row : ProjectRow}
    (hputs : PutsHold s p) (hput : s.put p r ifMatch body (.checked expected row))
    (hholds : (replaceSpec row body).holds = true)
    (hstep : s.step env (.request r io) = some s') :
    ∃ v, saveOf p ⟨s, .request r io, s'⟩ = some v ∧ v.request = r := by
  rcases put_step hstep hput with ⟨hne, -⟩ | ⟨io', q', ha, hput', hmove⟩
  · exact absurd rfl (hne io)
  · obtain ⟨-, -, -, stored, hstored, -⟩ := hputs.points hput
    generalize hb : s'.backend = b' at hmove
    cases hmove with
    | unstorable hnot =>
        rw [hholds] at hnot
        cases hnot
    | vanished hgone =>
        rw [hgone] at hstored
        simp at hstored
    | saved hreplaced =>
        obtain ⟨new, hnew⟩ : ∃ new, s'.projectRow p = some new := by
          rw [State.projectRow, hb]
          exact ⟨_, Function.update_self ..⟩
        exact ⟨_, saveOf_saved hput hput' hreplaced hnew, rfl⟩

/-- A `PUT` that passed the check stays there until it is committed, if its row can be stored. -/
private theorem checked_run {expected : Option Int} {row : ProjectRow} (hputs : PutsHold m p)
    (hput : m.put p r ifMatch body (.checked expected row))
    (hholds : (replaceSpec row body).holds = true) (h : Exec (system env) m tr s) :
    s.put p r ifMatch body (.checked expected row) ∨ Accepted p tr r := by
  induction h with
  | nil => exact .inl hput
  | @snoc tr s s' a h hstep ih =>
      rcases ih with hput | haccepted
      · rcases put_step hstep hput with ⟨-, hput'⟩ | ⟨io, q', rfl, -, -⟩
        · exact .inl hput'
        · obtain ⟨v, hv, hr⟩ := saved_of_step (hputs.exec h) hput hholds hstep
          refine .inr (Accepted.append_left ⟨v, ?_, hr⟩ tr)
          simp [hv]
      · exact .inr (haccepted.append_right _)

/-- If it cannot, it fails. -/
private theorem unstorable_run {expected : Option Int} {row : ProjectRow} (hputs : PutsHold m p)
    (hput : m.put p r ifMatch body (.checked expected row))
    (hnot : (replaceSpec row body).holds = false) (h : Exec (system env) m tr s) :
    s.put p r ifMatch body (.checked expected row) ∨
      s.put p r ifMatch body (.answered (.error (.unhandled dataError))) := by
  induction h with
  | nil => exact .inl hput
  | @snoc tr s s' a h hstep ih =>
      rcases ih with hput | hput <;> rcases put_step hstep hput with ⟨-, hput'⟩ | hmoved
      · exact .inl hput'
      · obtain ⟨io, q', -, hput', hmove⟩ := hmoved
        obtain ⟨-, -, -, stored, hstored, -⟩ := (hputs.exec h).points hput
        generalize s'.backend = b' at hmove
        cases hmove with
        | unstorable => exact .inr hput'
        | vanished hgone =>
            rw [hgone] at hstored
            cases hstored
        | saved _ hholds =>
            rw [hnot] at hholds
            cases hholds
      · exact .inr hput'
      · obtain ⟨io, q', -, -, hmove⟩ := hmoved
        generalize s'.backend = b' at hmove
        cases hmove

/-- A `PUT` that failed the check only answers. -/
private theorem refused_run {err : ApiError} (hput : m.put p r ifMatch body (.refused err))
    (h : Exec (system env) m tr s) :
    s.put p r ifMatch body (.refused err) ∨ s.put p r ifMatch body (.answered (.error err)) := by
  induction h with
  | nil => exact .inl hput
  | @snoc tr s s' a h hstep ih =>
      rcases ih with hput | hput <;> rcases put_step hstep hput with ⟨-, hput'⟩ | hmoved
      · exact .inl hput'
      · obtain ⟨io, q', -, hput', hmove⟩ := hmoved
        generalize s'.backend = b' at hmove
        cases hmove with
        | closed => exact .inr hput'
      · exact .inr hput'
      · obtain ⟨io, q', -, -, hmove⟩ := hmoved
        generalize s'.backend = b' at hmove
        cases hmove

/-- The points a `PUT` can be at once it was committed. -/
def UpdateProject.pastSave : UpdateProject → Prop
  | .saved | .answered (.ok _) => True
  | .answered (.error e) => e = .unhandled refreshFailed
  | _ => False

theorem pastSave_of_putMove {io : Io} {b b' : Backend} {q q' : UpdateProject}
    (h : q.pastSave) (hmove : PutMove r p ifMatch body io b q q' b') : q'.pastSave := by
  cases hmove with
  | reloadFailed => rfl
  | reloaded => trivial
  | _ => exact h.elim

/-- An accepted save is past its commit. -/
theorem pastSave_of_mem (h₀ : s₀.Initial) (h : Exec (system env) s₀ tr s) {v : Save}
    (hv : v ∈ saves p tr) : ∃ q, s.put p v.request v.ifMatch v.body q ∧ q.pastSave := by
  induction h with
  | nil => simp [saves] at hv
  | @snoc tr s s' a h hstep ih =>
      rw [saves_append, List.mem_append, saves_singleton, Option.mem_toList] at hv
      rcases hv with hv | hv
      · obtain ⟨q, hput, hq⟩ := ih hv
        rcases put_step hstep hput with ⟨-, hput'⟩ | ⟨io, q', -, hput', hmove⟩
        · exact ⟨q, hput', hq⟩
        · exact ⟨q', hput', pastSave_of_putMove hq hmove⟩
      · have hsave := isSave_of_entry h₀ (h.snoc hstep) (by simp) hv
        exact ⟨.saved, hsave.saved, trivial⟩

/-- What an accepted save is answered. -/
theorem pastSave_of_accepted (h₀ : s₀.Initial) (h : Exec (system env) s₀ tr s)
    (haccepted : Accepted p tr r) {q : UpdateProject} (hput : s.put p r ifMatch body q) :
    q.pastSave := by
  obtain ⟨v, hv, rfl⟩ := haccepted
  obtain ⟨q', hput', hq'⟩ := pastSave_of_mem h₀ h hv
  obtain ⟨-, -, rfl⟩ := State.put_unique hput hput'
  exact hq'

/-! ### The promise -/

/-- The version a project starts at: what it was migrated with, or 1. -/
def startVersion (s₀ : State μ) (p : Uuid) : Int :=
  match s₀.projectRow p with
  | some row => row.version
  | none => 1

/-- A `PUT` that was parsed reads the row of its project, which takes the lock. -/
def ObtainsLock (e : Entry (State μ) Action) (p : Uuid) (r : RequestId)
    (ifMatch : Option HeaderValue) (body : ProjectSpec) (expected : Option Int)
    (row : ProjectRow) : Prop :=
  (∃ io, e.act = .request r io) ∧ e.pre.put p r ifMatch body (.reading expected) ∧
    e.pre.projectRow p = some row

/-- What holds of the saves of a project in every history from `s₀` to `s`. -/
structure SavesInSequence (env : Env μ) (s₀ : State μ) (tr : List (Entry (State μ) Action))
    (s : State μ) (p : Uuid) : Prop where
  /-- The saves form one sequence: each raises the version by one and stores what equals the spec
  it carried. -/
  sequence : ∀ (k : Nat) (v : Save), (saves p tr)[k]? = some v →
    v.replaced.version = startVersion s₀ p + k ∧ v.stored.version = startVersion s₀ p + k + 1 ∧
      v.stored.spec.pyEq v.body.dump = true ∧ v.stored.name = v.body.name ∧
      v.stored.spurVersion = v.body.spurVersion
  /-- No save is lost: the next one, and the row that is there, have its spec and its version. -/
  kept : ∀ (k : Nat) (v w : Save), (saves p tr)[k]? = some v → (saves p tr)[k + 1]? = some w →
    w.replaced.doc = v.stored.doc
  current : ∀ row, s.projectRow p = some row →
    row.version = startVersion s₀ p + (saves p tr).length ∧
      ∀ v, (saves p tr).getLast? = some v → row.doc = v.stored.doc
  /-- The version at the moment a save obtains the lock decides it, if its row can be stored. -/
  decided : ∀ tr₁ e tr₂ r ifMatch body expected row, tr = tr₁ ++ e :: tr₂ →
    ObtainsLock e p r ifMatch body expected row →
    ¬ s.put p r ifMatch body (.checked expected row) →
      versionFrom ifMatch = .ok expected ∧
        (Accepted p tr r ↔
          (∀ n, expected = some n → n = row.version) ∧ (replaceSpec row body).holds = true) ∧
        (∀ n, expected = some n → n ≠ row.version →
          s.put p r ifMatch body (.refused (staleProject p row.version n)) ∨
            s.put p r ifMatch body (.answered (.error (staleProject p row.version n))))
  /-- And one that passed is committed by its next step, which nothing else can stop. -/
  committed : ∀ r ifMatch body expected row, s.put p r ifMatch body (.checked expected row) →
    (replaceSpec row body).holds = true →
    ∀ io, ∃ s', s.step env (.request r io) = some s' ∧
      ∃ v, saveOf p ⟨s, .request r io, s'⟩ = some v ∧ v.request = r
  /-- At most one save is accepted for each version. -/
  once : ∀ (i j : Nat) (v w : Save) (n : Int), (saves p tr)[i]? = some v →
    (saves p tr)[j]? = some w → v.expected = some n → w.expected = some n → i = j
  /-- Only a save without the header is unconditional. -/
  header : ∀ v ∈ saves p tr, versionFrom v.ifMatch = .ok v.expected ∧
    (v.expected = none ↔ v.ifMatch = none)
  /-- A number in decimal denotes itself, bare or quoted, as long as Python reads it. -/
  denotes : ∀ n : Nat, (Nat.toDigits 10 n).length ≤ PyText.maxStrDigits →
    versionFrom (some (bareVersion n)) = .ok (some (n : Int)) ∧
      versionFrom (some (quotedVersion n)) = .ok (some (n : Int))
  /-- Both numbers only grow, and keep their order. -/
  bounds : ∀ row, s.projectRow p = some row → 1 ≤ row.inputsVersion ∧
    row.inputsVersion ≤ row.version
  grow : ∀ tr₁ tr₂ m row row', tr = tr₁ ++ tr₂ → Exec (system env) s₀ tr₁ m →
    m.projectRow p = some row → s.projectRow p = some row' →
      row.version ≤ row'.version ∧ row.inputsVersion ≤ row'.inputsVersion
  /-- A save that is refused was not accepted, and a step that is no commit writes nothing. -/
  refused : ∀ r ifMatch body err, s.put p r ifMatch body (.answered (.error err)) →
    err.status = 400 ∨ err.status = 404 ∨ err.status = 412 → ¬ Accepted p tr r
  harmless : ∀ e ∈ tr, ∀ r io ifMatch body q, e.act = .request r io →
    e.pre.put p r ifMatch body q → saveOf p e = none →
      e.post.backend.db = e.pre.backend.db

/-- What is promised of them. -/
structure NoLostUpdate (env : Env μ) (s₀ : State μ) (tr : List (Entry (State μ) Action))
    (s : State μ) (p : Uuid) : Prop extends SavesInSequence env s₀ tr s p where
  /-- An accepted save stores exactly the spec it carried. -/
  exact : ∀ v ∈ saves p tr, v.stored.spec.same v.body.dump = true
  /-- A save is accepted whose version is the committed one when it obtains the lock, as is one
  without a version. -/
  accepted : ∀ tr₁ e tr₂ r ifMatch body expected row, tr = tr₁ ++ e :: tr₂ →
    ObtainsLock e p r ifMatch body expected row →
    ¬ s.put p r ifMatch body (.checked expected row) →
    (∀ n, expected = some n → n = row.version) → Accepted p tr r

/-- What keeps the promise: a spec that equals the one it replaces is the same one, and what
passes the version check can be stored. -/
structure SavesStorable (tr : List (Entry (State μ) Action)) (s : State μ) (p : Uuid) :
    Prop where
  told : ∀ v ∈ saves p tr, v.body.dump.pyEq v.replaced.spec = true →
    v.replaced.spec.same v.body.dump = true
  held : ∀ tr₁ e tr₂ r ifMatch body expected row, tr = tr₁ ++ e :: tr₂ →
    ObtainsLock e p r ifMatch body expected row →
    ¬ s.put p r ifMatch body (.checked expected row) →
    (∀ n, expected = some n → n = row.version) → (replaceSpec row body).holds = true

private theorem firstRow_version (h₀ : s₀.Initial) (h : Exec (system env) s₀ tr s)
    {row₀ : ProjectRow} (hrow₀ : firstRow p tr s = some row₀) :
    row₀.version = startVersion s₀ p := by
  rw [startVersion]
  cases hstart : s₀.projectRow p with
  | none => exact ((lineage h₀ h p).first row₀ hrow₀).2.2.1 hstart
  | some row =>
      have hfirst : firstRow p ([] ++ tr) s = some row := firstRow_append hstart h
      rw [List.nil_append, hrow₀, Option.some.injEq] at hfirst
      rw [hfirst]

/-- The committed version counts the saves. -/
theorem version_eq_count (h₀ : s₀.Initial) (h : Exec (system env) s₀ tr s) {row : ProjectRow}
    (hrow : s.projectRow p = some row) :
    row.version = startVersion s₀ p + (saves p tr).length := by
  obtain ⟨row₀, hrow₀, hversion⟩ := version_of_row h₀ h hrow
  rw [hversion, firstRow_version h₀ h hrow₀]

/-- The row before a save is the first row revised by the saves before it. -/
theorem doc_of_entry (h₀ : s₀.Initial) {e : Entry (State μ) Action}
    (h : Exec (system env) s₀ (tr₁ ++ e :: tr₂) s) {v : Save} (hv : saveOf p e = some v) :
    ∃ row₀, firstRow p (tr₁ ++ e :: tr₂) s = some row₀ ∧
      v.replaced.doc = row₀.doc.after SameInputs (savedSpecs p tr₁) ∧
      v.stored.doc = row₀.doc.after SameInputs (savedSpecs p tr₁ ++ [v.stored.spec]) := by
  have hsave := isSave_of_entry h₀ h (by simp) hv
  obtain ⟨hpre, hstep, hpost⟩ := h.split_at
  obtain ⟨row₀, hrow₀, hdoc⟩ := doc_of_row h₀ hpre hsave.replaced
  refine ⟨row₀, firstRow_append hrow₀ (Exec.cons hstep hpost), hdoc, ?_⟩
  rw [Revision.Doc.after_concat, ← hdoc]
  exact hsave.doc

private theorem replaced_version (h₀ : s₀.Initial) (h : Exec (system env) s₀ tr s) {k : Nat}
    {v : Save} (hv : (saves p tr)[k]? = some v) :
    v.replaced.version = startVersion s₀ p + k := by
  obtain ⟨tr₁, e, tr₂, rfl, he, rfl⟩ := exists_entry_of_getElem? hv
  exact version_eq_count h₀ h.split_at.1 (isSave_of_entry h₀ h (by simp) he).replaced

private theorem isSave_of_mem (h₀ : s₀.Initial) (h : Exec (system env) s₀ tr s) {v : Save}
    (hv : v ∈ saves p tr) : ∃ e ∈ tr, IsSave e p v := by
  obtain ⟨e, he, hev⟩ := exists_entry_of_mem_saves hv
  exact ⟨e, he, isSave_of_entry h₀ h he hev⟩

/-- The row that is there is the one the last save stored. -/
theorem doc_of_last (h₀ : s₀.Initial) (h : Exec (system env) s₀ tr s) {row : ProjectRow}
    (hrow : s.projectRow p = some row) {v : Save} (hv : (saves p tr).getLast? = some v) :
    row.doc = v.stored.doc := by
  rw [List.getLast?_eq_getElem?] at hv
  obtain ⟨tr₁, e, tr₂, rfl, he, hk⟩ := exists_entry_of_getElem? hv
  have hnone : saves p tr₂ = [] := by
    rw [saves_append, saves_cons, he] at hk
    simp only [List.length_append, Option.toList_some, List.length_singleton] at hk
    exact List.length_eq_zero_iff.mp (by omega)
  obtain ⟨row₀, hrow₀, -, hstored⟩ := doc_of_entry h₀ h he
  have hspecs : savedSpecs p (tr₁ ++ e :: tr₂) = savedSpecs p tr₁ ++ [v.stored.spec] := by
    rw [savedSpecs_append, savedSpecs, savedSpecs, saves_cons, he, hnone]
    rfl
  rw [(lineage h₀ h p).doc row₀ row hrow₀ hrow, hstored, hspecs]

private theorem kept_of_exec (h₀ : s₀.Initial) (h : Exec (system env) s₀ tr s) {k : Nat}
    {v w : Save} (hv : (saves p tr)[k]? = some v) (hw : (saves p tr)[k + 1]? = some w) :
    w.replaced.doc = v.stored.doc := by
  obtain ⟨tr₁, e, tr₂, rfl, he, hk⟩ := exists_entry_of_getElem? hw
  have hpre := h.split_at.1
  refine doc_of_last h₀ hpre (isSave_of_entry h₀ h (by simp) he).replaced ?_
  rw [saves_append, List.getElem?_append_left (by omega)] at hv
  rw [List.getLast?_eq_getElem?, hk]
  exact hv

private theorem decided_of_exec (h₀ : s₀.Initial) {e : Entry (State μ) Action}
    (h : Exec (system env) s₀ (tr₁ ++ e :: tr₂) s) {expected : Option Int} {row : ProjectRow}
    (hlock : ObtainsLock e p r ifMatch body expected row)
    (hgone : ¬ s.put p r ifMatch body (.checked expected row)) :
    versionFrom ifMatch = .ok expected ∧
      (Accepted p (tr₁ ++ e :: tr₂) r ↔
        (∀ n, expected = some n → n = row.version) ∧ (replaceSpec row body).holds = true) ∧
      (∀ n, expected = some n → n ≠ row.version →
        s.put p r ifMatch body (.refused (staleProject p row.version n)) ∨
          s.put p r ifMatch body (.answered (.error (staleProject p row.version n)))) := by
  obtain ⟨⟨io, hact⟩, hreading, hrow⟩ := hlock
  obtain ⟨hpre, hstep, hpost⟩ := h.split_at
  have hputs := (h₀.putsHold p).exec hpre
  have hparsed : versionFrom ifMatch = .ok expected := hputs.points hreading
  refine ⟨hparsed, ?_⟩
  rcases put_step hstep hreading with ⟨hne, -⟩ | ⟨io', q', -, hput', hmove⟩
  · exact absurd hact (hne io)
  generalize e.post.backend = b' at hmove
  cases hmove with
  | missing _ hnone =>
      rw [State.projectRow, hnone] at hrow
      simp at hrow
  | passed _ hrow' hn =>
      rw [State.projectRow, hrow', Option.some.injEq] at hrow
      subst hrow
      refine ⟨?_, fun n hsome hne => absurd (hn n hsome) hne⟩
      cases hholds : (replaceSpec _ body).holds with
      | true =>
          have haccepted : Accepted p (tr₁ ++ e :: tr₂) r := by
            rcases checked_run (hputs.step hstep) hput' hholds hpost with hput | haccepted
            · exact absurd hput hgone
            · rw [List.append_cons]
              exact haccepted.append_left _
          exact ⟨fun _ => ⟨hn, rfl⟩, fun _ => haccepted⟩
      | false =>
          refine ⟨fun haccepted => ?_, fun hboth => absurd hboth.2 (by simp)⟩
          rcases unstorable_run (hputs.step hstep) hput' hholds hpost with hput | hput
          · exact absurd hput hgone
          · have hpast := pastSave_of_accepted h₀ h haccepted hput
            simp [UpdateProject.pastSave, dataError, refreshFailed] at hpast
  | @stale n _ _ hrow' hn =>
      rw [State.projectRow, hrow', Option.some.injEq] at hrow
      subst hrow
      have hrefused := refused_run hput' hpost
      have hnot : ¬ Accepted p (tr₁ ++ e :: tr₂) r := by
        intro haccepted
        rcases hrefused with hput | hput <;>
          have hpast := pastSave_of_accepted h₀ h haccepted hput <;>
          simp [UpdateProject.pastSave, staleProject] at hpast
      refine ⟨⟨fun haccepted => absurd haccepted hnot, fun hboth => absurd (hboth.1 n rfl) hn⟩, ?_⟩
      rintro m ⟨⟩ -
      exact hrefused

private theorem grow_of_exec (h₀ : s₀.Initial) (h₁ : Exec (system env) s₀ tr₁ m)
    (h₂ : Exec (system env) m tr₂ s) {row row' : ProjectRow} (hrow : m.projectRow p = some row)
    (hrow' : s.projectRow p = some row') :
    row.version ≤ row'.version ∧ row.inputsVersion ≤ row'.inputsVersion := by
  obtain ⟨row₀, hrow₀, hdoc⟩ := doc_of_row h₀ h₁ hrow
  have h := h₁.append h₂
  have hdoc' := (lineage h₀ h p).doc row₀ row' (firstRow_append hrow₀ h₂) hrow'
  obtain ⟨heq, -⟩ := (lineage h₀ h₁ p).first row₀ hrow₀
  rw [savedSpecs_append, Revision.Doc.after_append, ← hdoc] at hdoc'
  have hle : row.doc.changed ≤ row.doc.version := by
    rw [hdoc]
    exact (Revision.Doc.changed_bounds (Int.le_of_eq heq)).2
  have hversion := congrArg Revision.Doc.version hdoc'
  have hchanged := congrArg Revision.Doc.changed hdoc'
  rw [Revision.Doc.version_after] at hversion
  have hgrow : row.doc.changed ≤ (row.doc.after SameInputs (savedSpecs p tr₂)).changed :=
    (Revision.Doc.changed_bounds hle).1
  simp only [ProjectRow.doc] at hversion hchanged hgrow
  omega

private theorem bounds_of_exec (h₀ : s₀.Initial) (h : Exec (system env) s₀ tr s)
    {row : ProjectRow} (hrow : s.projectRow p = some row) :
    1 ≤ row.inputsVersion ∧ row.inputsVersion ≤ row.version := by
  obtain ⟨row₀, hrow₀, hdoc⟩ := doc_of_row h₀ h hrow
  obtain ⟨heq, hpos, -⟩ := (lineage h₀ h p).first row₀ hrow₀
  have hstart : row₀.doc.changed ≤ row₀.doc.version := Int.le_of_eq heq
  have hbounds : row₀.doc.changed ≤ row.doc.changed ∧ row.doc.changed ≤ row.doc.version := by
    rw [hdoc]
    exact Revision.Doc.changed_bounds hstart
  simp only [ProjectRow.doc] at hbounds
  omega

private theorem harmless_of_step (hputs : PutsHold s p) {io : Io} {q : UpdateProject}
    (hput : s.put p r ifMatch body q) (hstep : s.step env (.request r io) = some s')
    (hnone : saveOf p ⟨s, .request r io, s'⟩ = none) : s'.backend.db = s.backend.db := by
  rcases put_step hstep hput with ⟨hne, -⟩ | ⟨io', q', -, hput', hmove⟩
  · exact absurd rfl (hne io)
  · generalize hb : s'.backend = b' at hmove
    cases hmove with
    | saved _ hholds =>
        obtain ⟨v, hv, -⟩ := saved_of_step hputs hput hholds hstep
        rw [hnone] at hv
        simp at hv
    | _ => rfl

/-- The saves of a project form one sequence, in every interleaving of any number of requests
and workers. -/
theorem saves_in_sequence (h₀ : s₀.Initial) (h : Exec (system env) s₀ tr s) (p : Uuid) :
    SavesInSequence env s₀ tr s p where
  sequence k v hv := by
    obtain ⟨e, -, hsave⟩ := isSave_of_mem h₀ h (List.mem_of_getElem? hv)
    have hversion := replaced_version h₀ h hv
    exact ⟨hversion, by rw [hsave.version, hversion], hsave.spec_pyEq, hsave.name,
      hsave.spurVersion⟩
  kept k v w hv hw := kept_of_exec h₀ h hv hw
  current row hrow := ⟨version_eq_count h₀ h hrow, fun v hv => doc_of_last h₀ h hrow hv⟩
  decided tr₁ e tr₂ r ifMatch body expected row htr hlock hgone := by
    subst htr
    exact decided_of_exec h₀ h hlock hgone
  committed r ifMatch body expected row hput hholds io := by
    have hputs := (h₀.putsHold p).exec h
    obtain ⟨-, -, -, stored, hstored, -⟩ := hputs.points hput
    obtain ⟨s', hstep⟩ : ∃ s', s.step env (.request r io) = some s' := by
      rw [State.put] at hput
      simp only [State.step, hput, Request.step, UpdateProject.step, hholds, if_true, hstored,
        Option.map_some]
      exact ⟨_, rfl⟩
    exact ⟨s', hstep, saved_of_step hputs hput hholds hstep⟩
  once i j v w n hv hw hvn hwn := by
    obtain ⟨_, -, hvsave⟩ := isSave_of_mem h₀ h (List.mem_of_getElem? hv)
    obtain ⟨_, -, hwsave⟩ := isSave_of_mem h₀ h (List.mem_of_getElem? hw)
    have hi := replaced_version h₀ h hv
    have hj := replaced_version h₀ h hw
    have hvn := hvsave.current n hvn
    have hwn := hwsave.current n hwn
    omega
  header v hv := by
    obtain ⟨_, -, hsave⟩ := isSave_of_mem h₀ h hv
    refine ⟨hsave.parsed, ?_⟩
    rw [← versionFrom_none_iff, hsave.parsed]
    simp
  denotes n hn := ⟨versionFrom_bare hn, versionFrom_quoted hn⟩
  bounds row hrow := bounds_of_exec h₀ h hrow
  grow tr₁ tr₂ m row row' htr hm hrow hrow' := by
    subst htr
    obtain ⟨m', h₁, h₂⟩ := h.split
    rw [h₁.unique hm] at h₂
    exact grow_of_exec h₀ hm h₂ hrow hrow'
  refused r ifMatch body err hput hstatus haccepted := by
    have hpast : err = .unhandled refreshFailed := pastSave_of_accepted h₀ h haccepted hput
    rw [hpast] at hstatus
    simp [ApiError.status] at hstatus
  harmless e he r io ifMatch body q hact hput hnone := by
    obtain ⟨_, _, _, hpre, hstep, _⟩ := h.of_mem he
    obtain ⟨pre, act, post⟩ := e
    subst hact
    exact harmless_of_step ((h₀.putsHold p).exec hpre) hput hstep hnone

/-- **Saves never lose an update, exactly as long as what they send can be told apart and
stored**, in every interleaving of any number of requests and workers.  What an accepted save
stores equals what it carried all the same. -/
theorem no_lost_update_iff (h₀ : s₀.Initial) (h : Exec (system env) s₀ tr s) (p : Uuid) :
    SavesInSequence env s₀ tr s p ∧
      (NoLostUpdate env s₀ tr s p ↔ SavesStorable tr s p) := by
  have hsequence : SavesInSequence env s₀ tr s p := saves_in_sequence h₀ h p
  refine ⟨hsequence, fun hkept => ⟨fun v hv => ?_, ?_⟩, fun hstorable => ⟨hsequence, ?_, ?_⟩⟩
  · obtain ⟨_, -, hsave⟩ := isSave_of_mem h₀ h hv
    exact hsave.same_iff.mp (hkept.exact v hv)
  · intro tr₁ e tr₂ r ifMatch body expected row htr hlock hgone hversion
    have haccepted := hkept.accepted tr₁ e tr₂ r ifMatch body expected row htr hlock hgone hversion
    have hdecided := hsequence.decided tr₁ e tr₂ r ifMatch body expected row htr hlock hgone
    exact (hdecided.2.1.mp haccepted).2
  · intro v hv
    obtain ⟨_, -, hsave⟩ := isSave_of_mem h₀ h hv
    exact hsave.same_iff.mpr (hstorable.told v hv)
  · intro tr₁ e tr₂ r ifMatch body expected row htr hlock hgone hversion
    have hholds := hstorable.held tr₁ e tr₂ r ifMatch body expected row htr hlock hgone hversion
    have hdecided := hsequence.decided tr₁ e tr₂ r ifMatch body expected row htr hlock hgone
    exact hdecided.2.1.mpr ⟨hversion, hholds⟩

end

/-- Two tabs save a new project from the same version; the second waits for the lock. -/
def twoTabs : List Action :=
  [.arrive 0 (.createProject (.blank "A") none none .received), .request 0 {},
    .request 0 { ids := [1] },
    .arrive 1 (.updateProject 1 (some (bareVersion 1)) (.blank "B") .received),
    .arrive 2 (.updateProject 1 (some (quotedVersion 1)) (.blank "C") .received),
    .request 1 {}, .request 2 {}, .request 1 {}, .request 1 {}, .request 2 {}, .request 2 {}]

def twoTabsRun : List (Entry (State Int) Action) × State Int :=
  (system clockEnv).played State.empty twoTabs (by decide)

/-- One of them is accepted, and the promise is kept. -/
theorem two_tabs_lose_nothing : (saves 1 twoTabsRun.1).map Save.request = [1] ∧
    SavesInSequence clockEnv State.empty twoTabsRun.1 twoTabsRun.2 1 ∧
      (NoLostUpdate clockEnv State.empty twoTabsRun.1 twoTabsRun.2 1 ↔
        SavesStorable twoTabsRun.1 twoTabsRun.2 1) :=
  ⟨rfl, no_lost_update_iff State.empty_initial (Machine.played_exec _) 1⟩

/-! ### A spec that is not stored

A tool keeps a flag with a project, first as 1 and then as true.  To Python these are equal, so
the second save is accepted and answered with the next version, and stores nothing of it.
-/

/-- A project with one value in the extension of a tool. -/
def flagged (flag : Json) (h : flag.distinctKeys = true) : ProjectSpec where
  dump :=
    ⟨[("type", .str "SpurProject"), ("spur_version", .str "1"), ("components", .arr []),
      ("routes", .arr []), ("tours", .arr []), ("trains", .arr []),
      ("extensions", .obj [("tool", flag)])], by
      simp [Json.distinctKeys, Json.distinctKeysFields, Json.distinctKeysItems, h]⟩
  shape := rfl

def flagRun : List (Entry (State Int) Action) × State Int :=
  (system clockEnv).played State.empty
    [.arrive 0 (.createProject (flagged (.int 1) rfl) none none .received), .request 0 {},
      .request 0 { ids := [1] },
      .arrive 1 (.updateProject 1 (some (bareVersion 1)) (flagged (.bool true) rfl) .received),
      .request 1 {}, .request 1 {}, .request 1 {}, .request 1 {}] (by decide)

/-- **An accepted save that does not store the spec it carried.** -/
theorem equal_spec_is_lost : Exec (system clockEnv) State.empty flagRun.1 flagRun.2 ∧
    (∃ v, saves 1 flagRun.1 = [v] ∧ v.expected = some 1 ∧ v.stored.version = 2 ∧
      v.body = flagged (.bool true) rfl ∧ v.stored.spec = (flagged (.int 1) rfl).dump) ∧
      ¬ NoLostUpdate clockEnv State.empty flagRun.1 flagRun.2 1 := by
  obtain ⟨v, hv, hexpected, hversion, hbody, hspec⟩ : ∃ v, saves 1 flagRun.1 = [v] ∧
      v.expected = some 1 ∧ v.stored.version = 2 ∧ v.body = flagged (.bool true) rfl ∧
        v.stored.spec = (flagged (.int 1) rfl).dump := ⟨_, rfl, rfl, rfl, rfl, rfl⟩
  refine ⟨Machine.played_exec _, ⟨v, hv, hexpected, hversion, hbody, hspec⟩, fun hkept => ?_⟩
  have hexact := hkept.exact v (by rw [hv]; exact List.mem_singleton_self v)
  rw [hspec, hbody] at hexact
  exact absurd hexact (by decide)

end SpurApi
