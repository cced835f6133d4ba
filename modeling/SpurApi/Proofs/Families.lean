/-
Scenario families have depth one.

`State.bases` forgets everything of the projects but who stands below whom, and a step of the
service is a `Family.Move` of it.  For an insert that needs that the base, which was read some
steps before, still stands on its own if it is there: ids are drawn once and nobody comes to
stand below somebody, so what was read stays true or the base is gone, and then the foreign key
refuses the insert.
-/
import SpurApi.Lib.Family
import SpurApi.Proofs.Gone
import SpurApi.Proofs.Locks

namespace SpurApi

open Transition

section

variable {μ : Type} {env : Env μ} {s₀ m s s' : State μ} {a : Action} {p : Uuid}
  {tr tr₁ tr₂ : List (Entry (State μ) Action)} {row row' : ProjectRow} {r : RequestId}

/-- Which projects there are, and the base of each. -/
def Db.bases (db : Db) : Family.Store Uuid := fun p =>
  (db.projects p).map ProjectRow.baseProjectId

def State.bases (s : State μ) : Family.Store Uuid := s.backend.db.bases

theorem Db.bases_of_row {db : Db} (h : db.projects p = some row) :
    db.bases p = some row.baseProjectId := by
  rw [bases, h, Option.map_some]

theorem Db.bases_eq_some_iff {db : Db} {base : Option Uuid} :
    db.bases p = some base ↔ ∃ row, db.projects p = some row ∧ row.baseProjectId = base := by
  rw [bases, Option.map_eq_some_iff]

theorem Db.bases_eq_none_iff {db : Db} : db.bases p = none ↔ db.projects p = none := by
  rw [bases, Option.map_eq_none_iff]

theorem Db.bases_ne_none_iff {db : Db} : db.bases p ≠ none ↔ (db.projects p).isSome = true := by
  rw [Ne, bases_eq_none_iff, Option.isSome_iff_ne_none]

/-- What is stored of the families, and what creations in flight will store. -/
structure FamiliesOk (s : State μ) : Prop where
  minted : ∀ p row, s.backend.db.projects p = some row → p ∈ s.backend.minted
  flat : Family.Flat s.bases
  /-- the base that a scenario will point at is gone, or stands on its own -/
  pending : ∀ r body owner base b,
    s.requests r = some (.createProject body owner base (.inserting (some b))) →
      b ∈ s.backend.minted ∧ ∀ base', s.bases b = some base' → base' = none

theorem State.Initial.familiesOk (h : s.Initial) : FamiliesOk s where
  minted := h.minted
  flat := by
    intro p b hp
    obtain ⟨row, hrow, hbase⟩ := Db.bases_eq_some_iff.mp hp
    obtain ⟨baseRow, hbaseRow, hnone⟩ := h.bases p row b hrow hbase
    exact Db.bases_eq_some_iff.mpr ⟨baseRow, hbaseRow, hnone⟩
  pending r body owner base b hreq := by simp [h.requests] at hreq

/-! ### One step -/

theorem ProjectsKept.bases {b b' : Backend} (h : ProjectsKept b b') : b'.db.bases = b.db.bases := by
  funext p
  rw [Db.bases, Db.bases, h.projects]

theorem PutMove.bases {id : Uuid} {ifMatch : Option HeaderValue} {body : ProjectSpec} {io : Io}
    {b b' : Backend} {q q' : UpdateProject} (h : PutMove r id ifMatch body io b q q' b') :
    b'.db.bases = b.db.bases := by
  cases h with
  | @saved _ row stored hstored =>
      funext p
      by_cases hp : p = id
      · subst hp
        have hrow : ((b.setProject p (row.flush (replaceSpec row body) stored io.now)).unlock
            p).db.projects p = some (row.flush (replaceSpec row body) stored io.now) := by
          simp [Backend.setProject, Backend.unlock, Db.setProject]
        rw [Db.bases_of_row hrow, Db.bases_of_row hstored]
        rfl
      · simp [Db.bases, Backend.setProject, Backend.unlock, Db.setProject, hp]
  | _ => rfl

/-- Creating a project puts it below its base. -/
theorem bases_newProject (b : Backend) (id : Uuid) (body : ProjectSpec) (owner : Option String)
    (baseId : Option Uuid) (now : Time) :
    ((b.mint [id]).setProject id (newProject body owner baseId now)).db.bases =
      Function.update b.db.bases id (some baseId) := by
  funext p
  by_cases hp : p = id
  · subst hp
    simp [Db.bases, Backend.setProject, Db.setProject, newProject]
  · simp [Db.bases, Backend.setProject, Db.setProject, Backend.mint, hp]

/-- Deleting a project removes it from its family. -/
theorem Db.bases_deleteProject (db : Db) (id : Uuid) :
    (db.deleteProject id).bases = Family.without db.bases id := by
  funext p
  rw [bases, Family.without, deleteProject]
  by_cases hp : p = id
  · simp [hp]
  · cases hrow : db.projects p with
    | none => simp [hp, hrow, bases]
    | some row =>
        by_cases hbase : row.baseProjectId = some id <;> simp [hp, hrow, bases, hbase]

/-- By this step the project is deleted. -/
inductive ProjectDeletes (s : State μ) (a : Action) (p : Uuid) : Prop
  | intro {r : RequestId} {io : Io} (ha : a = .request r io)
      (hreq : s.requests r = some (.deleteProject p .deleting))

/-- What a step does to the families. -/
inductive FamilyStep (s : State μ) (a : Action) (s' : State μ) : Prop
  | same (h : s'.bases = s.bases) (hkept : ∀ p, ¬ ProjectDeletes s a p)
  | created {r : RequestId} {io : Io} {body : ProjectSpec} {owner : Option String}
      {base baseId : Option Uuid} {p : Uuid} (ha : a = .request r io)
      (hreq : s.requests r = some (.createProject body owner base (.inserting baseId)))
      (hfresh : p ∉ s.backend.minted) (hbase : s.backend.db.hasBase baseId = true)
      (h : s'.bases = Function.update s.bases p (some baseId))
  | deleted {p : Uuid} (hdeletes : ProjectDeletes s a p)
      (h : s'.bases = Family.without s.bases p)

private theorem familyStep_of_request {io : Io} {q q' : Request} {b : Backend}
    (hq : s.requests r = some q) (hstep : q.step env r io s.backend = some (q', b)) :
    FamilyStep s (.request r io) (s.setRequest r q' b) := by
  have hkept : ∀ p, (∀ point, q ≠ .deleteProject p point) →
      ¬ ProjectDeletes s (.request r io) p := by
    rintro p hne ⟨ha, hreq⟩
    rw [Action.request.injEq] at ha
    rw [← ha.1, hq, Option.some.injEq] at hreq
    exact hne _ hreq
  cases q with
  | updateProject id ifMatch body point =>
      simp only [Request.step, Option.map_eq_some_iff, Prod.exists, Prod.mk.injEq] at hstep
      obtain ⟨_, _, hpoint, -, rfl⟩ := hstep
      exact .same (putMove_of_step hpoint).bases fun p => hkept p (by simp)
  | createProject body owner base point =>
      simp only [Request.step, Option.map_eq_some_iff, Prod.exists, Prod.mk.injEq] at hstep
      obtain ⟨_, _, hpoint, -, rfl⟩ := hstep
      cases createMove_of_step hpoint with
      | inserted hfresh hbase =>
          exact .created rfl hq hfresh hbase (bases_newProject ..)
      | _ => exact .same rfl fun p => hkept p (by simp)
  | deleteProject id point =>
      simp only [Request.step, Option.map_eq_some_iff, Prod.exists, Prod.mk.injEq] at hstep
      obtain ⟨_, _, hpoint, -, rfl⟩ := hstep
      cases point with
      | received =>
          refine .same ?_ fun p hp => ?_
          · rw [DeleteProject.step] at hpoint
            split at hpoint <;> simp only [Option.some.injEq, Prod.mk.injEq] at hpoint <;>
              rw [← hpoint.2] <;> rfl
          · obtain ⟨ha, hreq⟩ := hp
            rw [Action.request.injEq] at ha
            simp [← ha.1, hq] at hreq
      | deleting =>
          rw [DeleteProject.step] at hpoint
          split at hpoint
          · simp at hpoint
          · simp only [Option.some.injEq, Prod.mk.injEq] at hpoint
            rw [← hpoint.2]
            exact .deleted ⟨rfl, hq⟩ (Db.bases_deleteProject _ id)
      | answered answer => simp [DeleteProject.step] at hpoint
  | submitRun project body point =>
      simp only [Request.step, Option.map_eq_some_iff, Prod.exists, Prod.mk.injEq] at hstep
      obtain ⟨_, _, hpoint, -, rfl⟩ := hstep
      exact .same (submitMove_of_step hpoint).projectsKept.bases fun p => hkept p (by simp)
  | editRun run edit point =>
      simp only [Request.step, Option.map_eq_some_iff, Prod.exists, Prod.mk.injEq] at hstep
      obtain ⟨_, _, hpoint, -, rfl⟩ := hstep
      exact .same (editMove_of_step hpoint).projectsKept.bases fun p => hkept p (by simp)
  | deleteRun run point =>
      simp only [Request.step, Option.map_eq_some_iff, Prod.exists, Prod.mk.injEq] at hstep
      obtain ⟨_, _, hpoint, -, rfl⟩ := hstep
      exact .same (DeleteRun.step_projectsKept hpoint).bases fun p => hkept p (by simp)

/-- **One step of the service, seen from the families.** -/
theorem family_step (hstep : s.step env a = some s') : FamilyStep s a s' := by
  have hkept : (∀ r io, a ≠ .request r io) → ∀ p, ¬ ProjectDeletes s a p :=
    fun hact p hp => by
      obtain ⟨ha, -⟩ := hp
      exact hact _ _ ha
  cases service_step hstep with
  | arrive | read | deliver | work => exact .same rfl (hkept (by simp))
  | request hq hqstep => exact familyStep_of_request hq hqstep

/-- Who would stand above the new project stands on its own. -/
private theorem alone_of_hasBase (hok : FamiliesOk s) {body : ProjectSpec} {owner : Option String}
    {base baseId : Option Uuid}
    (hreq : s.requests r = some (.createProject body owner base (.inserting baseId)))
    (hbase : s.backend.db.hasBase baseId = true) :
    ∀ b, baseId = some b → s.bases b = some none := by
  intro b hb
  subst hb
  obtain ⟨row, hrow⟩ := Option.isSome_iff_exists.mp hbase
  have hsome : s.bases b = some row.baseProjectId := Db.bases_of_row hrow
  rw [hsome, (hok.pending r body owner base b hreq).2 _ hsome]

theorem FamiliesOk.bases_none (hok : FamiliesOk s) (hp : p ∉ s.backend.minted) :
    s.bases p = none := by
  by_contra hsome
  obtain ⟨row, hrow⟩ := Option.isSome_iff_exists.mp (Db.bases_ne_none_iff.mp hsome)
  exact hp (hok.minted p row hrow)

theorem FamilyStep.move (hok : FamiliesOk s) (h : FamilyStep s a s') :
    Family.Move s.bases s'.bases := by
  cases h with
  | same h => exact .same h
  | created _ hreq hfresh hbase h =>
      exact .add (hok.bases_none hfresh) (alone_of_hasBase hok hreq hbase) h
  | deleted _ h => exact .remove h

/-- A project whose id was drawn does not come back. -/
theorem FamilyStep.bases_none (h : FamilyStep s a s') (hp : p ∈ s.backend.minted)
    (hnone : s.bases p = none) : s'.bases p = none := by
  cases h with
  | same h => rw [h, hnone]
  | @created _ _ _ _ _ _ id _ _ hfresh _ h =>
      have hne : p ≠ id := by
        rintro rfl
        exact hfresh hp
      rw [h, Function.update_of_ne hne, hnone]
  | deleted _ h =>
      rw [h, Family.without, hnone]
      simp

theorem FamiliesOk.step (hok : FamiliesOk s) (hstep : s.step env a = some s') :
    FamiliesOk s' := by
  have hfamily := family_step hstep
  have hmove := hfamily.move hok
  have hminted : ∀ p row, s'.backend.db.projects p = some row → p ∈ s'.backend.minted := by
    intro p row hrow
    by_cases hp : p ∈ s.backend.minted
    · exact minted_mono hstep hp
    · cases step_project hstep p with
      | put _ _ _ _ hput =>
          generalize s'.backend = b' at hput hrow ⊢
          cases hput <;> exact absurd (hok.minted p _ ‹_›) hp
      | frame hframe =>
          cases hframe.row with
          | same h => exact absurd (hok.minted p row (h ▸ hrow)) hp
          | created _ hminted => exact hminted
          | deleted _ h => simp [h] at hrow
          | unlinked h => exact absurd (hok.minted p _ h) hp
  refine ⟨hminted, hok.flat.move hmove, ?_⟩
  intro r body owner base b hreq
  -- what is true of a base that is or will be pointed at stays true of it
  have hlater : b ∈ s.backend.minted ∧ (∀ base', s.bases b = some base' → base' = none) →
      b ∈ s'.backend.minted ∧ ∀ base', s'.bases b = some base' → base' = none := by
    rintro ⟨hb, halone⟩
    refine ⟨minted_mono hstep hb, fun base' hbase' => ?_⟩
    cases hold : s.bases b with
    | none => simp [hfamily.bases_none hb hold] at hbase'
    | some base =>
        rw [halone base hold] at hold
        rcases hmove.alone hok.flat hold with hself | hgone
        · rw [hself, Option.some.injEq] at hbase'
          exact hbase'.symm
        · simp [hgone] at hbase'
  cases request_step hstep hreq with
  | kept _ hreq => exact hlater (hok.pending r body owner base b hreq)
  | arrived _ _ hreceived => simp [Request.isReceived] at hreceived
  | @stepped io q ha hpre hqstep =>
      refine hlater ?_
      cases q with
      | createProject body' owner' base' point =>
          simp only [Request.step, Option.map_eq_some_iff, Prod.exists, Prod.mk.injEq,
            Request.createProject.injEq] at hqstep
          obtain ⟨_, _, hpoint, ⟨rfl, rfl, rfl, rfl⟩, -⟩ := hqstep
          generalize s'.backend = b' at hpoint
          cases createMove_of_step hpoint with
          | @named named read hbase hread =>
              have hself : s.bases named = some read.baseProjectId := Db.bases_of_row hread
              have habove : s.bases (read.baseProjectId.getD named) = some none := by
                cases hbaseId : read.baseProjectId with
                | none => rw [Option.getD_none, hself, hbaseId]
                | some above => exact hok.flat named above (hself.trans (congrArg some hbaseId))
              refine ⟨?_, fun base' hbase' => ?_⟩
              · by_contra hnot
                rw [hok.bases_none hnot] at habove
                simp at habove
              · rw [habove, Option.some.injEq] at hbase'
                exact hbase'.symm
      | _ => simp [Request.step] at hqstep

theorem FamiliesOk.exec (h₀ : s₀.Initial) (h : Exec (system env) s₀ tr s) : FamiliesOk s :=
  h.invariant (I := fun s => FamiliesOk s) h₀.familiesOk fun _ _ _ hI hstep => hI.step hstep

end

end SpurApi
