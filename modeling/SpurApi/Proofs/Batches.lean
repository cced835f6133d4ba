/-
Batches of runs.

The rows of a submission differ in their seed, which counts up from the first, and in nothing
else.  The bound of the random draw and the bound of the schema are one bound, so a first seed
that was drawn can be asked for again, with the whole batch or for one row of it, and what is
read of an unchanged spec then is what was read before.

The schema bounds neither `until` nor `chunk_size`, and lets any character into a name, but the
columns do not hold every such value.  `batch_counts_up_iff` says that a batch is made exactly
of what they hold; nothing is made of anything else.
-/
import SpurApi.Proofs.Gone
import SpurApi.Proofs.Origins

namespace SpurApi

open Transition

/-! ### The seeds that a request may ask for -/

/-- `RunCreate` admits this first seed for so many runs. -/
def AdmitsSeed (seed : Int) (seeds : Nat) : Prop :=
  ∃ body : RunCreate, body.seed = some seed ∧ body.seeds = seeds

/-- A request with these fields passes the validation of `RunCreate`. -/
def PassesValidation (untilTime chunkSize : Option Int) (seed : Int) (seeds : Nat) : Prop :=
  ∀ name, ∃ body : RunCreate, body.untilTime = untilTime ∧ body.chunkSize = chunkSize ∧
    body.seed = some seed ∧ body.seeds = seeds ∧ body.name = name

/-- The two range checks of the schema are those of the draw, to the unit. -/
theorem drawable_iff {seeds : Nat} {draw : Int} :
    drawable seeds draw = true ↔ 0 ≤ draw ∧ draw + seeds - 1 ≤ maxSeed := by
  simp only [drawable, Bool.and_eq_true, decide_eq_true_eq]
  omega

theorem passesValidation_iff {untilTime chunkSize : Option Int} {seed : Int} {seeds : Nat} :
    PassesValidation untilTime chunkSize seed seeds ↔
      (1 ≤ seeds ∧ seeds ≤ maxSeeds) ∧ 0 ≤ seed ∧ seed + seeds - 1 ≤ maxSeed := by
  constructor
  · intro h
    obtain ⟨body, -, -, hseed, rfl, -⟩ := h none
    exact ⟨body.seeds_range, (body.seed_range seed hseed).1, body.seeds_fit seed hseed⟩
  · rintro ⟨hseeds, hpos, hfit⟩ name
    have hmax : seed ≤ maxSeed := by
      have h1 := hseeds.1
      omega
    refine ⟨⟨untilTime, chunkSize, some seed, seeds, name, fun s hs => ?_, hseeds, fun s hs => ?_⟩,
      rfl, rfl, rfl, rfl, rfl⟩
    · rw [Option.some.injEq] at hs
      exact hs ▸ ⟨hpos, hmax⟩
    · rw [Option.some.injEq] at hs
      exact hs ▸ hfit

theorem PassesValidation.admits {untilTime chunkSize : Option Int} {seed : Int} {seeds : Nat}
    (h : PassesValidation untilTime chunkSize seed seeds) : AdmitsSeed seed seeds := by
  obtain ⟨body, -, -, hseed, hseeds, -⟩ := h none
  exact ⟨body, hseed, hseeds⟩

/-- **What the server can draw is what the schema admits.** -/
theorem drawable_iff_admits {seeds : Nat} (h : 1 ≤ seeds ∧ seeds ≤ maxSeeds) {draw : Int} :
    drawable seeds draw = true ↔ AdmitsSeed draw seeds := by
  rw [drawable_iff]
  constructor
  · intro hrange
    have hpasses : PassesValidation none none draw seeds := passesValidation_iff.mpr ⟨h, hrange⟩
    exact hpasses.admits
  · rintro ⟨body, hseed, rfl⟩
    exact ⟨(body.seed_range draw hseed).1, body.seeds_fit draw hseed⟩

/-! ### The rows of a batch -/

/-- The first seed of a batch. -/
def Build.first (w : Build) (body : RunCreate) : Int := firstSeed body w.draw

def Build.batchId (w : Build) (body : RunCreate) : Option Uuid :=
  if 1 < body.seeds then some w.batch else none

theorem Build.batch_of_batchId {w : Build} {body : RunCreate} {batch : Uuid}
    (h : w.batchId body = some batch) : w.batch = batch := by
  rw [batchId, Option.ite_none_right_eq_some, Option.some.injEq] at h
  exact h.2

/-- The row that a batch inserts for its run number `i`. -/
def Build.row (w : Build) (project : Uuid) (body : RunCreate) (i : Nat) : SimulationRunRow :=
  newRun project w.read body w.target (w.first body + i) (w.batchId body)

/-- The columns hold what the batch was asked for with, and the target it goes to. -/
def Build.storable (w : Build) (body : RunCreate) : Bool :=
  body.name.all holdsText && body.untilTime.all holdsInteger && holdsInteger w.target &&
    body.chunkSize.all holdsInteger

theorem Build.row_holds (w : Build) (project : Uuid) (body : RunCreate) (i : Nat) :
    (w.row project body i).holds = w.storable body := rfl

/-- What a run replays from: its spec, target, chunk size and seed. -/
def SimulationRunRow.replayed (row : SimulationRunRow) :
    Option Json.Object × Option Int × Option Int × Option Int :=
  (row.specSnapshot, row.untilTarget, row.chunkSize, row.seed)

theorem runRows_replayed {project : Uuid} {read : ProjectRow} {body : RunCreate} {target : Int}
    {batch : Option Uuid} {ids : List Uuid} :
    ∀ {seed : Int}, (runRows project read body target batch seed ids).map
        (fun sub => sub.row.replayed) =
      (List.range ids.length).map fun i : Nat =>
        (some read.spec, some target, body.chunkSize, some (seed + i)) := by
  induction ids with
  | nil => exact rfl
  | cons id ids ih =>
      intro seed
      rw [runRows, List.map_cons, ih, List.length_cons, List.range_succ_eq_map, List.map_cons,
        List.map_map]
      congr 1
      · simp [newRun, SimulationRunRow.replayed]
      · refine List.map_congr_left fun i _ => ?_
        simp only [Function.comp_apply, Prod.mk.injEq, Option.some.injEq, true_and]
        omega

/-- The runs of a batch, as they replay, in their order. -/
def Build.replayed (w : Build) (project : Uuid) (body : RunCreate) :
    List (Option Json.Object × Option Int × Option Int × Option Int) :=
  (w.rows project body).map fun sub => sub.row.replayed

section

variable {μ : Type} {env : Env μ} {s₀ m s s' : State μ} {a : Action} {r r' : RequestId}
  {project project' : Uuid} {body body' : RunCreate} {w w' : Build} {b : Backend}
  {e e' : Entry (State μ) Action} {tr tr₁ tr₂ : List (Entry (State μ) Action)}

theorem Build.Valid.replayed (h : w.Valid env b project body) :
    w.replayed project body = (List.range body.seeds).map fun i : Nat =>
      (some w.read.spec, some w.target, body.chunkSize, some (w.first body + i)) := by
  rw [Build.replayed, rows, runRows_replayed, h.length]
  rfl

/-- The first seed is in the range that the schema admits. -/
theorem Build.Valid.first_range (h : w.Valid env b project body) :
    0 ≤ w.first body ∧ w.first body + body.seeds - 1 ≤ maxSeed := by
  rw [Build.first, firstSeed]
  cases hseed : body.seed with
  | some seed => exact ⟨(body.seed_range seed hseed).1, body.seeds_fit seed hseed⟩
  | none => exact drawable_iff.mp h.drawable

/-- The rows differ in no column that could refuse one of them alone. -/
theorem Build.Valid.holds_iff (h : w.Valid env b project body) :
    ((w.rows project body).all fun sub => sub.row.holds) = w.storable body := by
  have hpos : 0 < w.ids.length := by
    have hrange := body.seeds_range.1
    rw [h.length]
    omega
  rw [Bool.eq_iff_iff, List.all_eq_true]
  constructor
  · intro hall
    rw [← w.row_holds project body 0]
    exact hall _ (Build.mem_rows_iff.mpr ⟨0, _, List.getElem?_eq_getElem hpos, rfl⟩)
  · intro hstorable sub hsub
    obtain ⟨i, id, -, rfl⟩ := Build.mem_rows_iff.mp hsub
    exact (w.row_holds project body i).trans hstorable

theorem Build.Valid.nodup (h : w.Valid env b project body) : w.ids.Nodup := by
  have hfresh := h.fresh
  simp only [Backend.fresh, Bool.and_eq_true, decide_eq_true_eq] at hfresh
  exact (List.nodup_cons.mp hfresh.1).2

theorem Build.Valid.batch_fresh (h : w.Valid env b project body) : w.batch ∉ b.minted := by
  have hfresh := h.fresh
  simp only [Backend.fresh, Bool.and_eq_true, List.all_cons, Bool.not_eq_true',
    List.contains_eq_mem, decide_eq_false_iff_not] at hfresh
  exact hfresh.2.1

/-- **Whatever is drawn, the submission goes ahead with it.** -/
theorem Build.Valid.step (h : w.Valid env b project body) :
    SubmitRun.step env.spur env.settings project body { ids := w.batch :: w.ids, draw := w.draw } b
      .received = some (.inserting (w.rows project body), b.mint (w.batch :: w.ids)) := by
  simp only [SubmitRun.step, h.read, h.accepted, h.target, h.fresh, h.length, h.drawable,
    beq_self_eq_true, Bool.and_self, if_true]
  rfl

/-! ### Who shares a batch -/

theorem minted_run (h : Exec (system env) m tr s) {id : Uuid} (hm : id ∈ m.backend.minted) :
    id ∈ s.backend.minted :=
  h.invariant (I := fun s => id ∈ s.backend.minted) hm fun _ _ _ hI hstep => minted_mono hstep hI

theorem BuiltAt.batch_minted (h : BuiltAt env r project body w e) :
    w.batch ∈ e.post.backend.minted := by
  rw [h.minted, Backend.mint]
  exact List.mem_append_left _ List.mem_cons_self

/-- Two builds of one history with the same batch are one build. -/
theorem BuiltAt.unique (h : Exec (system env) s₀ tr s) (he : e ∈ tr) (he' : e' ∈ tr)
    (hbuilt : BuiltAt env r project body w e) (hbuilt' : BuiltAt env r' project' body' w' e')
    (hbatch : w.batch = w'.batch) : w.rows project body = w'.rows project' body' := by
  -- a batch is new where it is drawn, so neither entry comes before the other
  have hapart : ∀ {e e' : Entry (State μ) Action} {r r' project project' body body' w w'}
      {tr₁ tr₂ : List (Entry (State μ) Action)}, tr = tr₁ ++ e :: tr₂ →
      BuiltAt env r project body w e → BuiltAt env r' project' body' w' e' →
        w.batch = w'.batch → e' ∉ tr₂ := by
    intro e e' r r' project project' body body' w w' tr₁ tr₂ htr hbuilt hbuilt' hbatch hmem
    subst htr
    obtain ⟨tr₃, tr₄, htr₂, hto, -, -⟩ := h.split_at.2.2.of_mem hmem
    exact hbuilt'.valid.batch_fresh (hbatch ▸ minted_run hto hbuilt.batch_minted)
  obtain ⟨tr₁, tr₂, htr⟩ := List.append_of_mem he
  rw [htr, List.mem_append, List.mem_cons] at he'
  rcases he' with hbefore | rfl | hbehind
  · obtain ⟨tr₃, tr₄, htr₁⟩ := List.append_of_mem hbefore
    have htr' : tr = tr₃ ++ e' :: (tr₄ ++ e :: tr₂) := by rw [htr, htr₁]; simp
    exact absurd (List.mem_append_right _ List.mem_cons_self)
      (hapart htr' hbuilt' hbuilt hbatch.symm)
  · obtain ⟨io, ha⟩ := hbuilt.act
    obtain ⟨io', ha'⟩ := hbuilt'.act
    rw [ha, Action.request.injEq] at ha'
    have hpost := hbuilt'.post
    rw [← ha'.1, hbuilt.post, Option.some.injEq, Request.submitRun.injEq,
      SubmitRun.inserting.injEq] at hpost
    exact hpost.2.2
  · exact absurd hbehind (hapart htr hbuilt hbuilt' hbatch)

/-! ### A submission that is committed -/

/-- What a submission has done at the entry `e` that commits its batch, in a history that goes on
to `s`. -/
structure IsBatch (env : Env μ) (tr : List (Entry (State μ) Action))
    (e : Entry (State μ) Action) (s : State μ) (r : RequestId) (project : Uuid)
    (body : RunCreate) (w : Build) : Prop where
  built : ∃ e₀ ∈ tr, BuiltAt env r project body w e₀
  /-- there are as many new ids as runs were asked for -/
  count : w.ids.length = body.seeds ∧ w.ids.Nodup
  /-- each is the id of a new row, and nothing else is changed -/
  inserted : ∀ (i : Nat) id, w.ids[i]? = some id →
    e.pre.slice id = .blank ∧ e.post.slice id = ⟨some (w.row project body i), []⟩
  others : ∀ id, id ∉ w.ids → e.post.slice id = e.pre.slice id
  /-- their seeds count up within the range of seeds, and they agree on all other columns -/
  range : ∀ i : Nat, i < body.seeds →
    0 ≤ w.first body + i ∧ w.first body + i ≤ maxSeed
  seeds : ∀ i : Nat, (w.row project body i).seed = some (w.first body + i)
  agree : ∀ i j : Nat, w.row project body i =
    { w.row project body j with seed := some (w.first body + i) }
  /-- they are a group when they are several, and nobody else is in it -/
  grouped : ∀ i, (w.row project body i).batchId.isSome = true ↔ 1 < body.seeds
  alone : ∀ run row batch, (s.slice run).row = some row → row.batchId = some batch →
    w.batchId body = some batch → run ∈ w.ids

/-- The batch can be submitted again, and so can each of its runs. -/
structure CanReplay (env : Env μ) (project : Uuid) (body : RunCreate) (w : Build) : Prop where
  passes : PassesValidation body.untilTime body.chunkSize (w.first body) body.seeds
  passesOne : ∀ i : Nat, i < body.seeds →
    PassesValidation body.untilTime body.chunkSize (w.first body + i) 1
  /-- a submission that reads the same spec then replays the batch -/
  replays : ∀ {b' : Backend} {body' : RunCreate} {w' : Build}, w'.Valid env b' project body' →
    w'.read.spec = w.read.spec → body'.untilTime = body.untilTime →
      body'.chunkSize = body.chunkSize → body'.seed = some (w.first body) →
        body'.seeds = body.seeds → w'.replayed project body' = w.replayed project body
  /-- or that one run -/
  replaysOne : ∀ {b' : Backend} {body' : RunCreate} {w' : Build} {i : Nat}, i < body.seeds →
    w'.Valid env b' project body' → w'.read.spec = w.read.spec →
      body'.untilTime = body.untilTime → body'.chunkSize = body.chunkSize →
        body'.seed = some (w.first body + i) → body'.seeds = 1 →
          w'.replayed project body' = [(w.row project body i).replayed]

/-- The same spec and `until` give the same target. -/
theorem Build.Valid.target_eq {b' : Backend} (h : w.Valid env b project body)
    (h' : w'.Valid env b' project' body') (hspec : w'.read.spec = w.read.spec)
    (huntil : body'.untilTime = body.untilTime) : w'.target = w.target := by
  have htarget := h'.target
  rw [submittedTarget, huntil, hspec] at htarget
  exact Except.ok.inj (htarget.symm.trans h.target)

theorem Build.Valid.canReplay (h : w.Valid env b project body) : CanReplay env project body w := by
  obtain ⟨hpos, hfit⟩ := h.first_range
  refine ⟨passesValidation_iff.mpr ⟨body.seeds_range, hpos, hfit⟩, fun i hi => ?_, ?_, ?_⟩
  · exact passesValidation_iff.mpr ⟨by decide, by omega, by omega⟩
  · intro b' body' w' hvalid hspec huntil hchunk hseed hseeds
    have hfirst : w'.first body' = w.first body := by rw [Build.first, firstSeed, hseed]
    rw [hvalid.replayed, h.replayed, hseeds, hspec, hchunk, hfirst,
      h.target_eq hvalid hspec huntil]
  · intro b' body' w' i hi hvalid hspec huntil hchunk hseed hseeds
    have hfirst : w'.first body' = w.first body + i := by rw [Build.first, firstSeed, hseed]
    rw [hvalid.replayed, hseeds, hspec, hchunk, hfirst, h.target_eq hvalid hspec huntil]
    simp [Build.row, newRun, SimulationRunRow.replayed]

theorem BuiltAt.isBatch (h₀ : s₀.Initial) (h : Exec (system env) s₀ (tr₁ ++ e :: tr₂) s)
    {io : Io} (ha : e.act = .request r io) {e₀ : Entry (State μ) Action} (he₀ : e₀ ∈ tr₁)
    (hbuilt : BuiltAt env r project body w e₀)
    (hreq : e.pre.requests r = some (.submitRun project body (.inserting (w.rows project body))))
    (hproject : (e.pre.backend.db.projects project).isSome = true)
    (hstorable : w.storable body = true) : IsBatch env tr₁ e s r project body w := by
  obtain ⟨hpre, hstep, hrest⟩ := h.split_at
  have hapart := IdsApart.exec h₀ hpre
  have hvalid := hbuilt.valid
  have hnodup : ((w.rows project body).map Submitted.id).Nodup := by
    rw [Build.rows_ids]
    exact hvalid.nodup
  -- the commit inserts the rows
  have hbackend : e.post.backend = e.pre.backend.insertRuns (w.rows project body) := by
    rw [ha] at hstep
    obtain ⟨q', hqstep, -⟩ := step_of_request hstep hreq
    obtain ⟨row, hrow⟩ := Option.isSome_iff_exists.mp hproject
    simp only [Request.step, SubmitRun.step, hvalid.holds_iff, hstorable, if_true, hrow,
      Option.map_some, Option.some.injEq, Prod.mk.injEq] at hqstep
    exact hqstep.2.symm
  have hslice : ∀ id, e.post.slice id =
      (e.pre.backend.insertRuns (w.rows project body)).slice id := by
    intro id
    rw [← hbackend]
    rfl
  refine ⟨⟨e₀, he₀, hbuilt⟩, ⟨hvalid.length, hvalid.nodup⟩, fun i id hid => ?_, fun id hid => ?_,
    fun i hi => ?_, fun i => rfl, fun i j => rfl, fun i => ?_,
    fun run row batch hrow hb hbatch => ?_⟩
  · have hmem : (⟨id, w.row project body i, none⟩ : Submitted) ∈ w.rows project body :=
      Build.mem_rows_iff.mpr ⟨i, id, hid, rfl⟩
    have hpending : id ∈ (w.rows project body).map Submitted.id :=
      List.mem_map.mpr ⟨_, hmem, rfl⟩
    have hblank : e.pre.slice id = .blank := (hapart.pending r _ hreq id hpending).1
    refine ⟨hblank, ?_⟩
    have hevents : e.pre.backend.db.events id = [] := congrArg RunSlice.events hblank
    rw [hslice, insertRuns_of_mem hmem hnodup, hevents]
  · rw [hslice, insertRuns_of_notMem]
    · rfl
    · rwa [Build.rows_ids]
  · obtain ⟨hpos, hfit⟩ := hvalid.first_range
    omega
  · simp only [Build.row, newRun, Build.batchId]
    split <;> simp [*]
  · obtain ⟨r', project', body', w', sub, horigin⟩ := origin_of_row h₀ h row hrow
    obtain ⟨e', he', hbuilt'⟩ := horigin.built
    obtain ⟨i, id, hid, rfl⟩ := Build.mem_rows_iff.mp horigin.mem
    have hb' : row.batchId = w'.batchId body' := congrArg Submission.batchId horigin.submission
    have hsame : w.batch = w'.batch :=
      (Build.batch_of_batchId hbatch).trans (Build.batch_of_batchId (hb'.symm.trans hb)).symm
    have hrows := hbuilt.unique h (List.mem_append_left _ he₀) he' hbuilt' hsame
    have hids : w.ids = w'.ids := by
      rw [← Build.rows_ids w project body, hrows, Build.rows_ids]
    rw [hids, ← horigin.id]
    exact List.mem_of_getElem? hid

/-- Nothing becomes of a batch that the columns do not hold. -/
theorem BuiltAt.unstorable (h : Exec (system env) s₀ (tr₁ ++ e :: tr₂) s) {io : Io}
    (ha : e.act = .request r io) {e₀ : Entry (State μ) Action}
    (hbuilt : BuiltAt env r project body w e₀)
    (hreq : e.pre.requests r = some (.submitRun project body (.inserting (w.rows project body))))
    (hstorable : w.storable body = false) : e.post.backend = e.pre.backend ∧
      e.post.requests r =
        some (.submitRun project body (.answered (.error (.unhandled dataError)))) := by
  obtain ⟨-, hstep, -⟩ := h.split_at
  rw [ha] at hstep
  obtain ⟨q', hqstep, hreq'⟩ := step_of_request hstep hreq
  simp only [Request.step, SubmitRun.step, hbuilt.valid.holds_iff, hstorable, Bool.false_eq_true,
    if_false, Option.map_some, Option.some.injEq, Prod.mk.injEq] at hqstep
  exact ⟨hqstep.2.symm, hqstep.1.symm ▸ hreq'⟩

/-- **A batch counts up from its first seed and can be replayed from it**, in every history,
exactly when the columns hold what it was asked for with; and the first seeds that can be drawn
are those that can be asked for. -/
theorem batch_counts_up_iff (h₀ : s₀.Initial) (h : Exec (system env) s₀ (tr₁ ++ e :: tr₂) s)
    {io : Io} (ha : e.act = .request r io) {rows : List Submitted}
    (hreq : e.pre.requests r = some (.submitRun project body (.inserting rows)))
    (hproject : (e.pre.backend.db.projects project).isSome = true) :
    ∃ w : Build, rows = w.rows project body ∧
      (IsBatch env tr₁ e s r project body w ↔ w.storable body = true) ∧
      (w.storable body = false → e.post.backend = e.pre.backend ∧ e.post.requests r =
        some (.submitRun project body (.answered (.error (.unhandled dataError))))) ∧
      CanReplay env project body w ∧
      (∀ seeds draw, 1 ≤ seeds → seeds ≤ maxSeeds →
        (drawable seeds draw = true ↔ AdmitsSeed draw seeds)) ∧
      ∀ {b' : Backend} {w' : Build}, w'.Valid env b' project body →
        SubmitRun.step env.spur env.settings project body
            { ids := w'.batch :: w'.ids, draw := w'.draw } b' .received =
          some (.inserting (w'.rows project body), b'.mint (w'.batch :: w'.ids)) := by
  obtain ⟨e₀, he₀, w, hbuilt, rfl⟩ := built_of_inserting h₀ h.split_at.1 hreq
  refine ⟨w, rfl, ⟨fun hbatch => ?_, hbuilt.isBatch h₀ h ha he₀ hreq hproject⟩,
    hbuilt.unstorable h ha hreq, hbuilt.valid.canReplay,
    fun _ _ hpos hmax => drawable_iff_admits ⟨hpos, hmax⟩, fun hvalid => hvalid.step⟩
  -- a batch that is not storable leaves its first id without a row
  by_contra hnot
  rw [Bool.not_eq_true] at hnot
  have hpos : 0 < w.ids.length := by
    have hrange := body.seeds_range.1
    rw [hbuilt.valid.length]
    omega
  obtain ⟨hblank, hrow⟩ := hbatch.inserted 0 _ (List.getElem?_eq_getElem hpos)
  have hsame : e.post.slice w.ids[0] = e.pre.slice w.ids[0] :=
    congrArg (Backend.slice · _) (hbuilt.unstorable h ha hreq hnot).1
  rw [hrow, hblank] at hsame
  cases hsame

end

/-- A batch of two. -/
theorem pair_counts_up : ∃ w : Build, w.ids = [3, 4] ∧
    ∃ e, IsBatch clockEnv (submittedPair.1.take 5) e submittedPair.2 1 1
        (.pair (some 2) (some 1)) w ∧
      CanReplay clockEnv 1 (.pair (some 2) (some 1)) w := by
  have hlt : 5 < submittedPair.1.length := by decide
  have hexec : Exec (system clockEnv) State.empty
      (submittedPair.1.take 5 ++ submittedPair.1[5] :: submittedPair.1.drop 6)
      submittedPair.2 := by
    rw [← List.drop_eq_getElem_cons, List.take_append_drop]
    exact Machine.played_exec _
  have hact : submittedPair.1[5].act = .request 1 {} := rfl
  obtain ⟨w, hrows, hbatch, -, hreplay, -⟩ :=
    batch_counts_up_iff State.empty_initial hexec hact rfl rfl
  have hids : w.ids = [3, 4] := by
    rw [← Build.rows_ids w 1 (.pair (some 2) (some 1)), ← hrows]
    rfl
  have hholds : ∀ sub ∈ w.rows 1 (.pair (some 2) (some 1)), sub.row.holds = true := by
    rw [← hrows]
    decide
  refine ⟨w, hids, _, hbatch.mpr ?_, hreplay⟩
  exact hholds _ (Build.mem_rows_iff.mpr ⟨0, 3, by rw [hids]; rfl, rfl⟩)

/-! ### A run that goes too far

`until` is 2147483648, one more than its column holds.
-/

def tooFar : List (Entry (State Int) Action) × State Int :=
  (system clockEnv).played State.empty
    [.arrive 0 (.createProject (.blank "A") none none .received), .request 0 {},
      .request 0 { ids := [1] },
      .arrive 1 (.submitRun 1 (.single (some 2147483648) none) .received),
      .request 1 { ids := [2, 3] }, .request 1 {}] (by decide)

/-- **A submission of a valid project that makes no run.** -/
theorem too_far_makes_no_run : Exec (system clockEnv) State.empty tooFar.1 tooFar.2 ∧
    (∃ e rows, tooFar.1[5]? = some e ∧ e.act = .request 1 {} ∧
      (e.pre.backend.db.projects 1).isSome = true ∧
      e.pre.requests 1 =
        some (.submitRun 1 (.single (some 2147483648) none) (.inserting rows)) ∧
      ∀ w : Build, rows = w.rows 1 (.single (some 2147483648) none) →
        ¬ IsBatch clockEnv (tooFar.1.take 5) e tooFar.2 1 1 (.single (some 2147483648) none) w) ∧
    tooFar.2.requests 1 = some (.submitRun 1 (.single (some 2147483648) none)
      (.answered (.error (.unhandled dataError)))) ∧
    ∀ run, (tooFar.2.slice run).row = none := by
  refine ⟨Machine.played_exec _, ⟨_, _, rfl, rfl, rfl, rfl, fun w hrows hbatch => ?_⟩, rfl,
    fun _ => rfl⟩
  have hids : w.ids = [3] := by
    rw [← Build.rows_ids w 1 (.single (some 2147483648) none), ← hrows]
    rfl
  have hslice := (hbatch.inserted 0 3 (by rw [hids]; rfl)).2
  have hrow : none = some (w.row 1 (.single (some 2147483648) none) 0) :=
    congrArg RunSlice.row hslice
  cases hrow

end SpurApi
