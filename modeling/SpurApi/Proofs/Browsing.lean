/-
Reading the list of projects page by page while the service goes on.

The list is ordered by columns that no operation assigns, so a project keeps its place for
as long as it is listed, whoever saves it.  Only a creation puts a project into the list and only
a deletion takes one out: that of the project, or of the base whose scenarios are listed, and
then nothing is left of the list.
-/
import SpurApi.Lib.Browsing
import SpurApi.Proofs.Listing
import SpurApi.Proofs.Refinement

namespace SpurApi

open Transition

/-! ### Places in the list -/

/-- Where a project stands in the list: when it was created, and its id. -/
def ProjectSummary.place (summary : ProjectSummary) : Time × Uuid := (summary.createdAt, summary.id)

/-- The order of the list, which no two projects share a place of. -/
def Ahead (k k' : Time × Uuid) : Prop :=
  k'.1 < k.1 ∨ k.1 = k'.1 ∧ k.2.toNat < k'.2.toNat

instance : DecidableRel Ahead := fun _ _ => inferInstanceAs (Decidable (_ ∨ _))

theorem Ahead.asymm (k k' : Time × Uuid) (h : Ahead k k') : ¬ Ahead k' k := by
  have horder : ∀ {x y i j : Nat}, y < x ∨ x = y ∧ i < j → ¬ (x < y ∨ y = x ∧ j < i) := by
    intros
    omega
  exact horder h

/-- The list of all projects, or of the scenarios of a base, has a project at this place. -/
def Db.Lists (db : Db) (base : Option Uuid) (k : Time × Uuid) : Prop :=
  ∃ row, db.projects k.2 = some row ∧ row.createdAt = k.1 ∧
    ∀ b, base = some b → row.baseProjectId = some b

section

variable {μ : Type} {env : Env μ} {s₀ u m s s' : State μ} {a : Action} {base : Option Uuid}
  {k : Time × Uuid} {tr tr₀ : List (Entry (State μ) Action)} {limit : Nat}

/-- The places of the list, in their order. -/
def State.places (s : State μ) (base : Option Uuid) : List (Time × Uuid) :=
  ((s.listed base).map Project.summary).map ProjectSummary.place

theorem places_eq (s : State μ) (base : Option Uuid) :
    s.places base =
      (selectProjects s.backend.projectRows base).map fun q => (q.2.createdAt, q.1) := by
  rw [State.places, State.listed, List.map_map, List.map_map]
  rfl

theorem mem_places_iff (hok : FamiliesOk s) :
    k ∈ s.places base ↔ s.backend.db.Lists base k := by
  rw [places_eq, List.mem_map]
  constructor
  · rintro ⟨⟨id, row⟩, hmem, rfl⟩
    obtain ⟨hrow, hbase⟩ := mem_selectProjects.mp hmem
    exact ⟨row, (mem_projectRows_iff.mp hrow).2, rfl, hbase⟩
  · rintro ⟨row, hrow, hcreated, hbase⟩
    refine ⟨(k.2, row), mem_selectProjects.mpr ⟨?_, hbase⟩, by rw [hcreated]⟩
    exact mem_projectRows_iff.mpr ⟨hok.minted k.2 row hrow, hrow⟩

theorem places_pairwise (hok : FamiliesOk s) (base : Option Uuid) :
    (s.places base).Pairwise Ahead := by
  rw [State.places, List.pairwise_map]
  exact (listsProjects_listed hok base).ordered

/-- A page of the list shows a page of the places. -/
theorem listProjects_places (hrows : RowsInStep s) {offset : Nat} {page : List ProjectSummary}
    (h : listProjects s.backend.projectRows limit offset base = .ok page) :
    page.map ProjectSummary.place = Paging.page (s.places base) offset limit := by
  rw [listProjects_eq hrows, Except.ok.injEq] at h
  rw [← h, Paging.page_map, State.places]

/-! ### What an operation does to the list -/

/-- Who leaves the list is deleted, or the base of the list is. -/
theorem Op.lists_leave {op : Op} {db db' : Db} (h : op.apply db = some db')
    (hin : db.Lists base k) (hout : ¬ db'.Lists base k) :
    ∃ id, op = .deleteProject id ∧ (id = k.2 ∨ base = some id) := by
  obtain ⟨row, hrow, hcreated, hbase⟩ := hin
  have hrow' := Op.apply_projects h k.2
  rw [hrow] at hrow'
  cases op with
  | create id body owner base' now =>
      rw [Op.apply, Option.ite_none_right_eq_some, Bool.and_eq_true,
        Option.isNone_iff_eq_none] at h
      have hne : id ≠ k.2 := by
        rintro rfl
        simp [hrow] at h
      simp only [Op.onProject, hne, if_false] at hrow'
      exact absurd ⟨row, hrow', hcreated, hbase⟩ hout
  | save id body now =>
      by_cases hid : id = k.2
      · simp only [Op.onProject, hid, if_true, Option.map_some] at hrow'
        exact absurd ⟨_, hrow', hcreated, hbase⟩ hout
      · simp only [Op.onProject, hid, if_false] at hrow'
        exact absurd ⟨row, hrow', hcreated, hbase⟩ hout
  | deleteProject id =>
      refine ⟨id, rfl, ?_⟩
      by_cases hid : id = k.2
      · exact .inl hid
      · simp only [Op.onProject, hid, if_false, Option.map_some] at hrow'
        by_cases hunlinked : row.baseProjectId = some id
        · cases base with
          | none =>
              rw [if_pos hunlinked] at hrow'
              exact absurd ⟨_, hrow', hcreated, by simp⟩ hout
          | some b => exact .inr ((hbase b rfl).symm.trans hunlinked)
        · rw [if_neg hunlinked] at hrow'
          exact absurd ⟨row, hrow', hcreated, hbase⟩ hout
  | _ => exact absurd ⟨row, hrow', hcreated, hbase⟩ hout

/-- A base that is deleted leaves no scenarios. -/
theorem Op.lists_unlinked {id : Uuid} {db db' : Db}
    (h : (Op.deleteProject id).apply db = some db') : ¬ db'.Lists (some id) k := by
  rintro ⟨row', hrow', -, hbase⟩
  cases Op.project_origin h hrow' with
  | created hop | saved hop => simp at hop
  | kept _ _ _ hunlinked => exact hunlinked id rfl (hbase id rfl)

/-- Who comes into the list is created. -/
theorem Op.lists_enter {op : Op} {db db' : Db} (h : op.apply db = some db')
    (hin : db'.Lists base k) (hout : ¬ db.Lists base k) :
    db.projects k.2 = none ∧ ∃ body owner base', op = .create k.2 body owner base' k.1 := by
  obtain ⟨row', hrow', hcreated, hbase⟩ := hin
  cases Op.project_origin h hrow' with
  | @created body owner base' now hop _ heq =>
      subst heq hop
      rw [Op.apply, Option.ite_none_right_eq_some, Bool.and_eq_true,
        Option.isNone_iff_eq_none] at h
      exact ⟨h.1.1, body, owner, base', by rw [← hcreated]; rfl⟩
  | saved _ hrow heq =>
      subst heq
      exact absurd ⟨_, hrow, hcreated, hbase⟩ hout
  | @kept row hrow heq hsame =>
      refine absurd ⟨row, hrow, ?_, fun b hb => ?_⟩ hout
      · rw [← hcreated, heq]
      · exact (hsame.resolve_right (by simp [hbase b hb])).symm.trans (hbase b hb)

/-! ### What happens to the list in a history -/

/-- By this step the project at a place is deleted. -/
def Leaves (env : Env μ) (e : Entry (State μ) Action) (base : Option Uuid) (k : Time × Uuid) :
    Prop :=
  opOf env e = some (.deleteProject k.2) ∧ e.pre.backend.db.Lists base k

/-- By this step the project at a place is created. -/
def Enters (env : Env μ) (e : Entry (State μ) Action) (base : Option Uuid) (k : Time × Uuid) :
    Prop :=
  (∃ body owner base', opOf env e = some (.create k.2 body owner base' k.1)) ∧
    e.post.backend.db.Lists base k

/-- Who leaves the list is deleted, or nothing is left of it. -/
theorem lists_leave_step (h₀ : s₀.Initial) (h : Exec (system env) s₀ tr s)
    (hstep : s.step env a = some s') (hin : s.backend.db.Lists base k)
    (hout : ¬ s'.backend.db.Lists base k) :
    Leaves env ⟨s, a, s'⟩ base k ∨ ∀ k', ¬ s'.backend.db.Lists base k' := by
  have htakes := takes_of_exec h₀ h hstep
  cases hop : opOf env ⟨s, a, s'⟩ with
  | none =>
      rw [hop] at htakes
      have hsame : s'.backend.db = s.backend.db := htakes
      exact absurd hin (hsame ▸ hout)
  | some op =>
      rw [hop] at htakes
      obtain ⟨id, rfl, rfl | rfl⟩ := Op.lists_leave htakes hin hout
      · exact .inl ⟨hop, hin⟩
      · exact .inr fun k' => Op.lists_unlinked htakes

/-- Who comes into the list is created, under an id that was not known. -/
theorem lists_enter_step (h₀ : s₀.Initial) (h : Exec (system env) s₀ tr s)
    (hstep : s.step env a = some s') (hin : s'.backend.db.Lists base k)
    (hout : ¬ s.backend.db.Lists base k) :
    k.2 ∉ s.backend.minted ∧ Enters env ⟨s, a, s'⟩ base k := by
  have htakes := takes_of_exec h₀ h hstep
  cases hop : opOf env ⟨s, a, s'⟩ with
  | none =>
      rw [hop] at htakes
      have hsame : s'.backend.db = s.backend.db := htakes
      exact absurd (hsame ▸ hin) hout
  | some op =>
      rw [hop] at htakes
      obtain ⟨hnone, body, owner, base', rfl⟩ := Op.lists_enter htakes hin hout
      refine ⟨fun hminted => ?_, ⟨body, owner, base', hop⟩, hin⟩
      -- an id that was drawn is not drawn again
      obtain ⟨row', hrow', -⟩ := hin
      have hgone := (family_step hstep).bases_none hminted (Db.bases_eq_none_iff.mpr hnone)
      rw [Db.bases_eq_none_iff.mp hgone] at hrow'
      simp at hrow'

/-- Who is listed now was listed when its id was known. -/
theorem lists_before (h₀ : s₀.Initial) (hu : Exec (system env) s₀ tr₀ u)
    (h : Exec (system env) u tr s) (hminted : k.2 ∈ u.backend.minted)
    (hin : s.backend.db.Lists base k) : u.backend.db.Lists base k := by
  induction h with
  | nil => exact hin
  | @snoc tr s s' a h hstep ih =>
      refine ih ?_
      by_contra hout
      have hknown : k.2 ∈ s.backend.minted :=
        h.invariant (I := fun s => k.2 ∈ s.backend.minted) hminted
          fun _ _ _ hI hstep => minted_mono hstep hI
      exact (lists_enter_step h₀ (hu.append h) hstep hin hout).1 hknown

/-! ### Browsing -/

/-- A client that asked for the offsets 0, `limit`, `2 * limit` and so on has got `pages`; the
service went on in between. -/
inductive Browsed (env : Env μ) (base : Option Uuid) (limit : Nat) (u : State μ) :
    List (Entry (State μ) Action) → State μ → List (List ProjectSummary) → Prop
  | start : Browsed env base limit u [] u []
  | wait {tr tr' : List (Entry (State μ) Action)} {s s' : State μ}
      {pages : List (List ProjectSummary)} (h : Browsed env base limit u tr s pages)
      (hexec : Exec (system env) s tr' s') : Browsed env base limit u (tr ++ tr') s' pages
  | page {tr : List (Entry (State μ) Action)} {s : State μ} {pages : List (List ProjectSummary)}
      {page : List ProjectSummary} (h : Browsed env base limit u tr s pages)
      (hpage : listProjects s.backend.projectRows limit (limit * pages.length) base = .ok page) :
      Browsed env base limit u tr s (pages ++ [page])

variable {pages : List (List ProjectSummary)}

theorem Browsed.exec (h : Browsed env base limit u tr s pages) : Exec (system env) u tr s := by
  induction h with
  | start => exact Exec.nil
  | wait _ hexec ih => exact ih.append hexec
  | page _ _ ih => exact ih

/-- The places it saw are those of a list that changes as the service goes on. -/
theorem Browsed.browses {C : List (Time × Uuid) → List (Time × Uuid) → Prop} (h₀ : s₀.Initial)
    (hrows : RowsInStep s₀) (hu : Exec (system env) s₀ tr₀ u)
    (h : Browsed env base limit u tr s pages)
    (hchange : ∀ tr₁ m tr₂ m' tr₃, tr = tr₁ ++ tr₂ ++ tr₃ → Exec (system env) u tr₁ m →
      Exec (system env) m tr₂ m' → Exec (system env) m' tr₃ s →
        C (m.places base) (m'.places base)) :
    Paging.Browses C limit (u.places base) (s.places base)
      (pages.map (List.map ProjectSummary.place)) := by
  induction h with
  | start => exact .start
  | @wait tr tr' s s' pages h hexec ih =>
      refine .change (ih fun tr₁ m tr₂ m' tr₃ htr h₁ h₂ h₃ => ?_) ?_
      · exact hchange tr₁ m tr₂ m' (tr₃ ++ tr') (by simp [htr]) h₁ h₂ (h₃.append hexec)
      · exact hchange tr s tr' s' [] (by simp) h.exec hexec Exec.nil
  | @page tr s pages page h hpage ih =>
      have hread := Paging.Browses.read (ih hchange)
      rw [List.length_map] at hread
      rw [List.map_append, List.map_singleton,
        listProjects_places (RowsInStep.exec h₀ hrows (hu.append h.exec)) hpage]
      exact hread

/-- What is promised to a client that has read `pages` in a history `tr`. -/
structure Browsing (env : Env μ) (base : Option Uuid) (limit : Nat) (u : State μ)
    (tr : List (Entry (State μ) Action)) (s : State μ) (pages : List (List ProjectSummary)) :
    Prop where
  /-- a page was read at the moment when the client had the pages before it, and what it shows are
  projects as they were then -/
  shown : ∀ before page after, pages = before ++ page :: after → ∃ tr₁ m tr₂, tr = tr₁ ++ tr₂ ∧
    Browsed env base limit u tr₁ m before ∧ Exec (system env) m tr₂ s ∧
      listProjects m.backend.projectRows limit (limit * before.length) base = .ok page ∧
        ∀ summary ∈ page, ∃ project, getProject m.backend.db summary.id = .ok project ∧
          summary = project.summary ∧ ∀ b, base = some b → project.baseProjectId = some b
  /-- and each project is always shown at the same place -/
  steady : ∀ summary ∈ pages.flatten, ∀ summary' ∈ pages.flatten, summary.id = summary'.id →
    summary.place = summary'.place
  /-- behind a short page, only what stood behind a project that was deleted was skipped -/
  skipped : ∀ page,
    listProjects s.backend.projectRows limit (limit * pages.length) base = .ok page →
    page.length < limit → ∀ k, u.backend.db.Lists base k → s.backend.db.Lists base k →
      k ∈ (pages.flatten ++ page).map ProjectSummary.place ∨
        ∃ e ∈ tr, ∃ k', Leaves env e base k' ∧ Ahead k' k
  /-- only what stood behind a project that was created was read twice -/
  repeated : ∀ k, (pages.flatten.map ProjectSummary.place).count k ≤ 1 ∨
    ∃ e ∈ tr, ∃ k', Enters env e base k' ∧ Ahead k' k

private theorem kept_places (h₀ : s₀.Initial) (hm : Exec (system env) s₀ tr₀ m)
    (h : Exec (system env) m tr s) (hin : s.backend.db.Lists base k)
    (hknown : k.2 ∈ m.backend.minted)
    (hnone : ¬ ∃ e ∈ tr, ∃ k', Leaves env e base k' ∧ Ahead k' k) :
    Paging.Keeps Ahead k (m.places base) (s.places base) := by
  have hok := FamiliesOk.exec h₀ (hm.append h)
  refine ⟨places_pairwise hok base, (mem_places_iff hok).mpr hin, fun y hy hahead => ?_⟩
  rw [mem_places_iff (FamiliesOk.exec h₀ hm)] at hy
  rw [mem_places_iff hok]
  by_contra hout
  obtain ⟨tr₁, e, tr₂, rfl, hpre, hpost⟩ :=
    h.exists_lost (P := fun s => s.backend.db.Lists base y) hy hout
  obtain ⟨h₁, hstep, h₂⟩ := h.split_at
  rcases lists_leave_step h₀ (hm.append h₁) hstep hpre hpost with hleaves | hempty
  · exact hnone ⟨e, by simp, y, hleaves, hahead⟩
  · -- the project in question is still in the list
    have hmid : k.2 ∈ e.post.backend.minted :=
      (h₁.snoc hstep).invariant (I := fun s => k.2 ∈ s.backend.minted) hknown
        fun _ _ _ hI hstep => minted_mono hstep hI
    exact hempty k (lists_before h₀ (hm.append (h₁.snoc hstep)) h₂ hmid hin)

private theorem spared_places (h₀ : s₀.Initial) (hm : Exec (system env) s₀ tr₀ m)
    (h : Exec (system env) m tr s)
    (hnone : ¬ ∃ e ∈ tr, ∃ k', Enters env e base k' ∧ Ahead k' k) :
    Paging.Spares Ahead k (m.places base) (s.places base) := by
  have hok := FamiliesOk.exec h₀ (hm.append h)
  refine ⟨places_pairwise hok base, fun y hy hahead => ?_⟩
  rw [mem_places_iff hok] at hy
  rw [mem_places_iff (FamiliesOk.exec h₀ hm)]
  by_contra hout
  obtain ⟨tr₁, e, tr₂, rfl, hpre, hpost⟩ :=
    h.exists_lost (P := fun s => ¬ s.backend.db.Lists base y) hout (not_not.mpr hy)
  obtain ⟨h₁, hstep, -⟩ := h.split_at
  have henters := lists_enter_step h₀ (hm.append h₁) hstep (not_not.mp hpost) hpre
  exact hnone ⟨e, by simp, y, henters.2, hahead⟩

/-- When a page was read. -/
theorem Browsed.read (h : Browsed env base limit u tr s pages) :
    ∀ before page after, pages = before ++ page :: after → ∃ tr₁ m tr₂, tr = tr₁ ++ tr₂ ∧
      Browsed env base limit u tr₁ m before ∧ Exec (system env) m tr₂ s ∧
        listProjects m.backend.projectRows limit (limit * before.length) base = .ok page := by
  induction h with
  | start => simp
  | @wait tr tr' s s' pages h hexec ih =>
      intro before page after heq
      obtain ⟨tr₁, m, tr₂, rfl, hbefore, h₂, hpage⟩ := ih before page after heq
      exact ⟨tr₁, m, tr₂ ++ tr', List.append_assoc .., hbefore, h₂.append hexec, hpage⟩
  | @page tr s pages last h hlast ih =>
      intro before page after heq
      rcases after.eq_nil_or_concat with rfl | ⟨after, last', rfl⟩
      · obtain ⟨rfl, hsame⟩ := List.append_inj' heq rfl
        obtain rfl := List.head_eq_of_cons_eq hsame
        exact ⟨tr, s, [], (List.append_nil tr).symm, h, Exec.nil, hlast⟩
      · rw [List.concat_eq_append, ← List.cons_append, ← List.append_assoc] at heq
        exact ih before page after (List.append_inj' heq rfl).1

/-- What a page shows. -/
theorem shown_of_page (h₀ : s₀.Initial) (hrows : RowsInStep s₀) (hm : Exec (system env) s₀ tr₀ m)
    {offset : Nat} {page : List ProjectSummary}
    (hpage : listProjects m.backend.projectRows limit offset base = .ok page) :
    ∀ summary ∈ page, ∃ project, getProject m.backend.db summary.id = .ok project ∧
      summary = project.summary ∧ ∀ b, base = some b → project.baseProjectId = some b := by
  intro summary hmem
  rw [listProjects_eq (RowsInStep.exec h₀ hrows hm), Except.ok.injEq] at hpage
  rw [← hpage] at hmem
  have hlisted := (Paging.page_sublist _ _ _).mem hmem
  have hlists := listsProjects_listed (FamiliesOk.exec h₀ hm) base
  obtain ⟨project, hproject, hsummary⟩ := hlists.agrees summary hlisted
  obtain ⟨project', hproject', hbase⟩ :=
    (hlists.complete summary.id).mp (List.mem_map_of_mem hlisted)
  rw [hproject, Except.ok.injEq] at hproject'
  subst hproject'
  exact ⟨project, hproject, hsummary, hbase⟩

/-- A project that is read is in the list, at the place that is shown. -/
theorem lists_of_getProject {summary : ProjectSummary} {project : Project} {db : Db}
    (hproject : getProject db summary.id = .ok project) (hsummary : summary = project.summary)
    (hbase : ∀ b, base = some b → project.baseProjectId = some b) :
    db.Lists base summary.place := by
  obtain ⟨row, hrow, rfl⟩ := getProject_eq_ok_iff.mp hproject
  exact ⟨row, hrow, by rw [hsummary]; rfl, hbase⟩

/-- What was shown was in the list then, at the place that was shown. -/
private theorem listed_of_shown (h₀ : s₀.Initial) (hrows : RowsInStep s₀)
    (hu : Exec (system env) s₀ tr₀ u) (h : Browsed env base limit u tr s pages)
    {summary : ProjectSummary} (hmem : summary ∈ pages.flatten) :
    ∃ tr₁ m tr₂, tr = tr₁ ++ tr₂ ∧ Exec (system env) u tr₁ m ∧
      m.backend.db.Lists base summary.place := by
  obtain ⟨page, hpage, hsummary⟩ := List.mem_flatten.mp hmem
  obtain ⟨before, after, heq⟩ := List.append_of_mem hpage
  obtain ⟨tr₁, m, tr₂, htr, hbefore, -, hread⟩ := h.read before page after heq
  obtain ⟨project, hproject, hsame, hbase⟩ :=
    shown_of_page h₀ hrows (hu.append hbefore.exec) hread summary hsummary
  exact ⟨tr₁, m, tr₂, htr, hbefore.exec, lists_of_getProject hproject hsame hbase⟩

/-- A project that is listed at two times is listed at one place. -/
theorem place_kept (h₀ : s₀.Initial) (hm : Exec (system env) s₀ tr₀ m)
    (h : Exec (system env) m tr s) {k k' : Time × Uuid} (hin : m.backend.db.Lists base k)
    (hin' : s.backend.db.Lists base k') (hid : k.2 = k'.2) : k = k' := by
  obtain ⟨row, hrow, hcreated, -⟩ := hin
  have hminted := (FamiliesOk.exec h₀ hm).minted k.2 row hrow
  obtain ⟨row', hrow', hcreated', -⟩ := lists_before h₀ hm h (hid ▸ hminted) hin'
  rw [← hid, hrow, Option.some.injEq] at hrow'
  subst hrow'
  exact Prod.ext (hcreated.symm.trans hcreated') hid

private theorem browsed_steady (h₀ : s₀.Initial) (hrows : RowsInStep s₀)
    (hu : Exec (system env) s₀ tr₀ u) (h : Browsed env base limit u tr s pages) :
    ∀ summary ∈ pages.flatten, ∀ summary' ∈ pages.flatten, summary.id = summary'.id →
      summary.place = summary'.place := by
  intro summary hmem summary' hmem' hid
  obtain ⟨tr₁, m, tr₂, htr, h₁, hin⟩ := listed_of_shown h₀ hrows hu h hmem
  obtain ⟨tr₁', m', tr₂', htr', h₁', hin'⟩ := listed_of_shown h₀ hrows hu h hmem'
  -- one of the two was read first
  rcases List.append_eq_append_iff.mp (htr.symm.trans htr') with ⟨rest, hrest, -⟩ | ⟨rest, hrest, -⟩
  · rw [hrest] at h₁'
    obtain ⟨mid, hmid, hlater⟩ := h₁'.split
    rw [h₁.unique hmid] at hin
    exact place_kept h₀ (hu.append hmid) hlater hin hin' hid
  · rw [hrest] at h₁
    obtain ⟨mid, hmid, hlater⟩ := h₁.split
    rw [h₁'.unique hmid] at hin'
    exact (place_kept h₀ (hu.append hmid) hlater hin' hin hid.symm).symm

/-- **Browsing the list while the service goes on**: only a deletion makes a client skip a project
that is there all the time, only a creation makes it read one twice, and saves do neither. -/
theorem browsing_shifts_only_by_creations_and_deletions (h₀ : s₀.Initial) (hrows : RowsInStep s₀)
    (hu : Exec (system env) s₀ tr₀ u) (h : Browsed env base limit u tr s pages) :
    Browsing env base limit u tr s pages where
  shown before page after heq := by
    obtain ⟨tr₁, m, tr₂, htr, hbefore, h₂, hpage⟩ := h.read before page after heq
    exact ⟨tr₁, m, tr₂, htr, hbefore, h₂, hpage,
      shown_of_page h₀ hrows (hu.append hbefore.exec) hpage⟩
  steady := browsed_steady h₀ hrows hu h
  skipped page hpage hshort k hfirst hlast := by
    by_contra hnot
    rw [not_or] at hnot
    obtain ⟨hunread, hnone⟩ := hnot
    have hoku := FamiliesOk.exec h₀ hu
    have hknown : k.2 ∈ u.backend.minted := by
      obtain ⟨row, hrow, -⟩ := hfirst
      exact hoku.minted k.2 row hrow
    have hbrowses : Paging.Browses (Paging.Keeps Ahead k) limit (u.places base) (s.places base)
        (pages.map (List.map ProjectSummary.place)) := by
      refine h.browses h₀ hrows hu fun tr₁ m tr₂ m' tr₃ htr h₁ h₂ h₃ => ?_
      have hknown₁ : k.2 ∈ m.backend.minted :=
        h₁.invariant (I := fun s => k.2 ∈ s.backend.minted) hknown
          fun _ _ _ hI hstep => minted_mono hstep hI
      have hknown₂ : k.2 ∈ m'.backend.minted :=
        h₂.invariant (I := fun s => k.2 ∈ s.backend.minted) hknown₁
          fun _ _ _ hI hstep => minted_mono hstep hI
      have hmid := lists_before h₀ ((hu.append h₁).append h₂) h₃ hknown₂ hlast
      refine kept_places h₀ (hu.append h₁) h₂ hmid hknown₁ ?_
      rintro ⟨e, he, hleaves⟩
      exact hnone ⟨e, by simp [htr, he], hleaves⟩
    have hplaces := listProjects_places (RowsInStep.exec h₀ hrows (hu.append h.exec)) hpage
    have hread := hbrowses.read_of_kept Ahead.asymm (places_pairwise hoku base)
      ((mem_places_iff hoku).mpr hfirst) (by
        rw [List.length_map, ← hplaces, List.length_map]
        exact hshort)
    rw [List.length_map, ← hplaces, ← List.map_flatten, ← List.map_append] at hread
    exact hunread hread
  repeated k := by
    by_contra hnot
    rw [not_or] at hnot
    obtain ⟨hcount, hnone⟩ := hnot
    have hbrowses : Paging.Browses (Paging.Spares Ahead k) limit (u.places base) (s.places base)
        (pages.map (List.map ProjectSummary.place)) := by
      refine h.browses h₀ hrows hu fun tr₁ m tr₂ m' tr₃ htr h₁ h₂ _ => ?_
      refine spared_places h₀ (hu.append h₁) h₂ ?_
      rintro ⟨e, he, henters⟩
      exact hnone ⟨e, by simp [htr, he], henters⟩
    have hone := (hbrowses.count_le_one Ahead.asymm
      (places_pairwise (FamiliesOk.exec h₀ hu) base)).2.1
    rw [← List.map_flatten] at hone
    exact hcount hone

end

/-- Three projects are created. -/
def threeProjects : List (Entry (State Int) Action) × State Int :=
  (system clockEnv).played State.empty
    [.arrive 1 (.createProject (.blank "A") none none .received), .request 1 {},
      .request 1 { ids := [1], now := 1 },
      .arrive 2 (.createProject (.blank "B") none none .received), .request 2 {},
      .request 2 { ids := [2], now := 2 },
      .arrive 3 (.createProject (.blank "C") none none .received), .request 3 {},
      .request 3 { ids := [3], now := 3 }] (by decide)

/-- The newest is deleted. -/
def newestDeleted : List (Entry (State Int) Action) × State Int :=
  (system clockEnv).played threeProjects.2
    [.arrive 4 (.deleteProject 3 .received), .request 4 {}, .request 4 {}] (by decide)

/-- It was on the first page, so the oldest is on neither. -/
theorem oldest_is_skipped : ∃ page,
    Browsed clockEnv none 2 threeProjects.2 newestDeleted.1 newestDeleted.2 [page] ∧
      page.map ProjectSummary.place = [(3, 3), (2, 2)] ∧
      listProjects newestDeleted.2.backend.projectRows 2 2 none = .ok [] ∧
      newestDeleted.2.backend.db.Lists none (1, 1) ∧
      Browsing clockEnv none 2 threeProjects.2 newestDeleted.1 newestDeleted.2 [page] := by
  have hcreate : Exec (system clockEnv) State.empty threeProjects.1 threeProjects.2 :=
    Machine.played_exec _
  have hdelete : Exec (system clockEnv) threeProjects.2 newestDeleted.1 newestDeleted.2 :=
    Machine.played_exec _
  have hrows := RowsInStep.exec State.empty_initial State.empty_rowsInStep hcreate
  have hplaces : threeProjects.2.places none = [(3, 3), (2, 2), (1, 1)] := by
    rw [places_eq, selectProjects, List.mergeSort_of_pairwise (by decide)]
    rfl
  have hleft : newestDeleted.2.places none = [(2, 2), (1, 1)] := by
    rw [places_eq, selectProjects, List.mergeSort_of_pairwise (by decide)]
    rfl
  have hpage := listProjects_eq hrows 2 0 none
  have hbrowsed := (Browsed.start.page hpage).wait hdelete
  refine ⟨_, hbrowsed, ?_, ?_, ⟨_, rfl, rfl, by simp⟩, ?_⟩
  · rw [listProjects_places hrows hpage, hplaces]
    rfl
  · have hlength : ((newestDeleted.2.listed none).map Project.summary).length = 2 := by
      have hlength := congrArg List.length hleft
      rwa [State.places, List.length_map] at hlength
    rw [listProjects_eq (RowsInStep.exec State.empty_initial State.empty_rowsInStep
      (hcreate.append hdelete)), Paging.page, List.drop_eq_nil_of_le (by omega), List.take_nil]
  · exact browsing_shifts_only_by_creations_and_deletions State.empty_initial State.empty_rowsInStep
      hcreate hbrowsed

end SpurApi
