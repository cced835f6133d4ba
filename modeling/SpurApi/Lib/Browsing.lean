/-
Reading page by page a list that changes meanwhile.

The list is in a strict order, and things come into it and leave it anywhere.  How many
stand before a thing says on which page it is.  That number only grows while none of them
leaves, and only falls while none comes.  So a reader that asks for the offsets 0, limit,
2 * limit and so on skips a thing only if one before it left, and reads it twice only
if one came before it.
-/
import Mathlib.Data.List.Perm.Subperm
import SpurApi.Lib.Paging

namespace Paging

section

variable {κ : Type} {r : κ → κ → Prop} {items items' : List κ} {x : κ} {offset limit i : Nat}

theorem nodup_of_asymm (hasymm : ∀ a b, r a b → ¬ r b a) (hord : items.Pairwise r) :
    items.Nodup :=
  hord.imp fun {a b} hab (heq : a = b) => hasymm a b hab (heq ▸ hab)

variable [DecidableRel r]

/-- How many stand before `x`. -/
def ahead (r : κ → κ → Prop) [DecidableRel r] (items : List κ) (x : κ) : Nat :=
  items.countP fun y => r y x

theorem ahead_lt_length (h : x ∈ items) (hself : ¬ r x x) : ahead r items x < items.length := by
  obtain ⟨front, back, rfl⟩ := List.append_of_mem h
  have hfront : front.countP (fun y => r y x) ≤ front.length := List.countP_le_length
  have hback : back.countP (fun y => r y x) ≤ back.length := List.countP_le_length
  rw [ahead, List.countP_append, List.countP_cons_of_neg (by simp [hself]), List.length_append,
    List.length_cons]
  omega

/-- In a strict order it is the index. -/
theorem ahead_of_getElem? (hasymm : ∀ a b, r a b → ¬ r b a) (hord : items.Pairwise r)
    (h : items[i]? = some x) : ahead r items x = i := by
  induction items generalizing i with
  | nil => simp at h
  | cons y items ih =>
      obtain ⟨hy, hord⟩ := List.pairwise_cons.mp hord
      cases i with
      | zero =>
          rw [List.getElem?_cons_zero, Option.some.injEq] at h
          subst h
          have hself : ¬ r y y := fun h => hasymm y y h h
          rw [ahead, List.countP_cons_of_neg (by simpa using hself), List.countP_eq_zero]
          intro z hz
          simpa using hasymm y z (hy z hz)
      | succ i =>
          rw [List.getElem?_cons_succ] at h
          have hyx : r y x := hy x (List.mem_of_getElem? h)
          rw [ahead, List.countP_cons_of_pos (by simpa using hyx)]
          exact congrArg (· + 1) (ih hord h)

/-- Which page a thing is on. -/
theorem mem_page_iff_ahead (hasymm : ∀ a b, r a b → ¬ r b a) (hord : items.Pairwise r) :
    x ∈ page items offset limit ↔
      x ∈ items ∧ offset ≤ ahead r items x ∧ ahead r items x < offset + limit := by
  constructor
  · intro h
    obtain ⟨i, hi⟩ := List.mem_iff_getElem?.mp h
    rw [page, List.getElem?_take, List.getElem?_drop] at hi
    split at hi
    · have hahead := ahead_of_getElem? hasymm hord hi
      exact ⟨List.mem_of_getElem? hi, by omega, by omega⟩
    · simp at hi
  · rintro ⟨hmem, hle, hlt⟩
    obtain ⟨i, hi⟩ := List.mem_iff_getElem?.mp hmem
    have hahead := ahead_of_getElem? hasymm hord hi
    refine List.mem_iff_getElem?.mpr ⟨i - offset, ?_⟩
    rw [page, List.getElem?_take, List.getElem?_drop, if_pos (by omega),
      Nat.add_sub_cancel' (by omega)]
    exact hi

theorem ahead_le_ahead (hnodup : items.Nodup) (h : ∀ y ∈ items, r y x → y ∈ items') :
    ahead r items x ≤ ahead r items' x := by
  have hsub : (items.filter fun y => r y x) ⊆ items'.filter fun y => r y x := by
    intro y hy
    rw [List.mem_filter, decide_eq_true_eq] at hy ⊢
    exact ⟨h y hy.1 hy.2, hy.2⟩
  rw [ahead, ahead, List.countP_eq_length_filter, List.countP_eq_length_filter]
  have hfilter : (items.filter fun y => r y x).Nodup := hnodup.filter _
  exact (List.Nodup.subperm hfilter hsub).length_le

/-! ### A reader and a list that changes -/

/-- A reader has read the pages of a list that was `first` before, is `items` now, and has changed
in between as `C` says. -/
inductive Browses (C : List κ → List κ → Prop) (limit : Nat) (first : List κ) :
    List κ → List (List κ) → Prop
  | start : Browses C limit first first []
  | change {items items' : List κ} {pages : List (List κ)} (h : Browses C limit first items pages)
      (hchange : C items items') : Browses C limit first items' pages
  | read {items : List κ} {pages : List (List κ)} (h : Browses C limit first items pages) :
      Browses C limit first items (pages ++ [page items (limit * pages.length) limit])

/-- `x` stays, and so does all that stands before it. -/
structure Keeps (r : κ → κ → Prop) (x : κ) (items items' : List κ) : Prop where
  ordered : items'.Pairwise r
  here : x ∈ items'
  before : ∀ y ∈ items, r y x → y ∈ items'

/-- Nothing comes before `x`. -/
structure Spares (r : κ → κ → Prop) (x : κ) (items items' : List κ) : Prop where
  ordered : items'.Pairwise r
  before : ∀ y ∈ items', r y x → y ∈ items

variable {first : List κ} {pages : List (List κ)}

/-- While nothing before it leaves, a thing that was not read is still to come. -/
theorem Browses.ahead_of_unread (hasymm : ∀ a b, r a b → ¬ r b a)
    (h : Browses (Keeps r x) limit first items pages) (hord : first.Pairwise r) (hx : x ∈ first) :
    items.Pairwise r ∧ x ∈ items ∧
      (x ∉ pages.flatten → limit * pages.length ≤ ahead r items x) := by
  induction h with
  | start => exact ⟨hord, hx, fun _ => by simp⟩
  | change h hchange ih =>
      obtain ⟨hord, -, hahead⟩ := ih
      have hle := ahead_le_ahead (nodup_of_asymm hasymm hord) hchange.before
      exact ⟨hchange.ordered, hchange.here, fun hunread => Nat.le_trans (hahead hunread) hle⟩
  | @read items pages h ih =>
      obtain ⟨hord, hx, hahead⟩ := ih
      refine ⟨hord, hx, fun hunread => ?_⟩
      rw [List.flatten_append, List.flatten_singleton, List.mem_append, not_or] at hunread
      have hle := hahead hunread.1
      have hnot := hunread.2
      rw [mem_page_iff_ahead hasymm hord] at hnot
      rw [List.length_append, List.length_singleton, Nat.mul_succ]
      exact Nat.le_of_not_lt fun hlt => hnot ⟨hx, hle, hlt⟩

/-- **What stays is read, if nothing before it leaves**, once a page is short. -/
theorem Browses.read_of_kept (hasymm : ∀ a b, r a b → ¬ r b a)
    (h : Browses (Keeps r x) limit first items pages) (hord : first.Pairwise r) (hx : x ∈ first)
    (hshort : (page items (limit * pages.length) limit).length < limit) :
    x ∈ pages.flatten ++ page items (limit * pages.length) limit := by
  obtain ⟨hord, hx, hahead⟩ := h.ahead_of_unread hasymm hord hx
  rw [List.mem_append]
  by_cases hread : x ∈ pages.flatten
  · exact .inl hread
  · refine .inr ((mem_page_iff_ahead hasymm hord).mpr ⟨hx, hahead hread, ?_⟩)
    have hlt := ahead_lt_length hx fun hself => hasymm x x hself hself
    rw [page, List.length_take, List.length_drop] at hshort
    omega

/-- **Nothing is read twice, if nothing comes before it.** -/
theorem Browses.count_le_one [BEq κ] [LawfulBEq κ] (hasymm : ∀ a b, r a b → ¬ r b a)
    (h : Browses (Spares r x) limit first items pages) (hord : first.Pairwise r) :
    items.Pairwise r ∧ pages.flatten.count x ≤ 1 ∧
      (x ∈ pages.flatten → ahead r items x < limit * pages.length) := by
  induction h with
  | start => exact ⟨hord, by simp, by simp⟩
  | change h hchange ih =>
      obtain ⟨-, hcount, hahead⟩ := ih
      have hle := ahead_le_ahead (nodup_of_asymm hasymm hchange.ordered) hchange.before
      exact ⟨hchange.ordered, hcount, fun hread => Nat.lt_of_le_of_lt hle (hahead hread)⟩
  | @read items pages h ih =>
      obtain ⟨hord, hcount, hahead⟩ := ih
      have hnodup : (page items (limit * pages.length) limit).Nodup :=
        (page_sublist items _ _).nodup (nodup_of_asymm hasymm hord)
      rw [List.flatten_append, List.flatten_singleton, List.count_append, List.length_append,
        List.length_singleton, Nat.mul_succ]
      refine ⟨hord, ?_, fun hread => ?_⟩
      · by_cases hread : x ∈ pages.flatten
        · have hnot : x ∉ page items (limit * pages.length) limit := fun hmem =>
            absurd ((mem_page_iff_ahead hasymm hord).mp hmem).2.1
              (Nat.not_le_of_lt (hahead hread))
          rw [List.count_eq_zero_of_not_mem hnot]
          omega
        · rw [List.count_eq_zero_of_not_mem hread, Nat.zero_add]
          exact List.nodup_iff_count.mp hnodup x
      · rcases List.mem_append.mp hread with hread | hread
        · exact Nat.lt_of_lt_of_le (hahead hread) (Nat.le_add_right _ _)
        · exact ((mem_page_iff_ahead hasymm hord).mp hread).2.2

end

end Paging
