/-
Reading a list page by page.

A page is what lies behind an offset, up to a limit.  A reader that asks each time for what
lies behind all it has received walks the list from its front: what it has is a prefix, and
a page that is shorter than its limit was the last one.  The list may grow at its end between
two pages, since a prefix of a list is a prefix of what the list becomes.

A list that stays as it is can be asked for at the offsets 0, limit, 2 * limit and so on
instead, and is read whole (`reads_iff`).
-/
import Mathlib.Data.List.Basic

namespace Paging

variable {α : Type}

/-- `OFFSET offset LIMIT limit`. -/
def page (items : List α) (offset limit : Nat) : List α := (items.drop offset).take limit

theorem page_sublist (items : List α) (offset limit : Nat) :
    (page items offset limit).Sublist items :=
  (List.take_sublist _ _).trans (List.drop_sublist _ _)

theorem page_map {β : Type} (f : α → β) (items : List α) (offset limit : Nat) :
    (page items offset limit).map f = page (items.map f) offset limit := by
  simp only [page, List.map_take, List.map_drop]

/-- The next page behind a prefix makes a longer prefix. -/
theorem append_page_isPrefix {items got : List α} (h : got <+: items) (limit : Nat) :
    got ++ page items got.length limit <+: items := by
  obtain ⟨rest, rfl⟩ := h
  rw [page, List.drop_left, List.prefix_append_right_inj]
  exact List.take_prefix limit rest

/-- A page that is not full is all there is behind its offset. -/
theorem page_of_short {items : List α} {offset limit : Nat}
    (hshort : (page items offset limit).length < limit) :
    page items offset limit = items.drop offset := by
  rw [page, List.length_take] at hshort
  exact List.take_of_length_le (by omega)

/-- And so it was the last one. -/
theorem append_page_of_short {items got : List α} {limit : Nat} (h : got <+: items)
    (hshort : (page items got.length limit).length < limit) :
    got ++ page items got.length limit = items := by
  obtain ⟨rest, rfl⟩ := h
  rw [page_of_short hshort, List.drop_left]

/-- Reading on from an offset, page by page, until a page is shorter than the limit. -/
inductive Reads {ε : Type} (read : Nat → Except ε (List α)) (limit : Nat) :
    Nat → List α → Prop
  | last {offset : Nat} {got : List α} (h : read offset = .ok got) (hshort : got.length < limit) :
      Reads read limit offset got
  | more {offset : Nat} {got rest : List α} (h : read offset = .ok got)
      (hfull : limit ≤ got.length) (hrest : Reads read limit (offset + limit) rest) :
      Reads read limit offset (got ++ rest)

/-- The page at an offset and what is behind it. -/
theorem page_append_drop (items : List α) (offset limit : Nat) :
    page items offset limit ++ items.drop (offset + limit) = items.drop offset := by
  rw [page, ← List.drop_drop, List.take_append_drop]

/-- **Page after page, everything is read, and nothing twice**, as long as it stays what it is. -/
theorem reads_iff {ε : Type} {read : Nat → Except ε (List α)} {items got : List α}
    {limit offset : Nat} (hlimit : 1 ≤ limit)
    (hread : ∀ offset, read offset = .ok (page items offset limit)) :
    Reads read limit offset got ↔ got = items.drop offset := by
  constructor
  · intro h
    induction h with
    | last h hshort =>
        rw [hread, Except.ok.injEq] at h
        subst h
        exact page_of_short hshort
    | more h _ _ ih =>
        rw [hread, Except.ok.injEq] at h
        rw [ih, ← h, page_append_drop]
  · rintro rfl
    -- a full page leaves less to read
    induction hleft : items.length - offset using Nat.strongRecOn generalizing offset with
    | ind left ih =>
        by_cases hshort : (page items offset limit).length < limit
        · rw [← page_of_short hshort]
          exact .last (hread offset) hshort
        · have hmore : offset < items.length := by
            rw [page, List.length_take, List.length_drop] at hshort
            omega
          rw [← page_append_drop items offset limit]
          exact .more (hread offset) (by omega) (ih _ (by omega) rfl)

end Paging
