/-
Documents that count their revisions.

A document has a content, a version that every revision raises by one, and the
version at which what matters of the content last changed.  "What matters" is any
decidable relation on contents: two related contents are the same for whoever reads
them.  The second number makes a reader's test: what was read at version `v` is up
to date when `changed ≤ v`.  The test is exact for single revisions
(`changed_le_iff`), and where the relation is an equivalence or at least reflexive
and transitive, it says that the content read and the content now are the same
(`same_of_changed_le`).
-/
import Mathlib.Data.List.Induction

namespace Revision

/-- A document that counts its revisions. -/
structure Doc (α : Type) where
  content : α
  version : Int
  /-- the version at which what matters last changed -/
  changed : Int

variable {α : Type} (same : α → α → Prop) [DecidableRel same]

/-- One revision. -/
def Doc.revise (d : Doc α) (new : α) : Doc α where
  content := new
  version := d.version + 1
  changed := if same d.content new then d.changed else d.version + 1

/-- The document after a list of revisions. -/
def Doc.after (d : Doc α) (news : List α) : Doc α := news.foldl (Doc.revise same) d

namespace Doc

variable {same} {d : Doc α} {news : List α}

@[simp] theorem content_revise {new : α} : (d.revise same new).content = new := rfl

@[simp] theorem version_revise {new : α} : (d.revise same new).version = d.version + 1 := rfl

theorem changed_revise_same {new : α} (h : same d.content new) :
    (d.revise same new).changed = d.changed := if_pos h

theorem changed_revise_differs {new : α} (h : ¬ same d.content new) :
    (d.revise same new).changed = d.version + 1 := if_neg h

@[simp] theorem after_nil : d.after same [] = d := rfl

@[simp] theorem after_concat {new : α} :
    d.after same (news ++ [new]) = (d.after same news).revise same new := by
  simp only [after, List.foldl_append, List.foldl_cons, List.foldl_nil]

theorem after_append {more : List α} :
    d.after same (news ++ more) = (d.after same news).after same more := List.foldl_append

/-- Every revision raises the version by one. -/
@[simp] theorem version_after : (d.after same news).version = d.version + news.length := by
  induction news using List.reverseRecOn with
  | nil => simp
  | append_singleton news new ih =>
      rw [after_concat, revise, ih, List.length_append]
      simp only [List.length_cons, List.length_nil]
      omega

theorem version_after_take {k : Nat} (hk : k ≤ news.length) :
    (d.after same (news.take k)).version = d.version + k := by
  rw [version_after, List.length_take, Nat.min_eq_left hk]

/-- What matters last changed at a version the document has had. -/
theorem changed_bounds (hd : d.changed ≤ d.version) :
    d.changed ≤ (d.after same news).changed ∧
      (d.after same news).changed ≤ (d.after same news).version := by
  induction news using List.reverseRecOn with
  | nil => exact ⟨Int.le_refl _, hd⟩
  | append_singleton news new ih =>
      obtain ⟨hlow, hhigh⟩ := ih
      have hv : (d.after same news).version = d.version + news.length := version_after
      rw [after_concat, revise]
      dsimp only
      split <;> constructor <;> omega

private theorem take_concat {new : α} {k : Nat} (hk : k ≤ news.length) :
    (news ++ [new]).take k = news.take k := List.take_append_of_le_length hk

/-- **The test is exact.**  It passes for version `k` of the document when no later
revision changed what matters. -/
theorem changed_le_iff (hd : d.changed ≤ d.version) {k : Nat} (hk : k ≤ news.length) :
    (d.after same news).changed ≤ (d.after same (news.take k)).version ↔
      ∀ i, k ≤ i → i < news.length →
        same (d.after same (news.take i)).content (d.after same (news.take (i + 1))).content := by
  induction news using List.reverseRecOn with
  | nil => simpa using hd
  | append_singleton news new ih =>
      have hbound : (d.after same (news ++ [new])).changed ≤
          (d.after same (news ++ [new])).version := (changed_bounds hd).2
      rw [List.length_append, List.length_singleton] at hk
      rcases Nat.eq_or_lt_of_le hk with hlast | hk
      · -- nothing comes after the last revision
        rw [List.take_of_length_le (by simp [hlast])]
        refine ⟨fun _ i hi hlt => ?_, fun _ => hbound⟩
        rw [List.length_append, List.length_singleton] at hlt
        omega
      · have hk : k ≤ news.length := Nat.le_of_lt_succ hk
        have ih := ih hk
        have hversion : (d.after same (news.take k)).version = d.version + k :=
          version_after_take hk
        have hcurrent : (d.after same news).version = d.version + news.length := version_after
        rw [take_concat hk, after_concat]
        constructor
        · intro hle i hki hi
          rw [List.length_append, List.length_singleton] at hi
          by_cases hsame : same (d.after same news).content new
          · rw [changed_revise_same hsame] at hle
            rcases Nat.eq_or_lt_of_le (Nat.le_of_lt_succ hi) with rfl | hi
            · rw [take_concat (Nat.le_refl _), List.take_length, List.take_of_length_le (by simp),
                after_concat]
              exact hsame
            · rw [take_concat (by omega), take_concat (by omega)]
              exact ih.mp hle i hki hi
          · rw [changed_revise_differs hsame] at hle
            omega
        · intro hall
          have hlast := hall news.length hk (by simp)
          rw [take_concat (Nat.le_refl _), List.take_length, List.take_of_length_le (by simp),
            after_concat, content_revise] at hlast
          rw [changed_revise_same hlast]
          refine ih.mpr fun i hki hi => ?_
          have := hall i hki (by simp; omega)
          rwa [take_concat (by omega), take_concat (by omega)] at this

/-- **What passes the test is up to date.** -/
theorem same_of_changed_le (hrefl : ∀ a, same a a)
    (htrans : ∀ a b c, same a b → same b c → same a c) (hd : d.changed ≤ d.version) {k : Nat}
    (hk : k ≤ news.length)
    (hle : (d.after same news).changed ≤ (d.after same (news.take k)).version) :
    same (d.after same (news.take k)).content (d.after same news).content := by
  have hstep := (changed_le_iff hd hk).mp hle
  have hchain : ∀ n, k + n ≤ news.length →
      same (d.after same (news.take k)).content (d.after same (news.take (k + n))).content := by
    intro n
    induction n with
    | zero => exact fun _ => hrefl _
    | succ n ih =>
        intro hn
        exact htrans _ _ _ (ih (by omega)) (hstep (k + n) (by omega) (by omega))
  have hend := hchain (news.length - k) (by omega)
  rwa [show k + (news.length - k) = news.length from by omega, List.take_length] at hend

end Doc

end Revision
