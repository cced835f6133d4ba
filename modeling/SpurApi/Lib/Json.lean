/-
JSON values as Python holds them, and Python's equality on them.

An object is the list of its bindings in the order they were inserted.  Python's
dict cannot hold a key twice, and `distinctKeys` says so at every depth; an
`Object` carries that as a field.  Equality is Python's `==`: numbers of every
kind compare by value (`True == 1 == 1.0`), lists item by item, and objects
without regard to the order of their keys.  `same` is finer: it tells the kinds of
numbers apart, as JSON does.

`float` is given by the value of the double.  JSON has no NaN and no infinity,
which is what makes `==` reflexive here.
-/
import Mathlib.Data.List.Forall2
import Mathlib.Data.List.Nodup
import Mathlib.Data.List.Perm.Subperm
import Mathlib.Data.Rat.Defs

/-- A JSON value, as `json.loads` builds it. -/
inductive Json
  | null
  | bool (b : Bool)
  | int (n : Int)
  | float (q : Rat)
  | str (s : String)
  | arr (items : List Json)
  | obj (fields : List (String × Json))

namespace Json

/-- To prove something of every value, prove it of a list from its items and of an
object from its values. -/
theorem induct {P : Json → Prop} (null : P .null) (bool : ∀ b, P (.bool b))
    (int : ∀ n, P (.int n)) (float : ∀ q, P (.float q)) (str : ∀ s, P (.str s))
    (arr : ∀ xs, (∀ x ∈ xs, P x) → P (.arr xs))
    (obj : ∀ fs, (∀ kv ∈ fs, P kv.2) → P (.obj fs)) : ∀ j, P j := by
  intro j
  refine @Json.rec P (fun xs => ∀ x ∈ xs, P x) (fun fs => ∀ kv ∈ fs, P kv.2) (fun kv => P kv.2)
    null bool int float str arr obj ?_ ?_ ?_ ?_ ?_ j
  · intro x hx
    simp at hx
  · intro x xs hx hxs y hy
    rcases List.mem_cons.mp hy with rfl | hy
    · exact hx
    · exact hxs y hy
  · intro kv hkv
    simp at hkv
  · intro kv fs hkv hfs kv' hkv'
    rcases List.mem_cons.mp hkv' with rfl | hmem
    · exact hkv
    · exact hfs kv' hmem
  · intro k v hv
    exact hv

/-! ### Distinct keys -/

mutual

/-- No object in the value binds a key twice. -/
def distinctKeys : Json → Bool
  | .arr items => distinctKeysItems items
  | .obj fields => decide (fields.map Prod.fst).Nodup && distinctKeysFields fields
  | _ => true

def distinctKeysItems : List Json → Bool
  | [] => true
  | x :: xs => distinctKeys x && distinctKeysItems xs

def distinctKeysFields : List (String × Json) → Bool
  | [] => true
  | (_, v) :: fs => distinctKeys v && distinctKeysFields fs

end

theorem distinctKeysItems_iff {xs : List Json} :
    distinctKeysItems xs = true ↔ ∀ x ∈ xs, x.distinctKeys = true := by
  induction xs with
  | nil => simp [distinctKeysItems]
  | cons x xs ih => simp [distinctKeysItems, ih]

theorem distinctKeysFields_iff {fs : List (String × Json)} :
    distinctKeysFields fs = true ↔ ∀ kv ∈ fs, kv.2.distinctKeys = true := by
  induction fs with
  | nil => simp [distinctKeysFields]
  | cons kv fs ih => simp [distinctKeysFields, ih]

@[simp] theorem distinctKeys_arr {xs : List Json} :
    (Json.arr xs).distinctKeys = true ↔ ∀ x ∈ xs, x.distinctKeys = true := by
  rw [distinctKeys, distinctKeysItems_iff]

@[simp] theorem distinctKeys_obj {fs : List (String × Json)} :
    (Json.obj fs).distinctKeys = true ↔
      (fs.map Prod.fst).Nodup ∧ ∀ kv ∈ fs, kv.2.distinctKeys = true := by
  rw [distinctKeys, Bool.and_eq_true, decide_eq_true_iff, distinctKeysFields_iff]

/-! ### Looking a key up -/

/-- The binding of a key that is bound once is the one that is found. -/
theorem lookup_of_mem {fs : List (String × Json)} (hnd : (fs.map Prod.fst).Nodup)
    {k : String} {v : Json} (h : (k, v) ∈ fs) : fs.lookup k = some v := by
  induction fs with
  | nil => simp at h
  | cons kv fs ih =>
      obtain ⟨k', v'⟩ := kv
      simp only [List.map_cons, List.nodup_cons] at hnd
      rcases List.mem_cons.mp h with heq | hmem
      · obtain ⟨rfl, rfl⟩ := Prod.mk.inj heq
        rw [List.lookup_cons, beq_self_eq_true]
      · have hne : k ≠ k' := by
          rintro rfl
          exact hnd.1 (List.mem_map.mpr ⟨(k, v), hmem, rfl⟩)
        rw [List.lookup_cons, beq_false_of_ne hne]
        exact ih hnd.2 hmem

theorem mem_of_lookup {fs : List (String × Json)} {k : String} {v : Json}
    (h : fs.lookup k = some v) : (k, v) ∈ fs := by
  induction fs with
  | nil => simp at h
  | cons kv fs ih =>
      obtain ⟨k', v'⟩ := kv
      rw [List.lookup_cons] at h
      by_cases hk : k = k'
      · subst hk
        simp only [beq_self_eq_true, Option.some.injEq] at h
        simp [h]
      · rw [beq_false_of_ne hk] at h
        exact List.mem_cons_of_mem _ (ih h)

/-! ### Python's `==` -/

/-- The value of a number; Python's booleans are the numbers 0 and 1. -/
def number? : Json → Option Rat
  | .bool b => some (if b then 1 else 0)
  | .int n => some n
  | .float q => some q
  | _ => none

/-- `==` on two values of which neither is a list or an object. -/
def scalarEq : Json → Json → Bool
  | .null, .null => true
  | .str s, .str t => s == t
  | a, b =>
      match a.number?, b.number? with
      | some x, some y => x == y
      | _, _ => false

mutual

/-- Python's `a == b`. -/
def pyEq : Json → Json → Bool
  | .arr xs, b =>
      match b with
      | .arr ys => pyEqItems xs ys
      | _ => false
  | .obj fs, b =>
      match b with
      | .obj gs => fs.length == gs.length && pyEqFields fs gs
      | _ => false
  | a, b => scalarEq a b

def pyEqItems : List Json → List Json → Bool
  | [], [] => true
  | x :: xs, y :: ys => pyEq x y && pyEqItems xs ys
  | _, _ => false

/-- Every binding of the first object is in the second, with an equal value. -/
def pyEqFields : List (String × Json) → List (String × Json) → Bool
  | [], _ => true
  | (k, v) :: fs, gs =>
      (match gs.lookup k with
      | some w => pyEq v w
      | none => false) && pyEqFields fs gs

end

theorem pyEqFields_iff {fs gs : List (String × Json)} :
    pyEqFields fs gs = true ↔
      ∀ kv ∈ fs, ∃ w, gs.lookup kv.1 = some w ∧ pyEq kv.2 w = true := by
  induction fs with
  | nil => simp [pyEqFields]
  | cons kv fs ih =>
      obtain ⟨k, v⟩ := kv
      rw [pyEqFields, Bool.and_eq_true, ih, List.forall_mem_cons]
      refine and_congr ?_ Iff.rfl
      cases gs.lookup k with
      | none => simp
      | some w => simp

/-- What `==` compares of a scalar; a list or an object has nothing of the kind. -/
def scalarKey : Json → Option (Option (String ⊕ Rat))
  | .null => some none
  | .str s => some (some (.inl s))
  | .arr _ | .obj _ => none
  | a => a.number?.map fun x => some (.inr x)

theorem scalarEq_iff {a b : Json} :
    scalarEq a b = true ↔ a.scalarKey ≠ none ∧ a.scalarKey = b.scalarKey := by
  cases a <;> cases b <;> simp [scalarEq, number?, scalarKey]

private theorem pyEq_scalar {a : Json} (ha : a.scalarKey ≠ none) (b : Json) :
    pyEq a b = true ↔ a.scalarKey = b.scalarKey := by
  have hscalar : pyEq a b = scalarEq a b := by
    cases a with
    | arr xs => exact absurd rfl ha
    | obj fs => exact absurd rfl ha
    | _ => rfl
  rw [hscalar, scalarEq_iff, and_iff_right ha]

/-! ### Equality of arrays and objects -/

theorem pyEqItems_iff {xs ys : List Json} :
    pyEqItems xs ys = true ↔ List.Forall₂ (fun x y => pyEq x y = true) xs ys := by
  induction xs generalizing ys with
  | nil =>
      cases ys with
      | nil => simp [pyEqItems]
      | cons y ys => simp [pyEqItems]
  | cons x xs ih =>
      cases ys with
      | nil => simp [pyEqItems]
      | cons y ys => rw [pyEqItems, Bool.and_eq_true, ih, List.forall₂_cons]

theorem mem_keys_iff {fs : List (String × Json)} {k : String} :
    k ∈ fs.map Prod.fst ↔ (fs.lookup k).isSome = true := by
  rw [List.lookup_isSome_iff, List.mem_map]
  refine exists_congr fun kv => and_congr_right fun _ => ?_
  rw [beq_iff_eq, eq_comm]

theorem not_mem_keys_iff {fs : List (String × Json)} {k : String} :
    k ∉ fs.map Prod.fst ↔ fs.lookup k = none := by
  rw [mem_keys_iff, Bool.not_eq_true, Option.isSome_eq_false_iff, Option.isNone_iff_eq_none]

/-- **Objects are equal when each key finds equal values in both, or nothing in either.** -/
theorem pyEq_obj_iff {fs gs : List (String × Json)} (hfs : (fs.map Prod.fst).Nodup)
    (hgs : (gs.map Prod.fst).Nodup) :
    pyEq (.obj fs) (.obj gs) = true ↔
      ∀ k, Option.Rel (fun v w => pyEq v w = true) (fs.lookup k) (gs.lookup k) := by
  rw [pyEq, Bool.and_eq_true, beq_iff_eq, pyEqFields_iff]
  constructor
  · intro h k
    obtain ⟨hlen, hfields⟩ := h
    have hsub : fs.map Prod.fst ⊆ gs.map Prod.fst := by
      intro k hk
      obtain ⟨kv, hkv, rfl⟩ := List.mem_map.mp hk
      obtain ⟨w, hw, -⟩ := hfields kv hkv
      rw [mem_keys_iff, hw]
      rfl
    -- as many keys on both sides, so none is left for the second one alone
    have hperm : (fs.map Prod.fst).Perm (gs.map Prod.fst) :=
      (List.subperm_of_subset hfs hsub).perm_of_length_le (by simp [hlen])
    cases hv : fs.lookup k with
    | some v =>
        obtain ⟨w, hw, hvw⟩ := hfields (k, v) (mem_of_lookup hv)
        rw [hw]
        exact .some hvw
    | none =>
        have hk : gs.lookup k = none := by
          rw [← not_mem_keys_iff, ← hperm.mem_iff, not_mem_keys_iff]
          exact hv
        rw [hk]
        exact .none
  · intro h
    have hkeys : ∀ k, k ∈ fs.map Prod.fst ↔ k ∈ gs.map Prod.fst := by
      intro k
      rw [mem_keys_iff, mem_keys_iff]
      have hrel := h k
      generalize fs.lookup k = v, gs.lookup k = w at hrel ⊢
      cases hrel with
      | some => exact Iff.rfl
      | none => exact Iff.rfl
    have hlen := ((List.perm_ext_iff_of_nodup hfs hgs).mpr hkeys).length_eq
    refine ⟨by simpa using hlen, fun kv hkv => ?_⟩
    have hrel := h kv.1
    rw [lookup_of_mem hfs hkv] at hrel
    generalize gs.lookup kv.1 = found at hrel ⊢
    cases hrel with
    | some hvw => exact ⟨_, rfl, hvw⟩

/-- What follows for equal items follows for equal lists. -/
theorem forall₂_of_pyEqItems {R : Json → Json → Prop} {xs ys : List Json}
    (h : pyEqItems xs ys = true) (hR : ∀ x ∈ xs, ∀ y ∈ ys, pyEq x y = true → R x y) :
    List.Forall₂ R xs ys := by
  rw [pyEqItems_iff, List.forall₂_iff_get] at h
  rw [List.forall₂_iff_get]
  obtain ⟨hlen, hitems⟩ := h
  refine ⟨hlen, fun i hx hy => ?_⟩
  exact hR _ (List.get_mem xs ⟨i, hx⟩) _ (List.get_mem ys ⟨i, hy⟩) (hitems i hx hy)

/-- And what follows for equal values follows for what a key finds in equal objects. -/
theorem rel_of_pyEq_obj {R : Json → Json → Prop} {fs gs : List (String × Json)}
    (hfs : (fs.map Prod.fst).Nodup) (hgs : (gs.map Prod.fst).Nodup)
    (h : pyEq (.obj fs) (.obj gs) = true)
    (hR : ∀ kv ∈ fs, ∀ kw ∈ gs, pyEq kv.2 kw.2 = true → R kv.2 kw.2) (k : String) :
    Option.Rel R (fs.lookup k) (gs.lookup k) := by
  have hrel := (pyEq_obj_iff hfs hgs).mp h k
  cases hv : fs.lookup k with
  | none =>
      rw [hv] at hrel
      generalize gs.lookup k = w at hrel ⊢
      cases hrel with
      | none => exact .none
  | some v =>
      cases hw : gs.lookup k with
      | none => simp [hv, hw] at hrel
      | some w =>
          rw [hv, hw, Option.rel_some_some] at hrel
          exact .some (hR (k, v) (mem_of_lookup hv) (k, w) (mem_of_lookup hw) hrel)

/-! ### `==` is an equivalence -/

private theorem pyEq_refl_scalar {a : Json} (h : a.scalarKey ≠ none) (_ : a.distinctKeys = true) :
    pyEq a a = true :=
  (pyEq_scalar h a).mpr rfl

/-- `==` is reflexive on values whose objects bind each key once. -/
theorem pyEq_refl : ∀ j : Json, j.distinctKeys = true → pyEq j j = true := by
  refine induct (pyEq_refl_scalar (by simp [scalarKey]))
    (fun _ => pyEq_refl_scalar (by simp [scalarKey, number?]))
    (fun _ => pyEq_refl_scalar (by simp [scalarKey, number?]))
    (fun _ => pyEq_refl_scalar (by simp [scalarKey, number?]))
    (fun _ => pyEq_refl_scalar (by simp [scalarKey])) ?_ ?_
  · intro xs ih hd
    rw [distinctKeys_arr] at hd
    rw [pyEq, pyEqItems_iff, List.forall₂_same]
    exact fun x hx => ih x hx (hd x hx)
  · intro fs ih hd
    rw [distinctKeys_obj] at hd
    rw [pyEq, Bool.and_eq_true, pyEqFields_iff]
    exact ⟨by simp, fun kv hkv => ⟨kv.2, lookup_of_mem hd.1 hkv, ih kv hkv (hd.2 kv hkv)⟩⟩

private theorem pyEq_symm_scalar {a : Json} (ha : a.scalarKey ≠ none) (b : Json)
    (_ : a.distinctKeys = true) (_ : b.distinctKeys = true) (h : pyEq a b = true) :
    pyEq b a = true := by
  rw [pyEq_scalar ha] at h
  rw [pyEq_scalar (h ▸ ha), h]

/-- `==` is symmetric on such values. -/
theorem pyEq_symm : ∀ a b : Json, a.distinctKeys = true → b.distinctKeys = true →
    pyEq a b = true → pyEq b a = true := by
  refine induct (pyEq_symm_scalar (by simp [scalarKey]))
    (fun _ => pyEq_symm_scalar (by simp [scalarKey, number?]))
    (fun _ => pyEq_symm_scalar (by simp [scalarKey, number?]))
    (fun _ => pyEq_symm_scalar (by simp [scalarKey, number?]))
    (fun _ => pyEq_symm_scalar (by simp [scalarKey])) ?_ ?_
  · intro xs ih b ha hb h
    cases b with
    | arr ys =>
        rw [distinctKeys_arr] at ha hb
        rw [pyEq, pyEqItems_iff]
        refine List.Forall₂.flip (forall₂_of_pyEqItems h fun x hx y hy hxy => ?_)
        exact ih x hx y (ha x hx) (hb y hy) hxy
    | _ => simp [pyEq] at h
  · intro fs ih b ha hb h
    cases b with
    | obj gs =>
        rw [distinctKeys_obj] at ha hb
        rw [pyEq_obj_iff hb.1 ha.1]
        intro k
        have hrel := rel_of_pyEq_obj (R := fun v w => pyEq w v = true) ha.1 hb.1 h
          (fun kv hkv kw hkw hvw => ih kv hkv kw.2 (ha.2 kv hkv) (hb.2 kw hkw) hvw) k
        generalize fs.lookup k = v, gs.lookup k = w at hrel ⊢
        cases hrel with
        | some hwv => exact .some hwv
        | none => exact .none
    | _ => simp [pyEq] at h

private theorem pyEq_trans_scalar {a : Json} (ha : a.scalarKey ≠ none) (b c : Json)
    (hab : pyEq a b = true) (hbc : pyEq b c = true) : pyEq a c = true := by
  rw [pyEq_scalar ha] at hab ⊢
  rw [pyEq_scalar (hab ▸ ha)] at hbc
  exact hab.trans hbc

private theorem pyEqItems_trans {xs ys zs : List Json} (hxy : pyEqItems xs ys = true)
    (hyz : pyEqItems ys zs = true)
    (ih : ∀ x ∈ xs, ∀ y z, pyEq x y = true → pyEq y z = true → pyEq x z = true) :
    pyEqItems xs zs = true := by
  rw [pyEqItems_iff, List.forall₂_iff_get] at hxy hyz ⊢
  obtain ⟨hlen, hxy⟩ := hxy
  obtain ⟨hlen', hyz⟩ := hyz
  refine ⟨hlen.trans hlen', fun i hx hz => ?_⟩
  exact ih _ (List.get_mem xs ⟨i, hx⟩) _ _ (hxy i hx (hlen ▸ hx)) (hyz i (hlen ▸ hx) hz)

/-- `==` is transitive. -/
theorem pyEq_trans : ∀ a b c : Json, pyEq a b = true → pyEq b c = true → pyEq a c = true := by
  refine induct (pyEq_trans_scalar (by simp [scalarKey]))
    (fun _ => pyEq_trans_scalar (by simp [scalarKey, number?]))
    (fun _ => pyEq_trans_scalar (by simp [scalarKey, number?]))
    (fun _ => pyEq_trans_scalar (by simp [scalarKey, number?]))
    (fun _ => pyEq_trans_scalar (by simp [scalarKey])) ?_ ?_
  · intro xs ih b c hab hbc
    cases b with
    | arr ys =>
        cases c with
        | arr zs => exact pyEqItems_trans hab hbc ih
        | _ => simp [pyEq] at hbc
    | _ => simp [pyEq] at hab
  · intro fs ih b c hab hbc
    cases b with
    | obj gs =>
        cases c with
        | obj hs =>
            rw [pyEq, Bool.and_eq_true, beq_iff_eq, pyEqFields_iff] at hab hbc ⊢
            refine ⟨hab.1.trans hbc.1, fun kv hkv => ?_⟩
            obtain ⟨w, hw, hvw⟩ := hab.2 kv hkv
            obtain ⟨u, hu, hwu⟩ := hbc.2 (kv.1, w) (mem_of_lookup hw)
            exact ⟨u, hu, ih kv hkv w u hvw hwu⟩
        | _ => simp [pyEq] at hbc
    | _ => simp [pyEq] at hab

/-! ### The same JSON value -/

/-- Two values of which neither is a list or an object, each with its kind. -/
def scalarSame : Json → Json → Bool
  | .null, .null => true
  | .bool a, .bool b => a == b
  | .int m, .int n => m == n
  | .float p, .float q => p == q
  | .str s, .str t => s == t
  | _, _ => false

mutual

/-- The two are one JSON value: equal but for the order of keys. -/
def same : Json → Json → Bool
  | .arr xs, b =>
      match b with
      | .arr ys => sameItems xs ys
      | _ => false
  | .obj fs, b =>
      match b with
      | .obj gs => fs.length == gs.length && sameFields fs gs
      | _ => false
  | a, b => scalarSame a b

def sameItems : List Json → List Json → Bool
  | [], [] => true
  | x :: xs, y :: ys => same x y && sameItems xs ys
  | _, _ => false

def sameFields : List (String × Json) → List (String × Json) → Bool
  | [], _ => true
  | (k, v) :: fs, gs =>
      (match gs.lookup k with
      | some w => same v w
      | none => false) && sameFields fs gs

end

private theorem sameItems_refl {xs : List Json} (h : ∀ x ∈ xs, same x x = true) :
    sameItems xs xs = true := by
  induction xs with
  | nil => rfl
  | cons x xs ih =>
      rw [sameItems, h x (by simp), ih fun y hy => h y (by simp [hy])]
      rfl

private theorem sameFields_refl {gs : List (String × Json)} (hgs : (gs.map Prod.fst).Nodup)
    {fs : List (String × Json)} (hsub : ∀ kv ∈ fs, kv ∈ gs)
    (h : ∀ kv ∈ fs, same kv.2 kv.2 = true) : sameFields fs gs = true := by
  induction fs with
  | nil => rfl
  | cons kv fs ih =>
      obtain ⟨k, v⟩ := kv
      have hv : same v v = true := h (k, v) (by simp)
      rw [sameFields, lookup_of_mem hgs (hsub (k, v) (by simp)),
        ih (fun kv hkv => hsub kv (by simp [hkv])) fun kv hkv => h kv (by simp [hkv])]
      simp [hv]

/-- Every value is one with itself. -/
theorem same_refl : ∀ j : Json, j.distinctKeys = true → same j j = true := by
  refine induct (fun _ => rfl) (fun _ _ => by simp [same, scalarSame])
    (fun _ _ => by simp [same, scalarSame]) (fun _ _ => by simp [same, scalarSame])
    (fun _ _ => by simp [same, scalarSame]) ?_ ?_
  · intro xs ih hd
    rw [distinctKeys_arr] at hd
    rw [same]
    exact sameItems_refl fun x hx => ih x hx (hd x hx)
  · intro fs ih hd
    rw [distinctKeys_obj] at hd
    rw [same, beq_self_eq_true, Bool.true_and]
    exact sameFields_refl hd.1 (fun _ hkv => hkv) fun kv hkv => ih kv hkv (hd.2 kv hkv)

/-! ### Objects -/

/-- A Python dict with string keys: a JSON object that binds each key once, as do the
objects inside it. -/
structure Object where
  fields : List (String × Json)
  distinct : (Json.obj fields).distinctKeys = true

/-- `d.get(key)`: Python's `None`, which is JSON's null, when the key is not bound. -/
def Object.get (d : Object) (key : String) : Json := (d.fields.lookup key).getD .null

/-- `a == b` of two dicts. -/
def Object.pyEq (a b : Object) : Bool := Json.pyEq (.obj a.fields) (.obj b.fields)

theorem Object.pyEq_refl (a : Object) : a.pyEq a = true := Json.pyEq_refl _ a.distinct

theorem Object.pyEq_symm (a b : Object) (h : a.pyEq b = true) : b.pyEq a = true :=
  Json.pyEq_symm _ _ a.distinct b.distinct h

/-- The two dicts are one JSON object. -/
def Object.same (a b : Object) : Bool := Json.same (.obj a.fields) (.obj b.fields)

theorem Object.same_refl (a : Object) : a.same a = true := Json.same_refl _ a.distinct

/-- Equal dicts hold equal values under each key. -/
theorem Object.pyEq_get {a b : Object} (h : a.pyEq b = true) (key : String) :
    (a.get key).pyEq (b.get key) = true := by
  have hrel := (pyEq_obj_iff (distinctKeys_obj.mp a.distinct).1
    (distinctKeys_obj.mp b.distinct).1).mp h key
  unfold Object.get
  generalize a.fields.lookup key = v, b.fields.lookup key = w at hrel ⊢
  cases hrel with
  | some hvw => exact hvw
  | none => rfl

/-- Only a text equals a text. -/
theorem pyEq_str_iff {s : String} {j : Json} : pyEq j (.str s) = true ↔ j = .str s := by
  cases j <;> simp [pyEq, scalarEq, number?]

/-- Equal dicts hold the same texts. -/
theorem Object.get_eq_str_iff {a b : Object} (h : a.pyEq b = true) {key s : String} :
    a.get key = .str s ↔ b.get key = .str s := by
  have hright : ∀ {a b : Object}, a.pyEq b = true → b.get key = .str s → a.get key = .str s := by
    intro a b h hb
    have hpyEq : (a.get key).pyEq (b.get key) = true := Object.pyEq_get h key
    rw [hb] at hpyEq
    exact pyEq_str_iff.mp hpyEq
  exact ⟨hright (Object.pyEq_symm a b h), hright h⟩

theorem Object.distinctKeys_get (d : Object) (key : String) :
    (d.get key).distinctKeys = true := by
  unfold Object.get
  cases h : d.fields.lookup key with
  | none => rfl
  | some v => exact (distinctKeys_obj.mp d.distinct).2 (key, v) (mem_of_lookup h)

end Json
