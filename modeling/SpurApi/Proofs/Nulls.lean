/-
Dropping nulls decides equality up to null-valued keys.

`withoutNulls` is a normal form.  It respects every rule of `Json.UpToNulls`, so related
values have equal normal forms; and every value is related to its own normal form, so
values with equal normal forms are related.  The first direction is an induction over
the rules, the second one over the value.

What a key finds in an object without its nulls is what it found before, unless that was
null: `lookup_withoutNullsFields` says so, and every fact about objects goes through it.
-/
import SpurApi.Lib.UpToNulls
import SpurApi.Proofs.Inputs

namespace SpurApi

open Json (UpToNulls)

/-! ### What dropping nulls leaves -/

theorem withoutNullsItems_eq_map (xs : List Json) : withoutNullsItems xs = xs.map withoutNulls := by
  induction xs with
  | nil => rfl
  | cons x xs ih => rw [withoutNullsItems, ih, List.map_cons]

/-- What becomes of a key's value: null goes with its key. -/
def keptValue : Json → Option Json
  | .null => none
  | value => some (withoutNulls value)

theorem withoutNullsFields_cons (k : String) (v : Json) (fs : List (String × Json)) :
    withoutNullsFields ((k, v) :: fs) =
      ((keptValue v).map fun w => (k, w)).toList ++ withoutNullsFields fs := by
  cases v <;> rfl

theorem withoutNullsFields_append (fs gs : List (String × Json)) :
    withoutNullsFields (fs ++ gs) = withoutNullsFields fs ++ withoutNullsFields gs := by
  induction fs with
  | nil => rfl
  | cons kv fs ih =>
      obtain ⟨k, v⟩ := kv
      rw [List.cons_append, withoutNullsFields_cons, withoutNullsFields_cons, ih,
        List.append_assoc]

/-- **What a key finds afterwards is what became of the value it found before.** -/
theorem lookup_withoutNullsFields {fs : List (String × Json)} (hfs : (fs.map Prod.fst).Nodup)
    (k : String) : (withoutNullsFields fs).lookup k = (fs.lookup k).bind keptValue := by
  induction fs with
  | nil => rfl
  | cons kv fs ih =>
      obtain ⟨k', v⟩ := kv
      rw [List.map_cons, List.nodup_cons] at hfs
      rw [withoutNullsFields_cons, List.lookup_append, ih hfs.2, List.lookup_cons]
      by_cases hk : k = k'
      · subst hk
        -- the key is bound once, so behind its binding it finds nothing
        rw [Json.not_mem_keys_iff.mp hfs.1, beq_self_eq_true]
        cases hv : keptValue v <;> simp [hv]
      · rw [beq_false_of_ne hk]
        cases hv : keptValue v <;> simp [List.lookup_cons, beq_false_of_ne hk]

/-- Values are kept alike when their normal forms are equal. -/
theorem keptValue_rel_iff {v w : Json} :
    Option.Rel (fun v w => Json.pyEq v w = true) (keptValue v) (keptValue w) ↔
      Json.pyEq (withoutNulls v) (withoutNulls w) = true := by
  cases v with
  | null => cases w <;> simp [keptValue, withoutNulls, Json.pyEq, Json.scalarEq, Json.number?]
  | _ =>
      cases w with
      | null => simp [keptValue, withoutNulls, Json.pyEq, Json.scalarEq, Json.number?]
      | _ => exact Option.rel_some_some

/-! ### Normal forms of arrays and objects -/

theorem pyEq_withoutNulls_arr {xs ys : List Json} :
    Json.pyEq (withoutNulls (.arr xs)) (withoutNulls (.arr ys)) = true ↔
      List.Forall₂ (fun x y => Json.pyEq (withoutNulls x) (withoutNulls y) = true) xs ys := by
  rw [withoutNulls, withoutNulls, Json.pyEq, Json.pyEqItems_iff, withoutNullsItems_eq_map,
    withoutNullsItems_eq_map, List.forall₂_map_left_iff, List.forall₂_map_right_iff]

theorem pyEq_withoutNulls_obj {fs gs : List (String × Json)} (hfs : (fs.map Prod.fst).Nodup)
    (hgs : (gs.map Prod.fst).Nodup) :
    Json.pyEq (withoutNulls (.obj fs)) (withoutNulls (.obj gs)) = true ↔
      ∀ k, Option.Rel (fun v w => Json.pyEq v w = true) ((fs.lookup k).bind keptValue)
        ((gs.lookup k).bind keptValue) := by
  rw [withoutNulls, withoutNulls, Json.pyEq_obj_iff (hfs.sublist (withoutNullsFields_keys fs))
    (hgs.sublist (withoutNullsFields_keys gs))]
  refine forall_congr' fun k => ?_
  rw [lookup_withoutNullsFields hfs, lookup_withoutNullsFields hgs]

/-! ### Related values have equal normal forms -/

theorem pyEq_withoutNulls_refl {a : Json} (h : a.distinctKeys = true) :
    Json.pyEq (withoutNulls a) (withoutNulls a) = true :=
  Json.pyEq_refl _ (withoutNulls_distinctKeys a h)

/-- Equal values have equal normal forms. -/
theorem pyEq_withoutNulls : ∀ a b : Json, a.distinctKeys = true → b.distinctKeys = true →
    Json.pyEq a b = true → Json.pyEq (withoutNulls a) (withoutNulls b) = true := by
  -- a scalar equals scalars only, and those stay as they are
  refine Json.induct (fun b _ _ h => by cases b <;> exact h)
    (fun _ b _ _ h => by cases b <;> exact h) (fun _ b _ _ h => by cases b <;> exact h)
    (fun _ b _ _ h => by cases b <;> exact h) (fun _ b _ _ h => by cases b <;> exact h) ?_ ?_
  · intro xs ih b ha hb h
    cases b with
    | arr ys =>
        rw [Json.distinctKeys_arr] at ha hb
        rw [pyEq_withoutNulls_arr]
        exact Json.forall₂_of_pyEqItems h fun x hx y hy hxy => ih x hx y (ha x hx) (hb y hy) hxy
    | _ => simp [Json.pyEq] at h
  · intro fs ih b ha hb h
    cases b with
    | obj gs =>
        rw [Json.distinctKeys_obj] at ha hb
        rw [pyEq_withoutNulls_obj ha.1 hb.1]
        intro k
        have hrel := Json.rel_of_pyEq_obj
          (R := fun v w => Json.pyEq (withoutNulls v) (withoutNulls w) = true) ha.1 hb.1 h
          (fun kv hkv kw hkw hvw => ih kv hkv kw.2 (ha.2 kv hkv) (hb.2 kw hkw) hvw) k
        generalize fs.lookup k = v, gs.lookup k = w at hrel ⊢
        cases hrel with
        | some hvw => exact keptValue_rel_iff.mpr hvw
        | none => exact .none
    | _ => simp [Json.pyEq] at h

/-- What a key finds is kept as it is kept. -/
private theorem kept_refl {fs : List (String × Json)} (h : ∀ kv ∈ fs, kv.2.distinctKeys = true)
    (k : String) : Option.Rel (fun v w => Json.pyEq v w = true) ((fs.lookup k).bind keptValue)
      ((fs.lookup k).bind keptValue) := by
  cases hv : fs.lookup k with
  | none => exact .none
  | some v =>
      exact keptValue_rel_iff.mpr (pyEq_withoutNulls_refl (h _ (Json.mem_of_lookup hv)))

/-- **The normal form respects every rule.** -/
theorem pyEq_of_upToNulls {a b : Json} (h : UpToNulls a b) :
    a.distinctKeys = true → b.distinctKeys = true →
      Json.pyEq (withoutNulls a) (withoutNulls b) = true := by
  induction h with
  | equal h =>
      intro ha hb
      exact pyEq_withoutNulls _ _ ha hb h
  | @nullKey fs gs k _ =>
      intro ha _
      have hsame : withoutNulls (.obj (fs ++ (k, .null) :: gs)) =
          withoutNulls (.obj (fs ++ gs)) := by
        simp only [withoutNulls, withoutNullsFields_append, withoutNullsFields]
      rw [hsame]
      exact pyEq_withoutNulls_refl ha
  | @item xs ys x y _ ih =>
      intro ha hb
      simp only [Json.distinctKeys_arr, List.forall_mem_append, List.forall_mem_cons] at ha hb
      have hsame : ∀ {zs : List Json}, (∀ z ∈ zs, z.distinctKeys = true) →
          List.Forall₂ (fun x y => Json.pyEq (withoutNulls x) (withoutNulls y) = true) zs zs :=
        fun h => List.forall₂_same.mpr fun z hz => pyEq_withoutNulls_refl (h z hz)
      rw [pyEq_withoutNulls_arr]
      exact List.rel_append (hsame ha.1) (.cons (ih ha.2.1 hb.2.1) (hsame ha.2.2))
  | @value fs gs k v w _ ih =>
      intro ha hb
      rw [Json.distinctKeys_obj] at ha hb
      rw [pyEq_withoutNulls_obj ha.1 hb.1]
      simp only [List.forall_mem_append, List.forall_mem_cons] at ha hb
      intro k'
      rw [List.lookup_append, List.lookup_append]
      cases hk : fs.lookup k' with
      | some u =>
          have hu := ha.2.1 _ (Json.mem_of_lookup hk)
          exact keptValue_rel_iff.mpr (pyEq_withoutNulls_refl hu)
      | none =>
          rw [Option.none_or, Option.none_or, List.lookup_cons, List.lookup_cons]
          cases k' == k with
          | true => exact keptValue_rel_iff.mpr (ih ha.2.2.1 hb.2.2.1)
          | false => exact kept_refl ha.2.2.2 k'
  | symm _ ih =>
      intro ha hb
      exact Json.pyEq_symm _ _ (withoutNulls_distinctKeys _ hb) (withoutNulls_distinctKeys _ ha)
        (ih hb ha)
  | trans hmiddle _ _ ih ih' =>
      intro ha hb
      exact Json.pyEq_trans _ _ _ (ih ha hmiddle) (ih' hmiddle hb)

/-! ### Every value is related to its normal form -/

private theorem upToNulls_fields {fs : List (String × Json)}
    (h : ∀ kv ∈ fs, UpToNulls kv.2 (withoutNulls kv.2)) :
    ∀ before : List (String × Json), (Json.obj (before ++ fs)).distinctKeys = true →
      UpToNulls (.obj (before ++ fs)) (.obj (before ++ withoutNullsFields fs)) := by
  induction fs with
  | nil =>
      intro before hdistinct
      exact UpToNulls.refl hdistinct
  | cons kv fs ih =>
      obtain ⟨k, v⟩ := kv
      intro before hdistinct
      have hparts := Json.distinctKeys_obj.mp hdistinct
      simp only [List.map_append, List.map_cons, List.forall_mem_append,
        List.forall_mem_cons] at hparts
      obtain ⟨hkeys, hbefore, hv, hfs⟩ := hparts
      have hrest := fun before => ih (fun kv hkv => h kv (by simp [hkv])) before
      by_cases hnull : v = .null
      · -- the key is taken out
        subst hnull
        rw [List.nodup_middle, List.nodup_cons, ← List.map_append] at hkeys
        have hwithout : (Json.obj (before ++ fs)).distinctKeys = true := by
          rw [Json.distinctKeys_obj, List.forall_mem_append]
          exact ⟨hkeys.2, hbefore, hfs⟩
        exact .trans hwithout (UpToNulls.nullKey hkeys.1).symm (hrest before hwithout)
      · -- its value is replaced by the normal form
        have hkept : withoutNullsFields ((k, v) :: fs) =
            (k, withoutNulls v) :: withoutNullsFields fs := by
          rw [withoutNullsFields]
          exact hnull
        have hreplaced : (Json.obj (before ++ (k, withoutNulls v) :: fs)).distinctKeys = true := by
          rw [Json.distinctKeys_obj, List.forall_mem_append, List.forall_mem_cons, List.map_append,
            List.map_cons]
          exact ⟨hkeys, hbefore, withoutNulls_distinctKeys v hv, hfs⟩
        have hnext := hrest (before ++ [(k, withoutNulls v)]) (by simpa using hreplaced)
        rw [List.append_assoc, List.append_assoc] at hnext
        rw [hkept]
        exact .trans hreplaced (.value (h (k, v) (by simp))) hnext

/-- **A value differs from its normal form in null-valued keys only.** -/
theorem upToNulls_withoutNulls :
    ∀ a : Json, a.distinctKeys = true → UpToNulls a (withoutNulls a) := by
  refine Json.induct UpToNulls.refl (fun _ => UpToNulls.refl) (fun _ => UpToNulls.refl)
    (fun _ => UpToNulls.refl) (fun _ => UpToNulls.refl) ?_ ?_
  · intro xs ih ha
    have hitems := Json.distinctKeys_arr.mp ha
    rw [withoutNulls, withoutNullsItems_eq_map]
    refine UpToNulls.items ?_ ?_ [] hitems
    · intro y hy
      obtain ⟨x, hx, rfl⟩ := List.mem_map.mp hy
      exact withoutNulls_distinctKeys x (hitems x hx)
    · rw [List.forall₂_map_right_iff, List.forall₂_same]
      exact fun x hx => ih x hx (hitems x hx)
  · intro fs ih ha
    have hvalues := (Json.distinctKeys_obj.mp ha).2
    exact upToNulls_fields (fun kv hkv => ih kv hkv (hvalues kv hkv)) [] ha

/-- **Normal forms are equal exactly for related values.** -/
theorem pyEq_withoutNulls_iff {a b : Json} (ha : a.distinctKeys = true)
    (hb : b.distinctKeys = true) :
    Json.pyEq (withoutNulls a) (withoutNulls b) = true ↔ UpToNulls a b := by
  constructor
  · intro h
    have hleft := upToNulls_withoutNulls a ha
    have hright := (upToNulls_withoutNulls b hb).symm
    exact .trans (withoutNulls_distinctKeys a ha) hleft
      (.trans (withoutNulls_distinctKeys b hb) (.equal h) hright)
  · intro h
    exact pyEq_of_upToNulls h ha hb

private theorem keptValue_idem {v w : Json} (h : withoutNulls (withoutNulls v) = withoutNulls v)
    (hv : keptValue v = some w) : keptValue w = some w := by
  cases v with
  | null => simp [keptValue] at hv
  | _ =>
      cases hv
      exact congrArg some h

private theorem withoutNullsFields_idem {fs : List (String × Json)}
    (h : ∀ kv ∈ fs, withoutNulls (withoutNulls kv.2) = withoutNulls kv.2) :
    withoutNullsFields (withoutNullsFields fs) = withoutNullsFields fs := by
  induction fs with
  | nil => rfl
  | cons kv fs ih =>
      obtain ⟨k, v⟩ := kv
      have hrest := ih fun kv hkv => h kv (by simp [hkv])
      rw [withoutNullsFields_cons]
      cases hv : keptValue v with
      | none => exact hrest
      | some w =>
          show withoutNullsFields ((k, w) :: withoutNullsFields fs) =
            (k, w) :: withoutNullsFields fs
          rw [withoutNullsFields_cons, hrest, keptValue_idem (h (k, v) (by simp)) hv]
          rfl

/-- Dropping nulls a second time drops nothing. -/
theorem withoutNulls_idem : ∀ a : Json, withoutNulls (withoutNulls a) = withoutNulls a := by
  refine Json.induct rfl (fun _ => rfl) (fun _ => rfl) (fun _ => rfl) (fun _ => rfl) ?_ ?_
  · intro xs ih
    simp only [withoutNulls, withoutNullsItems_eq_map, List.map_map, Json.arr.injEq]
    exact List.map_congr_left fun x hx => ih x hx
  · intro fs ih
    rw [withoutNulls, withoutNulls, withoutNullsFields_idem ih]

/-! ### The inputs of a simulation -/

/-- Equal specs give a simulation the same inputs. -/
theorem sameInputs_of_pyEq {a b : Json.Object} (h : a.pyEq b = true) : SameInputs a b :=
  fun s _ => pyEq_withoutNulls _ _ (a.distinctKeys_get s) (b.distinctKeys_get s)
    (Json.Object.pyEq_get h s)

theorem inputsDiffer_eq_false_iff_upToNulls {old new : Json.Object} :
    inputsDiffer old new = false ↔ ∀ s ∈ simulationInputs, UpToNulls (old.get s) (new.get s) := by
  rw [inputsDiffer_eq_false_iff]
  refine forall₂_congr fun s _ => ?_
  exact pyEq_withoutNulls_iff (old.distinctKeys_get s) (new.distinctKeys_get s)

/-- A key that is not bound reads as null, which is how it is kept. -/
theorem keptValue_getD (found : Option Json) :
    keptValue (found.getD .null) = found.bind keptValue := by
  cases found <;> rfl

/-- What is related as a whole is related section by section. -/
theorem upToNulls_get {old new : Json.Object}
    (h : UpToNulls (.obj old.fields) (.obj new.fields)) (s : String) :
    UpToNulls (old.get s) (new.get s) := by
  have hnormal := pyEq_of_upToNulls h old.distinct new.distinct
  rw [pyEq_withoutNulls_obj (Json.distinctKeys_obj.mp old.distinct).1
    (Json.distinctKeys_obj.mp new.distinct).1] at hnormal
  have hkept := hnormal s
  rw [← keptValue_getD, ← keptValue_getD, keptValue_rel_iff] at hkept
  exact (pyEq_withoutNulls_iff (old.distinctKeys_get s) (new.distinctKeys_get s)).mp hkept

/-- What `_without_nulls` decides, and `_inputs_differ` and a save with it. -/
structure DecidesUpToNulls : Prop where
  normal : ∀ a b : Json, a.distinctKeys = true → b.distinctKeys = true →
    ((withoutNulls a).pyEq (withoutNulls b) = true ↔ UpToNulls a b)
  /-- the items of an array are compared one by one, each in its place -/
  items : ∀ xs ys : List Json,
    (withoutNulls (.arr xs)).pyEq (withoutNulls (.arr ys)) = true ↔
      xs.length = ys.length ∧ ∀ i (hx : i < xs.length) (hy : i < ys.length),
        (withoutNulls xs[i]).pyEq (withoutNulls ys[i]) = true
  idempotent : ∀ a : Json, withoutNulls (withoutNulls a) = withoutNulls a
  inputs : ∀ old new : Json.Object,
    inputsDiffer old new = false ↔ ∀ s ∈ simulationInputs, UpToNulls (old.get s) (new.get s)
  /-- a spec that comes back with keys written as null, or left out, changes nothing -/
  savedBack : ∀ (row : ProjectRow) (body : ProjectSpec),
    UpToNulls (.obj row.spec.fields) (.obj body.dump.fields) →
      (replaceSpec row body).inputsVersion = row.inputsVersion
  /-- any other change of a section does -/
  changed : ∀ (row : ProjectRow) (body : ProjectSpec), ∀ s ∈ simulationInputs,
    ¬ UpToNulls (row.spec.get s) (body.dump.get s) →
      (replaceSpec row body).inputsVersion = (replaceSpec row body).version

/-- **`_without_nulls` decides equality up to null-valued keys.** -/
theorem withoutNulls_decides_upToNulls : DecidesUpToNulls where
  normal _ _ ha hb := pyEq_withoutNulls_iff ha hb
  items xs ys := by
    rw [pyEq_withoutNulls_arr, List.forall₂_iff_get]
    rfl
  idempotent := withoutNulls_idem
  inputs _ _ := inputsDiffer_eq_false_iff_upToNulls
  savedBack row body h := by
    have hsame : inputsDiffer row.spec body.dump = false :=
      inputsDiffer_eq_false_iff_upToNulls.mpr fun s _ => upToNulls_get h s
    simp [replaceSpec, hsame]
  changed row body s hs h := by
    have hdiffer : inputsDiffer row.spec body.dump = true := by
      rw [← Bool.not_eq_false, inputsDiffer_eq_false_iff_upToNulls]
      exact fun hall => h (hall s hs)
    simp [replaceSpec, hdiffer]

/-- Nulls in a list stay, and so does an object that loses all its keys. -/
example : withoutNulls (.obj [("a", .arr [.null, .obj [("b", .null)]]), ("c", .null)]) =
    .obj [("a", .arr [.null, .obj []])] := by rfl

end SpurApi
