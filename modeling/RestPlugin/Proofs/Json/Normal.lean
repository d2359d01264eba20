import RestPlugin.Proofs.Json.Canonical

/-!
# What a canonical text tells about encoded records

Two values have one canonical text exactly if they have one normal form: sorted keys, and the texts
of the scalars in the place of the scalars.  An encoder is faithful if the normal form of what it
writes determines what was written; records with fixed keys, optional parts, lists and maps with
ascending keys are encoded faithfully if their parts are.
-/

namespace RestPlugin

namespace Keyed

variable {α β : Type}

theorem mapValues_sorted (f : α → β) (entries : List (String × α)) :
    mapValues f (sorted entries) = sorted (mapValues f entries) := by
  apply ((ascending_sorted entries).mapValues f).ext (ascending_sorted _)
  intro key
  have reversed : (mapValues f entries).reverse = mapValues f entries.reverse :=
    List.map_reverse.symm
  rw [get?_mapValues, get?_sorted, get?_sorted, reversed, get?_mapValues]

/-- Two lists of entries with the same keys are told apart by what the keys lead to. -/
theorem Distinct.eq_of_get?_eq {first second : List (String × α)} (distinct : Distinct first)
    (keys : first.map (·.1) = second.map (·.1)) (same : ∀ key, get? key first = get? key second) :
    first = second := by
  induction first generalizing second with
  | nil =>
      have empty : second = [] := List.map_eq_nil_iff.mp keys.symm
      rw [empty]
  | cons entry first ih =>
      cases second with
      | nil => cases keys
      | cons other second =>
          rw [List.map_cons, List.map_cons, List.cons.injEq] at keys
          obtain ⟨headFresh, distinct⟩ := List.nodup_cons.mp distinct
          have headEq := same entry.1
          rw [get?_cons, get?_cons, if_pos rfl, if_pos keys.1.symm, Option.some.injEq] at headEq
          have tailEq : first = second := by
            apply ih distinct keys.2
            intro key
            by_cases isHead : entry.1 = key
            · have absent : get? key first = none := by
                rw [← Option.not_isSome_iff_eq_none, get?_isSome_iff, ← isHead]
                exact headFresh
              have absent' : get? key second = none := by
                rw [← Option.not_isSome_iff_eq_none, get?_isSome_iff, ← keys.2, ← isHead]
                exact headFresh
              rw [absent, absent']
            · have sameKey := same key
              rwa [get?_cons, get?_cons, if_neg isHead, if_neg (keys.1 ▸ isHead)] at sameKey
          rw [tailEq, Prod.ext keys.1 headEq]

end Keyed

namespace Json

/-! ## Normal forms -/

/-- The value with sorted keys and the texts of its scalars. -/
def normal (value : Json) : Json := value.sortKeys.spelled

/-- Values have the same canonical text exactly if they have the same normal form. -/
theorem canonical_eq_iff_normal_eq {first second : Json} :
    first.canonical = second.canonical ↔ first.normal = second.normal := pretty_eq_iff

@[simp]
theorem normal_sortKeys (value : Json) : value.sortKeys.normal = value.normal := by
  rw [normal, sortKeys_sortKeys, normal]

@[simp]
theorem normal_arr (items : List Json) : (arr items).normal = arr (items.map normal) := by
  rw [normal, sortKeys_arr, spelled_arr, List.map_map]
  rfl

/-- The normal form of an object has its keys sorted and its values normal. -/
theorem normal_obj (fields : List (String × Json)) :
    (obj fields).normal = obj (Keyed.sorted (Keyed.mapValues normal fields)) := by
  rw [normal, sortKeys_obj, spelled_obj, Keyed.mapValues_sorted, Keyed.mapValues, Keyed.mapValues,
    List.map_map]
  rfl

theorem IsScalar.normal_eq {value : Json} (scalar : value.IsScalar) :
    value.normal = str value.scalarText := by
  cases value <;> first | rfl | exact scalar.elim

/-! ## Faithful encoders -/

/-- Whether the normal form of what an encoder writes determines what was written. -/
def Faithful {α : Type} (encode : α → Json) : Prop :=
  Function.Injective fun value => (encode value).normal

variable {α : Type} {encode : α → Json}

theorem faithful_str : Faithful str := by
  intro first second same
  have quoted : quote first = quote second := str.inj same
  have appended : (quote first).toList ++ [] = (quote second).toList ++ [] := by rw [quoted]
  exact (quote_append_inj appended).1

theorem faithful_bool : Faithful bool := by
  intro first second same
  have texts : (bool first).scalarText = (bool second).scalarText := str.inj same
  revert texts
  cases first <;> cases second <;> decide

/-- Distinct spellings are encoded faithfully. -/
theorem faithful_spelling {text : α → String} (apart : Function.Injective text) :
    Faithful fun value => str (text value) :=
  faithful_str.comp apart

/-- A list is told by the encodings of its items. -/
theorem Faithful.arr (faithful : Faithful encode) :
    Faithful fun items : List α => arr (items.map encode) := by
  intro first second same
  dsimp only at same
  rw [normal_arr, normal_arr, List.map_map, List.map_map] at same
  exact List.map_injective_iff.mpr faithful (arr.inj same)

theorem faithful_strings : Faithful strings := faithful_str.arr

/-- What the normal form of a part determines about it, the normal form of the optional part
determines, unless a part that is there is written as `null`. -/
theorem map_eq_of_normal_ofOption_eq {β : Type} {image : α → β} {first second : Option α}
    (present : ∀ value, first = some value → (encode value).normal ≠ null.normal)
    (present' : ∀ value, second = some value → (encode value).normal ≠ null.normal)
    (each : ∀ value other, first = some value → second = some other →
      (encode value).normal = (encode other).normal → image value = image other)
    (same : (ofOption encode first).normal = (ofOption encode second).normal) :
    first.map image = second.map image := by
  cases first with
  | none =>
      cases second with
      | none => rfl
      | some value => exact absurd same.symm (present' value rfl)
  | some value =>
      cases second with
      | none => exact absurd same (present value rfl)
      | some other => rw [Option.map_some, Option.map_some, each value other rfl rfl same]

/-- An optional part is told by its encoding, if no encoding is that of the absent part. -/
theorem eq_of_normal_ofOption_eq {first second : Option α}
    (present : ∀ value, (encode value).normal ≠ null.normal)
    (each : ∀ value other, first = some value → second = some other →
      (encode value).normal = (encode other).normal → value = other)
    (same : (ofOption encode first).normal = (ofOption encode second).normal) :
    first = second := by
  have images : first.map id = second.map id :=
    map_eq_of_normal_ofOption_eq (fun value _ => present value) (fun value _ => present value)
      each same
  rwa [Option.map_id, id, id] at images

/-- An optional part is encoded faithfully if what is there is, and is never written as `null`. -/
theorem Faithful.ofOption (faithful : Faithful encode)
    (present : ∀ value, (encode value).normal ≠ null.normal) : Faithful (ofOption encode) :=
  fun _ _ same =>
    eq_of_normal_ofOption_eq present (fun _ _ _ _ valueSame => faithful valueSame) same

theorem normal_str_ne_null (text : String) : (str text).normal ≠ null.normal := by
  intro same
  have texts : quote text = "null" := str.inj same
  have heads : (quote text).toList.head? = some '"' := by simp [quote, quoteChars]
  rw [texts] at heads
  exact absurd heads (by decide)

theorem normal_arr_ne_null (items : List Json) : (Json.arr items).normal ≠ null.normal := by
  rw [normal_arr]
  exact nofun

theorem normal_obj_ne_null (fields : List (String × Json)) : (obj fields).normal ≠ null.normal := by
  rw [normal_obj]
  exact nofun

/-! ## Objects -/

/-- What the keys of an object lead to has a normal form that the object determines. -/
theorem get?_normal_eq {first second : List (String × Json)} (distinct : Keyed.Distinct first)
    (distinct' : Keyed.Distinct second) (same : (obj first).normal = (obj second).normal)
    (key : String) : (Keyed.get? key first).map normal = (Keyed.get? key second).map normal := by
  rw [normal_obj, normal_obj] at same
  rw [← Keyed.get?_mapValues, ← Keyed.get?_mapValues,
    ← (distinct.mapValues normal).get?_sorted, ← (distinct'.mapValues normal).get?_sorted,
    obj.inj same]

/-- Records with the same distinct keys and one normal form agree in the normal form of every
part. -/
theorem values_eq_of_normal_eq {first second : List (String × Json)}
    (distinct : Keyed.Distinct first) (keys : first.map (·.1) = second.map (·.1))
    (same : (obj first).normal = (obj second).normal) :
    first.map (·.2.normal) = second.map (·.2.normal) := by
  have distinct' : Keyed.Distinct second := by
    rw [Keyed.Distinct, ← keys]
    exact distinct
  have parts : Keyed.mapValues normal first = Keyed.mapValues normal second := by
    apply (distinct.mapValues normal).eq_of_get?_eq
    · rw [Keyed.map_fst_mapValues, Keyed.map_fst_mapValues, keys]
    · intro key
      rw [Keyed.get?_mapValues, Keyed.get?_mapValues, get?_normal_eq distinct distinct' same]
  have values := congrArg (List.map (·.2)) parts
  rwa [Keyed.mapValues, Keyed.mapValues, List.map_map, List.map_map] at values

/-- A map with ascending keys is encoded faithfully if its values are. -/
theorem Faithful.map_eq (faithful : Faithful encode) {first second : List (String × α)}
    (ascending : Keyed.Ascending first) (ascending' : Keyed.Ascending second)
    (same : (obj (Keyed.mapValues encode first)).normal =
      (obj (Keyed.mapValues encode second)).normal) : first = second := by
  apply ascending.ext ascending'
  intro key
  have values := get?_normal_eq (ascending.mapValues encode).distinct
    (ascending'.mapValues encode).distinct same key
  rw [Keyed.get?_mapValues, Keyed.get?_mapValues, Option.map_map, Option.map_map] at values
  exact Option.map_injective faithful values

end Json

end RestPlugin
