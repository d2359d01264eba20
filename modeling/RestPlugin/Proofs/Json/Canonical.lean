import RestPlugin.Proofs.Json.Unambiguous

/-!
# The canonical text as a normal form

Two values are the same if they differ in the order of keys only: objects are compared as finite
maps and lists as sequences, at every level.  Values whose numbers are integers of 64 bits have one
canonical text exactly if they are the same, and the canonical text is read as a value that is the
same as the one it was written from, if that nests no deeper than the reader allows.
-/

namespace RestPlugin.Json

open Number Source

/-! ## Sameness up to the order of keys -/

/-- A value with integers of 64 bits as its only numbers, in whose objects no key occurs twice. -/
inductive Exact : Json → Prop
  | null : Exact null
  | bool (value : Bool) : Exact (bool value)
  | int {value : Int} (least : leastSigned ≤ value) (greatest : value ≤ greatestUnsigned) :
      Exact (int value)
  | str (value : String) : Exact (str value)
  | arr {items : List Json} (each : ∀ item ∈ items, Exact item) : Exact (arr items)
  | obj {fields : List (String × Json)} (distinct : Keyed.Distinct fields)
      (each : ∀ field ∈ fields, Exact field.2) : Exact (obj fields)

/-- A list is exact exactly if its items are. -/
theorem exact_arr_iff {items : List Json} :
    (arr items).Exact ↔ ∀ item ∈ items, item.Exact := by
  constructor
  · rintro (- | - | - | - | each)
    exact each
  · exact .arr

/-- An object is exact exactly if its keys differ and its values are exact. -/
theorem exact_obj_iff {fields : List (String × Json)} :
    (obj fields).Exact ↔ Keyed.Distinct fields ∧ ∀ field ∈ fields, field.2.Exact := by
  constructor
  · rintro (- | - | - | - | - | ⟨distinct, each⟩)
    exact ⟨distinct, each⟩
  · exact fun parts => .obj parts.1 parts.2

/-- Equality of values up to the order of keys.  Lists have the same length and the same items at
the same places; objects have the same keys and the same values under each of them. -/
inductive Same : Json → Json → Prop
  | refl (value : Json) : Same value value
  | arr {first second : List Json} (length_eq : first.length = second.length)
      (each : ∀ (i : Nat) (x y : Json), first[i]? = some x → second[i]? = some y → Same x y) :
      Same (arr first) (arr second)
  | obj {first second : List (String × Json)}
      (keys : ∀ key, Keyed.contains key first = Keyed.contains key second)
      (each : ∀ key x y, Keyed.get? key first = some x → Keyed.get? key second = some y →
        Same x y) :
      Same (obj first) (obj second)

/-- Sorting the keys keeps the values under them. -/
theorem get?_sorted_mapValues_sortKeys {fields : List (String × Json)}
    (distinct : Keyed.Distinct fields) (key : String) :
    Keyed.get? key (Keyed.sorted (Keyed.mapValues sortKeys fields)) =
      (Keyed.get? key fields).map sortKeys := by
  rw [(distinct.mapValues sortKeys).get?_sorted, Keyed.get?_mapValues]

/-- Sorted keys decide over sameness. -/
theorem same_of_sortKeys_eq {first second : Json} (exact₁ : first.Exact) (exact₂ : second.Exact)
    (sorted : first.sortKeys = second.sortKeys) : Same first second := by
  induction exact₁ generalizing second with
  | null => cases exact₂ <;> simp [sortKeys] at sorted; exact .refl _
  | bool value => cases exact₂ <;> simp [sortKeys] at sorted; exact sorted ▸ .refl _
  | int least greatest => cases exact₂ <;> simp [sortKeys] at sorted; exact sorted ▸ .refl _
  | str value => cases exact₂ <;> simp [sortKeys] at sorted; exact sorted ▸ .refl _
  | @arr items _ each =>
      cases exact₂ with
      | @arr others exact₂ =>
          rw [sortKeys_arr, sortKeys_arr, arr.injEq] at sorted
          refine .arr ?_ ?_
          · simpa using congrArg List.length sorted
          · intro i x y xAt yAt
            have sortedAt := congrArg (·[i]?) sorted
            rw [List.getElem?_map, List.getElem?_map, xAt, yAt, Option.map_some, Option.map_some,
              Option.some.injEq] at sortedAt
            exact each x (List.mem_of_getElem? xAt) (exact₂ y (List.mem_of_getElem? yAt)) sortedAt
      | _ => simp [sortKeys] at sorted
  | @obj fields distinct _ each =>
      cases exact₂ with
      | @obj others distinct' exact₂ =>
          rw [sortKeys_obj, sortKeys_obj, obj.injEq] at sorted
          have under : ∀ key, (Keyed.get? key fields).map sortKeys =
              (Keyed.get? key others).map sortKeys := by
            intro key
            rw [← get?_sorted_mapValues_sortKeys distinct, sorted,
              get?_sorted_mapValues_sortKeys distinct']
          refine .obj ?_ ?_
          · intro key
            have keyUnder := congrArg Option.isSome (under key)
            rwa [Option.isSome_map, Option.isSome_map] at keyUnder
          · intro key x y xUnder yUnder
            have sortedUnder := under key
            rw [xUnder, yUnder, Option.map_some, Option.map_some, Option.some.injEq] at sortedUnder
            exact each (key, x) (Keyed.mem_of_get?_eq_some xUnder)
              (exact₂ (key, y) (Keyed.mem_of_get?_eq_some yUnder)) sortedUnder
      | _ => simp [sortKeys] at sorted

/-- The order of keys is all that sorting takes away. -/
theorem Same.sortKeys_eq {first second : Json} (same : Same first second) (exact₁ : first.Exact)
    (exact₂ : second.Exact) : first.sortKeys = second.sortKeys := by
  induction same with
  | refl value => rfl
  | @arr items others length_eq _ each =>
      rw [exact_arr_iff] at exact₁ exact₂
      rw [sortKeys_arr, sortKeys_arr, arr.injEq]
      apply List.ext_getElem
      · rw [List.length_map, List.length_map, length_eq]
      · intro i below below'
        rw [List.length_map] at below below'
        rw [List.getElem_map, List.getElem_map]
        exact each i _ _ (List.getElem?_eq_getElem below) (List.getElem?_eq_getElem below')
          (exact₁ _ (List.getElem_mem below)) (exact₂ _ (List.getElem_mem below'))
  | @obj fields others keys _ each =>
      rw [exact_obj_iff] at exact₁ exact₂
      rw [sortKeys_obj, sortKeys_obj, obj.injEq]
      apply (Keyed.ascending_sorted _).ext (Keyed.ascending_sorted _)
      intro key
      rw [get?_sorted_mapValues_sortKeys exact₁.1, get?_sorted_mapValues_sortKeys exact₂.1]
      have keyIn := keys key
      rw [Keyed.contains, Keyed.contains] at keyIn
      cases xUnder : Keyed.get? key fields with
      | none =>
          rw [xUnder, Option.isSome_none, eq_comm, Option.isSome_eq_false_iff,
            Option.isNone_iff_eq_none] at keyIn
          rw [keyIn]
      | some x =>
          rw [xUnder, Option.isSome_some, eq_comm, Option.isSome_iff_exists] at keyIn
          obtain ⟨y, yUnder⟩ := keyIn
          rw [yUnder, Option.map_some, Option.map_some, each key x y xUnder yUnder
            (exact₁.2 (key, x) (Keyed.mem_of_get?_eq_some xUnder))
            (exact₂.2 (key, y) (Keyed.mem_of_get?_eq_some yUnder))]

/-! ## Spellings of exact values -/

/-- A scalar is read back from its text alone. -/
theorem IsScalar.parse_scalarText {value : Json} (scalar : value.IsScalar)
    (readable : Readable value maxDepth) : parse value.scalarText = .ok (reread value) := by
  have parsed : parse (value.pretty ++ "") = .ok (reread value) :=
    parse_pretty readable (by simp [Ends]) (by simp)
  rwa [String.append_empty, pretty, scalar.prettyAt_eq] at parsed

/-- An exact scalar is determined by its text. -/
theorem Exact.eq_of_scalarText_eq {first second : Json} (exact₁ : first.Exact)
    (exact₂ : second.Exact) (scalar₁ : first.IsScalar) (scalar₂ : second.IsScalar)
    (same : first.scalarText = second.scalarText) : first = second := by
  have reads : ∀ {value : Json}, value.Exact → value.IsScalar →
      parse value.scalarText = .ok value := by
    intro value exact_ scalar
    cases exact_ with
    | null => exact scalar.parse_scalarText trivial
    | bool value => exact scalar.parse_scalarText trivial
    | int least greatest => exact scalar.parse_scalarText ⟨least, greatest⟩
    | str value => exact scalar.parse_scalarText trivial
    | arr each => exact scalar.elim
    | obj distinct each => exact scalar.elim
  have read := reads exact₁ scalar₁
  rw [same, reads exact₂ scalar₂] at read
  exact (Except.ok.inj read).symm

/-- An exact value is determined by the texts of its scalars. -/
theorem Exact.eq_of_spelled_eq {first second : Json} (exact₁ : first.Exact)
    (exact₂ : second.Exact) (same : first.spelled = second.spelled) : first = second := by
  induction first using partInduction generalizing second with
  | scalar first scalar₁ =>
      cases second using partInduction with
      | scalar second scalar₂ =>
          rw [scalar₁.spelled_eq, scalar₂.spelled_eq, str.injEq] at same
          exact exact₁.eq_of_scalarText_eq exact₂ scalar₁ scalar₂ same
      | arr items => simp [scalar₁.spelled_eq] at same
      | obj fields => simp [scalar₁.spelled_eq] at same
  | arr items each =>
      cases second using partInduction with
      | scalar second scalar₂ => simp [scalar₂.spelled_eq] at same
      | arr others =>
          rw [spelled_arr, spelled_arr, arr.injEq] at same
          rw [exact_arr_iff] at exact₁ exact₂
          congr 1
          apply eq_of_map_eq _ same
          intro item member other otherMem itemSame
          exact each item member (exact₁ item member) (exact₂ other otherMem) itemSame
      | obj fields => simp at same
  | obj fields each =>
      cases second using partInduction with
      | scalar second scalar₂ => simp [scalar₂.spelled_eq] at same
      | arr items => simp at same
      | obj others =>
          rw [spelled_obj, spelled_obj, obj.injEq] at same
          rw [exact_obj_iff] at exact₁ exact₂
          congr 1
          apply eq_of_map_eq _ same
          intro field member other otherMem fieldSame
          obtain ⟨keyEq, valueSame⟩ := Prod.mk.inj fieldSame
          exact Prod.ext keyEq
            (each field member (exact₁.2 field member) (exact₂.2 other otherMem) valueSame)

/-- Sorting keys keeps a value exact. -/
theorem Exact.sortKeys {value : Json} (exact_ : value.Exact) : value.sortKeys.Exact := by
  induction exact_ with
  | null => exact .null
  | bool value => exact .bool value
  | int least greatest => exact .int least greatest
  | str value => exact .str value
  | arr _ each =>
      rw [sortKeys_arr]
      apply Exact.arr
      rwa [List.forall_mem_map]
  | obj _ _ each =>
      rw [sortKeys_obj]
      apply Exact.obj (Keyed.ascending_sorted _).distinct
      intro field member
      obtain ⟨origin, originMem, rfl⟩ := List.mem_map.mp (Keyed.mem_of_mem_sorted member)
      exact each origin originMem

/-- Sorting keys twice is sorting them once. -/
theorem sortKeys_sortKeys (value : Json) : value.sortKeys.sortKeys = value.sortKeys := by
  induction value using partInduction with
  | scalar value isScalar => cases value <;> first | rfl | exact isScalar.elim
  | arr items each =>
      rw [sortKeys_arr, sortKeys_arr, List.map_map]
      congr 1
      exact List.map_congr_left each
  | obj fields each =>
      have fixed : Keyed.mapValues Json.sortKeys
          (Keyed.sorted (Keyed.mapValues Json.sortKeys fields)) =
          Keyed.sorted (Keyed.mapValues Json.sortKeys fields) := by
        conv_rhs => rw [← List.map_id (Keyed.sorted _)]
        apply List.map_congr_left
        intro field member
        obtain ⟨origin, originMem, rfl⟩ := List.mem_map.mp (Keyed.mem_of_mem_sorted member)
        exact Prod.ext rfl (each origin originMem)
      rw [sortKeys_obj, sortKeys_obj, fixed, (Keyed.ascending_sorted _).sorted_eq]

/-- The canonical texts of exact values are equal if and only if the sorted values are. -/
theorem Exact.canonical_eq_iff {first second : Json} (exact₁ : first.Exact)
    (exact₂ : second.Exact) : first.canonical = second.canonical ↔ Same first second := by
  rw [canonical, canonical, pretty_eq_iff]
  constructor
  · intro spelledEq
    have sortedEq := exact₁.sortKeys.eq_of_spelled_eq exact₂.sortKeys spelledEq
    exact same_of_sortKeys_eq exact₁ exact₂ sortedEq
  · intro same
    rw [same.sortKeys_eq exact₁ exact₂]

/-! ## Strings in canonical texts -/

/-- The characters that do not stand for themselves in a string literal: the quote, the backslash
and the control characters below the blank. -/
def isEscaped (c : Char) : Bool := c == '"' || c == '\\' || c.toNat < 0x20

theorem escapeChar_of_not_isEscaped {c : Char} (plain : isEscaped c = false) :
    escapeChar c = [c] := by
  simp only [isEscaped, Bool.or_eq_false_iff, beq_eq_false_iff_ne, decide_eq_false_iff_not]
    at plain
  have above : ∀ d : Char, d.toNat < 0x20 → c ≠ d := by
    rintro d control rfl
    exact plain.2 control
  simp [escapeChar, plain, above '\x08' (by decide), above '\t' (by decide),
    above '\n' (by decide), above '\x0c' (by decide), above '\r' (by decide)]

/-- An escape is a backslash and what is read as the character after a backslash. -/
theorem exists_escape_of_isEscaped {c : Char} (escaped : isEscaped c = true) :
    ∃ escape, escapeChar c = '\\' :: escape ∧ ∀ offset rest,
      readEscape ⟨offset, escape ++ rest⟩ = .ok (c, ⟨offset + escape.length, rest⟩) := by
  unfold escapeChar
  split
  next eq => exact ⟨['"'], rfl, fun _ _ => by rw [beq_iff_eq.mp eq]; rfl⟩
  split
  next eq => exact ⟨['\\'], rfl, fun _ _ => by rw [beq_iff_eq.mp eq]; rfl⟩
  split
  next eq => exact ⟨['b'], rfl, fun _ _ => by rw [beq_iff_eq.mp eq]; rfl⟩
  split
  next eq => exact ⟨['t'], rfl, fun _ _ => by rw [beq_iff_eq.mp eq]; rfl⟩
  split
  next eq => exact ⟨['n'], rfl, fun _ _ => by rw [beq_iff_eq.mp eq]; rfl⟩
  split
  next eq => exact ⟨['f'], rfl, fun _ _ => by rw [beq_iff_eq.mp eq]; rfl⟩
  split
  next eq => exact ⟨['r'], rfl, fun _ _ => by rw [beq_iff_eq.mp eq]; rfl⟩
  split
  next control =>
    exact ⟨['u', '0', '0', hexDigit (c.toNat / 16), hexDigit (c.toNat % 16)], rfl,
      readEscape_control control⟩
  next noQuote noBackslash _ _ _ _ _ noControl =>
    rw [isEscaped, Bool.or_eq_true, Bool.or_eq_true, decide_eq_true_eq] at escaped
    exact absurd escaped (not_or.mpr ⟨not_or.mpr ⟨noQuote, noBackslash⟩, noControl⟩)

/-- The canonical text identifies a value up to the order of keys and nothing more: exact values
have one canonical text exactly if objects agree as finite maps and lists as sequences, at every
level.  Strings and keys stand in it as literals, in which the quote, the backslash and the control
characters below the blank are escaped and everything else is copied. -/
theorem canonical_identifies_up_to_key_order :
    (∀ first second : Json, first.Exact → second.Exact →
      (first.canonical = second.canonical ↔ Same first second)) ∧
    (∀ text, (str text).canonical = quote text) ∧
    (∀ key value, (obj [(key, value)]).canonical =
      "\x7b\n  " ++ quote key ++ ": " ++ prettyAt 1 value.sortKeys ++ "\n\x7d") ∧
    (∀ text, (quote text).toList = '"' :: (text.toList.flatMap escapeChar ++ ['"'])) ∧
    ∀ c, (isEscaped c = false → escapeChar c = [c]) ∧
      (isEscaped c = true → ∃ escape, escapeChar c = '\\' :: escape ∧ ∀ offset rest,
        readEscape ⟨offset, escape ++ rest⟩ = .ok (c, ⟨offset + escape.length, rest⟩)) := by
  refine ⟨fun _ _ => Exact.canonical_eq_iff, fun _ => rfl, ?_, ?_, ?_⟩
  · intro key value
    have two : indent 1 = "  " := by decide
    have none : indent 0 = "" := rfl
    simp [canonical, pretty, prettyAt, sortFields, Keyed.sorted, Keyed.insert, sortKeys,
      prettyFields, bracketed, Text.join, two, none, String.append_assoc]
    rfl
  · intro text
    rw [quote, String.toList_ofList, quoteChars]
  · exact fun c => ⟨escapeChar_of_not_isEscaped, exists_escape_of_isEscaped⟩

/-- A label with a note; the note is under the second key. -/
def labelled : Json :=
  obj [("label", str "a \"b\"\n"), ("more", arr [int 1, obj [("y", null), ("x", int (-2))]])]

/-- The label with its keys in other orders. -/
def relabelled : Json :=
  obj [("more", arr [int 1, obj [("x", int (-2)), ("y", null)]]), ("label", str "a \"b\"\n")]

theorem exact_labelled : labelled.Exact := by
  have inner : (obj [("y", null), ("x", int (-2))]).Exact := by
    simpa [exact_obj_iff, Keyed.Distinct] using ⟨Exact.null, Exact.int (by decide) (by decide)⟩
  have one : (int 1).Exact := .int (by decide) (by decide)
  simp [labelled, exact_obj_iff, exact_arr_iff, Keyed.Distinct, Exact.str, inner, one]

theorem exact_relabelled : relabelled.Exact := by
  have inner : (obj [("x", int (-2)), ("y", null)]).Exact := by
    simpa [exact_obj_iff, Keyed.Distinct] using ⟨Exact.int (by decide) (by decide), Exact.null⟩
  have one : (int 1).Exact := .int (by decide) (by decide)
  simp [relabelled, exact_obj_iff, exact_arr_iff, Keyed.Distinct, Exact.str, inner, one]

/-- The orders of keys of the label do not show. -/
theorem canonical_identifies_up_to_key_order_labelled :
    labelled.Exact ∧ relabelled.Exact ∧ Same labelled relabelled ∧
      labelled.canonical = relabelled.canonical := by
  have sorted : labelled.sortKeys = relabelled.sortKeys := by rfl
  have same := same_of_sortKeys_eq exact_labelled exact_relabelled sorted
  exact ⟨exact_labelled, exact_relabelled, same,
    (canonical_identifies_up_to_key_order.1 _ _ exact_labelled exact_relabelled).mpr same⟩

example : quote "a\"\\/\x08\t\n\x0c\r\x1fé" = "\"a\\\"\\\\/\\b\\t\\n\\f\\r\\u001fé\"" := by
  decide

/-! ## Reading canonical texts -/

mutual

/-- The number of lists and objects in one another. -/
def nesting : Json → Nat
  | arr items => nestingItems items + 1
  | obj fields => nestingFields fields + 1
  | _ => 0
termination_by structural value => value

/-- The deepest nesting of items. -/
def nestingItems : List Json → Nat
  | [] => 0
  | item :: rest => max (nesting item) (nestingItems rest)
termination_by structural items => items

/-- The deepest nesting of the values of fields. -/
def nestingFields : List (String × Json) → Nat
  | [] => 0
  | (_, value) :: rest => max (nesting value) (nestingFields rest)
termination_by structural fields => fields

end

/-- Items nest no deeper than the deepest of them. -/
theorem nestingItems_le_iff {items : List Json} {levels : Nat} :
    nestingItems items ≤ levels ↔ ∀ item ∈ items, nesting item ≤ levels := by
  induction items with
  | nil => simp [nestingItems]
  | cons item items ih => rw [nestingItems, max_le_iff, ih, List.forall_mem_cons]

/-- Fields nest no deeper than the deepest of them. -/
theorem nestingFields_le_iff {fields : List (String × Json)} {levels : Nat} :
    nestingFields fields ≤ levels ↔ ∀ field ∈ fields, nesting field.2 ≤ levels := by
  induction fields with
  | nil => simp [nestingFields]
  | cons field fields ih => rw [nestingFields, max_le_iff, ih, List.forall_mem_cons]

/-- An exact value can be read if it does not nest too deep. -/
theorem Exact.readable {value : Json} (exact_ : value.Exact) {levels : Nat}
    (shallow : value.nesting ≤ levels) : Readable value levels := by
  induction exact_ generalizing levels with
  | null => trivial
  | bool value => trivial
  | int least greatest => exact ⟨least, greatest⟩
  | str value => trivial
  | arr _ each =>
      cases levels with
      | zero => exact absurd shallow (Nat.not_succ_le_zero _)
      | succ levels =>
          have itemsShallow := nestingItems_le_iff.mp (Nat.le_of_succ_le_succ shallow)
          rw [readable_arr_iff]
          exact fun item member => each item member (itemsShallow item member)
  | obj _ _ each =>
      cases levels with
      | zero => exact absurd shallow (Nat.not_succ_le_zero _)
      | succ levels =>
          have fieldsShallow := nestingFields_le_iff.mp (Nat.le_of_succ_le_succ shallow)
          rw [readable_obj_iff]
          exact fun field member => each field member (fieldsShallow field member)

theorem rereadItems_eq_map (items : List Json) : rereadItems items = items.map reread := by
  induction items with
  | nil => rfl
  | cons item items ih => rw [rereadItems, ih, List.map_cons]

theorem rereadFields_eq_mapValues (fields : List (String × Json)) :
    rereadFields fields = Keyed.mapValues reread fields := by
  induction fields with
  | nil => rfl
  | cons field fields ih => rw [rereadFields, ih, Keyed.mapValues, Keyed.mapValues, List.map_cons]

/-- All that reading does to an exact value is to sort its keys. -/
theorem Exact.reread_eq {value : Json} (exact_ : value.Exact) : reread value = value.sortKeys := by
  induction exact_ with
  | null => rfl
  | bool value => rfl
  | int least greatest => rfl
  | str value => rfl
  | arr _ each =>
      rw [reread, rereadItems_eq_map, sortKeys_arr]
      congr 1
      exact List.map_congr_left each
  | obj _ _ each =>
      rw [reread, rereadFields_eq_mapValues, sortKeys_obj]
      congr 2
      apply List.map_congr_left
      exact fun field member => Prod.ext rfl (each field member)

theorem canonical_sortKeys (value : Json) : value.sortKeys.canonical = value.canonical := by
  rw [canonical, sortKeys_sortKeys, canonical]

/-- The canonical text of an exact value is read as the value with sorted keys. -/
theorem Exact.parse_canonical {value : Json} (exact_ : value.Exact)
    (shallow : value.nesting ≤ maxDepth) : parse value.canonical = .ok value.sortKeys := by
  have parsed : parse (value.canonical ++ "") = .ok (reread value.sortKeys) :=
    parse_pretty (exact_.readable shallow).sortKeys (by simp [Ends]) (by simp)
  rwa [String.append_empty, exact_.sortKeys.reread_eq, sortKeys_sortKeys] at parsed

theorem Exact.same_sortKeys {value : Json} (exact_ : value.Exact) : Same value.sortKeys value :=
  same_of_sortKeys_eq exact_.sortKeys exact_ (sortKeys_sortKeys value)

/-- The canonical text of an exact value that nests at most 127 levels deep can be read.  What
is read is the same as the value up to the order of keys, has the same canonical text again, and
so has the same content hash. -/
theorem canonical_reads_back {value : Json} (exact_ : value.Exact) (shallow : value.nesting ≤ 127) :
    ∃ read, parse value.canonical = .ok read ∧ Same read value ∧
      read.canonical = value.canonical ∧ read.contentHash = value.contentHash := by
  refine ⟨value.sortKeys, exact_.parse_canonical shallow, exact_.same_sortKeys,
    canonical_sortKeys value, ?_⟩
  rw [contentHash, canonical_sortKeys, contentHash]

/-- A list in a list, and so on, with an object inside. -/
def tower : Nat → Json
  | 0 => obj [("b", str "\x01\"é"), ("a", int leastSigned)]
  | height + 1 => arr [tower height]

theorem exact_tower (height : Nat) : (tower height).Exact := by
  induction height with
  | zero =>
      have least : (int leastSigned).Exact := .int le_rfl (by decide)
      simp [tower, exact_obj_iff, Keyed.Distinct, Exact.str, least]
  | succ height ih => exact .arr (List.forall_mem_singleton.mpr ih)

theorem nesting_tower (height : Nat) : (tower height).nesting = height + 1 := by
  induction height with
  | zero => rfl
  | succ height ih => simp [tower, nesting, nestingItems, ih]

/-- The highest tower that can be read. -/
theorem canonical_reads_back_tower :
    (tower 126).Exact ∧ (tower 126).nesting = 127 ∧
      ∃ read, parse (tower 126).canonical = .ok read ∧ Same read (tower 126) ∧
        read.canonical = (tower 126).canonical :=
  have ⟨read, parsed, same, again, _⟩ :=
    canonical_reads_back (exact_tower 126) (nesting_tower 126).le
  ⟨exact_tower 126, nesting_tower 126, read, parsed, same, again⟩

end RestPlugin.Json
