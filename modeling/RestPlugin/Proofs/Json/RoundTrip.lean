import RestPlugin.Proofs.Json.Scalar
import RestPlugin.Proofs.Keyed

/-!
# Reading written values

Reading the indented text of a value gives the value back, with the keys of every object in
ascending order and every float as the reader takes it.  Integers have to fit into 64 bits, and
lists and objects may not nest deeper than the reader allows.
-/

namespace RestPlugin.Json

open Number Source

/-! ## Induction over JSON values -/

/-- Induction over the members of lists and the values of objects. -/
@[elab_as_elim]
theorem memberInduction {motive : Json → Prop} (null : motive null)
    (bool : ∀ value, motive (bool value)) (int : ∀ value, motive (int value))
    (float : ∀ value, motive (float value)) (str : ∀ value, motive (str value))
    (arr : ∀ items, (∀ item ∈ items, motive item) → motive (arr items))
    (obj : ∀ fields, (∀ field ∈ fields, motive field.2) → motive (obj fields)) (value : Json) :
    motive value :=
  @Json.rec motive (fun items => ∀ item ∈ items, motive item)
    (fun fields => ∀ field ∈ fields, motive field.2) (fun field => motive field.2)
    null bool int float str arr obj
    (by simp) (fun _ _ here later => List.forall_mem_cons.mpr ⟨here, later⟩)
    (by simp) (fun _ _ here later => List.forall_mem_cons.mpr ⟨here, later⟩)
    (fun _ _ here => here) value

/-! ## What can be read, and as what -/

mutual

/-- Whether a value can be read from its text: its numbers fit into 64 bits, and its lists and
objects nest at most the given number of levels deep. -/
def Readable : Json → Nat → Prop
  | int value, _ => leastSigned ≤ value ∧ value ≤ greatestUnsigned
  | float value, _ => value.Proper
  | arr items, levels => 0 < levels ∧ ReadableItems items (levels - 1)
  | obj fields, levels => 0 < levels ∧ ReadableFields fields (levels - 1)
  | _, _ => True
termination_by structural value => value

/-- Whether all items of a list can be read. -/
def ReadableItems : List Json → Nat → Prop
  | [], _ => True
  | item :: rest, levels => Readable item levels ∧ ReadableItems rest levels
termination_by structural items => items

/-- Whether the values of all fields of an object can be read. -/
def ReadableFields : List (String × Json) → Nat → Prop
  | [], _ => True
  | (_, value) :: rest, levels => Readable value levels ∧ ReadableFields rest levels
termination_by structural fields => fields

end

mutual

/-- The value that is read from the text of a value. -/
def reread : Json → Json
  | float value => rereadFloat value
  | arr items => arr (rereadItems items)
  | obj fields => obj (Keyed.sorted (rereadFields fields))
  | other => other
termination_by structural value => value

/-- The values that are read from the texts of items. -/
def rereadItems : List Json → List Json
  | [] => []
  | item :: rest => reread item :: rereadItems rest
termination_by structural items => items

/-- The fields that are read from the texts of fields, in the order of the text. -/
def rereadFields : List (String × Json) → List (String × Json)
  | [] => []
  | (key, value) :: rest => (key, reread value) :: rereadFields rest
termination_by structural fields => fields

end

@[simp]
theorem readable_str (value : String) (levels : Nat) : Readable (str value) levels :=
  trivial

/-- Items are readable exactly if each of them is. -/
theorem readableItems_iff {items : List Json} {levels : Nat} :
    ReadableItems items levels ↔ ∀ item ∈ items, Readable item levels := by
  induction items with
  | nil => simp [ReadableItems]
  | cons item items ih => rw [ReadableItems, ih, List.forall_mem_cons]

/-- Fields are readable exactly if each value is. -/
theorem readableFields_iff {fields : List (String × Json)} {levels : Nat} :
    ReadableFields fields levels ↔ ∀ field ∈ fields, Readable field.2 levels := by
  induction fields with
  | nil => simp [ReadableFields]
  | cons field fields ih => rw [ReadableFields, ih, List.forall_mem_cons]

@[simp]
theorem readable_arr_iff {items : List Json} {levels : Nat} :
    Readable (arr items) (levels + 1) ↔ ∀ item ∈ items, Readable item levels := by
  rw [Readable, readableItems_iff]
  simp

@[simp]
theorem readable_obj_iff {fields : List (String × Json)} {levels : Nat} :
    Readable (obj fields) (levels + 1) ↔ ∀ field ∈ fields, Readable field.2 levels := by
  rw [Readable, readableFields_iff]
  simp

@[simp]
theorem readable_strings (items : List String) (levels : Nat) :
    Readable (strings items) (levels + 1) := by
  simp [strings]

@[simp]
theorem readable_ofOption_iff {α : Type} {f : α → Json} {part : Option α} {levels : Nat} :
    Readable (ofOption f part) levels ↔ ∀ value, part = some value → Readable (f value) levels := by
  cases part with
  | none => simp [ofOption, Readable]
  | some value => simp [ofOption]

theorem sortItems_eq_map (items : List Json) : sortItems items = items.map sortKeys := by
  induction items with
  | nil => rfl
  | cons item items ih => rw [sortItems, ih, List.map_cons]

theorem sortFields_eq_mapValues (fields : List (String × Json)) :
    sortFields fields = Keyed.mapValues sortKeys fields := by
  induction fields with
  | nil => rfl
  | cons field fields ih => rw [sortFields, ih, Keyed.mapValues, Keyed.mapValues, List.map_cons]

/-- Sorting keys neither deepens a value nor changes its numbers. -/
theorem Readable.sortKeys {value : Json} {levels : Nat} (readable : Readable value levels) :
    Readable value.sortKeys levels := by
  induction value using memberInduction generalizing levels with
  | null => exact readable
  | bool value => exact readable
  | int value => exact readable
  | float value => exact readable
  | str value => exact readable
  | arr items each =>
      obtain ⟨levelsPos, itemsReadable⟩ := readable
      rw [readableItems_iff] at itemsReadable
      refine ⟨levelsPos, ?_⟩
      rw [sortItems_eq_map, readableItems_iff, List.forall_mem_map]
      exact fun item member => each item member (itemsReadable item member)
  | obj fields each =>
      obtain ⟨levelsPos, fieldsReadable⟩ := readable
      rw [readableFields_iff] at fieldsReadable
      refine ⟨levelsPos, ?_⟩
      rw [sortFields_eq_mapValues, readableFields_iff]
      intro sorted member
      have unsorted := Keyed.mem_of_mem_sorted member
      obtain ⟨field, fieldMem, rfl⟩ := List.mem_map.mp unsorted
      exact each field fieldMem (fieldsReadable field fieldMem)

/-! ## Lists and objects, one step at a time -/

/-- Reads an item and the items after it. -/
def readItemsFrom (fuel levels : Nat) (cursor : Cursor) :
    Scan (List (Nat × Node) × Option Flaw) :=
  let (node, next) := readValue fuel levels cursor
  match next with
  | none => (([(cursor.offset, node)], none), none)
  | some after =>
      let ((items, stop), next) := readItems fuel levels false after
      (((cursor.offset, node) :: items, stop), next)

section Steps

variable {fuel levels offset : Nat} {blanks more rest : List Char} {c : Char}
  (allBlank : ∀ c ∈ blanks, isSpace c = true)
include allBlank

theorem readItems_first (notSpace : isSpace c = false) (notClosing : c ≠ ']') :
    readItems (fuel + 1) levels true ⟨offset, blanks ++ c :: more⟩ =
      readItemsFrom fuel levels ⟨offset + blanks.length, c :: more⟩ := by
  have notClosingBeq : (c == ']') = false := beq_false_of_ne notClosing
  simp only [readItems, skip_append allBlank notSpace, notClosingBeq, Bool.not_true, Bool.false_and,
    Bool.false_eq_true, if_false, if_true]
  rfl

/-- After a comma, the next item is read from where the blanks end. -/
theorem readItems_next (notSpace : isSpace c = false) (notClosing : c ≠ ']') :
    readItems (fuel + 1) levels false ⟨offset, ',' :: (blanks ++ c :: more)⟩ =
      readItemsFrom fuel levels ⟨offset + 1 + blanks.length, c :: more⟩ := by
  have comma : (Cursor.mk offset (',' :: (blanks ++ c :: more))).skip =
      ⟨offset, ',' :: (blanks ++ c :: more)⟩ := rfl
  have notClosingBeq : (c == ']') = false := beq_false_of_ne notClosing
  have commaBeq : (',' == ']') = false := rfl
  simp only [readItems, comma, commaBeq, skip_append allBlank notSpace, notClosingBeq,
    Bool.not_false, Bool.true_and, bne_self_eq_false, Bool.false_eq_true, if_false]
  rfl

theorem readItems_close (first : Bool) :
    readItems (fuel + 1) levels first ⟨offset, blanks ++ ']' :: rest⟩ =
      (([], none), some ⟨offset + blanks.length + 1, rest⟩) := by
  simp [readItems, skip_append allBlank (show isSpace ']' = false from rfl)]

theorem readEntries_first (notSpace : isSpace c = false) (notClosing : c ≠ '\x7d') :
    readEntries (fuel + 1) levels true ⟨offset, blanks ++ c :: more⟩ =
      readEntry fuel levels ⟨offset + blanks.length, c :: more⟩ := by
  simp [readEntries, skip_append allBlank notSpace, notClosing]

theorem readEntries_next (notSpace : isSpace c = false) :
    (readEntries (fuel + 1) levels false ⟨offset, ',' :: (blanks ++ c :: more)⟩) =
      let scan := readEntry fuel levels ⟨offset + 1 + blanks.length, c :: more⟩
      ({ scan.1 with alone := some (.malformed offset) }, scan.2) := by
  have comma : (Cursor.mk offset (',' :: (blanks ++ c :: more))).skip =
      ⟨offset, ',' :: (blanks ++ c :: more)⟩ := rfl
  simp [readEntries, comma, skip_append allBlank notSpace]

theorem readEntries_close (first : Bool) :
    ∃ alone, readEntries (fuel + 1) levels first ⟨offset, blanks ++ '\x7d' :: rest⟩ =
      (⟨[], none, alone⟩, some ⟨offset + blanks.length + 1, rest⟩) := by
  simp [readEntries, skip_append allBlank (show isSpace '\x7d' = false from rfl)]

theorem readField_eq (notSpace : isSpace c = false) :
    readField (fuel + 1) levels ⟨offset, ':' :: (blanks ++ c :: more)⟩ =
      (offset + 1 + blanks.length,
        readValue fuel levels ⟨offset + 1 + blanks.length, c :: more⟩) := by
  have colon : (Cursor.mk offset (':' :: (blanks ++ c :: more))).skip =
      ⟨offset, ':' :: (blanks ++ c :: more)⟩ := rfl
  simp [readField, colon, skip_append allBlank notSpace]

end Steps

/-- A scan of items that ends before `rest` with trees for `values`. -/
def YieldsItems (scan : Scan (List (Nat × Node) × Option Flaw)) (values : List Json)
    (rest : List Char) : Prop :=
  ∃ nodes offset, scan = ((nodes, none), some ⟨offset, rest⟩) ∧
    Node.itemsToJson nodes = .ok values

/-- A scan of entries that ends before `rest` with keys and trees for `values`. -/
def YieldsFields (scan : Scan Fields) (values : List (String × Json)) (rest : List Char) : Prop :=
  ∃ fields offset, scan = (fields, some ⟨offset, rest⟩) ∧ fields.stop = none ∧
    Node.entriesToJson fields.entries = .ok values

/-- An item and the items after it are read as a list. -/
theorem readItemsFrom_yields {fuel levels : Nat} {cursor : Cursor} {value : Json}
    {values : List Json} {between rest : List Char}
    (here : Yields (readValue fuel levels cursor) value between)
    (later : ∀ offset, YieldsItems (readItems fuel levels false ⟨offset, between⟩) values rest) :
    YieldsItems (readItemsFrom fuel levels cursor) (value :: values) rest := by
  obtain ⟨node, middle, hereEq, nodeEq⟩ := here
  obtain ⟨nodes, after, laterEq, nodesEq⟩ := later middle
  refine ⟨(cursor.offset, node) :: nodes, after, ?_, ?_⟩
  · simp only [readItemsFrom, hereEq, laterEq]
  · simp only [Node.itemsToJson, nodeEq, nodesEq, ok_bind]

section Items

variable {fuel levels : Nat} {blanks text between rest : List Char} {value : Json}
  {values : List Json} (allBlank : ∀ c ∈ blanks, isSpace c = true)
  (here : ∀ offset, Yields (readValue fuel levels ⟨offset, text⟩) value between)
  (later : ∀ offset, YieldsItems (readItems fuel levels false ⟨offset, between⟩) values rest)
include allBlank here later

theorem readItems_first_yields (offset : Nat) :
    YieldsItems (readItems (fuel + 1) levels true ⟨offset, blanks ++ text⟩) (value :: values)
      rest := by
  obtain ⟨c, more, rfl, notSpace, notClosing⟩ := (here 0).head
  rw [readItems_first allBlank notSpace notClosing]
  exact readItemsFrom_yields (here _) later

theorem readItems_next_yields (offset : Nat) :
    YieldsItems (readItems (fuel + 1) levels false ⟨offset, ',' :: (blanks ++ text)⟩)
      (value :: values) rest := by
  obtain ⟨c, more, rfl, notSpace, notClosing⟩ := (here 0).head
  rw [readItems_next allBlank notSpace notClosing]
  exact readItemsFrom_yields (here _) later

end Items

theorem toList_quote_append (key : String) (rest : List Char) :
    (quote key).toList ++ rest = '"' :: (key.toList.flatMap escapeChar ++ '"' :: rest) := by
  simp [quote, quoteChars]

section Fields

variable {fuel levels : Nat} (key : String) {blanks text between rest : List Char} {value : Json}
  {values : List (String × Json)}
  (here : ∀ offset, Yields (readValue fuel levels ⟨offset, text⟩) value between)
  (later : ∀ offset,
    YieldsFields (readEntries (fuel + 1) levels false ⟨offset, between⟩) values rest)
include here later

/-- A key, a colon and a value are read as an entry in front of the later ones. -/
theorem readEntry_yields (offset : Nat) :
    YieldsFields (readEntry (fuel + 2) levels ⟨offset, (quote key).toList ++ ':' :: ' ' :: text⟩)
      ((key, value) :: values) rest := by
  obtain ⟨c, more, textEq, notSpace, -⟩ := (here 0).head
  obtain ⟨afterKey, keyEq⟩ := readString_quote key (':' :: ' ' :: text) (offset + 1)
  obtain ⟨node, middle, hereEq, nodeEq⟩ := here (afterKey + 1 + 1)
  obtain ⟨fields, after, laterEq, stopEq, fieldsEq⟩ := later middle
  have field : readField (fuel + 1) levels ⟨afterKey, ':' :: ' ' :: text⟩ =
      (afterKey + 1 + 1, readValue fuel levels ⟨afterKey + 1 + 1, text⟩) := by
    rw [textEq]
    exact readField_eq (show ∀ c ∈ [' '], isSpace c = true by simp [isSpace]) notSpace
  refine ⟨{ fields with entries := (key, afterKey + 1 + 1, node) :: fields.entries }, after, ?_,
    stopEq, ?_⟩
  · rw [toList_quote_append, readEntry]
    simp only [bne_self_eq_false, Bool.false_eq_true, if_false, keyEq, field, hereEq, laterEq]
  · simp only [Node.entriesToJson, nodeEq, fieldsEq, ok_bind]

variable (allBlank : ∀ c ∈ blanks, isSpace c = true)
include allBlank

theorem readEntries_first_yields (offset : Nat) :
    YieldsFields (readEntries (fuel + 3) levels true
      ⟨offset, blanks ++ ((quote key).toList ++ ':' :: ' ' :: text)⟩) ((key, value) :: values)
      rest := by
  have entry := readEntry_yields key here later (offset + blanks.length)
  rw [toList_quote_append] at entry ⊢
  rw [readEntries_first allBlank rfl (by decide)]
  exact entry

theorem readEntries_next_yields (offset : Nat) :
    YieldsFields (readEntries (fuel + 3) levels false
      ⟨offset, ',' :: (blanks ++ ((quote key).toList ++ ':' :: ' ' :: text))⟩)
      ((key, value) :: values) rest := by
  have entry := readEntry_yields key here later (offset + 1 + blanks.length)
  rw [toList_quote_append] at entry ⊢
  obtain ⟨fields, after, entryEq, stopEq, fieldsEq⟩ := entry
  rw [readEntries_next allBlank rfl, entryEq]
  exact ⟨_, after, rfl, stopEq, fieldsEq⟩

end Fields

/-- A bracket and items up to the closing one are read as a list. -/
theorem readValue_list {fuel levels offset : Nat} {more rest : List Char} {values : List Json}
    (levelsPos : 0 < levels)
    (items : YieldsItems (readItems fuel (levels - 1) true ⟨offset + 1, more⟩) values rest) :
    Yields (readValue (fuel + 1) levels ⟨offset, '[' :: more⟩) (arr values) rest := by
  obtain ⟨nodes, after, scanEq, nodesEq⟩ := items
  refine ⟨.list nodes none, after, ?_, ?_⟩
  · simp [readValue, levelsPos.ne', scanEq]
  · simp only [Node.toJson, nodesEq, ok_bind, Flaw.check]

/-- A brace and entries up to the closing one are read as an object with sorted keys. -/
theorem readValue_object {fuel levels offset : Nat} {more rest : List Char}
    {values : List (String × Json)} (levelsPos : 0 < levels)
    (fields : YieldsFields (readEntries fuel (levels - 1) true ⟨offset + 1, more⟩) values rest) :
    Yields (readValue (fuel + 1) levels ⟨offset, '\x7b' :: more⟩) (obj (Keyed.sorted values))
      rest := by
  obtain ⟨read, after, scanEq, stopEq, fieldsEq⟩ := fields
  refine ⟨.table read.entries read.stop read.alone, after, ?_, ?_⟩
  · simp [readValue, levelsPos.ne', scanEq]
  · simp only [Node.toJson, fieldsEq, ok_bind, stopEq, Flaw.check]

/-! ## Written lists and objects -/

/-- The written parts of a list or an object after the first one. -/
def laterParts (depth : Nat) (parts : List String) : List Char :=
  parts.flatMap fun part => ',' :: '\n' :: ((indent depth).toList ++ part.toList)

theorem toList_join (separator first : String) (later : List String) :
    (Text.join separator (first :: later)).toList =
      first.toList ++ later.flatMap fun part => separator.toList ++ part.toList := by
  induction later generalizing first with
  | nil => simp [Text.join]
  | cons second later ih =>
      rw [Text.join, String.toList_append, String.toList_append, ih, List.flatMap_cons]
      · simp
      · rintro ⟨⟩

/-- What stands between brackets: the first part, the later parts, and the line of the
closing bracket. -/
theorem toList_bracketed (opening closing : String) (depth : Nat) (part : String)
    (parts : List String) :
    (bracketed opening closing depth (part :: parts)).toList =
      opening.toList ++ '\n' :: ((indent (depth + 1)).toList ++ (part.toList ++
        (laterParts (depth + 1) parts ++ '\n' :: ((indent depth).toList ++ closing.toList)))) := by
  simp [bracketed, toList_join, laterParts, List.flatMap_map]

theorem isSpace_indent (depth : Nat) : ∀ c ∈ '\n' :: (indent depth).toList, isSpace c = true := by
  intro c member
  rcases List.mem_cons.mp member with rfl | inIndent
  · rfl
  · rw [indent, String.toList_ofList] at inIndent
    rw [List.eq_of_mem_replicate inIndent]
    rfl

theorem ends_laterParts (depth depth' : Nat) (parts : List String) (rest : List Char) :
    Ends (laterParts depth parts ++ '\n' :: ((indent depth').toList ++ rest)) := by
  intro c member
  cases parts with
  | nil => exact Or.inr (Option.some.inj member).symm
  | cons part parts => exact Or.inl (Option.some.inj member).symm

/-- The indented text of a value is read as the value, wherever it stands. -/
def ReadsBack (value : Json) : Prop :=
  ∀ ⦃depth levels fuel : Nat⦄ ⦃rest : List Char⦄, Readable value levels → Ends rest →
    4 * (prettyAt depth value).toList.length ≤ fuel → ∀ offset,
      Yields (readValue fuel levels ⟨offset, (prettyAt depth value).toList ++ rest⟩)
        (reread value) rest

/-- The items of a list after the first one are read as the items. -/
theorem readItems_laterParts {items : List Json} (each : ∀ item ∈ items, ReadsBack item)
    {depth levels fuel : Nat} (depth' : Nat) (rest : List Char)
    (readable : ReadableItems items levels)
    (enough : 4 * (laterParts depth (prettyItems depth items)).length < fuel) (offset : Nat) :
    YieldsItems (readItems fuel levels false ⟨offset, laterParts depth (prettyItems depth items) ++
      '\n' :: ((indent depth').toList ++ ']' :: rest)⟩) (rereadItems items) rest := by
  induction items generalizing fuel offset with
  | nil =>
      obtain ⟨fuel, rfl⟩ : ∃ n, fuel = n + 1 := ⟨fuel - 1, by omega⟩
      exact ⟨[], _, readItems_close (isSpace_indent depth') false, rfl⟩
  | cons item items ih =>
      obtain ⟨itemReadable, itemsReadable⟩ := readable
      rw [prettyItems, laterParts, List.flatMap_cons, ← laterParts] at enough ⊢
      simp only [List.length_append, List.length_cons] at enough
      obtain ⟨fuel, rfl⟩ : ∃ n, fuel = n + 1 := ⟨fuel - 1, by omega⟩
      have here := each item List.mem_cons_self itemReadable
        (ends_laterParts depth depth' (prettyItems depth items) (']' :: rest))
        (show 4 * (prettyAt depth item).toList.length ≤ fuel by omega)
      have later := ih (fun item member => each item (List.mem_cons_of_mem _ member)) itemsReadable
        (show 4 * _ < fuel by omega)
      have yields := readItems_next_yields (isSpace_indent depth) here later offset
      rw [rereadItems]
      simpa only [List.cons_append, List.append_assoc] using yields

/-- The fields of an object after the first one are read as the fields. -/
theorem readEntries_laterParts {fields : List (String × Json)}
    (each : ∀ field ∈ fields, ReadsBack field.2) {depth levels fuel : Nat} (depth' : Nat)
    (rest : List Char) (readable : ReadableFields fields levels)
    (enough : 4 * (laterParts depth (prettyFields depth fields)).length < fuel) (offset : Nat) :
    YieldsFields (readEntries fuel levels false ⟨offset,
      laterParts depth (prettyFields depth fields) ++
        '\n' :: ((indent depth').toList ++ '\x7d' :: rest)⟩) (rereadFields fields) rest := by
  induction fields generalizing fuel offset with
  | nil =>
      obtain ⟨fuel, rfl⟩ : ∃ n, fuel = n + 1 := ⟨fuel - 1, by omega⟩
      obtain ⟨alone, closeEq⟩ := readEntries_close (isSpace_indent depth') false
      exact ⟨_, _, closeEq, rfl, rfl⟩
  | cons field fields ih =>
      obtain ⟨valueReadable, fieldsReadable⟩ := readable
      rw [prettyFields, laterParts, List.flatMap_cons, ← laterParts] at enough ⊢
      simp only [List.length_append, List.length_cons, String.toList_append] at enough
      obtain ⟨fuel, rfl⟩ : ∃ n, fuel = n + 3 := ⟨fuel - 3, by omega⟩
      have here := each field List.mem_cons_self valueReadable
        (ends_laterParts depth depth' (prettyFields depth fields) ('\x7d' :: rest))
        (show 4 * (prettyAt depth field.2).toList.length ≤ fuel by omega)
      have later := ih (fun item member => each item (List.mem_cons_of_mem _ member)) fieldsReadable
        (show 4 * _ < fuel + 1 by omega)
      have yields := readEntries_next_yields field.1 here later (isSpace_indent depth) offset
      have colon : ": ".toList = [':', ' '] := rfl
      rw [rereadFields]
      simpa only [List.cons_append, List.append_assoc, String.toList_append, colon, List.nil_append]
        using yields

/-- A list reads back if its items do. -/
theorem readsBack_arr {items : List Json} (each : ∀ item ∈ items, ReadsBack item) :
    ReadsBack (arr items) := by
  intro depth levels fuel rest readable ends enough offset
  obtain ⟨levelsPos, itemsReadable⟩ := readable
  have opening : "[".toList = ['['] := rfl
  have closing : "]".toList = [']'] := rfl
  rw [prettyAt] at enough ⊢
  rw [reread]
  cases items with
  | nil =>
      simp only [prettyItems, bracketed, String.toList_append, opening, closing] at enough ⊢
      obtain ⟨fuel, rfl⟩ : ∃ n, fuel = n + 2 := ⟨fuel - 2, by simp at enough; omega⟩
      exact readValue_list levelsPos ⟨[], _, readItems_close (show ∀ c ∈ [], _ by simp) true, rfl⟩
  | cons item items =>
      rw [prettyItems, toList_bracketed, opening, closing] at enough ⊢
      simp only [List.length_append, List.length_cons] at enough
      obtain ⟨fuel, rfl⟩ : ∃ n, fuel = n + 2 := ⟨fuel - 2, by omega⟩
      have here := each item List.mem_cons_self itemsReadable.1
        (ends_laterParts (depth + 1) depth (prettyItems (depth + 1) items) (']' :: rest))
        (show 4 * (prettyAt (depth + 1) item).toList.length ≤ fuel by omega)
      have later := readItems_laterParts
        (fun item member => each item (List.mem_cons_of_mem _ member)) depth rest itemsReadable.2
        (show 4 * (laterParts (depth + 1) (prettyItems (depth + 1) items)).length < fuel by omega)
      have yields := readValue_list levelsPos
        (readItems_first_yields (isSpace_indent (depth + 1)) here later (offset + 1))
      rw [rereadItems]
      simpa only [List.cons_append, List.append_assoc, List.nil_append] using yields

/-- An object reads back if its values do. -/
theorem readsBack_obj {fields : List (String × Json)} (each : ∀ field ∈ fields, ReadsBack field.2) :
    ReadsBack (obj fields) := by
  intro depth levels fuel rest readable ends enough offset
  obtain ⟨levelsPos, fieldsReadable⟩ := readable
  have opening : "\x7b".toList = ['\x7b'] := rfl
  have closing : "\x7d".toList = ['\x7d'] := rfl
  rw [prettyAt] at enough ⊢
  rw [reread]
  cases fields with
  | nil =>
      simp only [prettyFields, bracketed, String.toList_append, opening, closing] at enough ⊢
      obtain ⟨fuel, rfl⟩ : ∃ n, fuel = n + 2 := ⟨fuel - 2, by simp at enough; omega⟩
      obtain ⟨alone, closeEq⟩ := readEntries_close (show ∀ c ∈ [], _ by simp) true
      exact readValue_object levelsPos ⟨_, _, closeEq, rfl, rfl⟩
  | cons field fields =>
      rw [prettyFields, toList_bracketed, opening, closing] at enough ⊢
      simp only [List.length_append, List.length_cons, String.toList_append] at enough
      obtain ⟨fuel, rfl⟩ : ∃ n, fuel = n + 4 := ⟨fuel - 4, by omega⟩
      have here := each field List.mem_cons_self fieldsReadable.1
        (ends_laterParts (depth + 1) depth (prettyFields (depth + 1) fields) ('\x7d' :: rest))
        (show 4 * (prettyAt (depth + 1) field.2).toList.length ≤ fuel by omega)
      have later := readEntries_laterParts
        (fun field member => each field (List.mem_cons_of_mem _ member)) depth rest fieldsReadable.2
        (show 4 * (laterParts (depth + 1) (prettyFields (depth + 1) fields)).length < fuel + 1 by
          omega)
      have yields := readValue_object levelsPos
        (readEntries_first_yields field.1 here later (isSpace_indent (depth + 1)) (offset + 1))
      have colon : ": ".toList = [':', ' '] := rfl
      rw [rereadFields]
      simpa only [List.cons_append, List.append_assoc, String.toList_append, colon, List.nil_append]
        using yields

/-- The text of a value without parts is not empty, so there is fuel for reading it. -/
theorem readsBack_scalar {value : Json} {text : String}
    (textEq : ∀ depth, prettyAt depth value = text)
    (reads : ∀ levels rest, Readable value levels → Ends rest → ∀ fuel offset,
      Yields (readValue (fuel + 1) levels ⟨offset, text.toList ++ rest⟩) (reread value) rest) :
    ReadsBack value := by
  intro depth levels fuel rest readable ends enough offset
  rw [textEq] at enough ⊢
  obtain ⟨c, more, alone, -⟩ := (reads levels [] readable (by simp [Ends]) 0 0).head
  rw [List.append_nil] at alone
  rw [alone, List.length_cons] at enough
  obtain ⟨fuel, rfl⟩ : ∃ n, fuel = n + 1 := ⟨fuel - 1, by omega⟩
  exact reads levels rest readable ends fuel offset

/-- The indented text of every value is read as that value. -/
theorem readsBack (value : Json) : ReadsBack value := by
  induction value using memberInduction with
  | null =>
      exact readsBack_scalar (fun _ => rfl) fun levels rest _ _ fuel offset =>
        readValue_null fuel levels offset rest
  | bool value =>
      exact readsBack_scalar (fun _ => rfl) fun levels rest _ _ fuel offset =>
        readValue_bool value fuel levels offset rest
  | int value =>
      exact readsBack_scalar (fun _ => rfl) fun levels _ readable ends fuel offset =>
        readValue_int readable.1 readable.2 fuel levels offset ends
  | float value =>
      exact readsBack_scalar (fun _ => rfl) fun levels _ readable ends fuel offset =>
        readValue_float readable fuel levels offset ends
  | str value =>
      exact readsBack_scalar (fun _ => rfl) fun levels rest _ _ fuel offset =>
        readValue_str value fuel levels offset rest
  | arr items each => exact readsBack_arr each
  | obj fields each => exact readsBack_obj each

/-- Reading the indented text of a value gives the value back, also with a line break after it. -/
theorem parse_pretty {value : Json} (readable : Readable value maxDepth) {blanks : String}
    (ends : Ends blanks.toList) (allBlank : ∀ c ∈ blanks.toList, isSpace c = true) :
    parse (value.pretty ++ blanks) = .ok (reread value) := by
  apply parse_eq_ok allBlank
  rw [String.toList_append]
  apply readsBack value readable ends
  rw [String.length_append, String.length_toList]
  exact (Nat.mul_le_mul_left 4 (Nat.le_add_right _ _)).trans (Nat.le_add_right _ _)

end RestPlugin.Json
