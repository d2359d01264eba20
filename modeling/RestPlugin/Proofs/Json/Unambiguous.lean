import RestPlugin.Proofs.Json.RoundTrip

/-!
# Values with one indented text

The indented text of a value shows its lists, its objects with their keys, and the texts of its
scalars, and nothing of that can be read in two ways.  So two values have one text exactly if they
are put together in the same way from scalars with the same texts.  This holds of all values,
however deep and with whatever numbers; which scalars share a text is another matter.
-/

namespace RestPlugin.Json

open Number

/-! ## The scalars of a value by their texts -/

mutual

/-- The value with the text of each scalar in the place of the scalar. -/
def spelled : Json → Json
  | arr items => arr (spelledItems items)
  | obj fields => obj (spelledFields fields)
  | scalar => str (scalarText scalar)
termination_by structural value => value

/-- The items with the texts of their scalars. -/
def spelledItems : List Json → List Json
  | [] => []
  | item :: rest => spelled item :: spelledItems rest
termination_by structural items => items

/-- The fields with the texts of their scalars. -/
def spelledFields : List (String × Json) → List (String × Json)
  | [] => []
  | (key, value) :: rest => (key, spelled value) :: spelledFields rest
termination_by structural fields => fields

end

@[simp]
theorem spelled_arr (items : List Json) : spelled (arr items) = arr (items.map spelled) := by
  have each : ∀ items, spelledItems items = items.map spelled := by
    intro items
    induction items with
    | nil => rfl
    | cons item items ih => rw [spelledItems, ih, List.map_cons]
  rw [spelled, each]

@[simp]
theorem spelled_obj (fields : List (String × Json)) :
    spelled (obj fields) = obj (Keyed.mapValues spelled fields) := by
  have each : ∀ fields, spelledFields fields = Keyed.mapValues spelled fields := by
    intro fields
    induction fields with
    | nil => rfl
    | cons field fields ih =>
        rw [spelledFields, ih, Keyed.mapValues, Keyed.mapValues, List.map_cons]
  rw [spelled, each]

@[simp]
theorem sortKeys_arr (items : List Json) : sortKeys (arr items) = arr (items.map sortKeys) := by
  rw [sortKeys, sortItems_eq_map]

@[simp]
theorem sortKeys_obj (fields : List (String × Json)) :
    sortKeys (obj fields) = obj (Keyed.sorted (Keyed.mapValues sortKeys fields)) := by
  rw [sortKeys, sortFields_eq_mapValues]

theorem prettyItems_eq_map (depth : Nat) (items : List Json) :
    prettyItems depth items = items.map (prettyAt depth) := by
  induction items with
  | nil => rfl
  | cons item items ih => rw [prettyItems, ih, List.map_cons]

/-- The text of a field of an object. -/
def fieldText (depth : Nat) (field : String × Json) : String :=
  quote field.1 ++ ": " ++ prettyAt depth field.2

theorem prettyFields_eq_map (depth : Nat) (fields : List (String × Json)) :
    prettyFields depth fields = fields.map (fieldText depth) := by
  induction fields with
  | nil => rfl
  | cons field fields ih => rw [prettyFields, ih, List.map_cons, fieldText]

/-! ## Scalars, lists and objects -/

/-- Whether a value has no parts. -/
def IsScalar : Json → Prop
  | arr _ | obj _ => False
  | _ => True

theorem IsScalar.spelled_eq {value : Json} (scalar : value.IsScalar) :
    value.spelled = str value.scalarText := by
  cases value <;> first | rfl | exact scalar.elim

/-- A scalar is written in the same way at every depth. -/
theorem IsScalar.prettyAt_eq {value : Json} (scalar : value.IsScalar) (depth : Nat) :
    prettyAt depth value = value.scalarText := by
  cases value <;> first | rfl | exact scalar.elim

/-- Induction that tells lists, objects and scalars apart. -/
@[elab_as_elim]
theorem partInduction {motive : Json → Prop} (scalar : ∀ value, IsScalar value → motive value)
    (arr : ∀ items, (∀ item ∈ items, motive item) → motive (arr items))
    (obj : ∀ fields, (∀ field ∈ fields, motive field.2) → motive (obj fields)) (value : Json) :
    motive value := by
  induction value using memberInduction with
  | null => exact scalar _ trivial
  | bool value => exact scalar _ trivial
  | int value => exact scalar _ trivial
  | float value => exact scalar _ trivial
  | str value => exact scalar _ trivial
  | arr items each => exact arr items each
  | obj fields each => exact obj fields each

/-- Values with the same spelling have the same text. -/
theorem prettyAt_eq_of_spelled_eq {first second : Json} (same : first.spelled = second.spelled)
    (depth : Nat) : prettyAt depth first = prettyAt depth second := by
  induction first using partInduction generalizing second depth with
  | scalar first isScalar =>
      cases second using partInduction with
      | scalar second isScalar' =>
          rw [isScalar.spelled_eq, isScalar'.spelled_eq] at same
          rw [isScalar.prettyAt_eq, isScalar'.prettyAt_eq]
          exact str.inj same
      | arr items => simp [isScalar.spelled_eq] at same
      | obj fields => simp [isScalar.spelled_eq] at same
  | arr items each =>
      cases second using partInduction with
      | scalar second isScalar => simp [isScalar.spelled_eq] at same
      | arr others =>
          rw [spelled_arr, spelled_arr] at same
          rw [prettyAt, prettyAt, prettyItems_eq_map, prettyItems_eq_map]
          congr 1
          apply map_eq_of_map_eq _ (arr.inj same)
          exact fun item member other _ itemSame => each item member itemSame (depth + 1)
      | obj fields => simp at same
  | obj fields each =>
      cases second using partInduction with
      | scalar second isScalar => simp [isScalar.spelled_eq] at same
      | arr items => simp at same
      | obj others =>
          rw [spelled_obj, spelled_obj] at same
          rw [prettyAt, prettyAt, prettyFields_eq_map, prettyFields_eq_map]
          congr 1
          apply map_eq_of_map_eq _ (obj.inj same)
          intro field member other _ fieldSame
          obtain ⟨keyEq, valueEq⟩ := Prod.mk.inj fieldSame
          rw [fieldText, fieldText, keyEq, each field member valueEq (depth + 1)]

/-! ## Reading off the parts -/

/-- A text that ends at a comma, a line break or the end can be cut off in one way only. -/
def Determined {α β : Type} (write : α → String) (image : α → β) (first : α) : Prop :=
  ∀ ⦃second : α⦄ ⦃rest rest' : List Char⦄, Ends rest → Ends rest' →
    (write first).toList ++ rest = (write second).toList ++ rest' →
    image first = image second ∧ rest = rest'

/-- The characters of scalars that are no strings. -/
def isBare (c : Char) : Bool := Text.isAlnum c || c == '.' || c == '+' || c == '-'

theorem Ends.takeWhile_isBare {rest : List Char} (ends : Ends rest) :
    rest.takeWhile isBare = [] := by
  cases rest with
  | nil => rfl
  | cons c rest => rcases ends c rfl with rfl | rfl <;> rfl

/-- Bare texts end where the first other character stands. -/
theorem append_inj_of_isBare {first second rest rest' : List Char}
    (firstBare : ∀ c ∈ first, isBare c = true) (secondBare : ∀ c ∈ second, isBare c = true)
    (ends : Ends rest) (ends' : Ends rest') (same : first ++ rest = second ++ rest') :
    first = second ∧ rest = rest' := by
  have firstEq : (first ++ rest).takeWhile isBare = first := by
    rw [List.takeWhile_append_of_pos firstBare, ends.takeWhile_isBare, List.append_nil]
  have secondEq : (second ++ rest').takeWhile isBare = second := by
    rw [List.takeWhile_append_of_pos secondBare, ends'.takeWhile_isBare, List.append_nil]
  have firstSecond : first = second := by rw [← firstEq, same, secondEq]
  rw [firstSecond] at same
  exact ⟨firstSecond, List.append_cancel_left same⟩

/-- A string literal ends at its closing quote. -/
theorem quote_append_inj {first second : String} {rest rest' : List Char}
    (same : (quote first).toList ++ rest = (quote second).toList ++ rest') :
    first = second ∧ rest = rest' := by
  rw [toList_quote_append, toList_quote_append, List.cons.injEq] at same
  obtain ⟨after, read⟩ := readString_quote first rest 0
  obtain ⟨after', read'⟩ := readString_quote second rest' 0
  rw [same.2, read', Except.ok.injEq, Prod.mk.injEq, Cursor.mk.injEq] at read
  exact ⟨read.1.symm, read.2.2.symm⟩

section Parts

variable {α β : Type} {write : α → String} {image : α → β}

theorem laterParts_cons (depth : Nat) (part : String) (parts : List String) (rest : List Char) :
    laterParts depth (part :: parts) ++ rest =
      ',' :: '\n' ::
        ((indent depth).toList ++ (part.toList ++ (laterParts depth parts ++ rest))) := by
  simp [laterParts]

/-- Later parts that are each determined by what is written are determined together. -/
theorem laterParts_inj {first second : List α} (each : ∀ part ∈ first, Determined write image part)
    {depth depth' : Nat} {closing rest rest' : List Char}
    (same : laterParts depth (first.map write) ++
        '\n' :: ((indent depth').toList ++ (closing ++ rest)) =
      laterParts depth (second.map write) ++
        '\n' :: ((indent depth').toList ++ (closing ++ rest'))) :
    first.map image = second.map image ∧ rest = rest' := by
  induction first generalizing second with
  | nil =>
      cases second with
      | nil => exact ⟨rfl, by simpa [laterParts] using same⟩
      | cons other second => simp [laterParts] at same
  | cons part first ih =>
      cases second with
      | nil => simp [laterParts] at same
      | cons other second =>
          rw [List.forall_mem_cons] at each
          rw [List.map_cons, List.map_cons, laterParts_cons, laterParts_cons, List.cons.injEq,
            List.cons.injEq] at same
          obtain ⟨partEq, laterEq⟩ := each.1 (ends_laterParts _ _ _ _) (ends_laterParts _ _ _ _)
            (List.append_cancel_left same.2.2)
          obtain ⟨imageEq, restEq⟩ := ih each.2 laterEq
          rw [List.map_cons, List.map_cons, partEq, imageEq]
          exact ⟨rfl, restEq⟩

/-- The parts between two brackets can be told apart if each part can. -/
theorem bracketed_inj {first second : List α} (each : ∀ part ∈ first, Determined write image part)
    {opening closing : String} (closes : closing.toList.head? ≠ some '\n')
    (nonempty : closing.toList ≠ []) {depth : Nat} {rest rest' : List Char}
    (same : (bracketed opening closing depth (first.map write)).toList ++ rest =
      (bracketed opening closing depth (second.map write)).toList ++ rest') :
    first.map image = second.map image ∧ rest = rest' := by
  obtain ⟨c, tail, closingEq⟩ := List.exists_cons_of_ne_nil nonempty
  have notBreak : c ≠ '\n' := fun isBreak => closes (by rw [closingEq, isBreak]; rfl)
  cases first with
  | nil =>
      cases second with
      | nil => exact ⟨rfl, List.append_cancel_left same⟩
      | cons other second =>
          rw [List.map_cons, toList_bracketed] at same
          simp [bracketed, closingEq, notBreak] at same
  | cons part first =>
      cases second with
      | nil =>
          rw [List.map_cons, toList_bracketed] at same
          simp [bracketed, closingEq, notBreak.symm] at same
      | cons other second =>
          rw [List.forall_mem_cons] at each
          rw [List.map_cons, List.map_cons, toList_bracketed, toList_bracketed] at same
          simp only [List.append_assoc, List.append_cancel_left_eq, List.cons_append,
            List.cons.injEq, true_and] at same
          obtain ⟨partEq, laterEq⟩ :=
            each.1 (ends_laterParts _ _ _ _) (ends_laterParts _ _ _ _) same
          obtain ⟨imageEq, restEq⟩ := laterParts_inj each.2 laterEq
          rw [List.map_cons, List.map_cons, partEq, imageEq]
          exact ⟨rfl, restEq⟩

end Parts

/-! ## Characters of scalars -/

theorem isBare_of_isDigit {c : Char} (digit : Text.isDigit c = true) : isBare c = true := by
  simp [isBare, Text.isAlnum, digit]

theorem isBare_of_mem_toDigits {n : Nat} {c : Char} (member : c ∈ Nat.toDigits 10 n) :
    isBare c = true :=
  isBare_of_isDigit (isDigit_of_mem_toDigits member)

theorem isBare_of_mem_positional {digits : List Char} (allBare : ∀ c ∈ digits, isBare c = true)
    (point : Int) : ∀ c ∈ positional ".0" digits point, isBare c = true := by
  have zeros : ∀ n, ∀ c ∈ List.replicate n '0', isBare c = true := by
    intro n c member
    rw [List.eq_of_mem_replicate member]
    rfl
  have suffix : ∀ c ∈ ".0".toList, isBare c = true := List.all_eq_true.mp (by decide)
  rw [positional]
  split
  · rw [List.forall_mem_cons, List.forall_mem_cons, List.forall_mem_append]
    exact ⟨rfl, rfl, zeros _, allBare⟩
  · split
    · rw [List.forall_mem_append, List.forall_mem_cons]
      exact ⟨fun c member => allBare c (List.mem_of_mem_take member), rfl,
        fun c member => allBare c (List.mem_of_mem_drop member)⟩
    · rw [List.forall_mem_append, List.forall_mem_append]
      exact ⟨⟨allBare, zeros _⟩, suffix⟩

theorem isBare_of_mem_scientific {digits : List Char} (allBare : ∀ c ∈ digits, isBare c = true)
    (exponent : Int) : ∀ c ∈ scientific digits exponent, isBare c = true := by
  have mark : ∀ c ∈ 'e' :: (if exponent < 0 then '-' else '+') :: Nat.toDigits 10 exponent.natAbs,
      isBare c = true := by
    rw [List.forall_mem_cons, List.forall_mem_cons]
    refine ⟨rfl, ?_, fun c member => isBare_of_mem_toDigits member⟩
    split <;> rfl
  rw [scientific.eq_def]
  dsimp only
  split
  · exact mark
  · rw [List.forall_mem_cons]
    exact ⟨allBare _ List.mem_cons_self, mark⟩
  · rw [List.forall_mem_cons, List.forall_mem_cons, List.forall_mem_append]
    rw [List.forall_mem_cons] at allBare
    exact ⟨allBare.1, rfl, allBare.2, mark⟩

/-- A float is written with bare characters only. -/
theorem isBare_of_mem_write (value : Binary64) :
    ∀ c ∈ (numberLayout.write value).toList, isBare c = true := by
  cases value with
  | nan => exact List.all_eq_true.mp (by decide)
  | infinite negative => exact List.all_eq_true.mp (by cases negative <;> decide)
  | finite negative mantissa exponent =>
      have sign : ∀ c ∈ (if negative then ['-'] else []), isBare c = true := by
        exact List.all_eq_true.mp (by cases negative <;> decide)
      rw [Layout.write]
      split
      · rw [String.toList_ofList, List.forall_mem_append]
        exact ⟨sign, List.all_eq_true.mp (by decide)⟩
      · rw [String.toList_ofList, List.forall_mem_append]
        refine ⟨sign, ?_⟩
        split
        · exact isBare_of_mem_positional (fun c member => isBare_of_mem_toDigits member) _
        · exact isBare_of_mem_scientific (fun c member => isBare_of_mem_toDigits member) _

theorem isBare_of_mem_toString (value : Int) :
    ∀ c ∈ (toString value).toList, isBare c = true := by
  rw [Int.toString_eq_repr, Int.repr_eq_if]
  split
  · simpa using fun c member => isBare_of_mem_toDigits member
  · simpa using ⟨rfl, fun c member => isBare_of_mem_toDigits member⟩

/-! ## Whole values -/

/-- The first character of a string and of a value with parts. -/
def opening : Json → Option Char
  | arr _ => some '['
  | obj _ => some '\x7b'
  | str _ => some '"'
  | _ => none

/-- Whether a text begins like a string or like a value with parts. -/
def isOpening (c : Char) : Bool := c == '[' || c == '\x7b' || c == '"'

/-- All other values have bare texts. -/
theorem isBare_of_opening_eq_none {value : Json} (noOpening : value.opening = none) :
    value.IsScalar ∧ ∀ c ∈ value.scalarText.toList, isBare c = true := by
  cases value with
  | null => exact ⟨trivial, List.all_eq_true.mp (by decide)⟩
  | bool value => exact ⟨trivial, List.all_eq_true.mp (by cases value <;> decide)⟩
  | int value => exact ⟨trivial, isBare_of_mem_toString value⟩
  | float value => exact ⟨trivial, isBare_of_mem_write value⟩
  | str value => cases noOpening
  | arr items => cases noOpening
  | obj fields => cases noOpening

theorem isOpening_eq_false_of_isBare {c : Char} (bare : isBare c = true) :
    isOpening c = false := by
  by_contra opening
  simp only [isOpening, Bool.not_eq_false, Bool.or_eq_true, beq_iff_eq] at opening
  rcases opening with (rfl | rfl) | rfl <;> exact absurd bare (by decide)

/-- The first character tells strings, lists, objects and all other values apart. -/
theorem filter_head?_prettyAt (value : Json) (depth : Nat) {rest : List Char} (ends : Ends rest) :
    ((prettyAt depth value).toList ++ rest).head?.filter isOpening = value.opening := by
  cases openingEq : value.opening with
  | none =>
      obtain ⟨scalar, allBare⟩ := isBare_of_opening_eq_none openingEq
      rw [scalar.prettyAt_eq]
      cases textEq : value.scalarText.toList with
      | nil =>
          cases rest with
          | nil => rfl
          | cons c rest => rcases ends c rfl with rfl | rfl <;> rfl
      | cons c text =>
          have bare : isBare c = true := allBare c (by rw [textEq]; exact List.mem_cons_self)
          simp [isOpening_eq_false_of_isBare bare]
  | some c =>
      cases value with
      | str text =>
          cases openingEq
          rw [prettyAt, scalarText, toList_quote_append]
          · rfl
          · simp
          · simp
      | arr items =>
          cases openingEq
          rw [prettyAt]
          cases items <;> simp [prettyItems, bracketed, isOpening]
      | obj fields =>
          cases openingEq
          rw [prettyAt]
          cases fields <;> simp [prettyFields, bracketed, isOpening]
      | _ => cases openingEq

/-- Values that are written alike open alike. -/
theorem opening_eq_of_prettyAt_append {first second : Json} {depth : Nat} {rest rest' : List Char}
    (ends : Ends rest) (ends' : Ends rest')
    (same : (prettyAt depth first).toList ++ rest = (prettyAt depth second).toList ++ rest') :
    first.opening = second.opening := by
  rw [← filter_head?_prettyAt first depth ends, same, filter_head?_prettyAt second depth ends']

/-- A value without an opening character is determined by what is written. -/
theorem determined_of_opening_eq_none {value : Json} (noOpening : value.opening = none)
    (depth : Nat) : Determined (prettyAt depth) spelled value := by
  intro second rest rest' ends ends' same
  have noOpening' : second.opening = none := by
    rw [← noOpening, opening_eq_of_prettyAt_append ends ends' same]
  obtain ⟨scalar, allBare⟩ := isBare_of_opening_eq_none noOpening
  obtain ⟨scalar', allBare'⟩ := isBare_of_opening_eq_none noOpening'
  rw [scalar.prettyAt_eq, scalar'.prettyAt_eq] at same
  obtain ⟨textEq, restEq⟩ := append_inj_of_isBare allBare allBare' ends ends' same
  rw [scalar.spelled_eq, scalar'.spelled_eq, String.toList_injective textEq]
  exact ⟨rfl, restEq⟩

theorem determined_fieldText {field : String × Json} {depth : Nat}
    (value : Determined (prettyAt depth) spelled field.2) :
    Determined (fieldText depth) (fun field => (field.1, field.2.spelled)) field := by
  intro second rest rest' ends ends' same
  simp only [fieldText, String.toList_append, List.append_assoc] at same
  obtain ⟨keyEq, afterKey⟩ := quote_append_inj same
  obtain ⟨valueEq, restEq⟩ := value ends ends' (List.append_cancel_left afterKey)
  exact ⟨Prod.ext keyEq valueEq, restEq⟩

/-- The indented text of a value shows how the value is put together. -/
theorem determined_prettyAt (value : Json) (depth : Nat) :
    Determined (prettyAt depth) spelled value := by
  induction value using memberInduction generalizing depth with
  | null => exact determined_of_opening_eq_none rfl depth
  | bool value => exact determined_of_opening_eq_none rfl depth
  | int value => exact determined_of_opening_eq_none rfl depth
  | float value => exact determined_of_opening_eq_none rfl depth
  | str text =>
      intro second rest rest' ends ends' same
      have openings := opening_eq_of_prettyAt_append ends ends' same
      cases second with
      | str other =>
          obtain ⟨textEq, restEq⟩ := quote_append_inj same
          rw [textEq]
          exact ⟨rfl, restEq⟩
      | _ => cases openings
  | arr items each =>
      intro second rest rest' ends ends' same
      have openings := opening_eq_of_prettyAt_append ends ends' same
      cases second with
      | arr others =>
          rw [prettyAt, prettyAt, prettyItems_eq_map, prettyItems_eq_map] at same
          obtain ⟨itemsEq, restEq⟩ := bracketed_inj
            (fun item member => each item member (depth + 1)) (by decide) (by decide) same
          rw [spelled_arr, spelled_arr, itemsEq]
          exact ⟨rfl, restEq⟩
      | _ => cases openings
  | obj fields each =>
      intro second rest rest' ends ends' same
      have openings := opening_eq_of_prettyAt_append ends ends' same
      cases second with
      | obj others =>
          rw [prettyAt, prettyAt, prettyFields_eq_map, prettyFields_eq_map] at same
          obtain ⟨fieldsEq, restEq⟩ := bracketed_inj
            (fun field member => determined_fieldText (each field member (depth + 1)))
            (by decide) (by decide) same
          rw [spelled_obj, spelled_obj, Keyed.mapValues, Keyed.mapValues, fieldsEq]
          exact ⟨rfl, restEq⟩
      | _ => cases openings

/-- Two values have one indented text exactly if they are put together in the same way from scalars
with the same texts. -/
theorem pretty_eq_iff {first second : Json} :
    first.pretty = second.pretty ↔ first.spelled = second.spelled := by
  constructor
  · intro same
    have atEnd : Ends [] := by simp [Ends]
    apply (determined_prettyAt first 0 atEnd atEnd _).1
    rw [← pretty, same, pretty]
  · exact fun same => prettyAt_eq_of_spelled_eq same 0

end RestPlugin.Json
