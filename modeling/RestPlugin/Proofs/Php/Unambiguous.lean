import RestPlugin.Proofs.Php.Atoms

/-!
# The text of an expression determines it

Every regular tree is readable, so the reader gives it back from its text.  Hence no two regular
trees have the same text: parentheses stand wherever a tree would otherwise be read as another one.
-/

namespace RestPlugin.Php

open Reader

theorem keyword_ne_of_not_reserved {word : String} (free : word ∉ reservedWords)
    (keyword : Keyword) : keyword.text ≠ word := by
  rintro rfl
  cases keyword <;> exact free (by decide)

theorem Expr.Regular.constant_ne_default {expr : Expr} (regular : expr.Regular) :
    Expr.constant ⟨["default"]⟩ ≠ expr := by
  rintro rfl
  obtain ⟨⟨-, plain⟩, -⟩ := regular
  exact plain.words "default" List.mem_cons_self (by decide)

/-- Reading the text of a regular tree gives the tree. -/
theorem Expr.Regular.readable {expr : Expr} (regular : expr.Regular) : Readable expr := by
  induction regular with
  | node here below ih =>
      rename_i expr
      obtain ⟨⟨identifiers, shaped⟩, free, simple⟩ := here
      -- Each kind of node is readable if its parts are.
      have others : ∀ word ∈ words expr, ∀ keyword : Keyword, keyword.text ≠ word :=
        fun word member => keyword_ne_of_not_reserved (free word member)
      cases expr with
      | var name => exact readable_var (identifiers name List.mem_cons_self)
      | string value => exact readable_string simple.1
      | int value => exact readable_int value
      | constant name =>
          exact readable_constant (IsShaped.parts_ne_nil shaped) identifiers others
      | classConstant className name =>
          obtain ⟨identifier, areIdentifiers⟩ := List.forall_mem_cons.mp identifiers
          exact readable_classConstant shaped areIdentifiers (List.forall_mem_cons.mp others).2
            identifier
      | array items =>
          have memParts {item : ArrayItem} (itemMem : item ∈ items) {part : Expr}
              (partMem : part ∈ item.parts) : part ∈ (Expr.array items).parts :=
            List.mem_flatMap.mpr ⟨item, itemMem, partMem⟩
          exact readable_array (fun item itemMem part partMem => ih part (memParts itemMem partMem))
            fun item itemMem => framed_itemText fun part partMem =>
              Regular.framed (below part (memParts itemMem partMem))
      | element base key =>
          obtain ⟨baseReadable, keyReadable⟩ := List.forall_mem_cons.mp ih
          cases key with
          | none => exact readable_append baseReadable
          | some key =>
              exact readable_element baseReadable (keyReadable key (by simp))
                (Regular.framed (below key (by simp [parts])))
      | property base name =>
          exact readable_property (ih base List.mem_cons_self)
            (identifiers name List.mem_cons_self)
      | call name args =>
          exact readable_call shaped identifiers others ih
      | methodCall base name args =>
          obtain ⟨baseReadable, argsReadable⟩ := List.forall_mem_cons.mp ih
          exact readable_methodCall baseReadable (identifiers name List.mem_cons_self) argsReadable
      | staticCall className name args =>
          obtain ⟨identifier, areIdentifiers⟩ := List.forall_mem_cons.mp identifiers
          exact readable_staticCall shaped areIdentifiers (List.forall_mem_cons.mp others).2
            identifier ih
      | new className args => exact readable_new shaped identifiers ih
      | assign target value =>
          exact readable_assign (ih target (by simp [parts])) (ih value (by simp [parts])) shaped
      | binary op left right =>
          exact readable_binary op (ih left (by simp [parts])) (ih right (by simp [parts]))
      | not operand => exact readable_not (ih operand List.mem_cons_self)
      | instanceOf operand className =>
          exact readable_instanceOf (ih operand List.mem_cons_self) shaped identifiers
      | cast kind operand => exact readable_cast kind (ih operand List.mem_cons_self)
      | ternary condition yes no =>
          obtain ⟨conditionReadable, laterReadable⟩ := List.forall_mem_cons.mp ih
          obtain ⟨noReadable, yesReadable⟩ := List.forall_mem_cons.mp laterReadable
          exact readable_ternary conditionReadable
            (fun expr isYes => yesReadable expr (Option.mem_toList.mpr isYes)) noReadable
      | isset args => exact readable_isset ih
      | arrow isStatic params body =>
          obtain ⟨bodyReadable, defaultsReadable⟩ := List.forall_mem_cons.mp ih
          exact readable_arrow isStatic (List.forall_mem_map.mp identifiers) simple
            (fun param paramMem part partMem => defaultsReadable part
              (List.mem_flatMap.mpr ⟨param, paramMem, partMem⟩)) bodyReadable
      | matching subject arms =>
          obtain ⟨subjectReadable, armsReadable⟩ := List.forall_mem_cons.mp ih
          obtain ⟨-, armsRegular⟩ := List.forall_mem_cons.mp below
          have memParts {arm : MatchArm} (armMem : arm ∈ arms) {part : Expr}
              (partMem : part ∈ arm.parts) : part ∈ arms.flatMap MatchArm.parts :=
            List.mem_flatMap.mpr ⟨arm, armMem, partMem⟩
          exact readable_matching subjectReadable
            (fun arm armMem part partMem => armsReadable part (memParts armMem partMem))
            (fun arm armMem isDefault =>
              Regular.constant_ne_default (armsRegular _ (memParts armMem isDefault)) rfl)
            fun arm armMem => framed_armText fun part partMem =>
              Regular.framed (armsRegular part (memParts armMem partMem))

/-- The text of a regular expression is read back as the expression, to its end. -/
theorem read_text_of_regular {expr : Expr} (regular : expr.Regular) :
    result (expression 0 expr.text.toList) = some (expr, []) := by
  have nothing : Follows 0 [] := by
    constructor
    · rintro c ⟨⟩
    · have noSuffix : suffix? [] = none := by decide
      intro suffix later found
      rw [noSuffix] at found
      cases found
  have found := regular.readable 0 0 [] (Nat.zero_le _) (nothing.mono (Nat.zero_le _))
  rw [atDepth_zero, List.append_nil, climb_of_follows (by decide) nothing] at found
  exact found

theorem Expr.Regular.eq_of_text_eq {first second : Expr} (firstRegular : first.Regular)
    (secondRegular : second.Regular) (same : first.text = second.text) : first = second := by
  have found := read_text_of_regular firstRegular
  rw [same, read_text_of_regular secondRegular] at found
  exact ((Prod.ext_iff.mp (Option.some.inj found)).1).symm

/-- Trees that the checked constructors build have different texts, provided that no identifier is a
reserved word, the types of parameters are identifiers and texts have no line break. -/
theorem built_eq_of_text_eq {first second : Expr} (firstBuilt : first.Built)
    (secondBuilt : second.Built) (firstPlain : first.Everywhere Expr.IsPlain)
    (secondPlain : second.Everywhere Expr.IsPlain) (same : first.text = second.text) :
    first = second :=
  (firstBuilt.regular firstPlain).eq_of_text_eq (secondBuilt.regular secondPlain) same

/-- The number of entries before a page. -/
def pageOffset : Expr :=
  .binary .mul (.binary .minus (.var "page") (.int 1)) (.var "per_page")

/-- What the offset of a page would be without its parentheses. -/
def regroupedOffset : Expr :=
  .binary .minus (.var "page") (.binary .mul (.int 1) (.var "per_page"))

theorem built_page : (Expr.var "page").Built := by
  have made : Expr.ofVariable "$page" = .ok (.var "page") := by rfl
  exact .ofVariable made

theorem built_perPage : (Expr.var "per_page").Built := by
  have made : Expr.ofVariable "per_page" = .ok (.var "per_page") := by rfl
  exact .ofVariable made

theorem plain_var {name : String} (free : name ∉ reservedWords) :
    (Expr.var name).Everywhere Expr.IsPlain :=
  .node ⟨by simpa [Expr.words] using free, trivial⟩ (by simp [Expr.parts])

theorem plain_int (value : Int) : (Expr.int value).Everywhere Expr.IsPlain :=
  .node ⟨by simp [Expr.words], trivial⟩ (by simp [Expr.parts])

theorem plain_binary {op : BinaryOp} {left right : Expr} (leftPlain : left.Everywhere Expr.IsPlain)
    (rightPlain : right.Everywhere Expr.IsPlain) :
    (Expr.binary op left right).Everywhere Expr.IsPlain :=
  .node ⟨by simp [Expr.words], trivial⟩ (by simp [Expr.parts, leftPlain, rightPlain])

/-- The offset of a page is determined by its text, and so is the tree without its parentheses: the
two texts differ. -/
theorem built_eq_of_text_eq_pageOffset :
    pageOffset = .binary .mul (.binary .minus (.var "page") (.int 1)) (.var "per_page") ∧
      pageOffset.text ≠ regroupedOffset.text := by
  have page : (Expr.var "page").Everywhere Expr.IsPlain := plain_var (by decide)
  have perPage : (Expr.var "per_page").Everywhere Expr.IsPlain := plain_var (by decide)
  have offsetBuilt : pageOffset.Built :=
    .binary .mul (.binary .minus built_page (.int 1)) built_perPage
  have offsetPlain : pageOffset.Everywhere Expr.IsPlain :=
    plain_binary (plain_binary page (plain_int 1)) perPage
  have regroupedBuilt : regroupedOffset.Built :=
    .binary .minus built_page (.binary .mul (.int 1) built_perPage)
  have regroupedPlain : regroupedOffset.Everywhere Expr.IsPlain :=
    plain_binary page (plain_binary (plain_int 1) perPage)
  constructor
  · exact built_eq_of_text_eq offsetBuilt offsetBuilt offsetPlain offsetPlain rfl
  · intro same
    cases built_eq_of_text_eq offsetBuilt regroupedBuilt offsetPlain regroupedPlain same

example : pageOffset.text = "( $page - 1 ) * $per_page" := by decide

example : regroupedOffset.text = "$page - 1 * $per_page" := by decide

end RestPlugin.Php
