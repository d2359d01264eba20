import RestPlugin.Proofs.Config.Warnings
import RestPlugin.Proofs.Text.Casing

/-!
# Namespaces

What sanitising makes of a text is a slug of words with single dashes: separators that follow one
another are written as one dash, also where characters between them are dropped, and dashes at the
ends are trimmed.  A slug is sanitised to itself, so the namespaces are exactly the texts that
sanitising leaves as they are.

A configuration is accepted only if its namespace can be sanitised, and it is warned about unless it
is what sanitising makes of it.
-/

namespace RestPlugin

namespace Text

/-- A valid namespace, `[a-z][a-z0-9]*(-[a-z0-9]+)*` with 3 to 50 characters, which is not
reserved. -/
structure IsNamespace (slug : String) : Prop where
  separated : Separated '-' slug.toList
  letterFirst : slug.toList.head?.any isLower = true
  atLeast : 3 ≤ slug.length
  atMost : slug.length ≤ 50
  free : slug ∉ reservedNamespaces

variable {c : Char} {l out : List Char}

/-! ## Sanitised texts -/

theorem slugStep_of_isSlugLetter (letter : isSlugLetter c = true) (out : List Char) :
    slugStep out c = c :: out :=
  if_pos letter

theorem singleSeparators_slugStep (single : SingleSeparators '-' out) (c : Char) :
    SingleSeparators '-' (slugStep out c) := by
  rw [slugStep]
  split
  · rename_i letter
    exact single.cons_of_ne (ne_of_isSlugLetter letter (by decide))
  · split
    · split
      · exact single
      · rename_i first
        exact single.cons_of_head? (by simpa using first)
    · exact single

theorem singleSeparators_foldl (l : List Char) : SingleSeparators '-' (l.foldl slugStep []) :=
  List.foldlRecOn l _ List.isChain_nil fun _ single c _ => singleSeparators_slugStep single c

theorem separated_dashSlug (l : List Char) : dashSlug l = [] ∨ Separated '-' (dashSlug l) := by
  refine separated_trimBy ?_ (singleSeparators_foldl _).reverse
  intro c member
  simpa [isSlugChar, isSlugLetter] using
    isSlugChar_of_mem_foldl (List.forall_mem_nil _) c (List.mem_reverse.mp member)

/-- What is sanitised is a namespace. -/
theorem isNamespace_of_sanitizeNamespace {text slug : String}
    (sanitised : sanitizeNamespace text = some slug) : IsNamespace slug := by
  obtain ⟨slugEq, free, letterFirst, atLeast, atMost⟩ := sanitizeNamespace_eq_some_iff.mp sanitised
  have separated : Separated '-' slug.toList := by
    have charsEq : slug.toList = dashSlug text.toList := by rw [slugEq, String.toList_ofList]
    rw [charsEq] at letterFirst ⊢
    refine (separated_dashSlug text.toList).resolve_left ?_
    intro isNil
    rw [isNil] at letterFirst
    cases letterFirst
  exact ⟨separated, letterFirst, atLeast, atMost, free⟩

/-! ## Slugs are kept -/

theorem fullLower_of_isSlugLetter (letter : isSlugLetter c = true) : fullLower c = [c] := by
  rw [fullLower, if_pos (toNat_lt_of_isAlnum (isAlnum_of_isSlugLetter letter)),
    lower_of_isSlugLetter letter]

theorem flatMap_fullLower_of_separated (separated : Separated '-' l) :
    l.flatMap fullLower = l := by
  have kept : ∀ c ∈ l, fullLower c = [c] := by
    intro c member
    rcases separated.mem member with letter | rfl
    · exact fullLower_of_isSlugLetter letter
    · decide
  rw [List.flatMap_congr kept, List.flatMap_singleton']

theorem dashSlug_of_separated (separated : Separated '-' l) : dashSlug l = l := by
  have notBlank (c : Char) (letter : isSlugLetter c = true) : isBlank c = false :=
    isBlank_of_isAlnum (isAlnum_of_isSlugLetter letter)
  have notDash (c : Char) (letter : isSlugLetter c = true) : (c == '-') = false :=
    beq_eq_false_iff_ne.mpr (ne_of_isSlugLetter letter (by decide))
  have dashes (out : List Char) (c : Char) (letter : isSlugLetter c = true) :
      slugStep (c :: out) '-' = '-' :: c :: out := by
    rw [slugStep, if_neg (by decide), if_pos (by decide), if_neg (by simp [notDash c letter])]
  rw [dashSlug, separated.trimBy_eq notBlank, flatMap_fullLower_of_separated separated,
    foldl_of_separated (fun out _ letter => slugStep_of_isSlugLetter letter out) dashes separated,
    List.append_nil, List.reverse_reverse, separated.trimBy_eq notDash]

/-- The namespaces are the texts that sanitising leaves as they are. -/
theorem sanitizeNamespace_eq_self_iff {slug : String} :
    sanitizeNamespace slug = some slug ↔ IsNamespace slug := by
  refine ⟨isNamespace_of_sanitizeNamespace, fun valid => ?_⟩
  refine sanitizeNamespace_eq_some_iff.mpr
    ⟨?_, valid.free, valid.letterFirst, valid.atLeast, valid.atMost⟩
  rw [dashSlug_of_separated valid.separated, String.ofList_toList]

instance (slug : String) : Decidable (IsNamespace slug) :=
  decidable_of_iff _ sanitizeNamespace_eq_self_iff

/-- The lower case of a character may be longer than the character.  What of it is no letter is
dropped, so that the dashes around it are one. -/
example : sanitizeNamespace "\u00A0\u212Aernel _\u0307_ \u0130ndex-" = some "kernel-index" := by
  decide +kernel

end Text

namespace Config

open Text

/-- The warnings about resources are all about missing capabilities. -/
theorem code_of_checkResources {config : Config} {names : List String}
    {resources : List (String × Resource)} {warnings : List Warning}
    (accepted : checkResources config names resources = .ok warnings) :
    ∀ warning ∈ warnings, warning.code = "route.capability.missing" := by
  intro warning member
  obtain ⟨_, -, _, -, isMissing⟩ := (mem_checkResources_iff accepted).mp member
  obtain ⟨-, -, rfl⟩ := mem_capabilityWarning_iff.mp isMissing
  rfl

/-- The namespace is warned about exactly if it is not valid as it stands. -/
theorem checkNamespace_warns_iff {declared : String} {warnings : List Warning}
    (accepted : checkNamespace declared = .ok warnings) :
    (∃ warning ∈ warnings, warning.code = "namespace.sanitized") ↔ ¬IsNamespace declared := by
  rw [← sanitizeNamespace_eq_self_iff]
  rw [checkNamespace] at accepted
  split at accepted
  · cases accepted
  · rename_i slug sanitised
    rw [sanitised, Option.some_inj]
    split at accepted
    · rename_i kept
      cases accepted
      simpa using kept
    · rename_i changed
      cases accepted
      simpa using changed

/-- An accepted configuration is warned about its namespace exactly if that is not valid. -/
theorem check_warns_iff {config : Config} {warnings : List Warning}
    (accepted : check config = .ok warnings) :
    (∃ warning ∈ warnings, warning.code = "namespace.sanitized") ↔
      ¬IsNamespace config.declaredNamespace := by
  simp only [check, bind_eq_ok_iff] at accepted
  obtain ⟨version, versionEq, space, spaceEq, routes, routesEq, -, -, accepted⟩ := accepted
  cases accepted
  rw [← checkNamespace_warns_iff spaceEq]
  constructor
  · rintro ⟨warning, member, isSanitized⟩
    simp only [List.mem_append] at member
    rcases member with (inVersion | inSpace) | inRoutes
    · have code := code_of_checkVersion versionEq warning inVersion
      rw [isSanitized] at code
      exact absurd code (by decide)
    · exact ⟨warning, inSpace, isSanitized⟩
    · have code := code_of_checkResources routesEq warning inRoutes
      rw [isSanitized] at code
      exact absurd code (by decide)
  · rintro ⟨warning, inSpace, isSanitized⟩
    exact ⟨warning, List.mem_append_left _ (List.mem_append_right _ inSpace), isSanitized⟩

/-- What sanitising makes of a text is a valid namespace, and sanitising it again changes nothing.
So a configuration that is accepted comes with the warning about its namespace exactly if the
declared one is not valid already. -/
theorem namespace_valid_and_kept :
    (∀ text slug, sanitizeNamespace text = some slug →
      IsNamespace slug ∧ sanitizeNamespace slug = some slug) ∧
    ∀ source config warnings, validate source config = .ok warnings →
      ((∃ warning ∈ warnings, warning.code = "namespace.sanitized") ↔
        ¬IsNamespace config.declaredNamespace) := by
  refine ⟨fun text slug sanitised => ?_, fun source config warnings accepted => ?_⟩
  · have valid := isNamespace_of_sanitizeNamespace sanitised
    exact ⟨valid, sanitizeNamespace_eq_self_iff.mpr valid⟩
  · exact check_warns_iff (mapError_eq_ok_iff.mp accepted)

/-- A configuration without resources, whose namespace is spelled with capital letters and runs of
separators. -/
def spacedOut : Config where
  version := some currentVersion
  declaredNamespace := "  Acme_Demo \u212Ait - "
  schemas := []
  resources := []
  capabilities := none

theorem namespace_valid_and_kept_spacedOut :
    sanitizeNamespace spacedOut.declaredNamespace = some "acme-demo-kit" ∧
      IsNamespace "acme-demo-kit" ∧ sanitizeNamespace "acme-demo-kit" = some "acme-demo-kit" ∧
      ∃ warnings, validate "" spacedOut = .ok warnings ∧
        (∃ warning ∈ warnings, warning.code = "namespace.sanitized") ∧
        ¬IsNamespace spacedOut.declaredNamespace := by
  have sanitised : sanitizeNamespace spacedOut.declaredNamespace = some "acme-demo-kit" := by
    decide +kernel
  obtain ⟨valid, kept⟩ := namespace_valid_and_kept.1 _ _ sanitised
  obtain ⟨warnings, accepted⟩ : ∃ warnings, validate "" spacedOut = .ok warnings :=
    exists_eq_ok (by decide +kernel)
  have changed : ¬IsNamespace spacedOut.declaredNamespace := by decide +kernel
  have warned := (namespace_valid_and_kept.2 _ _ _ accepted).mpr changed
  exact ⟨sanitised, valid, kept, warnings, accepted, warned, changed⟩

end Config

end RestPlugin
