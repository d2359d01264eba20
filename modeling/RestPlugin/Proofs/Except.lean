import RestPlugin.Proofs.Lists

/-!
# Computations that may fail

A sequence of two computations succeeds if both do, and fails with the error of the first that
fails.
-/

namespace RestPlugin

variable {ε α β γ : Type}

@[simp]
theorem ok_bind (value : α) (next : α → Except ε β) : (Except.ok value >>= next) = next value := rfl

@[simp]
theorem error_bind (error : ε) (next : α → Except ε β) :
    (Except.error error >>= next) = .error error := rfl

theorem exists_eq_ok {result : Except ε α} (done : result.isOk = true) :
    ∃ value, result = .ok value := by
  cases result with
  | error error => cases done
  | ok value => exact ⟨value, rfl⟩

theorem eq_ok_of_toOption {result : Except ε α} {value : α} (found : result.toOption = some value) :
    result = .ok value := by
  cases result with
  | error error => cases found
  | ok value => rw [Option.some.inj found]

/-- A sequence comes to a result exactly if its first part comes to a value and the rest comes from
there to the result. -/
theorem bind_eq_ok_iff {first : Except ε α} {next : α → Except ε β} {result : β} :
    (first >>= next) = .ok result ↔ ∃ value, first = .ok value ∧ next value = .ok result := by
  cases first <;> simp

/-- The image of a computation is a result exactly if it is the image of a value. -/
theorem map_eq_ok_iff {f : α → β} {first : Except ε α} {result : β} :
    first.map f = .ok result ↔ ∃ value, first = .ok value ∧ f value = result := by
  cases first <;> simp [Except.map]

/-- Renaming errors does not change what a computation gives. -/
theorem mapError_eq_ok_iff {δ : Type} {f : ε → δ} {first : Except ε α} {value : α} :
    first.mapError f = .ok value ↔ first = .ok value := by
  cases first with
  | error failure =>
      change Except.error (f failure) = .ok value ↔ _
      simp only [reduceCtorEq]
  | ok found =>
      change Except.ok found = .ok value ↔ _
      rw [Except.ok.injEq, Except.ok.injEq]

/-! ## Computations over lists -/

/-- A computation over a list succeeds with the results for its members, in their places. -/
theorem mapM_eq_ok_iff {f : α → Except ε β} {items : List α} {results : List β} :
    items.mapM f = .ok results ↔
      List.Forall₂ (fun item result => f item = .ok result) items results := by
  induction items generalizing results with
  | nil =>
      constructor
      · rintro ⟨⟩
        exact .nil
      · rintro ⟨⟩
        rfl
  | cons item items ih =>
      simp only [List.mapM_cons, bind_eq_ok_iff, List.forall₂_cons_left_iff]
      constructor
      · rintro ⟨first, firstEq, later, laterEq, done⟩
        cases done
        exact ⟨first, later, firstEq, ih.mp laterEq, rfl⟩
      · rintro ⟨first, later, firstEq, laterEq, rfl⟩
        exact ⟨first, firstEq, later, ih.mpr laterEq, rfl⟩

/-- What a computation gives for the members of a list, it gives for one of them. -/
theorem exists_mem_of_mapM_eq_ok {f : α → Except ε β} {items : List α} {results : List β}
    (done : items.mapM f = .ok results) :
    ∀ result ∈ results, ∃ item ∈ items, f item = .ok result :=
  exists_left_of_forall₂ (mapM_eq_ok_iff.mp done)

/-- What a computation gives for a member of a list, it gives among the results. -/
theorem exists_result_of_mapM_eq_ok {f : α → Except ε β} {items : List α} {results : List β}
    (done : items.mapM f = .ok results) :
    ∀ item ∈ items, ∃ result ∈ results, f item = .ok result :=
  exists_right_of_forall₂ (mapM_eq_ok_iff.mp done)

/-- The result for an item of a list stands in the place of the item. -/
theorem exists_getElem?_of_mapM_eq_ok {f : α → Except ε β} {items : List α} {results : List β}
    (done : items.mapM f = .ok results) {index : Nat} {item : α}
    (itemEq : items[index]? = some item) :
    ∃ result, results[index]? = some result ∧ f item = .ok result :=
  exists_getElem?_of_forall₂ (mapM_eq_ok_iff.mp done) itemEq

/-- What all results of a computation keep of their items, a list of results keeps of its items. -/
theorem map_eq_of_mapM_eq_ok {f : α → Except ε β} {kept : α → γ} {found : β → γ}
    (keeps : ∀ item result, f item = .ok result → found result = kept item) {items : List α}
    {results : List β} (done : items.mapM f = .ok results) :
    results.map found = items.map kept :=
  (map_eq_map_of_forall₂ (fun item result itemEq => (keeps item result itemEq).symm)
    (mapM_eq_ok_iff.mp done)).symm

/-- If a computation finishes what another one finds, so does it for a list. -/
theorem mapM_eq_map_mapM {f : α → Except ε β} {f' : α → Except ε γ} {g : β → γ}
    (each : ∀ item, f' item = (f item).map g) (items : List α) :
    items.mapM f' = (items.mapM f).map (List.map g) := by
  induction items with
  | nil => rfl
  | cons item items ih =>
      rw [List.mapM_cons, List.mapM_cons, each, ih]
      cases f item with
      | error error => rfl
      | ok value => cases items.mapM f <;> rfl

/-- A computation gives a value. -/
def Succeeds (computed : Except ε α) : Prop := ∃ value, computed = .ok value

theorem succeeds_ok (value : α) : Succeeds (Except.ok value : Except ε α) := ⟨value, rfl⟩

/-- A sequence succeeds if its first part does and the rest does whatever that gives. -/
theorem Succeeds.bind {first : Except ε α} {next : α → Except ε β} (start : Succeeds first)
    (later : ∀ value, Succeeds (next value)) : Succeeds (first >>= next) := by
  obtain ⟨value, rfl⟩ := start
  exact later value

theorem Succeeds.map {first : Except ε α} (start : Succeeds first) (f : α → β) :
    Succeeds (first.map f) := by
  obtain ⟨value, rfl⟩ := start
  exact ⟨f value, rfl⟩

/-- Renaming errors does not change whether a computation succeeds. -/
theorem succeeds_mapError_iff {δ : Type} {f : ε → δ} {computed : Except ε α} :
    Succeeds (computed.mapError f) ↔ Succeeds computed :=
  exists_congr fun _ => mapError_eq_ok_iff

/-- A computation over a list succeeds exactly if it does for each item. -/
theorem succeeds_mapM_iff {f : α → Except ε β} {items : List α} :
    Succeeds (items.mapM f) ↔ ∀ item ∈ items, Succeeds (f item) := by
  induction items with
  | nil => exact ⟨fun _ => by simp, fun _ => succeeds_ok []⟩
  | cons item items ih =>
      rw [List.forall_mem_cons, ← ih, List.mapM_cons]
      constructor
      · rintro ⟨results, done⟩
        obtain ⟨first, firstEq, rest⟩ := bind_eq_ok_iff.mp done
        obtain ⟨later, laterEq, -⟩ := bind_eq_ok_iff.mp rest
        exact ⟨⟨first, firstEq⟩, ⟨later, laterEq⟩⟩
      · rintro ⟨first, later⟩
        exact first.bind fun _ => later.bind fun _ => succeeds_ok _

theorem succeeds_mapM_bind {f : α → Except ε β} {items : List α} {next : List β → Except ε γ}
    (each : ∀ item ∈ items, Succeeds (f item)) (later : ∀ results, Succeeds (next results)) :
    Succeeds (items.mapM f >>= next) :=
  (succeeds_mapM_iff.mpr each).bind later

/-- Whatever a computation gives has a property. -/
def Ensures (holds : α → Prop) (computed : Except ε α) : Prop :=
  ∀ value, computed = .ok value → holds value

theorem ensures_ok {holds : α → Prop} {value : α} (known : holds value) :
    Ensures holds (Except.ok value : Except ε α) := by
  rintro given ⟨⟩
  exact known

/-- What follows a computation may use what that ensures. -/
theorem Ensures.bind {holds : α → Prop} {ensured : β → Prop} {first : Except ε α}
    {next : α → Except ε β} (start : Ensures holds first)
    (later : ∀ value, holds value → Ensures ensured (next value)) :
    Ensures ensured (first >>= next) := by
  intro result done
  obtain ⟨value, firstEq, nextEq⟩ := bind_eq_ok_iff.mp done
  exact later value (start value firstEq) result nextEq

/-- A computation that gives only one value does not matter but for that value. -/
theorem Ensures.bind_eq {value : α} {ensured : β → Prop} {first : Except ε α}
    {next : α → Except ε β} (start : Ensures (fun given => given = value) first)
    (later : Ensures ensured (next value)) : Ensures ensured (first >>= next) := by
  refine start.bind ?_
  rintro _ rfl
  exact later

/-- A computation of which nothing is known does not matter for what follows. -/
theorem ensures_bind {ensured : β → Prop} {first : Except ε α} {next : α → Except ε β}
    (later : ∀ value, Ensures ensured (next value)) : Ensures ensured (first >>= next) := by
  intro result done
  obtain ⟨value, -, nextEq⟩ := bind_eq_ok_iff.mp done
  exact later value result nextEq

/-- What a computation ensures of each item, it ensures of every result. -/
theorem ensures_mapM {holds : β → Prop} {f : α → Except ε β} {items : List α}
    (each : ∀ item ∈ items, Ensures holds (f item)) :
    Ensures (fun results => ∀ result ∈ results, holds result) (items.mapM f) := by
  intro results done result member
  obtain ⟨item, itemMem, itemEq⟩ := exists_mem_of_mapM_eq_ok done result member
  exact each item itemMem result itemEq

/-- What follows a computation over a list may use what is ensured of each result. -/
theorem ensures_mapM_bind {holds : β → Prop} {ensured : γ → Prop} {f : α → Except ε β}
    {items : List α} {next : List β → Except ε γ} (each : ∀ item, Ensures holds (f item))
    (later : ∀ results, (∀ result ∈ results, holds result) → Ensures ensured (next results)) :
    Ensures ensured (items.mapM f >>= next) :=
  (ensures_mapM fun item _ => each item).bind later

/-- The parts made for the items of a list, put together, have what each part has, if putting
together keeps it. -/
theorem ensures_mapM_flatten {holds : List β → Prop} {f : α → Except ε (List β)} {items : List α}
    (joins : ∀ parts : List (List β), (∀ part ∈ parts, holds part) → holds parts.flatten)
    (each : ∀ item, Ensures holds (f item)) :
    Ensures holds (items.mapM f >>= fun parts => .ok parts.flatten) :=
  ensures_mapM_bind each fun parts known => ensures_ok (joins parts known)

/-- Whatever error a computation comes to has a property. -/
def OnlyFails (blamed : ε → Prop) (computed : Except ε α) : Prop :=
  ∀ error, computed = .error error → blamed error

theorem onlyFails_ok {blamed : ε → Prop} (value : α) :
    OnlyFails blamed (Except.ok value : Except ε α) := nofun

theorem onlyFails_error {blamed : ε → Prop} {error : ε} (known : blamed error) :
    OnlyFails blamed (Except.error error : Except ε α) := by
  rintro given ⟨⟩
  exact known

/-- A sequence fails with an error of one of its computations. -/
theorem OnlyFails.bind {blamed : ε → Prop} {first : Except ε α} {next : α → Except ε β}
    (start : OnlyFails blamed first)
    (later : ∀ value, first = .ok value → OnlyFails blamed (next value)) :
    OnlyFails blamed (first >>= next) := by
  cases first with
  | error error => exact onlyFails_error (start error rfl)
  | ok value => exact later value rfl

/-- Mapping values does not change the errors. -/
theorem OnlyFails.map {blamed : ε → Prop} {first : Except ε α} (start : OnlyFails blamed first)
    (f : α → β) : OnlyFails blamed (first.map f) := by
  cases first with
  | error error => exact onlyFails_error (start error rfl)
  | ok value => exact onlyFails_ok (f value)

theorem OnlyFails.mono {blamed blamed' : ε → Prop} {computed : Except ε α}
    (start : OnlyFails blamed computed) (weaker : ∀ error, blamed error → blamed' error) :
    OnlyFails blamed' computed :=
  fun error failed => weaker error (start error failed)

end RestPlugin
