import RestPlugin.Files.Memory
import RestPlugin.Proofs.Path

/-!
# Laws of a file system

What the generator relies on.  A file system whose states can be viewed as a map from paths to
texts is lawful if reading tells the truth, only writing changes the map, and a write that
succeeds sets its own path and no other.  Every operation may fail, and a write that fails may
leave anything under its own path.
-/

namespace RestPlugin.Files

variable {σ : Type}

/-- What a sequence of two computations does to a state. -/
theorem run_bind {α β : Type} (first : StateM σ α) (next : α → StateM σ β) (state : σ) :
    (first >>= next).run state = (next (first.run state).1).run (first.run state).2 := rfl

theorem run_pure {α : Type} (value : α) (state : σ) :
    (pure value : StateM σ α).run state = (value, state) := rfl

/-- The laws of a file system whose states are seen through `view`. -/
structure Lawful (system : System (StateM σ)) (view : σ → String → Option String) : Prop where
  view_ensureDirectory : ∀ state path, view ((system.ensureDirectory path).run state).2 = view state
  view_read : ∀ state path, view ((system.read path).run state).2 = view state
  view_isFile : ∀ state path, view ((system.isFile path).run state).2 = view state
  view_formatPhp : ∀ state path content,
    view ((system.formatPhp path content).run state).2 = view state
  view_formatTypeScript : ∀ state path content,
    view ((system.formatTypeScript path content).run state).2 = view state
  read_eq : ∀ {state path text}, ((system.read path).run state).1 = .ok text →
    text = view state path
  formatPhp_eq : ∀ {state path content text},
    ((system.formatPhp path content).run state).1 = .ok text → text = content
  formatTypeScript_eq : ∀ {state path content text},
    ((system.formatTypeScript path content).run state).1 = .ok text → text = content
  view_write_same : ∀ {state path content}, ((system.write path content).run state).1 = .ok () →
    view ((system.write path content).run state).2 path = some content
  view_write_other : ∀ {state path content other}, Path.same path other = false →
    view ((system.write path content).run state).2 other = view state other

namespace Memory

/-- Setting the text of a path sets it for every spelling of that path and for no other path, in
whatever order the files are. -/
theorem find?_insertFile (path content wanted : String) (files : List (String × String)) :
    ((insertFile path content files).find? fun entry => Path.same entry.1 wanted).map (·.2) =
      if Path.same path wanted then some content
      else (files.find? fun entry => Path.same entry.1 wanted).map (·.2) := by
  induction files with
  | nil =>
      rw [insertFile, List.find?_cons, List.find?_nil]
      cases Path.same path wanted <;> rfl
  | cons entry rest ih =>
      obtain ⟨p, old⟩ := entry
      rw [insertFile]
      by_cases alike : Path.same p path = true
      · rw [if_pos alike, List.find?_cons, List.find?_cons, Path.same_congr alike]
        cases Path.same path wanted <;> rfl
      · rw [if_neg alike]
        by_cases before : Path.lt path p = true
        · rw [if_pos before, List.find?_cons]
          cases Path.same path wanted <;> rfl
        · rw [if_neg before, List.find?_cons, List.find?_cons]
          cases found : Path.same p wanted with
          | false => exact ih
          | true =>
              have other : Path.same path wanted = false := by
                rw [Path.same_comm, ← Path.same_congr found]
                exact eq_false_of_ne_true alike
              simp [other]

/-- A write is found under its own path, and nothing else changes. -/
theorem get?_write (memory : Memory) (path content wanted : String) :
    (memory.write path content).get? wanted =
      if Path.same path wanted then some content else memory.get? wanted :=
  find?_insertFile path content wanted memory.files

/-- Noting a directory keeps the directories that are there. -/
theorem subset_insertDirectory (path : String) (directories : List String) :
    directories ⊆ insertDirectory path directories := by
  induction directories with
  | nil => exact List.nil_subset _
  | cons p rest ih =>
      rw [insertDirectory]
      split
      · exact List.Subset.refl _
      · split
        · exact List.subset_cons_self _ _
        · exact List.cons_subset_cons p ih

/-- Inserting a directory adds at most this one. -/
theorem insertDirectory_subset (path : String) (directories : List String) :
    insertDirectory path directories ⊆ path :: directories := by
  induction directories with
  | nil => exact List.Subset.refl _
  | cons p rest ih =>
      rw [insertDirectory]
      split
      · exact List.subset_cons_self _ _
      · split
        · exact List.Subset.refl _
        · intro directory member
          rcases List.mem_cons.mp member with rfl | later
          · exact List.mem_cons_of_mem _ List.mem_cons_self
          · rcases List.mem_cons.mp (ih later) with rfl | known
            · exact List.mem_cons_self
            · exact List.mem_cons_of_mem _ (List.mem_cons_of_mem _ known)

end Memory

/-- The file system in memory obeys the laws. -/
theorem Memory.lawful : Lawful Memory.system Memory.get? where
  view_ensureDirectory _ _ := rfl
  view_read _ _ := rfl
  view_isFile _ _ := rfl
  view_formatPhp _ _ _ := rfl
  view_formatTypeScript _ _ _ := rfl
  read_eq read := (Except.ok.inj read).symm
  formatPhp_eq formatted := (Except.ok.inj formatted).symm
  formatTypeScript_eq formatted := (Except.ok.inj formatted).symm
  view_write_same {memory path content} _ := by
    have written := memory.get?_write path content path
    rw [if_pos (Path.same_self path)] at written
    exact written
  view_write_other {memory path content other} differ := by
    have written := memory.get?_write path content other
    rw [differ] at written
    exact written

end RestPlugin.Files
