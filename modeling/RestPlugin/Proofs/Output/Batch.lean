import RestPlugin.Proofs.Output.Write

/-!
# Batches in memory

In memory a batch always succeeds.  Whether a file is left alone depends on what is there when its
turn comes: what was there before the batch, and what the files before it have written.  So a batch
is followed through what is seen under each path, however the targets of its files are spelled.
-/

namespace RestPlugin.Output

open Files Report

/-! ## Headers -/

theorem withHeader_opening (header rest : String) :
    withHeader (phpOpening ++ rest) (some header) = phpOpening ++ header ++ "\n" ++ rest := by
  have opened : Text.startsWith (phpOpening ++ rest) phpOpening = true := by
    rw [Text.startsWith, List.isPrefixOf_iff_prefix, String.toList_append]
    exact List.prefix_append _ _
  rw [withHeader, if_pos opened, String.toList_append, List.drop_left, String.ofList_toList]

theorem withHeader_top {content : String} (header : String)
    (other : ∀ rest, content ≠ phpOpening ++ rest) :
    withHeader content (some header) = header ++ "\n" ++ content := by
  rw [withHeader, if_neg]
  intro opened
  obtain ⟨rest, restEq⟩ := List.isPrefixOf_iff_prefix.mp opened
  apply other (String.ofList rest)
  rw [← String.toList_inj, String.toList_append, String.toList_ofList, restEq]

/-! ## What one file does -/

/-- What is seen under each path. -/
abbrev View : Type := String → Option String

section Marked

variable (base : String)

/-- The place of a file below a base directory. -/
def File.target (file : File) : String := Path.join base file.path

/-- What becomes of a file: it is left alone if it asks for that and something is in its place. -/
def File.outcome (view : View) (file : File) : Outcome :=
  if file.overwrite = .ifMissing ∧ (view (file.target base)).isSome = true then .skipped
  else .written

/-- What is seen after a file: its text with the header under each spelling of its target if it was
written, and otherwise what was seen before. -/
def seenAfter (view : View) (marked : File × Outcome) : View := fun path =>
  if marked.2 = .written ∧ Path.same (marked.1.target base) path = true then
    some (withHeader marked.1.content marked.1.header)
  else view path

variable {base} {view : View} {path : String}

/-- A file is skipped exactly if it asks to keep what is there and something is. -/
theorem outcome_eq_skipped_iff {file : File} : file.outcome base view = .skipped ↔
    file.overwrite = .ifMissing ∧ (view (file.target base)).isSome = true := by
  rw [File.outcome]
  split <;> simp [*]

theorem seenAfter_skipped (file : File) : seenAfter base view (file, .skipped) = view := by
  funext path
  simp [seenAfter]

theorem seenAfter_written (file : File) : seenAfter base view (file, .written) = fun path =>
    if Path.same (file.target base) path = true then some (withHeader file.content file.header)
    else view path := by
  funext path
  simp [seenAfter]

/-- Under a path something is seen after some files if it was seen before, or if one of them was
written there. -/
theorem isSome_foldl_seenAfter (marked : List (File × Outcome)) :
    (marked.foldl (seenAfter base) view path).isSome = true ↔
      (view path).isSome = true ∨ ∃ other ∈ marked, other.2 = .written ∧
        Path.same (other.1.target base) path = true := by
  induction marked generalizing view with
  | nil => simp
  | cons first rest ih =>
      rw [List.foldl_cons, ih, seenAfter, List.exists_mem_cons_iff]
      by_cases here : first.2 = .written ∧ Path.same (first.1.target base) path = true
      · simp [here]
      · rw [if_neg here, or_iff_right here]

/-- Files that are written to other paths do not change what is seen. -/
theorem foldl_seenAfter_of_forall {marked : List (File × Outcome)}
    (apart : ∀ other ∈ marked, other.2 = .written → Path.same (other.1.target base) path = false) :
    marked.foldl (seenAfter base) view path = view path := by
  induction marked generalizing view with
  | nil => rfl
  | cons first rest ih =>
      rw [List.forall_mem_cons] at apart
      rw [List.foldl_cons, ih apart.2, seenAfter, if_neg]
      rintro ⟨written, alike⟩
      rw [apart.1 written] at alike
      cases alike

end Marked

namespace InMemory

variable (base : String)

theorem run_storeAlways_eq (memory : Memory) (file : File) :
    ((storeAlways Memory.system (file.target base) (withHeader file.content file.header)).run
        memory).1 = .ok .written ∧
      ((storeAlways Memory.system (file.target base) (withHeader file.content file.header)).run
        memory).2.get? = seenAfter base memory.get? (file, .written) := by
  rw [seenAfter_written]
  exact ⟨rfl, funext (memory.get?_write (file.target base) _)⟩

/-- In memory, storing a file comes to its outcome. -/
theorem run_store_eq (memory : Memory) (file : File) :
    ((store Memory.system file (file.target base) (withHeader file.content file.header)).run
        memory).1 = .ok (file.outcome base memory.get?) ∧
      ((store Memory.system file (file.target base) (withHeader file.content file.header)).run
        memory).2.get? = seenAfter base memory.get? (file, file.outcome base memory.get?) := by
  rw [store_eq, File.outcome]
  cases file.overwrite with
  | always => exact run_storeAlways_eq base memory file
  | ifMissing =>
      have looked : (Memory.system.isFile (file.target base)).run memory =
          ((memory.get? (file.target base)).isSome, memory) := rfl
      dsimp only
      rw [run_bind, looked]
      cases (memory.get? (file.target base)).isSome with
      | false => exact run_storeAlways_eq base memory file
      | true => exact ⟨rfl, (seenAfter_skipped file).symm⟩

/-- Writing one file in memory always succeeds.  What becomes of the file depends on what it asks
for and on what is in its place, and nothing but its target changes. -/
theorem run_writeOne_eq (memory : Memory) (file : File) :
    ((writeOne Memory.system base file).run memory).1 = .ok (file.outcome base memory.get?) ∧
      ((writeOne Memory.system base file).run memory).2.get? =
        seenAfter base memory.get? (file, file.outcome base memory.get?) := by
  have made : ((ensureParent Memory.system (Path.join base file.path)).run memory).1 = .ok () :=
    (run_ensureParent memory _).1
  have text := (run_formatted
    ((ensureParent Memory.system (Path.join base file.path)).run memory).2 file
    (Path.join base file.path)).1
  have unchanged : ((formatted Memory.system file (Path.join base file.path)).run
      ((ensureParent Memory.system (Path.join base file.path)).run memory).2).2.get? =
        memory.get? :=
    (view_formatted Memory.lawful _ file _).trans (view_ensureParent Memory.lawful memory _)
  rw [writeOne, run_bind, made]
  dsimp only
  rw [run_bind, text, ← unchanged]
  exact run_store_eq base _ file

/-! ## Whole batches -/

/-- The summary of a batch. -/
def summaryOf (marked : List (File × Outcome)) : Summary where
  written := (marked.filter (·.2 = .written)).map (·.1.path)
  skipped := (marked.filter (·.2 = .skipped)).map (·.1.path)

/-- A batch in memory follows what is seen from file to file. -/
theorem exists_marked_of_writeRest (memory : Memory) (scope : String) (summary : Summary)
    (files : List File) :
    ∃ marked : List (File × Outcome), marked.map Prod.fst = files ∧
      (∀ before file outcome after, marked = before ++ (file, outcome) :: after →
        outcome = file.outcome base (before.foldl (seenAfter base) memory.get?)) ∧
      ((writeRest Memory.system scope base summary files).run memory).1.1 =
        .ok ⟨summary.written ++ (summaryOf marked).written,
          summary.skipped ++ (summaryOf marked).skipped⟩ ∧
      ((writeRest Memory.system scope base summary files).run memory).2.get? =
        marked.foldl (seenAfter base) memory.get? := by
  induction files generalizing memory summary with
  | nil =>
      refine ⟨[], rfl, by simp, ?_, rfl⟩
      simp only [summaryOf, List.filter_nil, List.map_nil, List.append_nil]
      rfl
  | cons file rest ih =>
      obtain ⟨done, seen⟩ := run_writeOne_eq base memory file
      obtain ⟨entry, runEq⟩ := run_writeRest_cons_ok scope summary rest done
      obtain ⟨marked, rfl, justified, reported, after⟩ :=
        ih ((writeOne Memory.system base file).run memory).2
          (summary.add file.path (file.outcome base memory.get?))
      rw [seen] at justified after
      refine ⟨(file, file.outcome base memory.get?) :: marked, rfl, ?_, ?_, ?_⟩
      · intro before other outcome later split
        rcases List.cons_eq_append_iff.mp split with ⟨rfl, here⟩ | ⟨before, rfl, rest⟩
        · cases here
          rfl
        · exact justified before other outcome later rest
      · rw [runEq]
        dsimp only
        rw [reported]
        cases file.outcome base memory.get? <;> simp [Summary.add, summaryOf]
      · rw [runEq]
        exact after

/-- A batch in memory always succeeds.  Each of its files is marked as written or as left alone, and
the summary lists the paths of both in order.  A file is left alone exactly if it asks for that and
its target was there before the batch or was written by a file before it.  Afterwards the target of
a written file has, under each spelling, the text of the last file written there, and what is no
target of a written file is as it was.  A header stands behind the opening of a source file, and
else at the top. -/
theorem writeAll_touches (memory : Memory) (scope : String) (files : List File) :
    (∃ marked : List (File × Outcome), marked.map Prod.fst = files ∧
      ((writeAll Memory.system scope base files).run memory).1.1 =
        .ok ⟨(marked.filter (·.2 = .written)).map (·.1.path),
          (marked.filter (·.2 = .skipped)).map (·.1.path)⟩ ∧
      (∀ before file outcome after, marked = before ++ (file, outcome) :: after →
        (outcome = .skipped ↔ file.overwrite = .ifMissing ∧
          ((memory.get? (file.target base)).isSome = true ∨
            ∃ other ∈ before, other.2 = .written ∧
              Path.same (other.1.target base) (file.target base) = true))) ∧
      (∀ before file after, marked = before ++ (file, .written) :: after →
        (∀ other ∈ after, other.2 = .written →
          Path.same (other.1.target base) (file.target base) = false) →
        ∀ path, Path.same (file.target base) path = true →
          ((writeAll Memory.system scope base files).run memory).2.get? path =
            some (withHeader file.content file.header)) ∧
      ∀ path, (∀ other ∈ marked, other.2 = .written →
          Path.same (other.1.target base) path = false) →
        ((writeAll Memory.system scope base files).run memory).2.get? path = memory.get? path) ∧
    (∀ content, withHeader content none = content) ∧
    (∀ header rest, withHeader (phpOpening ++ rest) (some header) =
      phpOpening ++ header ++ "\n" ++ rest) ∧
    ∀ header content, (∀ rest, content ≠ phpOpening ++ rest) →
      withHeader content (some header) = header ++ "\n" ++ content := by
  refine ⟨?_, fun _ => rfl, withHeader_opening,
    fun header content other => withHeader_top header other⟩
  obtain ⟨marked, markedEq, justified, reported, after⟩ :=
    exists_marked_of_writeRest base memory scope {} files
  refine ⟨marked, markedEq, ?_, ?_, ?_, ?_⟩
  · rw [writeAll, reported]
    simp [summaryOf]
  · intro before file outcome later split
    rw [justified before file outcome later split, outcome_eq_skipped_iff, isSome_foldl_seenAfter]
  · intro before file later split apart path alike
    rw [writeAll, after, split, List.foldl_append, List.foldl_cons, foldl_seenAfter_of_forall,
      seenAfter_written]
    · exact if_pos alike
    · intro other member written
      rw [Path.same_comm, ← Path.same_congr alike, Path.same_comm]
      exact apart other member written
  · intro path apart
    rw [writeAll, after, foldl_seenAfter_of_forall apart]

example : ((writeAll Memory.system "writer" "out" [⟨"a.txt", "1", .always, none⟩,
      ⟨"./a.txt/", "2", .ifMissing, none⟩, ⟨"/out/b", "3", .ifMissing, none⟩,
      ⟨"a.txt//", "4", .always, none⟩]).run {}).1.1.toOption =
    some ⟨["a.txt", "/out/b", "a.txt//"], ["./a.txt/"]⟩ := by
  decide +kernel

end InMemory

end RestPlugin.Output
