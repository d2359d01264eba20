import RestPlugin.Output.Write
import RestPlugin.Proofs.Except
import RestPlugin.Proofs.Files.Lawful
import RestPlugin.Proofs.Output.Queue

/-!
# What writing leaves behind

Files that replace what is there and carry no header are plain; all files of a plugin
are.  On a lawful file system a batch of plain files with different paths, once it
succeeds, leaves every target with the content of its file.  Whether it succeeds or not,
it touches no path but its targets.
-/

namespace RestPlugin.Output

open Files Report

/-! ## One file -/

/-- A file that always replaces what is there and is written without a header. -/
def File.Plain (file : File) : Prop := file.overwrite = .always ∧ file.header = none

variable {σ : Type} {system : System (StateM σ)}

/-- Writes a text to its target, whatever is there. -/
def storeAlways (system : System (StateM σ)) (target content : String) :
    StateM σ (Except WriteError Outcome) := do
  match ← system.write target content with
  | .ok () => return .ok .written
  | .error fault => return .error (.write target fault)

/-- A file is stored unless it asks to keep what is there and something is. -/
theorem store_eq (file : File) (target content : String) :
    store system file target content =
      match file.overwrite with
      | .always => storeAlways system target content
      | .ifMissing =>
          system.isFile target >>= fun keep =>
            if keep then pure (.ok .skipped) else storeAlways system target content := by
  rw [store]
  cases file.overwrite <;> rfl

/-- A write that fails ends the batch. -/
theorem run_writeRest_cons_error {state : σ} {scope base : String} {summary : Summary} {file : File}
    {rest : List File} {error : WriteError}
    (failed : ((writeOne system base file).run state).1 = .error error) :
    (writeRest system scope base summary (file :: rest)).run state =
      ((.error error, []), ((writeOne system base file).run state).2) := by
  rw [writeRest, run_bind, failed]
  rfl

/-- After a write that succeeds, the rest of the batch follows. -/
theorem run_writeRest_cons_ok {state : σ} {base : String} {file : File} (scope : String)
    (summary : Summary) (rest : List File) {outcome : Outcome}
    (done : ((writeOne system base file).run state).1 = .ok outcome) :
    ∃ entry, (writeRest system scope base summary (file :: rest)).run state =
      let later := (writeRest system scope base (summary.add file.path outcome) rest).run
        ((writeOne system base file).run state).2
      ((later.1.1, entry :: later.1.2), later.2) := by
  rw [writeRest, run_bind, done]
  exact ⟨_, rfl⟩

section Lawful

variable {view : σ → String → Option String}
  (lawful : Lawful system view)
include lawful

/-- Making a directory changes no file. -/
theorem view_ensureParent (state : σ) (target : String) :
    view ((ensureParent system target).run state).2 = view state := by
  rw [ensureParent]
  split
  · rfl
  · rename_i parent _
    rw [run_bind]
    split
    · exact lawful.view_ensureDirectory state parent
    · exact lawful.view_ensureDirectory state parent

/-- Formatting the text of a file changes no file. -/
theorem view_formatted (state : σ) (file : File) (target : String) :
    view ((formatted system file target).run state).2 = view state := by
  rw [formatted]
  split
  · exact lawful.view_formatPhp state target _
  · exact lawful.view_formatTypeScript state target _
  · exact lawful.view_formatTypeScript state target _
  · rfl

theorem formatted_eq {state : σ} {file : File} (plain : file.Plain) {target text : String}
    (done : ((formatted system file target).run state).1 = .ok text) : text = file.content := by
  have bare : withHeader file.content file.header = file.content := by rw [plain.2, withHeader]
  rw [formatted, bare] at done
  split at done
  · exact lawful.formatPhp_eq (mapError_eq_ok_iff.mp done)
  · exact lawful.formatTypeScript_eq (mapError_eq_ok_iff.mp done)
  · exact lawful.formatTypeScript_eq (mapError_eq_ok_iff.mp done)
  · exact (Except.ok.inj done).symm

theorem view_storeAlways_other (state : σ) {target content other : String}
    (differ : Path.same target other = false) :
    view ((storeAlways system target content).run state).2 other = view state other := by
  rw [storeAlways, run_bind]
  split
  · exact lawful.view_write_other differ
  · exact lawful.view_write_other differ

/-- A file that is stored stands under its path with its content. -/
theorem view_storeAlways_target {state : σ} {target content : String} {outcome : Outcome}
    (done : ((storeAlways system target content).run state).1 = .ok outcome) :
    view ((storeAlways system target content).run state).2 target = some content := by
  rw [storeAlways, run_bind] at done ⊢
  split at done
  · rename_i success
    exact lawful.view_write_same success
  · cases done

theorem view_store_other (state : σ) (file : File) {target content other : String}
    (differ : Path.same target other = false) :
    view ((store system file target content).run state).2 other = view state other := by
  rw [store_eq]
  split
  · exact view_storeAlways_other lawful state differ
  · rw [run_bind]
    split
    · exact congrFun (lawful.view_isFile state target) other
    · rw [view_storeAlways_other lawful _ differ]
      exact congrFun (lawful.view_isFile state target) other

/-- Writing a file changes nothing but its target, whether it succeeds or not. -/
theorem view_writeOne_other (state : σ) {base : String} {file : File} {other : String}
    (differ : Path.same (Path.join base file.path) other = false) :
    view ((writeOne system base file).run state).2 other = view state other := by
  have parent := view_ensureParent lawful state (Path.join base file.path)
  rw [writeOne, run_bind]
  split
  · rw [run_pure]
    exact congrFun parent other
  · have hook := (view_formatted lawful
      ((ensureParent system (Path.join base file.path)).run state).2 file
      (Path.join base file.path)).trans parent
    rw [run_bind]
    split
    · rw [run_pure]
      exact congrFun hook other
    · rw [view_store_other lawful _ file differ]
      exact congrFun hook other

/-- A plain file that was written stands under its target. -/
theorem view_writeOne_target {state : σ} {base : String} {file : File} (plain : file.Plain)
    {outcome : Outcome} (done : ((writeOne system base file).run state).1 = .ok outcome) :
    view ((writeOne system base file).run state).2 (Path.join base file.path) =
      some file.content := by
  rw [writeOne, run_bind] at done ⊢
  split at done
  · cases done
  · rw [run_bind] at done ⊢
    split at done
    · cases done
    · rename_i text format
      rw [formatted_eq lawful plain format] at done ⊢
      rw [store_eq, plain.1] at done ⊢
      exact view_storeAlways_target lawful done

/-! ## Batches -/

/-- A batch changes nothing but the targets of its files, whether it succeeds or not. -/
theorem view_writeRest_other (state : σ) (scope base : String) (summary : Summary)
    {files : List File} {other : String}
    (differ : ∀ file ∈ files, Path.same (Path.join base file.path) other = false) :
    view ((writeRest system scope base summary files).run state).2 other = view state other := by
  induction files generalizing summary state with
  | nil => rfl
  | cons file rest ih =>
      obtain ⟨here, later⟩ := List.forall_mem_cons.mp differ
      have one := view_writeOne_other lawful state here
      cases result : ((writeOne system base file).run state).1 with
      | error error =>
          rw [run_writeRest_cons_error result]
          dsimp only
          exact one
      | ok outcome =>
          obtain ⟨entry, runEq⟩ := run_writeRest_cons_ok scope summary rest result
          rw [runEq]
          exact (ih _ _ later).trans one

/-- After a batch of plain files with different targets, every target holds its content: later files
of the batch leave it alone. -/
theorem view_writeRest_target {state : σ} {scope base : String} {summary final : Summary}
    {files : List File} (plain : ∀ file ∈ files, file.Plain)
    (apart : files.Pairwise fun earlier later =>
      Path.same (Path.join base later.path) (Path.join base earlier.path) = false)
    (done : ((writeRest system scope base summary files).run state).1.1 = .ok final) :
    ∀ file ∈ files, view ((writeRest system scope base summary files).run state).2
      (Path.join base file.path) = some file.content := by
  induction files generalizing summary state with
  | nil => simp
  | cons file rest ih =>
      obtain ⟨plainHere, plainLater⟩ := List.forall_mem_cons.mp plain
      obtain ⟨apartHere, apartLater⟩ := List.pairwise_cons.mp apart
      cases result : ((writeOne system base file).run state).1 with
      | error error =>
          rw [run_writeRest_cons_error result] at done
          cases done
      | ok outcome =>
          obtain ⟨entry, runEq⟩ := run_writeRest_cons_ok scope summary rest result
          have target := view_writeOne_target lawful plainHere result
          rw [runEq] at done ⊢
          rw [List.forall_mem_cons]
          constructor
          · exact (view_writeRest_other lawful _ scope base _ apartHere).trans target
          · exact ih plainLater apartLater done

end Lawful

/-! ## In memory -/

namespace InMemory

variable {base : String}

theorem run_ensureParent (memory : Memory) (target : String) :
    ((ensureParent Memory.system target).run memory).1 = .ok () ∧
      ((ensureParent Memory.system target).run memory).2.directories =
        match Path.parent target with
        | none => memory.directories
        | some parent => Memory.insertDirectory parent memory.directories := by
  rw [ensureParent]
  cases Path.parent target with
  | none => exact ⟨rfl, rfl⟩
  | some parent => exact ⟨rfl, rfl⟩

/-- In memory, a file is written below its header. -/
theorem run_formatted (memory : Memory) (file : File) (target : String) :
    ((formatted Memory.system file target).run memory).1 =
        .ok (withHeader file.content file.header) ∧
      ((formatted Memory.system file target).run memory).2.directories = memory.directories := by
  rw [formatted]
  split <;> exact ⟨rfl, rfl⟩

/-- In memory a plain file is always written, and of the directories only that of its target is
added. -/
theorem run_writeOne (memory : Memory) {file : File} (plain : file.Plain) :
    ((writeOne Memory.system base file).run memory).1 = .ok .written ∧
      ((writeOne Memory.system base file).run memory).2.directories =
        match Path.parent (Path.join base file.path) with
        | none => memory.directories
        | some parent => Memory.insertDirectory parent memory.directories := by
  obtain ⟨made, directories⟩ := run_ensureParent memory (Path.join base file.path)
  obtain ⟨format, kept⟩ := run_formatted
    ((ensureParent Memory.system (Path.join base file.path)).run memory).2 file
    (Path.join base file.path)
  rw [writeOne, run_bind, made]
  dsimp only
  rw [run_bind, format, ← directories, ← kept]
  dsimp only
  rw [store_eq, plain.1]
  exact ⟨rfl, rfl⟩

theorem directories_subset_writeOne (memory : Memory) {file : File} (plain : file.Plain) :
    memory.directories ⊆ ((writeOne Memory.system base file).run memory).2.directories := by
  rw [(run_writeOne memory plain).2]
  split
  · exact List.Subset.refl _
  · exact Memory.subset_insertDirectory _ _

/-- Writing a file makes at most its directory. -/
theorem mem_directories_writeOne {memory : Memory} {file : File} (plain : file.Plain)
    {directory : String}
    (member : directory ∈ ((writeOne Memory.system base file).run memory).2.directories) :
    directory ∈ memory.directories ∨
      Path.parent (Path.join base file.path) = some directory := by
  rw [(run_writeOne memory plain).2] at member
  split at member
  · exact Or.inl member
  · rename_i parent parentEq
    rcases List.mem_cons.mp (Memory.insertDirectory_subset _ _ member) with rfl | known
    · exact Or.inr parentEq
    · exact Or.inl known

/-- In memory a batch of plain files succeeds and reports all of them as written. -/
theorem writeRest_written (memory : Memory) (scope base : String) (summary : Summary)
    {files : List File}
    (plain : ∀ file ∈ files, file.Plain) :
    ((writeRest Memory.system scope base summary files).run memory).1.1 =
      .ok { summary with written := summary.written ++ files.map File.path } := by
  induction files generalizing summary memory with
  | nil =>
      rw [List.map_nil, List.append_nil]
      rfl
  | cons file rest ih =>
      obtain ⟨plainHere, plainLater⟩ := List.forall_mem_cons.mp plain
      obtain ⟨entry, runEq⟩ :=
        run_writeRest_cons_ok scope summary rest (run_writeOne memory plainHere).1
      rw [runEq]
      simp [ih _ _ plainLater, Summary.add]

/-- Writing files removes no directory. -/
theorem directories_subset_writeRest (memory : Memory) (scope : String) (summary : Summary)
    {files : List File} (plain : ∀ file ∈ files, file.Plain) :
    memory.directories ⊆
      ((writeRest Memory.system scope base summary files).run memory).2.directories := by
  induction files generalizing summary memory with
  | nil => exact List.Subset.refl _
  | cons file rest ih =>
      obtain ⟨plainHere, plainLater⟩ := List.forall_mem_cons.mp plain
      obtain ⟨entry, runEq⟩ :=
        run_writeRest_cons_ok scope summary rest (run_writeOne memory plainHere).1
      rw [runEq]
      exact List.Subset.trans (directories_subset_writeOne memory plainHere) (ih _ _ plainLater)

/-- Writing files makes at most their directories. -/
theorem mem_directories_writeRest {memory : Memory} {scope : String} {summary : Summary}
    {files : List File} (plain : ∀ file ∈ files, file.Plain) {directory : String}
    (member : directory ∈
      ((writeRest Memory.system scope base summary files).run memory).2.directories) :
    directory ∈ memory.directories ∨
      ∃ file ∈ files, Path.parent (Path.join base file.path) = some directory := by
  induction files generalizing summary memory with
  | nil => exact Or.inl member
  | cons file rest ih =>
      obtain ⟨plainHere, plainLater⟩ := List.forall_mem_cons.mp plain
      obtain ⟨entry, runEq⟩ :=
        run_writeRest_cons_ok scope summary rest (run_writeOne memory plainHere).1
      rw [runEq] at member
      rcases ih plainLater member with known | ⟨later, laterMem, parentEq⟩
      · rcases mem_directories_writeOne plainHere known with known | parentEq
        · exact Or.inl known
        · exact Or.inr ⟨file, List.mem_cons_self, parentEq⟩
      · exact Or.inr ⟨later, List.mem_cons_of_mem _ laterMem, parentEq⟩

end InMemory

end RestPlugin.Output
