import Mathlib.Data.List.Induction
import RestPlugin.Output.File
import RestPlugin.Proofs.Path

/-!
# Queued files

A queue never has two files with one path.  Of the files queued under a path the last one stays, in
the place of the first one, so none is lost exactly if their paths differ, and then they stand in
the queue as they were queued.
-/

namespace RestPlugin.Output

namespace Queue

/-- No two files of a queue have the same path. -/
def Distinct (queue : Queue) : Prop :=
  queue.Pairwise fun earlier later => Path.same earlier.path later.path = false

theorem mem_add_self (file : File) (queue : Queue) : file ∈ queue.add file := by
  induction queue with
  | nil => exact List.mem_singleton_self file
  | cons queued rest ih =>
      rw [add]
      split
      · exact List.mem_cons_self
      · exact List.mem_cons_of_mem _ ih

theorem eq_or_mem_of_mem_add {file other : File} {queue : Queue} (member : other ∈ queue.add file) :
    other = file ∨ other ∈ queue := by
  induction queue with
  | nil => exact Or.inl (List.mem_singleton.mp member)
  | cons queued rest ih =>
      rw [add] at member
      split at member
      · rcases List.mem_cons.mp member with rfl | later
        · exact Or.inl rfl
        · exact Or.inr (List.mem_cons_of_mem _ later)
      · rcases List.mem_cons.mp member with rfl | later
        · exact Or.inr List.mem_cons_self
        · exact (ih later).imp_right (List.mem_cons_of_mem _)

/-- Queueing a file keeps the paths of a queue different, as it replaces a file with the same
path. -/
theorem Distinct.add {queue : Queue} (distinct : Distinct queue) (file : File) :
    Distinct (queue.add file) := by
  induction queue with
  | nil => exact List.pairwise_singleton _ file
  | cons queued rest ih =>
      obtain ⟨apart, restDistinct⟩ := List.pairwise_cons.mp distinct
      rw [Queue.add]
      split
      · rename_i alike
        apply List.Pairwise.cons _ restDistinct
        intro later member
        rw [← Path.same_congr alike]
        exact apart later member
      · rename_i differ
        apply List.Pairwise.cons _ (ih restDistinct)
        intro later member
        rcases eq_or_mem_of_mem_add member with rfl | known
        · exact eq_false_of_ne_true differ
        · exact apart later known

/-- Queues files in order. -/
def addAll (queue : Queue) (files : List File) : Queue :=
  files.foldl (fun queue file => queue.add file) queue

theorem mem_or_mem_of_mem_addAll {files : List File} {other : File} {queue : Queue}
    (member : other ∈ queue.addAll files) : other ∈ queue ∨ other ∈ files := by
  induction files generalizing queue with
  | nil => exact Or.inl member
  | cons file files ih =>
      rcases ih member with earlier | later
      · rcases eq_or_mem_of_mem_add earlier with rfl | known
        · exact Or.inr List.mem_cons_self
        · exact Or.inl known
      · exact Or.inr (List.mem_cons_of_mem _ later)

/-- Queueing files keeps their paths different. -/
theorem Distinct.addAll {queue : Queue} (distinct : Distinct queue) (files : List File) :
    Distinct (queue.addAll files) := by
  induction files generalizing queue with
  | nil => exact distinct
  | cons file files ih => exact ih (distinct.add file)

/-- The first file of a queue has a given path. -/
def StartsAt (path : String) (queue : Queue) : Prop :=
  ∃ first later, queue = first :: later ∧ Path.same path first.path = true

theorem startsAt_singleton (file : File) : StartsAt file.path [file] :=
  ⟨file, [], rfl, Path.same_self file.path⟩

/-- Queueing a file keeps the first path, as the file goes to the end or takes the place of one with
its own path. -/
theorem StartsAt.add {path : String} {queue : Queue} (starts : StartsAt path queue) (file : File) :
    StartsAt path (queue.add file) := by
  obtain ⟨first, later, rfl, alike⟩ := starts
  rw [Queue.add]
  split
  · rename_i samePath
    refine ⟨file, later, rfl, ?_⟩
    rw [Path.same_congr alike]
    exact samePath
  · exact ⟨first, Queue.add file later, rfl, alike⟩

/-- Queueing more files keeps where the queue starts. -/
theorem StartsAt.addAll {path : String} {queue : Queue} (starts : StartsAt path queue)
    (files : List File) : StartsAt path (queue.addAll files) := by
  induction files generalizing queue with
  | nil => exact starts
  | cons file files ih => exact ih (starts.add file)

/-! ## What stays in a queue -/

/-- A queued file is found under its path, and nothing else changes. -/
theorem get?_add (file : File) (queue : Queue) (path : String) :
    (queue.add file).get? path =
      if Path.same file.path path = true then some file else queue.get? path := by
  induction queue with
  | nil =>
      rw [add, get?, List.find?_cons]
      cases Path.same file.path path <;> rfl
  | cons queued rest ih =>
      rw [get?] at ih ⊢
      rw [add]
      by_cases alike : Path.same queued.path file.path = true
      · rw [if_pos alike, get?, List.find?_cons, List.find?_cons, Path.same_congr alike]
        cases Path.same file.path path <;> rfl
      · rw [if_neg alike, get?, List.find?_cons, List.find?_cons, ih]
        by_cases first : Path.same queued.path path = true
        · have other : Path.same file.path path = false := by
            rw [Bool.eq_false_iff]
            intro second
            rw [Path.same_congr first, Path.same_comm] at alike
            exact alike second
          simp [first, other]
        · simp [first, get?]

/-- Under each path stays the file that was queued last. -/
theorem get?_addAll (files : List File) (queue : Queue) (path : String) :
    (queue.addAll files).get? path =
      (files.reverse.find? fun file => Path.same file.path path).or (queue.get? path) := by
  induction files generalizing queue with
  | nil => rfl
  | cons file files ih =>
      have step : queue.addAll (file :: files) = (queue.add file).addAll files := rfl
      rw [step, ih, get?_add, List.reverse_cons, List.find?_append, Option.or_assoc]
      congr 1
      rw [List.find?_singleton]
      cases Path.same file.path path <;> rfl

/-- Of the files under a path one stays. -/
theorem exists_same_of_mem {files : List File} {file : File} (member : file ∈ files) :
    ∃ kept ∈ files, kept ∈ addAll [] files ∧ Path.same kept.path file.path = true := by
  have found : (files.reverse.find? fun other => Path.same other.path file.path).isSome = true :=
    List.find?_isSome.mpr ⟨file, List.mem_reverse.mpr member, Path.same_self file.path⟩
  obtain ⟨kept, keptEq⟩ := Option.isSome_iff_exists.mp found
  have stays : (addAll [] files).get? file.path = some kept := by
    rw [get?_addAll, keptEq]
    rfl
  have alike : Path.same kept.path file.path = true := by
    have holds := List.find?_some keptEq
    exact holds
  exact ⟨kept, List.mem_reverse.mp (List.mem_of_find?_eq_some keptEq),
    List.mem_of_find?_eq_some stays, alike⟩

/-- A file with a fresh path is queued at the end. -/
theorem add_eq_append {queue : Queue} {file : File}
    (fresh : ∀ queued ∈ queue, Path.same queued.path file.path = false) :
    queue.add file = queue ++ [file] := by
  induction queue with
  | nil => rfl
  | cons queued rest ih =>
      rw [List.forall_mem_cons] at fresh
      rw [add, if_neg (by simp [fresh.1]), ih fresh.2]
      rfl

theorem length_add_le (queue : Queue) (file : File) :
    (queue.add file).length ≤ queue.length + 1 := by
  induction queue with
  | nil => exact Nat.le_refl _
  | cons queued rest ih =>
      rw [add]
      split
      · exact Nat.le_succ _
      · exact Nat.succ_le_succ ih

theorem length_addAll_le (files : List File) (queue : Queue) :
    (queue.addAll files).length ≤ queue.length + files.length := by
  induction files generalizing queue with
  | nil => exact Nat.le_refl _
  | cons file files ih =>
      have first := length_add_le queue file
      have later := ih (queue.add file)
      have step : queue.addAll (file :: files) = (queue.add file).addAll files := rfl
      rw [step, List.length_cons]
      omega

theorem add_eq_append_of_length {queue : Queue} {file : File}
    (longer : queue.length < (queue.add file).length) : queue.add file = queue ++ [file] := by
  induction queue with
  | nil => rfl
  | cons queued rest ih =>
      rw [add] at longer ⊢
      split at longer
      · exact absurd longer (Nat.lt_irrefl _)
      · rename_i apart
        rw [if_neg apart, ih (Nat.lt_of_succ_lt_succ longer)]
        rfl

/-- Queued files stand as they were queued if none was lost. -/
theorem addAll_eq_append_of_length {files : List File} {queue : Queue}
    (all : (queue.addAll files).length = queue.length + files.length) :
    queue.addAll files = queue ++ files := by
  induction files generalizing queue with
  | nil => exact (List.append_nil queue).symm
  | cons file files ih =>
      have first := length_add_le queue file
      have later := length_addAll_le files (queue.add file)
      have step : queue.addAll (file :: files) = (queue.add file).addAll files := rfl
      rw [step, List.length_cons] at all
      have appended : queue.add file = queue ++ [file] := add_eq_append_of_length (by omega)
      rw [step, ih (by omega), appended, List.append_assoc]
      rfl

/-- Files with different paths are all queued at the end. -/
theorem addAll_eq_append {files : List File} {queue : Queue}
    (distinct : Distinct (queue ++ files)) : queue.addAll files = queue ++ files := by
  induction files generalizing queue with
  | nil => exact (List.append_nil queue).symm
  | cons file files ih =>
      have fresh : queue.add file = queue ++ [file] := add_eq_append fun queued member =>
        (List.pairwise_append.mp distinct).2.2 queued member file List.mem_cons_self
      have step : queue.addAll (file :: files) = (queue.add file).addAll files := rfl
      rw [List.append_cons] at distinct
      rw [step, fresh, ih distinct, List.append_assoc]
      rfl

/-- No queued file is lost exactly if their paths differ. -/
theorem length_addAll_iff {files : List File} :
    (addAll [] files).length = files.length ↔ Distinct files := by
  constructor
  · intro all
    have appended : addAll [] files = [] ++ files :=
      addAll_eq_append_of_length (by rw [all, List.length_nil, Nat.zero_add])
    have start : Distinct [] := List.Pairwise.nil
    rw [← List.nil_append files, ← appended]
    exact start.addAll files
  · intro distinct
    have appended : addAll [] files = [] ++ files := addAll_eq_append distinct
    rw [appended, List.nil_append]

/-! ## The order of a queue -/

/-- The place of the first of some files that has a path. -/
def firstCall (files : List File) (path : String) : Nat :=
  files.findIdx fun file => Path.same file.path path

theorem firstCall_congr {p q : String} (alike : Path.same p q = true) (files : List File) :
    firstCall files p = firstCall files q := by
  rw [firstCall, firstCall]
  congr 1
  funext file
  rw [Path.same_comm, Path.same_congr alike, Path.same_comm]

/-- There is a first call for a path exactly if some file has it. -/
theorem firstCall_lt_length_iff {files : List File} {path : String} :
    firstCall files path < files.length ↔ ∃ file ∈ files, Path.same file.path path = true :=
  List.findIdx_lt_length

theorem firstCall_append_of_mem {files : List File} {file : File} (member : file ∈ files)
    (later : List File) : firstCall (files ++ later) file.path = firstCall files file.path := by
  have known := firstCall_lt_length_iff.mpr ⟨file, member, Path.same_self file.path⟩
  rw [firstCall, List.findIdx_append]
  exact if_pos known

/-- Queueing a file replaces the file with its path, or puts it to the end if there is none. -/
theorem add_cases (file : File) (queue : Queue) :
    ((∀ queued ∈ queue, Path.same queued.path file.path = false) ∧
      queue.add file = queue ++ [file]) ∨
      ∃ before old after, queue = before ++ old :: after ∧ Path.same old.path file.path = true ∧
        queue.add file = before ++ file :: after := by
  induction queue with
  | nil => exact .inl ⟨by simp, rfl⟩
  | cons queued rest ih =>
      rw [add]
      by_cases alike : Path.same queued.path file.path = true
      · rw [if_pos alike]
        exact .inr ⟨[], queued, rest, rfl, alike, rfl⟩
      · rw [if_neg alike]
        rcases ih with ⟨fresh, restEq⟩ | ⟨before, old, after, rfl, oldAlike, restEq⟩
        · refine .inl ⟨List.forall_mem_cons.mpr ⟨eq_false_of_ne_true alike, fresh⟩, ?_⟩
          rw [restEq, List.cons_append]
        · exact .inr ⟨queued :: before, old, after, rfl, oldAlike, by rw [restEq, List.cons_append]⟩

theorem addAll_append_singleton (files : List File) (file : File) (queue : Queue) :
    queue.addAll (files ++ [file]) = (queue.addAll files).add file := by
  rw [addAll, List.foldl_append]
  rfl

/-- What is known of the paths of a queue is known of all paths that were called. -/
theorem forall_same_of_addAll {files : List File} {path : String}
    (fresh : ∀ queued ∈ addAll [] files, Path.same queued.path path = false) :
    ∀ file ∈ files, Path.same file.path path = false := by
  intro file member
  obtain ⟨queued, -, queuedMem, alike⟩ := exists_same_of_mem member
  rw [← Path.same_congr alike]
  exact fresh queued queuedMem

/-- The files of a queue stand in the order in which their paths were first called. -/
theorem pairwise_firstCall (files : List File) :
    (addAll [] files).Pairwise fun earlier later =>
      firstCall files earlier.path < firstCall files later.path := by
  rw [← List.pairwise_map]
  induction files using List.reverseRecOn with
  | nil => exact .nil
  | append_singleton files file ih =>
      have called {queued : File} (member : queued ∈ addAll [] files) : queued ∈ files :=
        (mem_or_mem_of_mem_addAll member).resolve_left List.not_mem_nil
      have kept : (addAll [] files).map (fun queued => firstCall (files ++ [file]) queued.path) =
          (addAll [] files).map fun queued => firstCall files queued.path :=
        List.map_congr_left fun queued member => firstCall_append_of_mem (called member) [file]
      rw [addAll_append_singleton]
      rcases add_cases file (addAll [] files) with
        ⟨fresh, added⟩ | ⟨before, old, after, split, alike, added⟩
      · -- a new path comes last, as all others were called before
        have last : firstCall (files ++ [file]) file.path = files.length := by
          have absent := List.findIdx_eq_length.mpr (forall_same_of_addAll fresh)
          rw [firstCall, List.findIdx_append, absent]
          simp
        rw [added, List.map_append, kept, List.map_singleton, List.pairwise_append, last]
        refine ⟨ih, List.pairwise_singleton _ _, List.forall_mem_map.mpr fun queued member => ?_⟩
        have known : firstCall files queued.path < files.length :=
          firstCall_lt_length_iff.mpr ⟨queued, called member, Path.same_self queued.path⟩
        simpa using known
      · -- a known path stays where it is
        have same : firstCall (files ++ [file]) file.path = firstCall (files ++ [file]) old.path :=
          firstCall_congr (by rw [Path.same_comm, alike]) _
        have places : (before ++ file :: after).map (fun queued =>
            firstCall (files ++ [file]) queued.path) =
              (addAll [] files).map fun queued => firstCall files queued.path := by
          rw [← kept, split, List.map_append, List.map_append, List.map_cons, List.map_cons, same]
        rw [added, places]
        exact ih

/-- The file under a path is the one of the last call with that path. -/
theorem get?_eq_some_iff {files : List File} {path : String} {file : File} :
    (addAll [] files).get? path = some file ↔
      ∃ earlier later, files = earlier ++ file :: later ∧ Path.same file.path path = true ∧
        ∀ other ∈ later, Path.same other.path path = false := by
  have last : (addAll [] files).get? path =
      files.reverse.find? fun file => Path.same file.path path := by
    rw [get?_addAll]
    exact Option.or_none
  rw [last, List.find?_eq_some_iff_append]
  constructor
  · rintro ⟨alike, later, earlier, split, others⟩
    refine ⟨earlier.reverse, later.reverse, ?_, alike, ?_⟩
    · rw [← List.reverse_reverse files, split]
      simp
    · simpa using others
  · rintro ⟨earlier, later, rfl, alike, others⟩
    exact ⟨alike, later.reverse, earlier.reverse, by simp, by simpa using others⟩

/-- Nothing is found under a path exactly if no file was queued under it. -/
theorem get?_eq_none_iff {files : List File} {path : String} :
    (addAll [] files).get? path = none ↔ ∀ file ∈ files, Path.same file.path path = false := by
  constructor
  · intro absent
    apply forall_same_of_addAll
    simpa [get?] using absent
  · intro fresh
    rw [get?_addAll, Option.or_eq_none_iff]
    simpa [get?] using fresh

/-- After any calls the paths of a queue differ from each other, each path has the file of its last
call or none if it was not called, and the files stand in the order of the first calls of their
paths.  Two paths count as one exactly if both or neither start at the root, both or neither begin
with `.`, and their other parts agree without the empty ones and every further `.`. -/
theorem addAll_last_call_first_place (files : List File) :
    Distinct (addAll [] files) ∧
    (∀ path file, (addAll [] files).get? path = some file ↔
      ∃ earlier later, files = earlier ++ file :: later ∧ Path.same file.path path = true ∧
        ∀ other ∈ later, Path.same other.path path = false) ∧
    (∀ path, (addAll [] files).get? path = none ↔
      ∀ file ∈ files, Path.same file.path path = false) ∧
    ((addAll [] files).Pairwise fun earlier later =>
      firstCall files earlier.path < firstCall files later.path) ∧
    ∀ p q, Path.same p q = true ↔ Path.isAbsolute p = Path.isAbsolute q ∧
      Path.startsHere p = Path.startsHere q ∧ Path.loudParts p = Path.loudParts q := by
  have empty : Distinct [] := .nil
  exact ⟨empty.addAll files, fun _ _ => get?_eq_some_iff, fun _ => get?_eq_none_iff,
    pairwise_firstCall files, fun _ _ => Path.same_iff_parts⟩

example : (addAll [] [⟨"a/b", "1", .always, none⟩, ⟨"./a", "2", .always, none⟩,
    ⟨"a//b/.", "3", .always, none⟩]).map File.content = ["3", "2"] := by
  decide +kernel

end Queue

end RestPlugin.Output
