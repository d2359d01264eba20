import RestPlugin.Proofs.Command.Generate

/-!
# Histories of generations

Generations follow one another on one output directory of a file system that starts empty and
whose operations may fail.  As long as the last batch of writes was finished, the files of one
earlier generation stand, and a generation that says the plugin is up to date is right, unless
an earlier one came to other files under the same hash.  After a batch that broke off nothing
of the kind holds: the manifest of the generation before it is still there and vouches for
files that are no longer its own.
-/

namespace RestPlugin.Command

open Files Output Pipeline Plugin

variable {σ : Type}

/-! ## What a generation can do -/

/-- What a generation that is no dry run can come to, seen through the file system. -/
inductive Happens (view : σ → String → Option String) (loaded : Config.Loaded) (output : String)
    (before : σ) : Except Error (Pipeline.Result × Generation) → σ → Prop
  | failed {error : Error} {after : σ} (unwritten : ∀ fault, error ≠ .write fault)
      (kept : view after = view before) : Happens view loaded output before (.error error) after
  | brokeOff (error : WriteError) (after : σ) :
      Happens view loaded output before (.error (.write error)) after
  | upToDate {result : Pipeline.Result} {context : Context} {after : σ}
      (success : Plugin.pipeline.run loaded [] { scope } = (.ok result, context))
      (kept : view after = view before)
      (recorded : (view before (Path.join output manifestPlace)).bind manifestHash =
        some result.ir.hash) (target : String) :
      Happens view loaded output before (.ok (result, .upToDate target)) after
  | written {result : Pipeline.Result} {context : Context} {after : σ}
      (success : Plugin.pipeline.run loaded [] { scope } = (.ok result, context))
      (stored : ∀ file ∈ result.files, view after (Path.join output file.path) = some file.content)
      (summary : Summary) :
      Happens view loaded output before (.ok (result, .written output summary)) after

/-- A generation on a lawful file system is one of the calls that a history is made of. -/
theorem happens_generate {system : System (StateM σ)} {view : σ → String → Option String}
    (lawful : Lawful system view) {loaded : Config.Loaded} (configured : loaded.Representable)
    (output : String) (force : Bool) (before : σ) :
    Happens view loaded output before
      ((generate system loaded { output, force }).run before).1.1
      ((generate system loaded { output, force }).run before).2 := by
  rcases run : Plugin.pipeline.run loaded [] { scope } with ⟨outcome, context⟩
  cases outcome with
  | error error =>
      rw [run_generate_of_error system { output, force } before run]
      exact .failed (fun _ => nofun) rfl
  | ok result =>
      have complete := complete_of_run configured run
      have target := manifestTarget_eq complete.directory output
      have kept := lawful.view_read before (manifestTarget output result.ir.php)
      have truth : ∀ text, ((system.read (manifestTarget output result.ir.php)).run before).1 =
          .ok text → text = view before (manifestTarget output result.ir.php) :=
        fun text => lawful.read_eq
      rw [run_generate_of_ok system { output, force } before run rfl, run_writeResult]
      revert kept truth
      rcases (system.read (manifestTarget output result.ir.php)).run before with ⟨read, between⟩
      intro kept truth
      cases read with
      | error fault => exact .failed (fun _ => nofun) kept
      | ok text =>
          dsimp only
          by_cases recorded :
              (!force && text.bind manifestHash == some result.ir.hash) = true
          · rw [if_pos recorded]
            rw [Bool.and_eq_true, beq_iff_eq, truth text rfl, target] at recorded
            exact .upToDate run kept recorded.2 _
          · rw [if_neg recorded]
            have stored : ∀ final,
                ((writeAll system scope output result.files).run between).1.1 = .ok final →
                ∀ file ∈ result.files, view ((writeAll system scope output result.files).run
                  between).2 (Path.join output file.path) = some file.content :=
              fun final => view_writeRest_target lawful complete.plain (complete.apart output)
            revert stored
            rcases (writeAll system scope output result.files).run between with
              ⟨⟨written, entries⟩, last⟩
            intro stored
            cases written with
            | error error => exact .brokeOff error last
            | ok summary => exact .written run (stored summary rfl) summary

/-! ## Histories -/

/-- A generation that is no dry run. -/
structure Call where
  loaded : Config.Loaded
  force : Bool

/-- Whether the generated files are in a settled state: a finished batch of writes settles them, one
that broke off unsettles them, and without a batch they stay as they are. -/
def settles (settled : Bool) : Except Error (Pipeline.Result × Generation) → Bool
  | .ok (_, .written _ _) => true
  | .error (.write _) => false
  | _ => settled

theorem settles_error {settled : Bool} {error : Error}
    (unwritten : ∀ fault, error ≠ .write fault) : settles settled (.error error) = settled := by
  cases error with
  | write fault => exact absurd rfl (unwritten fault)
  | _ => rfl

/-- The file system after a call, and whether the files are settled. -/
def advance (system : System (StateM σ)) (output : String) (past : σ × Bool) (call : Call) :
    σ × Bool :=
  let run := (generate system call.loaded { output, force := call.force }).run past.1
  (run.2, settles past.2 run.1.1)

/-- The file system after calls, and whether the files are settled. -/
def history (system : System (StateM σ)) (output : String) (start : σ) (calls : List Call) :
    σ × Bool :=
  calls.foldl (advance system output) (start, true)

/-- The files that a call came to stand below the output directory. -/
def Stands (view : σ → String → Option String) (output : String) (state : σ) (call : Call) : Prop :=
  ∃ result context, Plugin.pipeline.run call.loaded [] { scope } = (.ok result, context) ∧
    ∀ file ∈ result.files, view state (Path.join output file.path) = some file.content

/-- What settled files are: there are none, or those of one of the calls. -/
def Settled (view : σ → String → Option String) (output : String) (calls : List Call)
    (state : σ) : Prop :=
  (∀ path, view state path = none) ∨ ∃ call ∈ calls, Stands view output state call

/-- A call that changes no file keeps what is settled. -/
theorem Settled.of_view_eq {view : σ → String → Option String} {output : String}
    {calls : List Call} {before after : σ} (settled : Settled view output calls before)
    (kept : view after = view before) (call : Call) :
    Settled view output (calls ++ [call]) after := by
  rcases settled with empty | ⟨earlier, member, result, context, success, stored⟩
  · rw [← kept] at empty
    exact Or.inl empty
  · rw [← kept] at stored
    exact Or.inr ⟨earlier, List.mem_append_left _ member, result, context, success, stored⟩

section Histories

variable {system : System (StateM σ)} {view : σ → String → Option String}
  (lawful : Lawful system view) {output : String}
include lawful

/-- One call keeps settled files settled, unless its writes break off. -/
theorem settled_advance {calls : List Call} {call : Call} (configured : call.loaded.Representable)
    {past : σ × Bool} (settled : past.2 = true → Settled view output calls past.1)
    (still : (advance system output past call).2 = true) :
    Settled view output (calls ++ [call]) (advance system output past call).1 := by
  have happens := happens_generate lawful configured output call.force past.1
  rw [advance] at still ⊢
  dsimp only at still ⊢
  revert happens still
  rcases (generate system call.loaded { output, force := call.force }).run past.1 with
    ⟨⟨outcome, journal⟩, after⟩
  intro still happens
  cases happens with
  | failed unwritten kept =>
      rw [settles_error unwritten] at still
      exact (settled still).of_view_eq kept call
  | brokeOff error => cases still
  | upToDate success kept recorded target => exact (settled still).of_view_eq kept call
  | written success stored summary =>
      exact Or.inr ⟨call, List.mem_append_right _ (List.mem_singleton_self call), _, _, success,
        stored⟩

/-- As long as the last batch of writes was finished, the files are settled. -/
theorem settled_history {start : σ} (empty : ∀ path, view start path = none) {calls : List Call}
    (configured : ∀ call ∈ calls, call.loaded.Representable)
    (settled : (history system output start calls).2 = true) :
    Settled view output calls (history system output start calls).1 := by
  induction calls using List.reverseRecOn with
  | nil => exact Or.inl empty
  | append_singleton calls call ih =>
      rw [List.forall_mem_append, List.forall_mem_singleton] at configured
      rw [history, List.foldl_append, List.foldl_cons, List.foldl_nil, ← history] at settled ⊢
      exact settled_advance lawful configured.2 (ih configured.1) settled

end Histories

/-- A generation that says the plugin is up to date is right as long as the last batch of writes
was finished: after any history of generations, forced or not, on a file system that started empty,
every file it queued stands below the output directory with its content.  The one exception is an
earlier generation that came to other files under the same hash. -/
theorem upToDate_sound_of_settled {system : System (StateM σ)} {view : σ → String → Option String}
    (lawful : Lawful system view) {output : String} {start : σ}
    (empty : ∀ path, view start path = none) {calls : List Call} {last : Call}
    (configured : ∀ call ∈ calls ++ [last], call.loaded.Representable)
    (settled : (history system output start calls).2 = true)
    {result : Pipeline.Result} {target : String} {journal : List Note} {after : σ}
    (answer : (generate system last.loaded { output, force := last.force }).run
      (history system output start calls).1 = ((.ok (result, .upToDate target), journal), after)) :
    (∀ file ∈ result.files, view after (Path.join output file.path) = some file.content) ∨
      ∃ earlier ∈ calls, ∃ other context,
        Plugin.pipeline.run earlier.loaded [] { scope } = (.ok other, context) ∧
        other.ir.hash = result.ir.hash ∧ other.files ≠ result.files := by
  rw [List.forall_mem_append, List.forall_mem_singleton] at configured
  have happens := happens_generate lawful configured.2 output last.force
    (history system output start calls).1
  rw [answer] at happens
  cases happens with
  | upToDate success kept recorded _ =>
    rcases settled_history lawful empty configured.1 settled with
      nothing | ⟨earlier, member, other, context, otherSuccess, stored⟩
    · rw [nothing] at recorded
      cases recorded
    · obtain ⟨manifest, manifestMem, place, hash⟩ :=
        (complete_of_run (configured.1 earlier member) otherSuccess).manifest
      have sameHash : other.ir.hash = result.ir.hash := by
        rw [← place, stored manifest manifestMem, Option.bind_some, hash] at recorded
        exact Option.some.inj recorded
      by_cases sameFiles : other.files = result.files
      · left
        rw [kept, ← sameFiles]
        exact stored
      · exact Or.inr ⟨earlier, member, other, context, otherSuccess, sameHash, sameFiles⟩

/-- The diary is generated into an empty memory, and is then up to date with all its files. -/
theorem upToDate_sound_of_settled_diary :
    (∀ path, Memory.get? {} path = none) ∧ diary.Representable ∧
      (history Memory.system "out" {} [⟨diary, true⟩]).2 = true ∧
      ∃ result target journal after,
        (generate Memory.system diary { output := "out" }).run
            (history Memory.system "out" {} [⟨diary, true⟩]).1 =
          ((.ok (result, .upToDate target), journal), after) ∧
        ∀ file ∈ result.files, after.get? (Path.join "out" file.path) = some file.content := by
  obtain ⟨result, context, success⟩ := exists_run_diary
  have complete := complete_of_run diary_representable success
  obtain ⟨journal, forced⟩ := run_generate_forced complete success "out" {}
  have stored := view_writeRest_target Memory.lawful complete.plain (complete.apart "out")
    (InMemory.writeRest_written {} scope "out" {} complete.plain)
  obtain ⟨journal', again⟩ := run_generate_settled complete success "out" stored
  have generated : history Memory.system "out" {} [⟨diary, true⟩] =
      (((writeAll Memory.system scope "out" result.files).run {}).2, true) := by
    rw [history, List.foldl_cons, List.foldl_nil, advance, forced]
    rfl
  have settled : (history Memory.system "out" {} [⟨diary, true⟩]).2 = true := by rw [generated]
  have answer : (generate Memory.system diary { output := "out" }).run
      (history Memory.system "out" {} [⟨diary, true⟩]).1 =
      ((.ok (result, .upToDate (manifestTarget "out" result.ir.php)), journal'),
        ((writeAll Memory.system scope "out" result.files).run {}).2) := by
    rw [generated]
    exact again
  have configured : ∀ call ∈ [Call.mk diary true] ++ [Call.mk diary false],
      call.loaded.Representable := by
    simp [diary_representable]
  refine ⟨fun _ => rfl, diary_representable, settled, result, _, _, _, answer, ?_⟩
  rcases upToDate_sound_of_settled Memory.lawful (fun _ => rfl) configured settled answer with
    present | ⟨earlier, member, other, otherContext, otherSuccess, -, differ⟩
  · exact present
  · obtain rfl := List.mem_singleton.mp member
    rw [success] at otherSuccess
    cases otherSuccess
    exact absurd rfl differ

/-! ## A file system that runs out of room -/

/-- Files in memory, with room for a number of writes.  A write for which there is no room fails and
leaves an empty file. -/
structure Limited where
  memory : Memory := {}
  room : Nat

namespace Limited

/-- The text of a file. -/
def get? (limited : Limited) (path : String) : Option String := limited.memory.get? path

/-- The fault of a write for which there is no room. -/
def full : Fault := .other "No space left on device (os error 28)"

/-- Writes a file, or empties it if there is no room. -/
def write (limited : Limited) (path content : String) : Except Fault Unit × Limited :=
  match limited.room with
  | 0 => (.error full, ⟨limited.memory.write path "", 0⟩)
  | room + 1 => (.ok (), ⟨limited.memory.write path content, room⟩)

/-- The operations of the file system. -/
def system : System (StateM Limited) where
  ensureDirectory _ := return .ok ()
  write path content := fun limited => limited.write path content
  read path := do return .ok ((← get).get? path)
  isFile path := do return ((← get).get? path).isSome
  formatPhp _ content := return .ok content
  formatTypeScript _ content := return .ok content

theorem get?_write_other {limited : Limited} {path content other : String}
    (differ : Path.same path other = false) :
    (limited.write path content).2.get? other = limited.get? other := by
  rw [write]
  split <;> simp [get?, Memory.get?_write, differ]

theorem get?_write_done {limited : Limited} {path content : String}
    (done : (limited.write path content).1 = .ok ()) :
    (limited.write path content).2.get? path = some content := by
  rw [write] at done ⊢
  split at done
  · cases done
  · simp [get?, Memory.get?_write]

/-- A file system that fails after a number of writes is lawful. -/
theorem lawful : Lawful system get? where
  view_ensureDirectory _ _ := rfl
  view_read _ _ := rfl
  view_isFile _ _ := rfl
  view_formatPhp _ _ _ := rfl
  view_formatTypeScript _ _ _ := rfl
  read_eq read := (Except.ok.inj read).symm
  formatPhp_eq formatted := (Except.ok.inj formatted).symm
  formatTypeScript_eq formatted := (Except.ok.inj formatted).symm
  view_write_same done := get?_write_done done
  view_write_other differ := get?_write_other differ

/-- Writing one plain file is one write. -/
theorem run_writeOne (limited : Limited) (base : String) {file : Output.File} (plain : file.Plain) :
    (writeOne system base file).run limited =
      match limited.write (Path.join base file.path) file.content with
      | (.ok (), after) => (.ok .written, after)
      | (.error fault, after) => (.error (.write (Path.join base file.path) fault), after) := by
  have made : (ensureParent system (Path.join base file.path)).run limited = (.ok (), limited) := by
    rw [ensureParent]
    split <;> rfl
  have format : (formatted system file (Path.join base file.path)).run limited =
      (.ok file.content, limited) := by
    rw [formatted, plain.2, withHeader]
    split <;> rfl
  have wrote : (system.write (Path.join base file.path) file.content).run limited =
      limited.write (Path.join base file.path) file.content := rfl
  rw [writeOne, run_bind, made]
  dsimp only
  rw [run_bind, format]
  dsimp only
  rw [store_eq, plain.1]
  dsimp only
  rw [storeAlways, run_bind, wrote]
  rcases limited.write (Path.join base file.path) file.content with ⟨outcome, after⟩
  cases outcome with
  | error fault => rfl
  | ok done => rfl

/-- A batch for which there is room takes up room for each of its files. -/
theorem run_writeRest_of_room (scope base : String) (summary : Summary) {files : List Output.File}
    (plain : ∀ file ∈ files, file.Plain) (memory : Memory) (room : Nat) :
    ∃ final, ((writeRest system scope base summary files).run
        ⟨memory, files.length + room⟩).1.1 = .ok final ∧
      ((writeRest system scope base summary files).run
        ⟨memory, files.length + room⟩).2.room = room := by
  induction files generalizing summary memory with
  | nil => exact ⟨summary, rfl, Nat.zero_add room⟩
  | cons file rest ih =>
      obtain ⟨plainHere, plainLater⟩ := List.forall_mem_cons.mp plain
      have more : (file :: rest).length + room = rest.length + room + 1 := by
        rw [List.length_cons, Nat.succ_add]
      have one : (writeOne system base file).run ⟨memory, rest.length + room + 1⟩ =
          (.ok .written,
            ⟨memory.write (Path.join base file.path) file.content, rest.length + room⟩) := by
        rw [run_writeOne _ _ plainHere, write]
      obtain ⟨entry, runEq⟩ := run_writeRest_cons_ok scope summary rest (congrArg Prod.fst one)
      rw [more, runEq, one]
      exact ih _ plainLater _

/-- A batch for which there is no room empties its first target. -/
theorem run_writeRest_of_full (scope base : String) (summary : Summary) {file : Output.File}
    (rest : List Output.File) (plain : file.Plain) (memory : Memory) :
    (writeRest system scope base summary (file :: rest)).run ⟨memory, 0⟩ =
      ((.error (.write (Path.join base file.path) full), []),
        ⟨memory.write (Path.join base file.path) "", 0⟩) := by
  have one : (writeOne system base file).run ⟨memory, 0⟩ =
      (.error (.write (Path.join base file.path) full),
        ⟨memory.write (Path.join base file.path) "", 0⟩) := by
    rw [run_writeOne _ _ plain, write]
  rw [run_writeRest_cons_error (congrArg Prod.fst one), one]

section Calls

variable {loaded : Config.Loaded} {result : Pipeline.Result} {context : Context}
  (complete : Complete result)
  (success : Plugin.pipeline.run loaded [] { scope } = (.ok result, context))
include complete success

/-- A forced generation for which there is just enough room writes its files and leaves no room. -/
theorem advance_of_room (output : String) (memory : Memory) (settled : Bool) :
    ∃ after, advance system output (⟨memory, result.files.length⟩, settled) ⟨loaded, true⟩ =
        (⟨after, 0⟩, true) ∧
      ∀ file ∈ result.files, after.get? (Path.join output file.path) = some file.content := by
  obtain ⟨final, done, roomEq⟩ :=
    run_writeRest_of_room scope output {} complete.plain memory 0
  have stored := view_writeRest_target lawful complete.plain (complete.apart output) done
  obtain ⟨journal, runEq⟩ := run_generate_of_forced system { output, force := true }
    ⟨memory, result.files.length⟩ success rfl rfl rfl
  rw [advance, runEq]
  rw [Nat.add_zero, ← writeAll] at done roomEq stored
  revert done roomEq stored
  rcases (writeAll system scope output result.files).run ⟨memory, result.files.length⟩ with
    ⟨⟨outcome, entries⟩, last, room⟩
  rintro rfl rfl stored
  exact ⟨last, rfl, stored⟩

/-- A forced generation for which there is no room empties its first file and breaks off. -/
theorem advance_of_full {first : Output.File} {later : List Output.File}
    (filesEq : result.files = first :: later) (output : String) (memory : Memory)
    (settled : Bool) :
    advance system output (⟨memory, 0⟩, settled) ⟨loaded, true⟩ =
      (⟨memory.write (Path.join output first.path) "", 0⟩, false) := by
  have plain : first.Plain := by
    apply complete.plain
    rw [filesEq]
    exact List.mem_cons_self
  obtain ⟨journal, runEq⟩ :=
    run_generate_of_forced system { output, force := true } ⟨memory, 0⟩ success rfl rfl rfl
  rw [advance, runEq, writeAll, filesEq, run_writeRest_of_full _ _ _ _ plain]
  rfl

end Calls

end Limited

/-- After a batch that broke off, a generation can say that the plugin is up to date when it is not.
The diary is generated into an empty file system that has room for its files only, and then once
more: the second batch empties the first file and stops, and the manifest of the first still
stands. -/
theorem upToDate_unsound_of_broken_off :
    Lawful Limited.system Limited.get? ∧ diary.Representable ∧
      ∃ start : Limited, (∀ path, start.get? path = none) ∧
        ∃ result target journal after,
          (generate Limited.system diary { output := "out" }).run
              (history Limited.system "out" start [⟨diary, true⟩, ⟨diary, true⟩]).1 =
            ((.ok (result, .upToDate target), journal), after) ∧
          ∃ file ∈ result.files, after.get? (Path.join "out" file.path) ≠ some file.content := by
  refine ⟨Limited.lawful, diary_representable, ?_⟩
  obtain ⟨result, context, success⟩ := exists_run_diary
  have complete := complete_of_run diary_representable success
  obtain ⟨first, later, filesEq, nonempty, apart⟩ := exists_first_of_run success
  obtain ⟨manifest, manifestMem, place, hashEq⟩ := complete.manifest
  obtain ⟨memory, firstCall, stored⟩ := Limited.advance_of_room complete success "out" {} true
  have secondCall := Limited.advance_of_full complete success filesEq "out" memory true
  have past : history Limited.system "out" ⟨{}, result.files.length⟩
      [⟨diary, true⟩, ⟨diary, true⟩] =
      (⟨memory.write (Path.join "out" first.path) "", 0⟩, false) := by
    rw [history, List.foldl_cons, List.foldl_cons, List.foldl_nil, firstCall, secondCall]
  have manifestKept : (memory.write (Path.join "out" first.path) "").get?
      (manifestTarget "out" result.ir.php) = some manifest.content := by
    rw [manifestTarget_eq complete.directory, Memory.get?_write, apart "out", ← place]
    exact stored manifest manifestMem
  obtain ⟨journal, answer⟩ := run_generate_of_recorded Limited.system { output := "out" }
    ⟨memory.write (Path.join "out" first.path) "", 0⟩ success rfl rfl
    (congrArg (fun text => (Except.ok text, _)) manifestKept) hashEq
  refine ⟨⟨{}, result.files.length⟩, fun _ => rfl, result, manifestTarget "out" result.ir.php,
    journal, ⟨memory.write (Path.join "out" first.path) "", 0⟩, ?_, first, ?_, ?_⟩
  · rw [past]
    exact answer
  · rw [filesEq]
    exact List.mem_cons_self
  · have emptied : (memory.write (Path.join "out" first.path) "").get?
        (Path.join "out" first.path) = some "" := by
      rw [Memory.get?_write, Path.same_self, if_pos rfl]
    intro kept
    exact nonempty (Option.some.inj (kept.symm.trans emptied))

end RestPlugin.Command
