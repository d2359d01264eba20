import Mathlib.Data.Nat.Find

/-!
# Functions that answer their own questions

An inquiry is a computation that may ask questions and goes on with what it is told.  If every
question has an inquiry, then there is a function of the questions that answers each as its inquiry
does when it asks this very function.  It has no answer where the asking does not end.  So a
function can be given by its equation alone, without a measure that decreases.
-/

namespace RestPlugin

variable {Question : Type} {α β : Type}

/-- A computation that may ask questions. -/
inductive Inquiry (Answer : Question → Type) (α : Type) where
  | done (found : Option α)
  | ask (question : Question) (next : Answer question → Inquiry Answer α)

namespace Inquiry

variable {Answer : Question → Type}

/-! ## Running -/

/-- Goes on with what an inquiry comes to. -/
def bind : Inquiry Answer α → (α → Inquiry Answer β) → Inquiry Answer β
  | done none, _ => done none
  | done (some found), after => after found
  | ask question next, after => ask question fun answer => (next answer).bind after

instance : Monad (Inquiry Answer) where
  pure found := done (some found)
  bind := bind

instance : MonadLift Option (Inquiry Answer) where
  monadLift := done

/-- Asks one question. -/
def question (asked : Question) : Inquiry Answer (Answer asked) :=
  ask asked fun answer => done (some answer)

/-- What an inquiry comes to with given answers. -/
def run (answers : (question : Question) → Option (Answer question)) :
    Inquiry Answer α → Option α
  | done found => found
  | ask question next => (answers question).bind fun answer => (next answer).run answers

section Run

variable {answers : (question : Question) → Option (Answer question)}

@[simp]
theorem run_pure (found : α) : (pure found : Inquiry Answer α).run answers = some found := rfl

@[simp]
theorem run_liftM (found : Option α) : (liftM found : Inquiry Answer α).run answers = found := rfl

@[simp]
theorem run_question (asked : Question) :
    (question asked : Inquiry Answer (Answer asked)).run answers = answers asked :=
  Option.bind_fun_some _

@[simp]
theorem run_bind (first : Inquiry Answer α) (after : α → Inquiry Answer β) :
    (first >>= after).run answers =
      (first.run answers).bind fun found => (after found).run answers := by
  change (first.bind after).run answers = _
  induction first with
  | done found => cases found <;> rfl
  | ask question next ih =>
      rw [bind, run, run, Option.bind_assoc]
      exact congrArg _ (funext ih)

/-- With more answers an inquiry still comes to what it came to. -/
theorem run_mono {more : (question : Question) → Option (Answer question)}
    (kept : ∀ question answer, answers question = some answer → more question = some answer)
    {inquiry : Inquiry Answer α} {found : α} (came : inquiry.run answers = some found) :
    inquiry.run more = some found := by
  induction inquiry with
  | done => exact came
  | ask question next ih =>
      obtain ⟨answer, answerEq, later⟩ := Option.bind_eq_some_iff.mp came
      rw [run, kept question answer answerEq]
      exact ih answer later

end Run

/-! ## Answering -/

section Answer

variable (inquiry : (question : Question) → Inquiry Answer (Answer question))

/-- The answers that are found in so many rounds of asking. -/
def within : ℕ → (question : Question) → Option (Answer question)
  | 0, _ => none
  | rounds + 1, question => (inquiry question).run (within rounds)

variable {inquiry}

theorem within_mono {rounds more : ℕ} (le : rounds ≤ more) {question : Question}
    {answer : Answer question} (found : within inquiry rounds question = some answer) :
    within inquiry more question = some answer := by
  induction rounds generalizing more question with
  | zero => cases found
  | succ rounds ih =>
      obtain ⟨more, rfl⟩ := Nat.exists_eq_add_of_le' (Nat.one_le_of_lt le)
      exact run_mono (fun _ _ => ih (Nat.le_of_succ_le_succ le)) found

variable (inquiry)

open Classical in
/-- The answer that is found in some number of rounds, if any is. -/
noncomputable def answer (question : Question) : Option (Answer question) :=
  if ended : ∃ rounds, (within inquiry rounds question).isSome then
    within inquiry (Nat.find ended) question
  else none

variable {inquiry}

/-- A question is answered exactly if it is in some number of rounds. -/
theorem answer_eq_some_iff {question : Question} {found : Answer question} :
    answer inquiry question = some found ↔
      ∃ rounds, within inquiry rounds question = some found := by
  rw [answer]
  constructor
  · intro found
    split at found
    · exact ⟨_, found⟩
    · cases found
  · rintro ⟨rounds, foundEq⟩
    have ended : ∃ rounds, (within inquiry rounds question).isSome :=
      ⟨rounds, Option.isSome_of_mem foundEq⟩
    rw [dif_pos ended]
    obtain ⟨first, firstEq⟩ := Option.isSome_iff_exists.mp (Nat.find_spec ended)
    have least := Nat.find_min' ended (Option.isSome_of_mem foundEq)
    rw [firstEq, ← foundEq, within_mono least firstEq]

/-- An inquiry asks finitely many questions, so what it comes to is found in
some number of rounds. -/
theorem run_answer_eq_some_iff {computation : Inquiry Answer α} {found : α} :
    computation.run (answer inquiry) = some found ↔
      ∃ rounds, computation.run (within inquiry rounds) = some found := by
  constructor
  · intro came
    induction computation with
    | done => exact ⟨0, came⟩
    | ask question next ih =>
        obtain ⟨reply, replyEq, later⟩ := Option.bind_eq_some_iff.mp came
        obtain ⟨rounds, replied⟩ := answer_eq_some_iff.mp replyEq
        obtain ⟨others, continued⟩ := ih reply later
        refine ⟨max rounds others, ?_⟩
        rw [run, within_mono (le_max_left rounds others) replied]
        exact run_mono (fun _ _ => within_mono (le_max_right rounds others)) continued
  · rintro ⟨rounds, came⟩
    exact run_mono (fun _ _ found => answer_eq_some_iff.mpr ⟨rounds, found⟩) came

/-- Every question is answered as its inquiry answers it by asking. -/
theorem answer_eq (question : Question) :
    answer inquiry question = (inquiry question).run (answer inquiry) := by
  refine Option.ext fun found => ?_
  rw [answer_eq_some_iff, run_answer_eq_some_iff]
  constructor
  · rintro ⟨_ | rounds, foundEq⟩
    · cases foundEq
    · exact ⟨rounds, foundEq⟩
  · rintro ⟨rounds, foundEq⟩
    exact ⟨rounds + 1, foundEq⟩

end Answer

end Inquiry

end RestPlugin
