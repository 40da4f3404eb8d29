import Mathlib.Data.List.Induction
import TwirpClient.Client.Configuration

/-!
# Histories of a generator

What a generator still knows of the steps it was taken through. `configured` reads it off the history, from its
end: the version stands in the last restart, and the library and the helpers in the last steps behind it that
selected them. One more step does to this configuration what it does to the generator (`configured_concat`), so
a generator never is anything else than a new one with this configuration, and it answers like one.
-/

namespace TwirpClient.Client.Generator

/-! ## The configuration in a history -/

namespace Step

/-- The version that a step starts over with. -/
def restartedVersion? : Step → Option String
  | .restart version => some version
  | _ => none

/-- The library that a step selects. A name that no library has selects none. -/
def selectedLibrary? : Step → Option Library
  | .selectLibrary name => (Library.ofName name).toOption
  | _ => none

/-- The helpers that a step selects, both at once. -/
def selectedHelpers? : Step → Option Helpers
  | .selectHelpers helpers => some helpers
  | _ => none

/-- Steps that leave the configuration alone: questions, the generation of a file, whatever comes of it, and the
selection of a library that does not exist. -/
inductive IsIdle : Step → Prop
  | askVersion : IsIdle .askVersion
  | askLibrary : IsIdle .askLibrary
  | generate (file : Schema.File) : IsIdle (.generate file)
  | unknownLibrary {name : String} {fault : ParameterFault} (h : Library.ofName name = .error fault) :
    IsIdle (.selectLibrary name)

end Step

/-- The steps behind the last restart, the newest first. -/
def sinceRestart (history : List Step) : List Step :=
  history.reverse.takeWhile fun step => step.restartedVersion?.isNone

/-- A new generator with the configuration that a history leaves, if it began with a generator for a version. -/
def configured (version : String) (history : List Step) : Generator where
  version := (history.reverse.findSome? Step.restartedVersion?).getD version
  library := ((sinceRestart history).findSome? Step.selectedLibrary?).getD .pbjs
  helpers := ((sinceRestart history).findSome? Step.selectedHelpers?).getD {}

variable (version : String) (generator : Generator)

/-- Another step changes the configuration as it changes a generator. -/
theorem configured_concat (history : List Step) (step : Step) :
    configured version (history ++ [step]) = (configured version history).after step := by
  rw [configured, sinceRestart, List.reverse_concat]
  cases step with
  | restart version' => rfl
  | selectLibrary name =>
    have hsince : (Step.selectLibrary name :: history.reverse).takeWhile (fun step => step.restartedVersion?.isNone) =
        .selectLibrary name :: sinceRestart history := rfl
    rw [hsince, List.findSome?_cons (f := Step.selectedLibrary?), Step.selectedLibrary?, after]
    cases Library.ofName name with
    | ok library => rfl
    | error fault => rfl
  | selectHelpers helpers => rfl
  | askVersion => rfl
  | askLibrary => rfl
  | generate file => rfl

/-- A generator is never anything else than a new one with the configuration of its history. -/
theorem foldl_after_eq_configured (history : List Step) :
    history.foldl after { version } = configured version history := by
  induction history using List.reverseRecOn with
  | nil => rfl
  | append_singleton history step ih => rw [List.foldl_append, ih, List.foldl_cons, List.foldl_nil, configured_concat]

/-! ## The answers of a run -/

theorem answers_append (steps steps' : List Step) :
    generator.answers (steps ++ steps') =
      generator.answers steps ++ (steps.foldl after generator).answers steps' := by
  induction steps generalizing generator with
  | nil => rfl
  | cons step steps ih => rw [List.cons_append, answers, ih, answers, List.cons_append, List.foldl_cons]

theorem length_answers (steps : List Step) : (generator.answers steps).length = steps.length := by
  induction steps generalizing generator with
  | nil => rfl
  | cons step steps ih => rw [answers, List.length_cons, ih, List.length_cons]

theorem after_of_isIdle {step : Step} (h : step.IsIdle) : generator.after step = generator := by
  cases h with
  | askVersion => rfl
  | askLibrary => rfl
  | generate file => rfl
  | unknownLibrary h => rw [after, h]

/-- The library and the helpers are kept apart, so it does not matter which is selected first. -/
theorem after_selectLibrary_comm (name : String) (helpers : Helpers) :
    (generator.after (.selectLibrary name)).after (.selectHelpers helpers) =
      (generator.after (.selectHelpers helpers)).after (.selectLibrary name) := by
  rw [after, after, after, after]
  cases Library.ofName name with
  | ok library => rfl
  | error fault => rfl

/-- Every step is answered as by a new generator with the version of the last restart, and with the helpers and
the library that were last selected behind it. So a step that selects nothing can be left out, and the selection
of a library and that of helpers next to it can trade places, and no other step answers differently. -/
theorem answers_configured :
    (∀ steps, (answers { version } steps).length = steps.length) ∧
    (∀ before step rest, (answers { version } (before ++ step :: rest))[before.length]? =
      some ((configured version before).answer step)) ∧
    (∀ before step rest, step.IsIdle → answers { version } (before ++ rest) =
      (answers { version } (before ++ step :: rest)).eraseIdx before.length) ∧
    (∀ before name helpers rest, ∃ front first second back, front.length = before.length ∧
      answers { version } (before ++ .selectLibrary name :: .selectHelpers helpers :: rest) =
        front ++ first :: second :: back ∧
      answers { version } (before ++ .selectHelpers helpers :: .selectLibrary name :: rest) =
        front ++ second :: first :: back) := by
  have hfront : ∀ before : List Step, before.length = (answers { version } before).length :=
    fun before => (length_answers _ before).symm
  refine ⟨length_answers _, ?each, ?idle, ?trade⟩
  case each =>
    intro before step rest
    rw [answers_append, foldl_after_eq_configured, hfront, List.getElem?_append_right (Nat.le_refl _), Nat.sub_self]
    rfl
  case idle =>
    intro before step rest hidle
    rw [answers_append, answers_append, hfront before, List.eraseIdx_append_of_length_le (Nat.le_refl _),
      Nat.sub_self, answers, after_of_isIdle _ hidle, List.eraseIdx_cons_zero]
  case trade =>
    intro before name helpers rest
    let reached := before.foldl after { version }
    let left := (reached.after (.selectLibrary name)).after (.selectHelpers helpers)
    refine ⟨answers { version } before, reached.answer (.selectLibrary name), reached.answer (.selectHelpers helpers),
      left.answers rest, (hfront before).symm, ?_, ?_⟩
    · rw [answers_append, answers, answers]
      rfl
    · rw [answers_append, answers, answers, ← after_selectLibrary_comm]
      rfl

/-- A generation that fails and a library that does not exist leave no trace: the version is that of the restart,
and the answers are those of the run without the attempt to select the library. -/
theorem answers_configured_past_faults :
    let broken : Schema.File := { services := [{ methods := [{}] }] }
    let before : List Step := [.restart "v6", .selectHelpers ⟨fun _ => "", fun _ => "all"⟩, .generate broken]
    let run := answers { version := "v5" } (before ++ .selectLibrary "nope" :: [.askVersion])
    run[4]? = some (.ok (.text "v6")) ∧ answers { version := "v5" } (before ++ [.askVersion]) = run.eraseIdx 3 := by
  intro broken before run
  obtain ⟨-, heach, hidle, -⟩ := answers_configured "v5"
  refine ⟨heach (before ++ [.selectLibrary "nope"]) .askVersion [], ?_⟩
  exact hidle before (.selectLibrary "nope") [.askVersion] (.unknownLibrary rfl)

end TwirpClient.Client.Generator
