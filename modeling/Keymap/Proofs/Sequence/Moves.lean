import Keymap.Proofs.Sequence.Steps

/-!
Where step commands lead. Every step command that comes out moves on to the code of the keys typed
so far with the key of its binding, whichever binding asked for it and whichever others claimed its
place (`moves_to_own_code`).
-/

set_option autoImplicit false

namespace Keymap

/-- The code that the arguments of a command name. -/
def Command.destination? (command : Command) : Option Value :=
  ((command.get? "args").bind Value.object?).bind fun args => args.get? "code"

namespace Sequence

open Text (joined)

/-- Whether a binding is one of the steps that the keys before the last one of a sequence imply. -/
def Generated (options : Options) (bindings : List Binding) (step : Binding) : Prop :=
  ∃ source ∈ bindings, ¬ Skipped options source ∧ ∃ before key after code,
    sequenceOf source = before ++ key :: after ∧ after ≠ [] ∧
    step = automatedStep options source (joined " " before) key code

/-- What the step commands of a binding have to be: arguments of their own with the given code, and
marked as automated only where the binding is generated. -/
structure MovesTo (options : Options) (bindings : List Binding) (codes : CodeTable)
    (binding : Binding) (lead : String) (code : Nat) : Prop where
  goesOn : binding.finalKey = false
  after : binding.prefixes = [lead]
  known : codes.codeOf? (extend lead binding.key) = some code
  commands : ∀ command ∈ binding.commands, command.runs options.stepCommand = true →
    ∃ automated, command = stepCommand options code automated ∧
      (automated = true ↔ Generated options bindings binding)

variable (options : Options)

theorem destination_of_step (code : Nat) (automated : Bool) :
    Command.destination? (stepCommand options code automated) = some (Value.ofInt code) := by
  simp [Command.destination?, stepCommand, stepArgs, Fields.get?, Value.object?]

theorem automated_of_step (code other : Nat) (automated mark : Bool)
    (same : stepCommand options code automated = stepCommand options other mark) :
    automated = mark := by
  simp only [stepCommand, stepArgs, List.cons.injEq, Prod.mk.injEq, Value.object.injEq,
    Value.bool.injEq, true_and, and_true] at same
  exact same.2

/-- The step commands of a declared step are all made anew. -/
theorem command_of_manualStep (binding : Binding) (lead key : String) (code : Nat)
    (command : Command) (given : command ∈ (manualStep options binding lead key code).commands)
    (runs : command.runs options.stepCommand = true) :
    command = stepCommand options code false := by
  obtain ⟨own, _, rfl⟩ := List.mem_map.mp given
  by_cases steps : own.runs options.stepCommand = true
  · exact if_pos steps
  · rw [if_neg steps] at runs
    exact absurd runs steps

theorem movesTo_of_declared (bindings : List Binding) (source : Binding) (given : source ∈ bindings)
    (taken : ¬ Skipped options source) (before : List String) (key : String)
    (split : sequenceOf source = before ++ [key])
    (runs : source.runs options.stepCommand = true) :
    let codes := (compile options bindings).codes
    MovesTo options bindings codes.freeze (lastClaim options codes source before key)
      (joined " " before) (codes.codeFor (joined " " (before ++ [key]))).1 := by
  intro codes
  have words := words_before source before _ split
  have name := extend_joined before key words
  have made : lastClaim options codes source before key =
      manualStep options source (joined " " before) key
        (codes.codeFor (joined " " (before ++ [key]))).1 := by
    simp only [lastClaim, runs, if_true, name]
  rw [made]
  refine ⟨rfl, rfl, ?_, ?_⟩
  · have known := code_of_step options bindings source given before key
      ⟨taken, [], split, fun _ => runs⟩
    exact (congrArg codes.freeze.codeOf? name).trans known
  · intro command among steps
    have declared := command_of_manualStep options source _ key _ command among steps
    refine ⟨false, declared, by simp, ?_⟩
    rintro ⟨other, _, _, _, _, _, code, _, _, generated⟩
    rw [generated] at among
    exact automated_of_step options _ code false true
      (declared.symm.trans (List.mem_singleton.mp among))

theorem movesTo_of_generated (bindings : List Binding) (source : Binding)
    (given : source ∈ bindings) (taken : ¬ Skipped options source) (before : List String)
    (key : String) (after : List String) (split : sequenceOf source = before ++ key :: after)
    (further : after ≠ []) :
    let codes := (compile options bindings).codes
    MovesTo options bindings codes.freeze (stepClaim options codes source before key)
      (joined " " before) (codes.codeFor (joined " " (before ++ [key]))).1 := by
  intro codes
  have words := words_before source before _ split
  refine ⟨rfl, rfl, ?_, ?_⟩
  · have known := code_of_step options bindings source given before key
      ⟨taken, after, split, fun empty => absurd empty further⟩
    exact (congrArg codes.freeze.codeOf? (extend_joined before key words)).trans known
  · intro command among _
    refine ⟨true, List.mem_singleton.mp among, fun _ => ?_, fun _ => rfl⟩
    exact ⟨source, given, taken, before, key, after, _, split, further, rfl⟩

theorem movesTo_of_claim (bindings : List Binding) (claim : Binding)
    (claimed : claim ∈ claims options bindings) (runs : claim.runs options.stepCommand = true) :
    ∃ lead code,
      MovesTo options bindings (compile options bindings).codes.freeze claim lead code := by
  obtain ⟨source, given, made⟩ := (mem_claims options bindings claim).mp claimed
  obtain ⟨taken, before, key, after, split, rfl⟩ := (mem_claimsOf options _ source claim).mp made
  by_cases last : after = []
  · subst last
    have words := words_before source before _ split
    rw [if_pos rfl, lastClaim_runs options _ source before key words] at runs
    rw [if_pos rfl]
    exact ⟨_, _, movesTo_of_declared options bindings source given taken before key split runs⟩
  · rw [if_neg last]
    exact ⟨_, _,
      movesTo_of_generated options bindings source given taken before key after split last⟩

/-- Every binding that comes out with a step command asks for the keys before its own and moves on
to the code of all of them; so step commands for one key after one prefix all move on to one code. -/
theorem moves_to_own_code (bindings : List Binding) :
    (∀ binding ∈ (compile options bindings).table.bindings,
      binding.runs options.stepCommand = true → ∃ lead code,
        MovesTo options bindings (compile options bindings).codes.freeze binding lead code) ∧
    ∀ left ∈ (compile options bindings).table.bindings,
    ∀ right ∈ (compile options bindings).table.bindings,
      left.key = right.key → left.prefixes = right.prefixes →
      ∀ leftStep ∈ left.commands, leftStep.runs options.stepCommand = true →
      ∀ rightStep ∈ right.commands, rightStep.runs options.stepCommand = true →
        ∃ code : Nat, leftStep.destination? = some (Value.ofInt code) ∧
          rightStep.destination? = some (Value.ofInt code) := by
  have moves : ∀ binding ∈ (compile options bindings).table.bindings,
      binding.runs options.stepCommand = true → ∃ lead code,
        MovesTo options bindings (compile options bindings).codes.freeze binding lead code :=
    fun binding out => movesTo_of_claim options bindings binding
      (compiled_is_claim options bindings binding out)
  refine ⟨moves, ?_⟩
  intro left leftOut right rightOut key prefixes leftStep leftAmong leftRuns rightStep rightAmong
    rightRuns
  obtain ⟨lead, code, leftMoves⟩ :=
    moves left leftOut (List.any_eq_true.mpr ⟨leftStep, leftAmong, leftRuns⟩)
  obtain ⟨other, second, rightMoves⟩ :=
    moves right rightOut (List.any_eq_true.mpr ⟨rightStep, rightAmong, rightRuns⟩)
  have leads := leftMoves.after.symm.trans (prefixes.trans rightMoves.after)
  obtain rfl : lead = other := (List.cons.inj leads).1
  have codes := leftMoves.known
  rw [key, rightMoves.known] at codes
  obtain rfl : second = code := Option.some.inj codes
  obtain ⟨_, rfl, _⟩ := leftMoves.commands leftStep leftAmong leftRuns
  obtain ⟨_, rfl, _⟩ := rightMoves.commands rightStep rightAmong rightRuns
  exact ⟨second, destination_of_step options _ _, destination_of_step options _ _⟩

/-- A sequence in one mode, and a step for its first key in another that names a code of its own. -/
def twoWays : List Binding :=
  [.declared "g d" "first" 0,
   { Binding.declared "g" "master-key.prefix" 1 with
     modes := some ["other"]
     commands := [[("command", .text "master-key.prefix"),
       ("args", .object [("code", .text "seven")])]] }]

theorem moves_of_two_ways :
    ∃ left ∈ (compile .default twoWays).table.bindings,
    ∃ right ∈ (compile .default twoWays).table.bindings,
      left.mode? = some "normal" ∧ right.mode? = some "other" ∧
      (∃ lead code,
        MovesTo .default twoWays (compile .default twoWays).codes.freeze right lead code) ∧
      ∃ leftStep ∈ left.commands, ∃ rightStep ∈ right.commands, ∃ code : Nat,
        leftStep.destination? = some (Value.ofInt code) ∧
          rightStep.destination? = some (Value.ofInt code) := by
  have found : ∃ left ∈ (compile .default twoWays).table.bindings,
      ∃ right ∈ (compile .default twoWays).table.bindings,
        left.mode? = some "normal" ∧ right.mode? = some "other" ∧
        left.key = right.key ∧ left.prefixes = right.prefixes ∧
        left.runs Options.default.stepCommand = true ∧
        right.runs Options.default.stepCommand = true := by decide +kernel
  obtain ⟨left, leftOut, right, rightOut, here, there, key, prefixes, leftRuns, rightRuns⟩ := found
  obtain ⟨leftStep, leftAmong, leftSteps⟩ := List.any_eq_true.mp leftRuns
  obtain ⟨rightStep, rightAmong, rightSteps⟩ := List.any_eq_true.mp rightRuns
  obtain ⟨moves, alike⟩ := moves_to_own_code .default twoWays
  exact ⟨left, leftOut, right, rightOut, here, there, moves right rightOut rightRuns,
    leftStep, leftAmong, rightStep, rightAmong,
    alike left leftOut right rightOut key prefixes leftStep leftAmong leftSteps rightStep
      rightAmong rightSteps⟩

end Sequence

end Keymap
