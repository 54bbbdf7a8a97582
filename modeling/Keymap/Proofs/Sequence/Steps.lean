import Keymap.Proofs.Binding.Steps
import Keymap.Proofs.Sequence.Known
import Keymap.Proofs.Sequence.Places

/-!
Whether a sequence can be typed: what becomes of the steps that lead to a binding. The steps of an
explicit binding stay, unless an implicit declared step and an explicit binding for something else
both claim the place of one of them.
-/

set_option autoImplicit false

namespace Keymap

namespace Sequence

open Conflict (Plain isAutomatedStep isManualStep)
open Text (wordsOf joined IsWord)

variable (options : Options) (codes : PrefixCodes)

theorem stepClaim_automated (binding : Binding) (before : List String) (key : String) :
    isAutomatedStep options (stepClaim options codes binding before key) = true := by
  simp [isAutomatedStep, stepClaim, automatedStep, stepCommand, stepArgs, Command.runs,
    Fields.get?, Fields.read, Value.text?, Value.isVacuous]

theorem manualStep_not_automated (binding : Binding) (lead key : String) (code : Nat)
    (steps : binding.runs options.stepCommand = true) :
    isAutomatedStep options (manualStep options binding lead key code) = false := by
  simp only [manualStep, isAutomatedStep]
  split
  · next command single =>
    obtain ⟨own, alone⟩ := List.length_eq_one_iff.mp
      (show binding.commands.length = 1 by simpa using congrArg List.length single)
    simp only [Binding.runs, alone, List.any_cons, List.any_nil, Bool.or_false] at steps
    simp only [alone, List.map_cons, List.map_nil, steps, if_true, List.cons.injEq,
      and_true] at single
    subst single
    simp [stepCommand, stepArgs, Fields.get?, Fields.read, Value.isVacuous]
  · rfl

theorem lastClaim_implicit (binding : Binding) (before : List String) (key : String) :
    (lastClaim options codes binding before key).implicit = binding.implicit := by
  unfold lastClaim
  split
  · rfl
  · split <;> rfl

theorem lastClaim_commands (binding : Binding) (before : List String) (key : String)
    (plain : binding.runs options.stepCommand = false) :
    (lastClaim options codes binding before key).commands = binding.commands := by
  simp only [lastClaim, plain, Bool.false_eq_true, if_false]
  split <;> rfl

theorem stepCommand_runs (code : Nat) (automated : Bool) :
    Command.runs (stepCommand options code automated) options.stepCommand = true := by
  simp [stepCommand, Command.runs, Fields.get?, Value.text?]

theorem lastClaim_step (binding : Binding) (before : List String) (key : String)
    (steps : binding.runs options.stepCommand = true)
    (words : ∀ word ∈ before, IsWord word) :
    stepCommand options (codes.codeFor (joined " " (before ++ [key]))).1 false ∈
      (lastClaim options codes binding before key).commands := by
  obtain ⟨command, given, named⟩ := List.any_eq_true.mp steps
  simp only [lastClaim, steps, if_true, manualStep, extend_joined before key words]
  exact List.mem_map.mpr ⟨command, given, if_pos named⟩

theorem lastClaim_runs (binding : Binding) (before : List String) (key : String)
    (words : ∀ word ∈ before, IsWord word) :
    (lastClaim options codes binding before key).runs options.stepCommand =
      binding.runs options.stepCommand := by
  cases steps : binding.runs options.stepCommand with
  | true =>
    exact List.any_eq_true.mpr ⟨_, lastClaim_step options codes binding before key steps words,
      stepCommand_runs options _ _⟩
  | false => rw [Binding.runs, lastClaim_commands options codes binding before key steps,
      ← Binding.runs, steps]

theorem lastClaim_not_automated (binding : Binding) (before : List String) (key : String)
    (words : ∀ word ∈ before, IsWord word) :
    isAutomatedStep options (lastClaim options codes binding before key) = false := by
  cases steps : binding.runs options.stepCommand with
  | true =>
    simp only [lastClaim, steps, if_true]
    exact manualStep_not_automated options binding _ key _ steps
  | false =>
    by_contra automated
    have runs := Conflict.automated_runs options _ ((Bool.not_eq_false _).mp automated)
    rw [lastClaim_runs options codes binding before key words, steps] at runs
    cases runs

/-- A binding ends at a place: its last key stands there. -/
def EndsAt (binding : Binding) (place : Binding.Signature) : Prop :=
  ¬ Skipped options binding ∧ ∃ before key, sequenceOf binding = before ++ [key] ∧
    place = if before = [] ∧ binding.runs options.stepCommand = false then binding.signature
      else placeOf binding before key

/-- The claims on a place that are no automated steps come from the bindings that end there. -/
theorem claim_ends (bindings : List Binding) (place : Binding.Signature) (claim : Binding)
    (claimed : claim ∈ Conflict.claimsOn place (claims options bindings))
    (declared : isAutomatedStep options claim = false) :
    ∃ binding ∈ bindings, EndsAt options binding place ∧ claim.implicit = binding.implicit ∧
      claim.runs options.stepCommand = binding.runs options.stepCommand ∧
      (binding.runs options.stepCommand = false → claim.commands = binding.commands) := by
  obtain ⟨among, here⟩ := (Conflict.mem_claimsOn _ _ _).mp claimed
  obtain ⟨binding, given, made⟩ := (mem_claims options bindings claim).mp among
  obtain ⟨taken, before, key, after, split, rfl⟩ := (mem_claimsOf options _ binding claim).mp made
  have words := words_before binding before _ split
  by_cases last : after = []
  · subst last
    rw [if_pos rfl] at here ⊢
    rw [lastClaim_signature] at here
    exact ⟨binding, given, ⟨taken, before, key, split, here.symm⟩,
      lastClaim_implicit options _ binding before key,
      lastClaim_runs options _ binding before key words,
      lastClaim_commands options _ binding before key⟩
  · rw [if_neg last, stepClaim_automated] at declared
    cases declared

theorem claim_of_end (bindings : List Binding) (place : Binding.Signature) (binding : Binding)
    (given : binding ∈ bindings) (ends : EndsAt options binding place) :
    ∃ claim ∈ Conflict.claimsOn place (claims options bindings),
      isAutomatedStep options claim = false ∧ claim.implicit = binding.implicit ∧
      claim.runs options.stepCommand = binding.runs options.stepCommand ∧
      (binding.runs options.stepCommand = false → claim.commands = binding.commands) := by
  obtain ⟨taken, before, key, split, here⟩ := ends
  have words := words_before binding before _ split
  let codes := (compile options bindings).codes
  refine ⟨lastClaim options codes binding before key, ?_,
    lastClaim_not_automated options codes binding before key words,
    lastClaim_implicit options codes binding before key,
    lastClaim_runs options codes binding before key words,
    lastClaim_commands options codes binding before key⟩
  refine (Conflict.mem_claimsOn _ _ _).mpr ⟨?_, (lastClaim_signature _ _ _ _ _).trans here.symm⟩
  exact (mem_claims options bindings _).mpr ⟨binding, given,
    (mem_claimsOf options _ binding _).mpr ⟨taken, before, key, [], split, by rw [if_pos rfl]⟩⟩

theorem claim_placeOf (binding claim : Binding) (before : List String) (key : String)
    (after : List String)
    (made : claim = if after = [] then lastClaim options codes binding before key
      else stepClaim options codes binding before key) :
    placeOf claim = placeOf binding ∧ claim.implicit = binding.implicit := by
  subst made
  by_cases last : after = []
  · rw [if_pos last]
    refine ⟨?_, lastClaim_implicit options codes binding before key⟩
    unfold lastClaim
    split
    · rfl
    · split <;> rfl
  · rw [if_neg last]
    exact ⟨rfl, rfl⟩

/-- The steps that lead to a binding that comes out are claimed by the binding it comes from. -/
theorem step_of_output (bindings : List Binding)
    (keyed : ∀ binding ∈ bindings, wordsOf binding.key ≠ [])
    (binding : Binding) (out : binding ∈ (compile options bindings).table.bindings)
    (lead : String) (requires : binding.prefixes = [lead])
    (before after : List String) (key : String) (split : wordsOf lead = before ++ key :: after) :
    ∃ source ∈ bindings, StepsTo options source before key ∧
      source.implicit = binding.implicit ∧ placeOf source = placeOf binding ∧
      stepClaim options (compile options bindings).codes source before key ∈
        claims options bindings := by
  have claim := compiled_is_claim options bindings binding out
  obtain ⟨source, given, made⟩ := (mem_claims options bindings binding).mp claim
  obtain ⟨taken, typed, last, rest, whole, form⟩ :=
    (mem_claimsOf options _ source binding).mp made
  obtain ⟨place, implicit⟩ := claim_placeOf options _ source binding typed last rest form
  have words := words_before source typed _ whole
  have typedLead : typed = before ++ key :: after := by
    have signature := congrArg Binding.signature form
    have own : binding.prefixes = [joined " " typed] ∨
        typed = [] ∧ rest = [] ∧ binding.prefixes = source.prefixes := by
      by_cases ending : rest = []
      · rw [if_pos ending, lastClaim_signature] at signature
        split at signature
        · next alone => exact .inr ⟨alone.1, ending, congrArg Binding.Signature.prefixes signature⟩
        · exact .inl (congrArg Binding.Signature.prefixes signature)
      · rw [if_neg ending, stepClaim_signature] at signature
        exact .inl (congrArg Binding.Signature.prefixes signature)
    rcases own with own | ⟨noneTyped, noneLeft, own⟩
    · rw [requires, List.cons.injEq] at own
      rw [← split, own.1, Text.words_of_joined typed words]
    · -- A single key after a prefix with keys would make two.
      subst noneTyped noneLeft
      have lengths := congrArg List.length whole
      rw [sequenceOf, ← own, requires] at lengths
      have held := List.length_pos_iff.mpr (keyed source given)
      simp [split] at lengths
      omega
  subst typedLead
  have steps : StepsTo options source before key := by
    refine ⟨taken, after ++ last :: rest, by simpa using whole, ?_⟩
    intro empty
    simp at empty
  refine ⟨source, given, steps, implicit.symm, place.symm, ?_⟩
  refine (mem_claims options bindings _).mpr ⟨source, given, ?_⟩
  refine (mem_claimsOf options _ source _).mpr
    ⟨taken, before, key, after ++ last :: rest, by simpa using whole, ?_⟩
  rw [if_neg (by simp)]

/-- The step from some keys on to the next one, in the mode and under the guards of a binding, is
bound, and it moves on to the code of the keys together. -/
def StepAt (state : State) (binding : Binding) (before : List String) (key : String) : Prop :=
  ∃ step ∈ state.table.bindings, step.signature = placeOf binding before key ∧
    ∃ code automated, state.codes.freeze.codeOf? (joined " " (before ++ [key])) = some code ∧
      stepCommand options code automated ∈ step.commands

/-- Where a step comes out that runs the step command, it moves on to the right code. -/
theorem step_of_holder (bindings : List Binding) (binding held : Binding) (before : List String)
    (key : String) (each : ∀ word ∈ before, IsWord word)
    (here : Conflict.holder options (Conflict.claimsOn (placeOf binding before key)
      (claims options bindings)) = some held)
    (steps : held.runs options.stepCommand = true) :
    StepAt options (compile options bindings) binding before key := by
  obtain ⟨claim, place⟩ := (Conflict.mem_claimsOn _ _ _).mp
    (Conflict.holder_claims options _ held here)
  have out := (compiled_iff_holds options bindings held).mpr (place.symm ▸ here)
  refine ⟨held, out, place, ?_⟩
  obtain ⟨source, given, made⟩ := (mem_claims options bindings held).mp claim
  obtain ⟨taken, typed, last, rest, whole, form⟩ := (mem_claimsOf options _ source held).mp made
  have words := words_before source typed _ whole
  by_cases ending : rest = []
  · rw [if_pos ending] at form
    subst form
    rw [lastClaim_runs options _ source typed last words] at steps
    rw [lastClaim_signature, if_neg (by simp [steps])] at place
    obtain ⟨rfl, rfl⟩ : last = key ∧ typed = before := by
      refine ⟨congrArg Binding.Signature.key place, ?_⟩
      have leads := congrArg Binding.Signature.prefixes place
      exact Text.joined_words_injective typed before words each (List.cons.inj leads).1
    have known := code_of_step options bindings source given typed last
      ⟨taken, rest, whole, fun _ => steps⟩
    exact ⟨_, false, known, lastClaim_step options _ source typed last steps words⟩
  · rw [if_neg ending] at form
    subst form
    rw [stepClaim_signature] at place
    obtain ⟨rfl, rfl⟩ : last = key ∧ typed = before := by
      refine ⟨congrArg Binding.Signature.key place, ?_⟩
      have leads := congrArg Binding.Signature.prefixes place
      exact Text.joined_words_injective typed before words each (List.cons.inj leads).1
    have known := code_of_step options bindings source given typed last
      ⟨taken, rest, whole, fun empty => absurd empty ending⟩
    exact ⟨_, true, known, by simp [stepClaim, automatedStep]⟩

theorem settled_on_place (bindings : List Binding)
    (uncounted : (compile options bindings).table.counters.count "duplicate" = 0)
    (place : Binding.Signature) (new : Binding) :
    ¬ Conflict.Unsettled options (Conflict.claimsOn place (claims options bindings)) new := by
  intro unsettled
  obtain ⟨front, back, _, split, _⟩ := id unsettled
  have among : new ∈ Conflict.claimsOn place (claims options bindings) := split ▸ by simp
  obtain ⟨_, rfl⟩ := (Conflict.mem_claimsOn _ _ _).mp among
  exact settled_of_uncounted options bindings uncounted new unsettled

/-- The declared steps from other modes that claim a place come from the bindings that end there. -/
theorem manual_claimed_iff (bindings : List Binding) (place : Binding.Signature) :
    (∃ manual ∈ Conflict.claimsOn place (claims options bindings),
      isManualStep options manual = true ∧ manual.implicit = true) ↔
    ∃ manual ∈ bindings, EndsAt options manual place ∧
      manual.runs options.stepCommand = true ∧ manual.implicit = true := by
  constructor
  · rintro ⟨manual, member, declared, fallsBack⟩
    obtain ⟨runs, notAutomated⟩ := (Conflict.manual_iff options manual).mp declared
    obtain ⟨item, present, ends, same, alike, _⟩ :=
      claim_ends options bindings place manual member notAutomated
    exact ⟨item, present, ends, alike.symm.trans runs, same.symm.trans fallsBack⟩
  · rintro ⟨item, present, ends, runs, fallsBack⟩
    obtain ⟨manual, member, notAutomated, same, alike, _⟩ :=
      claim_of_end options bindings place item present ends
    exact ⟨manual, member, (Conflict.manual_iff options manual).mpr
      ⟨alike.trans runs, notAutomated⟩, same.trans fallsBack⟩

theorem plain_claimed_iff (bindings : List Binding) (place : Binding.Signature) :
    (∃ plain ∈ Conflict.claimsOn place (claims options bindings), Plain options plain) ↔
    ∃ plain ∈ bindings, EndsAt options plain place ∧ Plain options plain := by
  constructor
  · rintro ⟨plain, member, isPlain⟩
    have notAutomated : isAutomatedStep options plain = false := by
      by_contra automated
      have runs := Conflict.automated_runs options plain ((Bool.not_eq_false _).mp automated)
      rw [isPlain.noStep] at runs
      cases runs
    obtain ⟨item, present, ends, same, alike, commands⟩ :=
      claim_ends options bindings place plain member notAutomated
    have noStep := alike.symm.trans isPlain.noStep
    refine ⟨item, present, ends, same.symm.trans isPlain.explicit, noStep, ?_⟩
    rw [Binding.onlyRuns, ← commands noStep, ← Binding.onlyRuns]
    exact isPlain.noIgnore
  · rintro ⟨item, present, ends, isPlain⟩
    obtain ⟨plain, member, _, same, alike, commands⟩ :=
      claim_of_end options bindings place item present ends
    refine ⟨plain, member, same.trans isPlain.explicit, alike.trans isPlain.noStep, ?_⟩
    rw [Binding.onlyRuns, commands isPlain.noStep, ← Binding.onlyRuns]
    exact isPlain.noIgnore

/-- If no conflict is counted as a duplicate, then each step that leads to an explicit binding is
bound, unless both an implicit binding that runs the step command and an explicit one for something
else end at its place. -/
theorem steps_bound_iff (bindings : List Binding)
    (keyed : ∀ binding ∈ bindings, wordsOf binding.key ≠ [])
    (uncounted : (compile options bindings).table.counters.count "duplicate" = 0)
    (binding : Binding) (out : binding ∈ (compile options bindings).table.bindings)
    (explicit : binding.implicit = false) (lead : String) (requires : binding.prefixes = [lead])
    (before after : List String) (key : String) (split : wordsOf lead = before ++ key :: after) :
    StepAt options (compile options bindings) binding before key ↔
      ¬ ((∃ manual ∈ bindings, EndsAt options manual (placeOf binding before key) ∧
          manual.runs options.stepCommand = true ∧ manual.implicit = true) ∧
        ∃ plain ∈ bindings, EndsAt options plain (placeOf binding before key) ∧
          Plain options plain) := by
  obtain ⟨source, given, steps, implicit, place, claim⟩ :=
    step_of_output options bindings keyed binding out lead requires before after key split
  have each : ∀ word ∈ before, IsWord word := fun word member =>
    Text.words_are_words lead word (split ▸ List.mem_append_left _ member)
  let here := placeOf binding before key
  let claimed := Conflict.claimsOn here (claims options bindings)
  let first := stepClaim options (compile options bindings).codes source before key
  have among : first ∈ claimed := (Conflict.mem_claimsOn _ _ _).mpr
    ⟨claim, (stepClaim_signature _ _ _ _ _).trans (congrFun (congrFun place before) key)⟩
  have kept := Conflict.step_kept_iff options claimed
    (settled_on_place options bindings uncounted here) first among
    (implicit.trans explicit) (stepClaim_automated options _ source before key)
  have held : StepAt options (compile options bindings) binding before key ↔
      ∃ held, Conflict.holder options claimed = some held ∧
        held.runs options.stepCommand = true := by
    constructor
    · rintro ⟨step, present, stands, code, automated, _, command⟩
      have holds := (compiled_iff_holds options bindings step).mp present
      rw [stands] at holds
      exact ⟨step, holds,
        List.any_eq_true.mpr ⟨_, command, stepCommand_runs options code automated⟩⟩
    · rintro ⟨held, holds, runs⟩
      exact step_of_holder options bindings binding held before key each holds runs
  rw [held, kept, manual_claimed_iff, plain_claimed_iff]

theorem steps_bound_of_one :
    ∃ binding ∈ (compile .default [.declared "g d" "first" 0]).table.bindings,
      binding.prefixes = ["g"] ∧ wordsOf "g" = [] ++ "g" :: [] ∧
      StepAt .default (compile .default [.declared "g d" "first" 0]) binding [] "g" := by
  have found : ∃ binding ∈ (compile .default [.declared "g d" "first" 0]).table.bindings,
      binding.implicit = false ∧ binding.prefixes = ["g"] := by decide +kernel
  obtain ⟨binding, out, explicit, requires⟩ := found
  refine ⟨binding, out, requires, by decide, ?_⟩
  refine (steps_bound_iff .default [.declared "g d" "first" 0] (by decide) (by decide +kernel)
    binding out explicit "g" requires [] [] "g" (by decide)).mpr ?_
  rintro ⟨⟨manual, given, _, runs, _⟩, _⟩
  rw [List.mem_singleton.mp given] at runs
  exact absurd runs (by decide)

/-- A sequence, an implicit step for its first key, and another binding for that key. -/
def displacedStep : List Binding :=
  [.declared "g d" "first" 0,
   { Binding.declared "g" "master-key.prefix" 1 with implicit := true },
   .declared "g" "zap" 2]

/-- The absence of duplicates alone does not keep every explicit sequence in reach. -/
theorem sequence_out_of_reach :
    ¬ ∀ (options : Options) (bindings : List Binding),
      (∀ binding ∈ bindings, binding.prefixes.length ≤ 1) →
      (compile options bindings).table.counters.count "duplicate" = 0 →
      ∀ binding ∈ (compile options bindings).table.bindings, binding.implicit = false →
      ∀ lead, binding.prefixes = [lead] →
      ∀ before key after, wordsOf lead = before ++ key :: after →
        StepAt options (compile options bindings) binding before key := by
  intro reached
  have found : ∃ binding ∈ (compile .default displacedStep).table.bindings,
      binding.implicit = false ∧ binding.prefixes = ["g"] := by decide +kernel
  obtain ⟨binding, out, explicit, requires⟩ := found
  obtain ⟨step, present, stands, code, automated, _, command⟩ :=
    reached .default displacedStep (by decide) (by decide +kernel) binding out explicit "g" requires
      [] "g" [] (by decide)
  have lost : ∀ binding ∈ (compile .default displacedStep).table.bindings,
      binding.prefixes = ["g"] → ∀ step ∈ (compile .default displacedStep).table.bindings,
        step.signature = placeOf binding [] "g" →
          step.runs Options.default.stepCommand = false := by decide +kernel
  have steps : step.runs Options.default.stepCommand = true :=
    List.any_eq_true.mpr ⟨_, command, stepCommand_runs .default code automated⟩
  rw [lost binding out requires step present stands] at steps
  cases steps

end Sequence

end Keymap
