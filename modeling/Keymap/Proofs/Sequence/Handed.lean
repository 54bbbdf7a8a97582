import Keymap.Proofs.Sequence.Growth
import Keymap.Proofs.Sequence.Known

/-!
Codes are handed out to the empty sequence, to those that a step moves on to, and to no other
(`named_iff`).
-/

set_option autoImplicit false

namespace Keymap

open Text (joined IsWord)

theorem PrefixCodes.mem_of_codeFor (codes : PrefixCodes) (asked name : String)
    (handed : name ∈ (codes.codeFor asked).2.names) : name ∈ codes.names ∨ name = asked := by
  unfold codeFor at handed
  split at handed
  · exact .inl handed
  · exact (List.mem_append.mp handed).imp_right List.mem_singleton.mp

namespace Sequence

variable (options : Options)

theorem addSteps_handed (binding : Binding) (lead : String) (keys : List String) (state : State)
    (name : String) (handed : name ∈ (addSteps options binding lead state keys).2.codes.names) :
    name ∈ state.codes.names ∨ ∃ before key after, keys = before ++ key :: after ∧
      name = (before ++ [key]).foldl extend lead := by
  induction keys generalizing lead state with
  | nil => exact .inl handed
  | cons first rest ih =>
    unfold addSteps at handed
    rcases ih (extend lead first) _ handed with earlier | ⟨before, key, after, rfl, reached⟩
    · rcases PrefixCodes.mem_of_codeFor state.codes _ name earlier with known | new
      · exact .inl known
      · exact .inr ⟨[], first, rest, rfl, new⟩
    · exact .inr ⟨first :: before, key, after, rfl, reached⟩

theorem addLast_handed (binding : Binding) (single : Bool) (lead key : String) (state : State)
    (name : String) (handed : name ∈ (addLast options binding single lead key state).codes.names) :
    name ∈ state.codes.names ∨
      binding.runs options.stepCommand = true ∧ name = extend lead key := by
  unfold addLast at handed
  split at handed
  · next steps =>
    exact (PrefixCodes.mem_of_codeFor state.codes _ name handed).imp_right fun new => ⟨steps, new⟩
  · exact .inl handed

theorem addBinding_handed (binding : Binding) (state : State) (name : String)
    (handed : name ∈ (addBinding options state binding).codes.names) :
    name ∈ state.codes.names ∨
      ∃ before key, StepsTo options binding before key ∧ name = joined " " (before ++ [key]) := by
  by_cases skipped : Skipped options binding
  · rw [addBinding_skipped options state binding skipped] at handed
    exact .inl handed
  rcases List.eq_nil_or_concat (sequenceOf binding) with blank | ⟨front, last, split⟩
  · rw [addBinding_blank options state binding skipped blank] at handed
    exact .inl handed
  rw [List.concat_eq_append] at split
  have words := words_before binding front _ split
  obtain ⟨problems, _, unfolded⟩ :=
    addBinding_sequence options state binding skipped front last split
  rw [unfolded] at handed
  rcases addLast_handed options binding _ _ last _ name handed with stepped | ⟨steps, rfl⟩
  · rcases addSteps_handed options binding "" front _ name stepped with
      known | ⟨before, key, after, rfl, rfl⟩
    · exact .inl known
    · refine .inr ⟨before, key, ⟨skipped, after ++ [last], by simp [split], by simp⟩, ?_⟩
      refine foldl_extend _ fun word member => words word ?_
      rw [List.append_cons]
      exact List.mem_append_left after member
  · exact .inr ⟨front, last, ⟨skipped, [], split, fun _ => steps⟩, extend_joined front last words⟩

theorem addAll_handed (bindings : List Binding) (state : State) (name : String)
    (handed : name ∈ (bindings.foldl (addBinding options) state).codes.names) :
    name ∈ state.codes.names ∨ ∃ binding ∈ bindings, ∃ before key,
      StepsTo options binding before key ∧ name = joined " " (before ++ [key]) := by
  induction bindings generalizing state with
  | nil => exact .inl handed
  | cons first rest ih =>
    rcases ih (addBinding options state first) handed with earlier | ⟨binding, given, steps⟩
    · rcases addBinding_handed options first state name earlier with known | steps
      · exact .inl known
      · exact .inr ⟨first, .head _, steps⟩
    · exact .inr ⟨binding, .tail _ given, steps⟩

/-- A sequence has a code just when it is empty or some binding steps to it. -/
theorem named_iff (bindings : List Binding) (name : String) :
    name ∈ (compile options bindings).codes.names ↔
      name = "" ∨ ∃ binding ∈ bindings, ∃ before key,
        StepsTo options binding before key ∧ name = joined " " (before ++ [key]) := by
  constructor
  · intro handed
    rcases addAll_handed options bindings State.start name handed with start | steps
    · exact .inl (List.mem_singleton.mp start)
    · exact .inr steps
  · rintro (rfl | ⟨binding, given, before, key, steps, rfl⟩)
    · exact List.mem_of_mem_head? (PrefixCodes.grown_first _ (grown_compile options bindings))
    · exact addAll_known options bindings binding given before key steps State.start

end Sequence

end Keymap
