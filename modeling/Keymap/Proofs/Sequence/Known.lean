import Keymap.Proofs.Sequence.Claims

/-!
Every sequence that a step moves on to has a code: the beginnings of the sequences that go in, and
those that are stepped to by themselves.
-/

set_option autoImplicit false

namespace Keymap

namespace Sequence

open Text (joined IsWord)

variable (options : Options)

theorem addSteps_known (binding : Binding) (lead : String) (keys before after : List String)
    (key : String) (split : keys = before ++ key :: after) (state : State) :
    (before ++ [key]).foldl extend lead ∈
      (addSteps options binding lead state keys).2.codes.names := by
  induction keys generalizing lead before state with
  | nil => simp at split
  | cons first rest ih =>
    cases before with
    | nil =>
      obtain ⟨rfl, rfl⟩ := List.cons.inj split
      have handed := PrefixCodes.mem_codeFor state.codes (extend lead first)
      unfold addSteps
      exact PrefixCodes.mem_of_extends (addSteps_run options binding _ rest _).2.2.1 _ handed
    | cons other others =>
      obtain ⟨rfl, rest⟩ := List.cons.inj split
      unfold addSteps
      exact ih (extend lead first) others rest _

theorem addLast_known (binding : Binding) (before : List String) (key : String) (state : State)
    (each : ∀ word ∈ before, IsWord word) (steps : binding.runs options.stepCommand = true)
    (single : Bool) :
    joined " " (before ++ [key]) ∈
      (addLast options binding single (joined " " before) key state).codes.names := by
  have name := extend_joined before key each
  have handed := PrefixCodes.mem_codeFor (state.note (unrestricted binding)).codes
    (extend (joined " " before) key)
  rw [name] at handed
  simpa [addLast, steps, name] using handed

/-- Whether a binding steps on from one of its keys: from every key but the last, and from that
one if it runs the step command itself. -/
def StepsTo (binding : Binding) (before : List String) (key : String) : Prop :=
  ¬ Skipped options binding ∧ ∃ after, sequenceOf binding = before ++ key :: after ∧
    (after = [] → binding.runs options.stepCommand = true)

theorem addBinding_known (binding : Binding) (before : List String) (key : String)
    (steps : StepsTo options binding before key) (state : State) :
    joined " " (before ++ [key]) ∈ (addBinding options state binding).codes.names := by
  obtain ⟨taken, after, split, declared⟩ := steps
  have words : ∀ word ∈ before ++ [key], IsWord word := by
    intro word member
    apply sequence_words binding word
    rw [split, List.append_cons]
    exact List.mem_append_left _ member
  rcases List.eq_nil_or_concat after with rfl | ⟨others, last, rfl⟩
  · obtain ⟨problems, _, unfolded⟩ := addBinding_sequence options state binding taken before key split
    rw [unfolded]
    exact addLast_known options binding before key _
      (fun word member => words word (List.mem_append_left _ member)) (declared rfl) _
  · rw [List.concat_eq_append, ← List.cons_append, ← List.append_assoc] at split
    obtain ⟨problems, _, unfolded⟩ :=
      addBinding_sequence options state binding taken (before ++ key :: others) last split
    have front : ∀ word ∈ before ++ key :: others, IsWord word := words_before binding _ _ split
    have stepped := addSteps_known options binding "" (before ++ key :: others) before others key
      rfl (state.note problems)
    rw [foldl_extend _ words] at stepped
    rw [unfolded]
    exact PrefixCodes.mem_of_extends
      (addLast_run options binding (before ++ key :: others) last _ front).2.1 _ stepped

theorem addAll_known (bindings : List Binding) (binding : Binding) (given : binding ∈ bindings)
    (before : List String) (key : String) (steps : StepsTo options binding before key)
    (state : State) :
    joined " " (before ++ [key]) ∈ (bindings.foldl (addBinding options) state).codes.names := by
  induction bindings generalizing state with
  | nil => cases given
  | cons first rest ih =>
    rcases List.mem_cons.mp given with rfl | later
    · exact PrefixCodes.mem_of_extends (addAll_run options _ rest).1 _
        (addBinding_known options binding before key steps state)
    · exact ih later (addBinding options state first)

theorem code_of_step (bindings : List Binding) (binding : Binding) (given : binding ∈ bindings)
    (before : List String) (key : String) (steps : StepsTo options binding before key) :
    (compile options bindings).codes.freeze.codeOf? (joined " " (before ++ [key])) =
      some ((compile options bindings).codes.codeFor (joined " " (before ++ [key]))).1 :=
  PrefixCodes.codeOf_freeze_of_mem _ _
    (addAll_known options bindings binding given before key steps State.start)

end Sequence

end Keymap
