import Keymap.Proofs.Sequence.Places

/-!
The two ways to write a sequence. Keys may stand in the key of a binding or in its prefix; a run
only sees the sequence that both make together. So keys that are moved from the one to the other
change nothing of what a compilation leaves (`respelled_compiles_alike`).
-/

set_option autoImplicit false

namespace Keymap

/-- A binding as it would be with another key and one other prefix. -/
def Binding.spelled (binding : Binding) (lead key : String) : Binding :=
  { binding with key := key, prefixes := [lead] }

namespace Sequence

open Text (wordsOf joined IsWord)

/-- The same sequence with the first keys of the key moved to the end of the prefix. -/
def respelled (binding : Binding) (lead : String) (moved : Nat) : Binding :=
  let keys := wordsOf binding.key
  binding.spelled (extend lead (joined " " (keys.take moved))) (joined " " (keys.drop moved))

theorem words_of_extend (lead key : String) :
    wordsOf (extend lead key) = wordsOf lead ++ wordsOf key := by
  unfold extend
  split
  · next empty => rw [empty, Text.words_of_empty, List.nil_append]
  · exact Text.words_of_between lead key

theorem words_of_part (text : String) (part : List String) (within : part.Sublist (wordsOf text)) :
    wordsOf (joined " " part) = part :=
  Text.words_of_joined part fun word member => Text.words_are_words text word (within.subset member)

theorem sequence_respelled (binding : Binding) (lead : String) (moved : Nat)
    (concrete : binding.prefixes = [lead]) :
    sequenceOf (respelled binding lead moved) = sequenceOf binding := by
  have front := words_of_part binding.key _ (List.take_sublist moved (wordsOf binding.key))
  have back := words_of_part binding.key _ (List.drop_sublist moved (wordsOf binding.key))
  calc
    sequenceOf (respelled binding lead moved)
      = wordsOf (extend lead (joined " " ((wordsOf binding.key).take moved))) ++
          wordsOf (joined " " ((wordsOf binding.key).drop moved)) := rfl
    _ = wordsOf lead ++ (wordsOf binding.key).take moved ++ (wordsOf binding.key).drop moved := by
      rw [words_of_extend, front, back]
    _ = wordsOf lead ++ wordsOf binding.key := by
      rw [List.append_assoc, List.take_append_drop]
    _ = sequenceOf binding := by rw [sequenceOf, concrete, List.headD_cons]

section Run

variable (options : Options) (binding : Binding) (lead key : String)

/-- The steps that a binding implies hold its place, its guards and its mode, but neither its key
nor its prefix. -/
theorem addSteps_spelled (typed : String) (state : State) (keys : List String) :
    addSteps options (binding.spelled lead key) typed state keys =
      addSteps options binding typed state keys := by
  induction keys generalizing typed state with
  | nil => rfl
  | cons first rest ih =>
    unfold addSteps
    exact ih (extend typed first) _

theorem unrestricted_concrete (concrete : binding.prefixes ≠ []) : unrestricted binding = [] := by
  unfold unrestricted
  rw [if_neg (by simpa using concrete)]

/-- At its last key a binding gets that key and the keys before it, however it was written. -/
theorem addLast_spelled (concrete : binding.prefixes ≠ []) (typed last : String) (state : State) :
    addLast options (binding.spelled lead key) false typed last state =
      addLast options binding false typed last state := by
  have here := unrestricted_concrete binding concrete
  have there := unrestricted_concrete (binding.spelled lead key) (List.cons_ne_nil lead [])
  unfold addLast
  rw [here, there]
  rfl

/-- A binding with a prefix and at least two keys is taken apart without a complaint. -/
theorem addBinding_concrete (state : State) (concrete : binding.prefixes ≠ [])
    (taken : ¬ Skipped options binding) (before : List String) (last : String)
    (longer : before ≠ []) (split : sequenceOf binding = before ++ [last]) :
    addBinding options state binding =
      addLast options binding false (joined " " before) last
        (addSteps options binding "" state before).2 := by
  have reached := (addSteps_run options binding "" before state).1
  rw [foldl_extend before (words_before binding before [last] split)] at reached
  have silent : state.note (unrestricted binding) = state := by
    rw [unrestricted_concrete binding concrete]
    simp [State.note]
  rw [addBinding, if_neg (by simpa [Skipped] using taken), keysOf_eq, split, List.reverse_append,
    List.reverse_singleton, List.singleton_append, silent]
  cases turned : before.reverse with
  | nil => exact absurd (List.reverse_eq_nil_iff.mp turned) longer
  | cons final others =>
    have back : (final :: others).reverse = before := by rw [← turned, List.reverse_reverse]
    simp only [back, reached]

/-- Two spellings of one sequence do the same to every state of a run. -/
theorem addBinding_spelled (state : State) (concrete : binding.prefixes ≠ [])
    (acts : binding.onlyRuns options.ignoreCommand = false)
    (same : sequenceOf (binding.spelled lead key) = sequenceOf binding)
    (several : 2 ≤ (sequenceOf binding).length) :
    addBinding options state (binding.spelled lead key) = addBinding options state binding := by
  obtain ⟨before, last, split⟩ : ∃ before last, sequenceOf binding = before ++ [last] := by
    rcases List.eq_nil_or_concat (sequenceOf binding) with none | ⟨before, last, split⟩
    · rw [none] at several
      cases several
    · exact ⟨before, last, by rw [split, List.concat_eq_append]⟩
  have longer : before ≠ [] := by
    rintro rfl
    simp [split] at several
  have taken (other : Binding) (commands : other.commands = binding.commands) :
      ¬ Skipped options other := by
    rintro ⟨ignores, _⟩
    rw [Binding.onlyRuns, commands, ← Binding.onlyRuns, acts] at ignores
    cases ignores
  rw [addBinding_concrete options binding state concrete (taken binding rfl) before last longer
      split,
    addBinding_concrete options (binding.spelled lead key) state (List.cons_ne_nil lead [])
      (taken _ rfl) before last longer (same.trans split),
    addSteps_spelled, addLast_spelled options binding lead key concrete]

end Run

theorem compile_set (options : Options) (bindings : List Binding) (place : Nat)
    (binding other : Binding) (stands : bindings[place]? = some binding)
    (alike : ∀ state, addBinding options state other = addBinding options state binding) :
    compile options (bindings.set place other) = compile options bindings := by
  unfold compile
  generalize State.start = state
  induction bindings generalizing place state with
  | nil => simp at stands
  | cons first rest ih =>
    cases place with
    | zero =>
      obtain rfl : first = binding := by simpa using stands
      rw [List.set_cons_zero, List.foldl_cons, List.foldl_cons, alike]
    | succ place =>
      rw [List.set_cons_succ, List.foldl_cons, List.foldl_cons]
      exact ih place (by simpa using stands) (addBinding options state first)

/-- Where a binding with one prefix does more than ignore its keys, any of them but the last may
be moved to the prefix. The codes, the places with what stands there and in which order, the
problems and the counters of the conflicts all stay the same. -/
theorem respelled_compiles_alike (options : Options) (bindings : List Binding) (place : Nat)
    (binding : Binding) (stands : bindings[place]? = some binding)
    (acts : binding.onlyRuns options.ignoreCommand = false) (lead : String)
    (concrete : binding.prefixes = [lead]) (moved : Nat) (moves : 1 ≤ moved)
    (fewer : moved < (wordsOf binding.key).length) :
    compile options (bindings.set place (respelled binding lead moved)) =
      compile options bindings := by
  refine compile_set options bindings place binding _ stands fun state => ?_
  refine addBinding_spelled options binding _ _ state ?_ acts
    (sequence_respelled binding lead moved concrete) ?_
  · rw [concrete]
    exact List.cons_ne_nil lead []
  · rw [sequenceOf, List.length_append]
    omega

/-- A declared step, a sequence through it, and another binding that ends where this one does. -/
def crossing : List Binding :=
  [.declared "g" "master-key.prefix" 1, .declared "g d e" "first" 0,
   { Binding.declared "e" "second" 2 with prefixes := ["g d"] }]

theorem respelled_of_crossing :
    let other := respelled (.declared "g d e" "first" 0) "" 2
    other.key = "e" ∧ other.prefixes = ["g d"] ∧
    (compile .default crossing).table.problems = [.duplicateBinding "g d e" "normal"] ∧
    compile .default (crossing.set 1 other) = compile .default crossing :=
  ⟨by decide +kernel, by decide +kernel, by decide +kernel,
    respelled_compiles_alike .default crossing 1 (.declared "g d e" "first" 0) rfl
      (by decide +kernel) "" rfl 2 (by decide) (by decide +kernel)⟩

end Sequence

end Keymap
