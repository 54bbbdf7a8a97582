import Keymap.Sequence.Steps
import Keymap.Proofs.Binding.Table
import Keymap.Proofs.Sequence.Code
import Keymap.Proofs.Text.Words

/-!
Taking sequences apart as one run of additions. Since codes never change once they are handed out,
each addition can be written with the codes of the whole run: `table_of_compile` says which
additions a list of bindings makes, and in which order.
-/

set_option autoImplicit false

namespace Keymap

def Problem.isDuplicate : Problem → Bool
  | .duplicateBinding _ _ => true
  | _ => false

namespace BindingTable

/-- The table as its additions alone leave it, without what was noted between them. -/
def withoutNotes (table : BindingTable) : BindingTable :=
  { table with problems := table.problems.filter Problem.isDuplicate }

theorem withoutNotes_places (table : BindingTable) : table.withoutNotes.places = table.places :=
  rfl

theorem withoutNotes_counters (table : BindingTable) :
    table.withoutNotes.counters = table.counters := rfl

theorem withoutNotes_bindings (table : BindingTable) :
    table.withoutNotes.bindings = table.bindings := rfl

theorem record_withoutNotes (options : Options) (table : BindingTable) (arrival : Arrival) :
    (record options table arrival).withoutNotes = record options table.withoutNotes arrival := by
  unfold record
  cases found : find? arrival.binding.signature table.places with
  | none =>
    rw [add_of_free options table _ _ _ found, add_of_free options table.withoutNotes _ _ _ found]
    rfl
  | some current =>
    unfold add withoutNotes
    simp only [found]
    generalize Conflict.decide options current.binding arrival.binding = decision
    obtain ⟨action, rule⟩ := decision
    cases action <;> cases rule <;>
      simp [Problem.isDuplicate, Conflict.duplicate, List.filter_append]

end BindingTable

namespace Sequence

open BindingTable (Arrival record run)
open Text (wordsOf joined IsWord)

/-- The keys of a sequence: those of the prefix, then its own. -/
def sequenceOf (binding : Binding) : List String :=
  wordsOf (binding.prefixes.headD "") ++ wordsOf binding.key

theorem sequence_words (binding : Binding) (key : String) (member : key ∈ sequenceOf binding) :
    IsWord key := by
  rcases List.mem_append.mp member with before | own
  · exact Text.words_are_words _ key before
  · exact Text.words_are_words _ key own

theorem words_before (binding : Binding) (before after : List String)
    (split : sequenceOf binding = before ++ after) : ∀ word ∈ before, IsWord word :=
  fun word member => sequence_words binding word (split ▸ List.mem_append_left after member)

theorem keysOf_eq (binding : Binding) : keysOf binding = sequenceOf binding := by
  unfold keysOf sequenceOf
  cases binding.prefixes with
  | nil => simp [Text.words_of_trimmed, Text.words_of_empty]
  | cons lead rest =>
    by_cases empty : lead = ""
    · simp [empty, Text.words_of_trimmed, Text.words_of_empty]
    · simp [empty, Text.words_of_between, Text.words_of_trimmed]

theorem extend_joined (keys : List String) (key : String) (each : ∀ word ∈ keys, IsWord word) :
    extend (joined " " keys) key = joined " " (keys ++ [key]) := by
  by_cases first : keys = []
  · subst first
    rfl
  · have held := Text.joined_words_nonempty keys each first
    rw [extend, if_neg held, Text.joined_concat " " key keys first]

/-- Whether a binding is left out: keys are ignored one at a time only. -/
def Skipped (options : Options) (binding : Binding) : Prop :=
  binding.onlyRuns options.ignoreCommand = true ∧ 1 < (wordsOf binding.key).length

instance (options : Options) (binding : Binding) : Decidable (Skipped options binding) :=
  inferInstanceAs (Decidable (_ ∧ _))

variable (options : Options) (codes : PrefixCodes)

/-- Where a step to a sequence sorts: just before the first that is declared by itself. -/
def stepPlace (manual : List (String × Int)) (binding : Binding) (name : String) : Int × Int :=
  match manual.lookup name with
  | some declared => (declared, -1)
  | none => (binding.index, 0)

/-- The steps for the keys before the last one, with the codes of the whole run. -/
def stepArrivals (manual : List (String × Int)) (binding : Binding) (lead : String) :
    List String → List Arrival
  | [] => []
  | key :: rest =>
      let next := extend lead key
      let place := stepPlace manual binding next
      ⟨automatedStep options binding lead key (codes.codeFor next).1, place.1, place.2⟩ ::
        stepArrivals manual binding next rest

def lastClaim (binding : Binding) (before : List String) (key : String) : Binding :=
  let lead := joined " " before
  if binding.runs options.stepCommand then
    manualStep options binding lead key (codes.codeFor (extend lead key)).1
  else if before = [] then binding
  else { binding with key := key, prefixes := [lead] }

def arrivalsOf (manual : List (String × Int)) (binding : Binding) : List Arrival :=
  if Skipped options binding then []
  else match (sequenceOf binding).getLast? with
    | none => []
    | some key =>
        let before := (sequenceOf binding).dropLast
        stepArrivals options codes manual binding "" before ++
          [⟨lastClaim options codes binding before key, binding.index, 0⟩]

/-- The sequences that are stepped to by themselves, once a binding is declared. -/
def declare (manual : List (String × Int)) (binding : Binding) : List (String × Int) :=
  let name := joined " " (sequenceOf binding)
  if Skipped options binding ∨ sequenceOf binding = [] ∨
      binding.runs options.stepCommand = false ∨ (manual.lookup name).isSome then manual
  else manual ++ [(name, binding.index)]

def arrivals (manual : List (String × Int)) : List Binding → List Arrival
  | [] => []
  | binding :: rest =>
      arrivalsOf options codes manual binding ++ arrivals (declare options manual binding) rest

theorem addSteps_run (binding : Binding) (lead : String) (keys : List String) (state : State) :
    (addSteps options binding lead state keys).1 = keys.foldl extend lead ∧
      (addSteps options binding lead state keys).2.manual = state.manual ∧
      (addSteps options binding lead state keys).2.codes.Extends state.codes ∧
      ∀ later : PrefixCodes,
        later.Extends (addSteps options binding lead state keys).2.codes →
        (addSteps options binding lead state keys).2.table.withoutNotes =
          (stepArrivals options later state.manual binding lead keys).foldl (record options)
            state.table.withoutNotes := by
  induction keys generalizing lead state with
  | nil => exact ⟨rfl, rfl, PrefixCodes.extends_refl _, fun _ _ => rfl⟩
  | cons key rest ih =>
    let next := extend lead key
    let place := stepPlace state.manual binding next
    let step := automatedStep options binding lead key (state.codes.codeFor next).1
    let stepped : State :=
      { state with
        codes := (state.codes.codeFor next).2
        table := record options state.table ⟨step, place.1, place.2⟩ }
    have unfolded : addSteps options binding lead state (key :: rest) =
        addSteps options binding next stepped rest := by
      rw [addSteps]
      rfl
    rw [unfolded]
    obtain ⟨reached, manual, grown, table⟩ := ih next stepped
    have handed := PrefixCodes.codeFor_extends state.codes next
    refine ⟨reached, manual, PrefixCodes.extends_trans grown handed, ?_⟩
    intro later after
    have stays := PrefixCodes.code_stays next (PrefixCodes.extends_trans after grown)
    rw [table later after]
    show (stepArrivals options later state.manual binding next rest).foldl (record options)
        (record options state.table ⟨step, place.1, place.2⟩).withoutNotes = _
    rw [BindingTable.record_withoutNotes]
    simp only [stepArrivals, List.foldl_cons, stays, step, place, next]

theorem note_withoutNotes (state : State) (problems : List Problem)
    (noted : ∀ problem ∈ problems, problem.isDuplicate = false) :
    (state.note problems).table.withoutNotes = state.table.withoutNotes := by
  have silent : problems.filter Problem.isDuplicate = [] :=
    List.filter_eq_nil_iff.mpr fun problem member => by simp [noted problem member]
  simp [State.note, BindingTable.withoutNotes, List.filter_append, silent]

theorem note_manual (state : State) (problems : List Problem) :
    (state.note problems).manual = state.manual := rfl

theorem unrestricted_no_duplicate (binding : Binding) (problem : Problem)
    (member : problem ∈ unrestricted binding) : problem.isDuplicate = false := by
  unfold unrestricted at member
  split at member
  · rw [List.mem_singleton.mp member]
    rfl
  · simp at member

theorem foldl_extend (keys : List String) (each : ∀ word ∈ keys, IsWord word) :
    keys.foldl extend "" = joined " " keys := by
  induction keys using List.reverseRecOn with
  | nil => rfl
  | append_singleton front last ih =>
    have earlier := fun word member => each word (List.mem_append_left [last] member)
    rw [List.foldl_append, ih earlier]
    exact extend_joined front last earlier

theorem addLast_run (binding : Binding) (before : List String) (key : String) (state : State)
    (each : ∀ word ∈ before, IsWord word) :
    let after := addLast options binding before.isEmpty (joined " " before) key state
    after.manual =
        (if binding.runs options.stepCommand = false ∨
            (state.manual.lookup (joined " " (before ++ [key]))).isSome then state.manual
        else state.manual ++ [(joined " " (before ++ [key]), binding.index)]) ∧
      after.codes.Extends state.codes ∧
      ∀ later : PrefixCodes, later.Extends after.codes →
        after.table.withoutNotes =
          record options state.table.withoutNotes
            ⟨lastClaim options later binding before key, binding.index, 0⟩ := by
  have name := extend_joined before key each
  intro after
  cases steps : binding.runs options.stepCommand with
  | true =>
    have unfolded : after =
        ⟨(state.codes.codeFor (joined " " (before ++ [key]))).2,
          record options (state.note (unrestricted binding)).table
            ⟨manualStep options binding (joined " " before) key
              (state.codes.codeFor (joined " " (before ++ [key]))).1, binding.index, 0⟩,
          if (state.manual.lookup (joined " " (before ++ [key]))).isSome then state.manual
          else state.manual ++ [(joined " " (before ++ [key]), binding.index)]⟩ := by
      simp only [after, addLast, steps, if_true, name]
      rfl
    rw [unfolded]
    refine ⟨by simp only [Bool.true_eq_false, false_or], PrefixCodes.codeFor_extends _ _, ?_⟩
    intro later grown
    rw [BindingTable.record_withoutNotes, note_withoutNotes _ _ (unrestricted_no_duplicate binding)]
    simp only [lastClaim, steps, if_true, name, PrefixCodes.code_stays _ grown]
  | false =>
    have unfolded : after =
        { state with
          table := record options state.table
            ⟨lastClaim options state.codes binding before key, binding.index, 0⟩ } := by
      cases before with
      | nil => simp [after, addLast, steps, lastClaim, record]
      | cons first rest => simp [after, addLast, steps, lastClaim, record]
    rw [unfolded]
    refine ⟨by simp, PrefixCodes.extends_refl _, ?_⟩
    intro later _
    rw [BindingTable.record_withoutNotes]
    simp only [lastClaim, steps, Bool.false_eq_true, if_false]

theorem arrivalsOf_skipped (manual : List (String × Int)) (binding : Binding)
    (skipped : Skipped options binding) : arrivalsOf options codes manual binding = [] :=
  if_pos skipped

theorem arrivalsOf_blank (manual : List (String × Int)) (binding : Binding)
    (blank : sequenceOf binding = []) : arrivalsOf options codes manual binding = [] := by
  unfold arrivalsOf
  split
  · rfl
  · rw [blank]
    rfl

theorem arrivalsOf_sequence (manual : List (String × Int)) (binding : Binding)
    (taken : ¬ Skipped options binding) (before : List String) (key : String)
    (split : sequenceOf binding = before ++ [key]) :
    arrivalsOf options codes manual binding =
      stepArrivals options codes manual binding "" before ++
        [⟨lastClaim options codes binding before key, binding.index, 0⟩] := by
  rw [arrivalsOf, if_neg taken, split]
  simp

theorem addBinding_skipped (state : State) (binding : Binding)
    (skipped : Skipped options binding) :
    addBinding options state binding =
      state.note [.ignoredSequence options.ignoreCommand binding.key] := by
  rw [addBinding, if_pos (by simpa [Skipped] using skipped)]

theorem addBinding_blank (state : State) (binding : Binding)
    (taken : ¬ Skipped options binding) (blank : sequenceOf binding = []) :
    addBinding options state binding = state := by
  rw [addBinding, if_neg (by simpa [Skipped] using taken), keysOf_eq, blank]
  rfl

/-- A binding is taken apart into its steps, and what remains of it at its last key. -/
theorem addBinding_sequence (state : State) (binding : Binding)
    (taken : ¬ Skipped options binding) (before : List String) (key : String)
    (split : sequenceOf binding = before ++ [key]) :
    ∃ problems, (∀ problem ∈ problems, problem.isDuplicate = false) ∧
      addBinding options state binding =
        addLast options binding before.isEmpty (joined " " before) key
          (addSteps options binding "" (state.note problems) before).2 := by
  have words := words_before binding before _ split
  rw [addBinding, if_neg (by simpa [Skipped] using taken), keysOf_eq, split]
  cases before with
  | nil =>
    refine ⟨[], by simp, ?_⟩
    simp [joined, addSteps, State.note]
  | cons first rest =>
    refine ⟨unrestricted binding, unrestricted_no_duplicate binding, ?_⟩
    have reached := (addSteps_run options binding "" (first :: rest)
      (state.note (unrestricted binding))).1
    rw [foldl_extend _ words] at reached
    rw [List.reverse_append, List.reverse_singleton, List.singleton_append]
    cases turned : (first :: rest).reverse with
    | nil => simp at turned
    | cons last others =>
      have back : (last :: others).reverse = first :: rest := by
        rw [← turned, List.reverse_reverse]
      simp only [back, reached, List.isEmpty_cons]

theorem addBinding_run (state : State) (binding : Binding) :
    (addBinding options state binding).manual = declare options state.manual binding ∧
      (addBinding options state binding).codes.Extends state.codes ∧
      ∀ later : PrefixCodes, later.Extends (addBinding options state binding).codes →
        (addBinding options state binding).table.withoutNotes =
          (arrivalsOf options later state.manual binding).foldl (record options)
            state.table.withoutNotes := by
  by_cases skipped : Skipped options binding
  · rw [addBinding_skipped options state binding skipped]
    refine ⟨by simp [declare, skipped, State.note], PrefixCodes.extends_refl _, ?_⟩
    intro later _
    rw [arrivalsOf_skipped options later _ _ skipped]
    exact note_withoutNotes state _ (by simp [Problem.isDuplicate])
  rcases List.eq_nil_or_concat (sequenceOf binding) with blank | ⟨before, key, split⟩
  · rw [addBinding_blank options state binding skipped blank]
    refine ⟨by simp [declare, blank], PrefixCodes.extends_refl _, ?_⟩
    intro later _
    rw [arrivalsOf_blank options later _ _ blank]
    rfl
  rw [List.concat_eq_append] at split
  have words := words_before binding before _ split
  obtain ⟨problems, noted, unfolded⟩ :=
    addBinding_sequence options state binding skipped before key split
  obtain ⟨_, kept, grown, steps⟩ :=
    addSteps_run options binding "" before (state.note problems)
  obtain ⟨declared, extended, last⟩ := addLast_run options binding before key
    (addSteps options binding "" (state.note problems) before).2 words
  rw [unfolded]
  refine ⟨?_, PrefixCodes.extends_trans extended grown, ?_⟩
  · rw [declared, kept, declare, split]
    simp only [skipped, false_or, List.append_eq_nil_iff, List.cons_ne_nil, and_false]
    rfl
  · intro later after
    have stepTable := steps later (PrefixCodes.extends_trans after extended)
    rw [note_withoutNotes state problems noted, note_manual] at stepTable
    rw [last later after, stepTable, arrivalsOf_sequence options later _ _ skipped before key split,
      List.foldl_append, List.foldl_cons, List.foldl_nil]

theorem addAll_run (state : State) (bindings : List Binding) :
    (bindings.foldl (addBinding options) state).codes.Extends state.codes ∧
      ∀ later : PrefixCodes,
        later.Extends (bindings.foldl (addBinding options) state).codes →
        (bindings.foldl (addBinding options) state).table.withoutNotes =
          (arrivals options later state.manual bindings).foldl (record options)
            state.table.withoutNotes := by
  induction bindings generalizing state with
  | nil => exact ⟨PrefixCodes.extends_refl _, fun _ _ => rfl⟩
  | cons binding rest ih =>
    obtain ⟨declared, extended, table⟩ := addBinding_run options state binding
    obtain ⟨grown, later⟩ := ih (addBinding options state binding)
    refine ⟨PrefixCodes.extends_trans grown extended, ?_⟩
    intro final after
    rw [List.foldl_cons, later final after, table final (PrefixCodes.extends_trans after grown),
      declared, arrivals, List.foldl_append]

/-- The additions of a compilation, with the codes that it ends with. -/
def trace (bindings : List Binding) : List Arrival :=
  arrivals options (compile options bindings).codes [] bindings

theorem table_of_compile (bindings : List Binding) :
    (compile options bindings).table.withoutNotes = run options (trace options bindings) :=
  (addAll_run options State.start bindings).2 _ (PrefixCodes.extends_refl _)

end Sequence

end Keymap
