import Keymap.Proofs.Sequence.Arrivals

/-!
What a compilation leaves, in terms of the bindings that its input claims places with: a place is
held by the holder among its claims (`compiled_iff_holds`), and a duplicate is reported for each
claim that no rule settles (`compiled_duplicates`). A binding makes one claim for every key of its
sequence (`mem_claimsOf`).
-/

set_option autoImplicit false

namespace Keymap

namespace Sequence

open BindingTable (Arrival run)
open Text (wordsOf joined IsWord)

variable (options : Options) (codes : PrefixCodes)

def stepClaims (binding : Binding) (lead : String) : List String → List Binding
  | [] => []
  | key :: rest =>
      automatedStep options binding lead key (codes.codeFor (extend lead key)).1 ::
        stepClaims binding (extend lead key) rest

/-- The bindings that one binding claims places with, each of its keys in turn. -/
def claimsOf (binding : Binding) : List Binding :=
  if Skipped options binding then []
  else match (sequenceOf binding).getLast? with
    | none => []
    | some key =>
        let before := (sequenceOf binding).dropLast
        stepClaims options codes binding "" before ++ [lastClaim options codes binding before key]

/-- All claims of a compilation, in the order in which they come. -/
def claims (bindings : List Binding) : List Binding :=
  bindings.flatMap (claimsOf options (compile options bindings).codes)

theorem stepArrivals_bindings (manual : List (String × Int)) (binding : Binding) (lead : String)
    (keys : List String) :
    (stepArrivals options codes manual binding lead keys).map (·.binding) =
      stepClaims options codes binding lead keys := by
  induction keys generalizing lead with
  | nil => rfl
  | cons key rest ih => simp [stepArrivals, stepClaims, ih]

theorem claimsOf_skipped (binding : Binding) (skipped : Skipped options binding) :
    claimsOf options codes binding = [] := if_pos skipped

theorem claimsOf_blank (binding : Binding) (blank : sequenceOf binding = []) :
    claimsOf options codes binding = [] := by
  unfold claimsOf
  split
  · rfl
  · rw [blank]
    rfl

theorem claimsOf_sequence (binding : Binding) (taken : ¬ Skipped options binding)
    (before : List String) (key : String) (split : sequenceOf binding = before ++ [key]) :
    claimsOf options codes binding =
      stepClaims options codes binding "" before ++
        [lastClaim options codes binding before key] := by
  rw [claimsOf, if_neg taken, split]
  simp

theorem arrivalsOf_bindings (manual : List (String × Int)) (binding : Binding) :
    (arrivalsOf options codes manual binding).map (·.binding) =
      claimsOf options codes binding := by
  by_cases skipped : Skipped options binding
  · rw [arrivalsOf_skipped _ _ _ _ skipped, claimsOf_skipped _ _ _ skipped]
    rfl
  rcases List.eq_nil_or_concat (sequenceOf binding) with blank | ⟨before, key, split⟩
  · rw [arrivalsOf_blank _ _ _ _ blank, claimsOf_blank _ _ _ blank]
    rfl
  · rw [List.concat_eq_append] at split
    rw [arrivalsOf_sequence _ _ _ _ skipped before key split,
      claimsOf_sequence _ _ _ skipped before key split, List.map_append, stepArrivals_bindings]
    rfl

theorem arrivals_bindings (manual : List (String × Int)) (bindings : List Binding) :
    (arrivals options codes manual bindings).map (·.binding) =
      bindings.flatMap (claimsOf options codes) := by
  induction bindings generalizing manual with
  | nil => rfl
  | cons binding rest ih =>
    rw [arrivals, List.map_append, arrivalsOf_bindings, ih, List.flatMap_cons]

theorem trace_bindings (bindings : List Binding) :
    (trace options bindings).map (·.binding) = claims options bindings :=
  arrivals_bindings options _ [] bindings

/-- The step that a sequence implies at one of its keys. -/
def stepClaim (binding : Binding) (before : List String) (key : String) : Binding :=
  automatedStep options binding (joined " " before) key
    (codes.codeFor (joined " " (before ++ [key]))).1

theorem mem_stepClaims (binding : Binding) (done keys : List String)
    (words : ∀ word ∈ done ++ keys, IsWord word) (claim : Binding) :
    claim ∈ stepClaims options codes binding (joined " " done) keys ↔
      ∃ before key after, keys = before ++ key :: after ∧
        claim = stepClaim options codes binding (done ++ before) key := by
  induction keys generalizing done with
  | nil => simp [stepClaims]
  | cons first rest ih =>
    have extended := extend_joined done first fun word member =>
      words word (List.mem_append_left _ member)
    have later := ih (done ++ [first]) (by simpa using words)
    rw [stepClaims, extended, List.mem_cons, later]
    constructor
    · rintro (rfl | ⟨before, key, after, rfl, rfl⟩)
      · exact ⟨[], first, rest, rfl, by simp [stepClaim]⟩
      · exact ⟨first :: before, key, after, rfl, by simp⟩
    · rintro ⟨before, key, after, split, rfl⟩
      cases before with
      | nil =>
        obtain ⟨rfl, rfl⟩ := List.cons.inj split
        exact .inl (by simp [stepClaim])
      | cons other before =>
        obtain ⟨rfl, rfl⟩ := List.cons.inj split
        exact .inr ⟨before, key, after, rfl, by simp⟩

theorem mem_claimsOf (binding claim : Binding) :
    claim ∈ claimsOf options codes binding ↔
      ¬ Skipped options binding ∧ ∃ before key after,
        sequenceOf binding = before ++ key :: after ∧
        claim = if after = [] then lastClaim options codes binding before key
          else stepClaim options codes binding before key := by
  by_cases skipped : Skipped options binding
  · simp [claimsOf_skipped _ _ _ skipped, skipped]
  rcases List.eq_nil_or_concat (sequenceOf binding) with blank | ⟨front, last, split⟩
  · simp [claimsOf_blank _ _ _ blank, blank]
  rw [List.concat_eq_append] at split
  have words : ∀ word ∈ [] ++ front, IsWord word := words_before binding _ _ split
  have steps := mem_stepClaims options codes binding [] front words claim
  rw [claimsOf_sequence _ _ _ skipped front last split, List.mem_append]
  simp only [joined, List.nil_append] at steps
  rw [steps, List.mem_singleton, split]
  constructor
  · rintro (⟨before, key, after, rfl, rfl⟩ | rfl)
    · exact ⟨skipped, before, key, after ++ [last], by simp, by simp⟩
    · exact ⟨skipped, front, last, [], rfl, by simp⟩
  · rintro ⟨_, before, key, after, same, rfl⟩
    rcases List.eq_nil_or_concat after with rfl | ⟨others, other, rfl⟩
    · obtain ⟨rfl, single⟩ := List.append_inj' same rfl
      obtain rfl : last = key := by simpa using single
      exact .inr (by simp)
    · rw [List.concat_eq_append, ← List.cons_append, ← List.append_assoc] at same
      obtain ⟨rfl, _⟩ := List.append_inj' same rfl
      exact .inl ⟨before, key, others, rfl, by simp⟩

theorem mem_claims (bindings : List Binding) (claim : Binding) :
    claim ∈ claims options bindings ↔
      ∃ binding ∈ bindings,
        claim ∈ claimsOf options (compile options bindings).codes binding := by
  simp [claims]

/-- Where a key of a sequence is bound: after the keys before it. -/
def placeOf (binding : Binding) (before : List String) (key : String) : Binding.Signature :=
  { binding.signature with key := key, prefixes := [joined " " before] }

theorem stepClaim_signature (binding : Binding) (before : List String) (key : String) :
    (stepClaim options codes binding before key).signature = placeOf binding before key := rfl

theorem lastClaim_signature (binding : Binding) (before : List String) (key : String) :
    (lastClaim options codes binding before key).signature =
      if before = [] ∧ binding.runs options.stepCommand = false then binding.signature
      else placeOf binding before key := by
  unfold lastClaim
  cases steps : binding.runs options.stepCommand with
  | true =>
    simp
    rfl
  | false =>
    by_cases first : before = []
    · simp [first]
    · simp [first]
      rfl

section Compiled

variable (bindings : List Binding)

theorem compiled_places :
    (compile options bindings).table.places = (run options (trace options bindings)).places := by
  rw [← table_of_compile, BindingTable.withoutNotes_places]

theorem compiled_bindings :
    (compile options bindings).table.bindings =
      (run options (trace options bindings)).bindings := by
  rw [← table_of_compile, BindingTable.withoutNotes_bindings]

theorem compiled_arranged : BindingTable.Arranged (compile options bindings).table.places :=
  compiled_places options bindings ▸ BindingTable.arranged_run options (trace options bindings)

theorem compiled_iff_holds (binding : Binding) :
    binding ∈ (compile options bindings).table.bindings ↔
      Conflict.holder options
        (Conflict.claimsOn binding.signature (claims options bindings)) = some binding := by
  rw [compiled_bindings, BindingTable.mem_bindings_iff_holds _ (BindingTable.arranged_run _ _),
    BindingTable.holderAt_run, trace_bindings]

theorem compiled_of_holder (place : Binding.Signature) (held : Binding)
    (holds : Conflict.holder options
      (Conflict.claimsOn place (claims options bindings)) = some held) :
    held.signature = place ∧ held ∈ (compile options bindings).table.bindings := by
  have stands := ((Conflict.mem_claimsOn _ _ _).mp
    (Conflict.holder_claims options _ held holds)).2
  exact ⟨stands, (compiled_iff_holds options bindings held).mpr (stands.symm ▸ holds)⟩

theorem compiled_distinct :
    ((compile options bindings).table.bindings.map (·.signature)).Nodup :=
  BindingTable.signatures_distinct _ (compiled_arranged options bindings)

theorem compiled_signatures (place : Binding.Signature) :
    place ∈ (compile options bindings).table.bindings.map (·.signature) ↔
      place ∈ (claims options bindings).map (·.signature) := by
  rw [compiled_bindings, BindingTable.run_places, ← trace_bindings, List.map_map]
  rfl

theorem compiled_is_claim (binding : Binding)
    (member : binding ∈ (compile options bindings).table.bindings) :
    binding ∈ claims options bindings :=
  ((Conflict.mem_claimsOn _ _ _).mp (Conflict.holder_claims options _ binding
    ((compiled_iff_holds options bindings binding).mp member))).1

theorem compiled_duplicates (problem : Problem) (duplicate : problem.isDuplicate = true) :
    problem ∈ (compile options bindings).table.problems ↔
      ∃ new, problem = Conflict.duplicate new ∧
        Conflict.Unsettled options
          (Conflict.claimsOn new.signature (claims options bindings)) new := by
  have kept : problem ∈ (compile options bindings).table.problems ↔
      problem ∈ (compile options bindings).table.withoutNotes.problems := by
    simp [BindingTable.withoutNotes, duplicate]
  rw [kept, table_of_compile, BindingTable.problems_run, trace_bindings]

theorem settled_of_uncounted
    (uncounted : (compile options bindings).table.counters.count "duplicate" = 0) (new : Binding) :
    ¬ Conflict.Unsettled options
      (Conflict.claimsOn new.signature (claims options bindings)) new := by
  intro unsettled
  rw [← BindingTable.withoutNotes_counters, table_of_compile,
    BindingTable.count_duplicates_run] at uncounted
  have reported : Conflict.duplicate new ∈ (run options (trace options bindings)).problems := by
    rw [BindingTable.problems_run, trace_bindings]
    exact ⟨new, rfl, unsettled⟩
  rw [List.length_eq_zero_iff.mp uncounted] at reported
  cases reported

end Compiled

end Sequence

end Keymap
