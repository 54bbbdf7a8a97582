import Keymap.Proofs.Sequence.Steps
import Mathlib.Data.List.Pairwise

/-!
When automated steps count as duplicates. Sequences of which none begins another meet in their
steps only; two of these have the same content exactly if their bindings list the same guards in
the same order and hold in the same modes.
-/

set_option autoImplicit false

namespace Keymap

namespace Sequence

open Binding (SameContent)
open Conflict (isAutomatedStep isManualStep claimsOn holder Unsettled)
open Text (wordsOf joined IsWord)

variable (options : Options) (codes : PrefixCodes)

/-- The keys that lead to a place, its own among them. -/
def pathOf (place : Binding.Signature) : List String :=
  wordsOf (place.prefixes.headD "") ++ wordsOf place.key

theorem path_of_placeOf (binding : Binding) (before : List String) (key : String)
    (each : ∀ word ∈ before ++ [key], IsWord word) :
    pathOf (placeOf binding before key) = before ++ [key] := by
  have lead := Text.words_of_joined before fun word member =>
    each word (List.mem_append_left _ member)
  have own := Text.words_of_one_word key (each key (by simp))
  simp [pathOf, placeOf, lead, own]

/-- A claim stands where its keys lead to, in the mode and under the guards of its binding. -/
theorem claim_path (binding claim : Binding) (before : List String) (key : String)
    (after : List String) (split : sequenceOf binding = before ++ key :: after)
    (made : claim = if after = [] then lastClaim options codes binding before key
      else stepClaim options codes binding before key) :
    pathOf claim.signature = before ++ [key] ∧ claim.mode? = binding.mode? ∧
      claim.guards = binding.guards := by
  have each : ∀ word ∈ before ++ [key], IsWord word := by
    intro word member
    apply sequence_words binding word
    rw [split, List.append_cons]
    exact List.mem_append_left _ member
  subst made
  by_cases last : after = []
  · subst last
    rw [if_pos rfl]
    refine ⟨?_, ?_, ?_⟩
    · rw [lastClaim_signature]
      split
      · exact split
      · exact path_of_placeOf binding before key each
    all_goals
      unfold lastClaim
      split
      · rfl
      · split <;> rfl
  · rw [if_neg last]
    exact ⟨path_of_placeOf binding before key each, rfl, rfl⟩

theorem sameContent_steps_iff (left right : Binding) (before : List String) (key : String)
    (origin : left.implicit = right.implicit) :
    SameContent (stepClaim options codes left before key)
        (stepClaim options codes right before key) ↔
      left.guards.map (·.id) = right.guards.map (·.id) ∧ left.modes = right.modes := by
  constructor
  · exact fun same => ⟨same.guards, same.modes⟩
  · rintro ⟨guards, modes⟩
    exact
      { key := rfl
        commands := rfl
        guards := guards
        modes := modes
        implicit := origin
        prefixes := rfl
        finalKey := rfl
        repeatCount := rfl
        docs := rfl }

theorem placeOf_ne (binding : Binding) (before more : List String)
    (words : ∀ word ∈ before ++ more, IsWord word) (longer : more ≠ []) (key other : String) :
    placeOf binding before key ≠ placeOf binding (before ++ more) other := by
  intro same
  have leads := List.cons.inj (congrArg Binding.Signature.prefixes same)
  have equal := Text.joined_words_injective before (before ++ more)
    (fun word member => words word (List.mem_append_left _ member)) words leads.1
  exact longer (by simpa using equal)

theorem stepClaims_apart (binding : Binding) (done keys : List String)
    (words : ∀ word ∈ done ++ keys, IsWord word) :
    (stepClaims options codes binding (joined " " done) keys).Pairwise fun left right =>
      left.signature ≠ right.signature := by
  induction keys generalizing done with
  | nil => exact .nil
  | cons key rest ih =>
    have lead := extend_joined done key fun word member =>
      words word (List.mem_append_left _ member)
    have later := ih (done ++ [key]) (by simpa using words)
    rw [stepClaims, lead]
    refine .cons ?_ later
    intro claim member
    obtain ⟨before, other, after, tail, rfl⟩ := (mem_stepClaims options codes binding
      (done ++ [key]) rest (by simpa using words) claim).mp member
    rw [List.append_assoc]
    -- A later step asks for more keys before it.
    apply placeOf_ne binding done ([key] ++ before) _ (by simp) key other
    intro word among
    apply words word
    rw [tail]
    simp only [List.mem_append, List.mem_cons] at among ⊢
    tauto

/-- The claims of one binding stand in different places. -/
theorem claimsOf_apart (binding : Binding) :
    (claimsOf options codes binding).Pairwise fun left right =>
      left.signature ≠ right.signature := by
  by_cases skipped : Skipped options binding
  · rw [claimsOf_skipped _ _ _ skipped]
    exact .nil
  rcases List.eq_nil_or_concat (sequenceOf binding) with blank | ⟨front, last, split⟩
  · rw [claimsOf_blank _ _ _ blank]
    exact .nil
  rw [List.concat_eq_append] at split
  have words := words_before binding front _ split
  rw [claimsOf_sequence _ _ _ skipped front last split]
  refine List.pairwise_append.mpr
    ⟨stepClaims_apart options codes binding [] front words, List.pairwise_singleton _ _, ?_⟩
  intro step member claim single
  obtain ⟨before, key, after, tail, rfl⟩ :=
    (mem_stepClaims options codes binding [] front words step).mp member
  rw [List.mem_singleton.mp single, lastClaim_signature,
    if_neg (by rintro ⟨empty, _⟩; simp [empty] at tail), tail]
  exact placeOf_ne binding before (key :: after) (tail ▸ words) (by simp) key last

/-- Neither of two sequences begins the other, if they hold in one mode and under one collection of
guards. -/
def Apart (left right : Binding) : Prop :=
  left.mode? = right.mode? →
  (left.guards.map (·.id)).Perm (right.guards.map (·.id)) →
    ¬ sequenceOf left <+: sequenceOf right ∧ ¬ sequenceOf right <+: sequenceOf left

instance : Std.Symm Apart :=
  ⟨fun _ _ apart mode guards => (apart mode.symm guards.symm).symm⟩

/-- Two sequences of two keys or more that start alike. -/
def StartAlike (left right : Binding) : Prop :=
  ∃ key leftRest rightRest, leftRest ≠ [] ∧ rightRest ≠ [] ∧
    sequenceOf left = key :: leftRest ∧ sequenceOf right = key :: rightRest

/-- Where claims of two bindings meet whose sequences are apart, both are steps for one key. -/
theorem meet_in_steps (left right leftClaim rightClaim : Binding)
    (apart : Apart left right)
    (leftMade : leftClaim ∈ claimsOf options codes left)
    (rightMade : rightClaim ∈ claimsOf options codes right)
    (same : leftClaim.signature = rightClaim.signature) :
    ∃ before key, leftClaim = stepClaim options codes left before key ∧
      rightClaim = stepClaim options codes right before key ∧ StartAlike left right := by
  obtain ⟨_, before, key, after, split, made⟩ := (mem_claimsOf options codes left _).mp leftMade
  obtain ⟨_, typed, last, rest, whole, form⟩ := (mem_claimsOf options codes right _).mp rightMade
  obtain ⟨leftPath, leftMode, leftGuards⟩ :=
    claim_path options codes left leftClaim before key after split made
  obtain ⟨rightPath, rightMode, rightGuards⟩ :=
    claim_path options codes right rightClaim typed last rest whole form
  have mode : left.mode? = right.mode? :=
    leftMode.symm.trans ((congrArg Binding.Signature.mode same).trans rightMode)
  have guards : (left.guards.map (·.id)).Perm (right.guards.map (·.id)) := by
    rw [← leftGuards, ← rightGuards, ← Sorting.sortTexts_eq_iff]
    exact congrArg Binding.Signature.guards same
  obtain ⟨notLeft, notRight⟩ := apart mode guards
  have paths : before ++ [key] = typed ++ [last] := by rw [← leftPath, ← rightPath, same]
  obtain ⟨rfl, single⟩ := List.append_inj' paths rfl
  obtain rfl : key = last := by simpa using single
  have leftStep : after ≠ [] := by
    rintro rfl
    exact notLeft ⟨rest, by rw [split, whole]; simp⟩
  have rightStep : rest ≠ [] := by
    rintro rfl
    exact notRight ⟨after, by rw [split, whole]; simp⟩
  rw [if_neg leftStep] at made
  rw [if_neg rightStep] at form
  refine ⟨before, key, made, form, ?_⟩
  cases before with
  | nil => exact ⟨key, after, rest, leftStep, rightStep, split, whole⟩
  | cons first others =>
    exact ⟨first, others ++ key :: after, others ++ key :: rest, by simp, by simp, split, whole⟩

section Compiled

variable (bindings : List Binding)
  (explicit : ∀ binding ∈ bindings, binding.implicit = false)
  (apart : bindings.Pairwise Apart)

include explicit apart

theorem claims_agree
    (alike : ∀ left ∈ bindings, ∀ right ∈ bindings, ¬ Skipped options left →
      ¬ Skipped options right → left.mode? = right.mode? →
      (left.guards.map (·.id)).Perm (right.guards.map (·.id)) → StartAlike left right →
        left.guards.map (·.id) = right.guards.map (·.id) ∧ left.modes = right.modes) :
    (claims options bindings).Pairwise fun earlier later =>
      earlier.signature = later.signature → SameContent earlier later := by
  let codes := (compile options bindings).codes
  refine List.pairwise_flatMap.mpr ⟨?_, ?_⟩
  · intro binding _
    exact (claimsOf_apart options codes binding).imp fun different same => absurd same different
  · refine apart.imp_of_mem ?_
    intro left right leftGiven rightGiven separate leftClaim leftMade rightClaim rightMade same
    obtain ⟨before, key, rfl, rfl, start⟩ := meet_in_steps options codes left right leftClaim
      rightClaim separate leftMade rightMade same
    have origin : left.implicit = right.implicit :=
      (explicit left leftGiven).trans (explicit right rightGiven).symm
    apply (sameContent_steps_iff options codes left right before key origin).mpr
    exact alike left leftGiven right rightGiven ((mem_claimsOf _ _ _ _).mp leftMade).1
      ((mem_claimsOf _ _ _ _).mp rightMade).1 (congrArg Binding.Signature.mode same)
      ((Sorting.sortTexts_eq_iff _ _).mp (congrArg Binding.Signature.guards same)) start

theorem steps_at_start (left claim : Binding) (given : left ∈ bindings) (key : String)
    (rest : List String) (more : rest ≠ []) (split : sequenceOf left = key :: rest)
    (claimed : claim ∈ claimsOn (placeOf left [] key) (claims options bindings)) :
    isAutomatedStep options claim = true ∧ claim.implicit = false := by
  obtain ⟨among, here⟩ := (Conflict.mem_claimsOn _ _ _).mp claimed
  obtain ⟨source, sourceGiven, made⟩ := (mem_claims options bindings claim).mp among
  obtain ⟨_, before, last, after, whole, form⟩ := (mem_claimsOf options _ source claim).mp made
  obtain ⟨path, mode, guards⟩ := claim_path options _ source claim before last after whole form
  have word : IsWord key := sequence_words left key (split ▸ .head _)
  have start : before ++ [last] = [key] := by
    rw [← path, here]
    exact path_of_placeOf left [] key (by simpa using word)
  obtain ⟨rfl, rfl⟩ : before = [] ∧ last = key := by
    obtain ⟨rfl, single⟩ := List.append_inj' (start.trans (List.nil_append [key]).symm) rfl
    exact ⟨rfl, by simpa using single⟩
  by_cases ending : after = []
  · -- The sequence of the source would begin that of `left`.
    subst ending
    have different : source ≠ left := by
      rintro rfl
      rw [whole] at split
      exact more (List.cons.inj split).2.symm
    have separate := List.Pairwise.forall apart sourceGiven given different
    have signature := here
    have sameMode : source.mode? = left.mode? :=
      mode.symm.trans (congrArg Binding.Signature.mode signature)
    have sameGuards : (source.guards.map (·.id)).Perm (left.guards.map (·.id)) := by
      rw [← guards, ← Sorting.sortTexts_eq_iff]
      exact congrArg Binding.Signature.guards signature
    exact absurd ⟨rest, by rw [whole, split]; rfl⟩ (separate sameMode sameGuards).1
  · rw [if_neg ending] at form
    subst form
    exact ⟨stepClaim_automated options _ source [] last, explicit source sourceGiven⟩

/-- Among explicit sequences of which none begins another, duplicates are reported exactly where
two that start alike list their guards in different orders or hold in different modes. -/
theorem no_duplicates_iff :
    (∀ problem ∈ (compile options bindings).table.problems, problem.isDuplicate = false) ↔
      ∀ left ∈ bindings, ∀ right ∈ bindings, ¬ Skipped options left →
        ¬ Skipped options right → left.mode? = right.mode? →
        (left.guards.map (·.id)).Perm (right.guards.map (·.id)) → StartAlike left right →
          left.guards.map (·.id) = right.guards.map (·.id) ∧ left.modes = right.modes := by
  constructor
  · intro clean left leftGiven right rightGiven leftTaken rightTaken mode guards start
    obtain ⟨key, leftRest, rightRest, leftMore, rightMore, leftSplit, rightSplit⟩ := start
    let codes := (compile options bindings).codes
    let place := placeOf left [] key
    have same : placeOf right [] key = place := by
      simp only [place, placeOf, Binding.signature, mode,
        (Sorting.sortTexts_eq_iff _ _).mpr guards]
    have settled : ∀ new, ¬ Unsettled options (claimsOn place (claims options bindings)) new := by
      intro new unsettled
      obtain ⟨front, back, _, split, _⟩ := id unsettled
      have among : new ∈ claimsOn place (claims options bindings) := split ▸ by simp
      obtain ⟨_, here⟩ := (Conflict.mem_claimsOn _ _ _).mp among
      have reported := (compiled_duplicates options bindings (Conflict.duplicate new) rfl).mpr
        ⟨new, rfl, here.symm ▸ unsettled⟩
      exact absurd (clean _ reported) nofun
    have steps := fun claim => steps_at_start options bindings explicit apart left claim leftGiven
      key leftRest leftMore leftSplit
    have claimed : ∀ binding ∈ bindings, ¬ Skipped options binding → ∀ rest, rest ≠ [] →
        sequenceOf binding = key :: rest → placeOf binding [] key = place →
        stepClaim options codes binding [] key ∈ claimsOn place (claims options bindings) := by
      intro binding given taken rest more split here
      refine (Conflict.mem_claimsOn _ _ _).mpr ⟨?_, here⟩
      refine (mem_claims options bindings _).mpr ⟨binding, given, ?_⟩
      exact (mem_claimsOf options _ binding _).mpr
        ⟨taken, [], key, rest, split, by rw [if_neg more]⟩
    obtain ⟨held, holds, leftSame⟩ := Conflict.steps_alike options _ settled steps _
      (claimed left leftGiven leftTaken leftRest leftMore leftSplit rfl)
    obtain ⟨other, otherHolds, rightSame⟩ := Conflict.steps_alike options _ settled steps _
      (claimed right rightGiven rightTaken rightRest rightMore rightSplit same)
    obtain rfl : held = other := Option.some.inj (holds.symm.trans otherHolds)
    have origin : left.implicit = right.implicit :=
      (explicit left leftGiven).trans (explicit right rightGiven).symm
    exact (sameContent_steps_iff options codes left right [] key origin).mp
      (leftSame.symm.trans rightSame)
  · intro alike problem reported
    by_contra duplicate
    rw [Bool.not_eq_false] at duplicate
    obtain ⟨new, _, unsettled⟩ :=
      (compiled_duplicates options bindings problem duplicate).mp reported
    exact Conflict.settled_of_agreement options _
      (claims_agree options bindings explicit apart alike) new.signature new unsettled

end Compiled

theorem shared_step_unreported :
    (∀ binding ∈ [Binding.declared "g d" "first" 0, .declared "g r" "second" 1],
        binding.implicit = false) ∧
    [Binding.declared "g d" "first" 0, .declared "g r" "second" 1].Pairwise Apart ∧
    ∀ problem ∈ (compile .default
        [.declared "g d" "first" 0, .declared "g r" "second" 1]).table.problems,
      problem.isDuplicate = false := by
  have explicit : ∀ binding ∈ [Binding.declared "g d" "first" 0, .declared "g r" "second" 1],
      binding.implicit = false := by decide
  have apart : [Binding.declared "g d" "first" 0, .declared "g r" "second" 1].Pairwise Apart := by
    simp only [List.pairwise_cons, List.mem_singleton, forall_eq]
    exact ⟨fun _ _ => by decide, by simp⟩
  refine ⟨explicit, apart, (no_duplicates_iff .default _ explicit apart).mpr ?_⟩
  have same : ∀ binding ∈ [Binding.declared "g d" "first" 0, .declared "g r" "second" 1],
      binding.guards = [] ∧ binding.modes = some ["normal"] := by
    simp [Binding.declared]
  intro left leftGiven right rightGiven _ _ _ _ _
  rw [(same left leftGiven).1, (same right rightGiven).1, (same left leftGiven).2,
    (same right rightGiven).2]
  exact ⟨rfl, rfl⟩

/-- Two sequences after one key whose guards are the same but for their order. -/
def turnedGuards : List Binding :=
  let a : Guard := ⟨"a", "86f7e437faa5a7fce15d1ddcb9eaeaea377667b8"⟩
  let b : Guard := ⟨"b", "e9d71f5ee7c92d6dc9e92ffdad17b8bd49418f98"⟩
  [{ Binding.declared "g d" "first" 0 with guards := [a, b] },
   { Binding.declared "g r" "second" 1 with guards := [b, a] }]

/-- Sequences of which none begins another are not enough: steps that list their guards in
different orders are reported. -/
theorem turned_guards_reported :
    ¬ ∀ (options : Options) (bindings : List Binding),
      (∀ binding ∈ bindings, binding.implicit = false ∧ binding.prefixes.length ≤ 1) →
      bindings.Pairwise Apart →
      ∀ problem ∈ (compile options bindings).table.problems, problem.isDuplicate = false := by
  intro clean
  have apart : turnedGuards.Pairwise Apart := by
    simp only [turnedGuards, List.pairwise_cons, List.mem_singleton, forall_eq]
    exact ⟨fun _ _ => by decide, by simp⟩
  have reported : ∃ problem ∈ (compile .default turnedGuards).table.problems,
      problem.isDuplicate = true := by decide +kernel
  obtain ⟨problem, present, duplicate⟩ := reported
  rw [clean .default turnedGuards (by decide) apart problem present] at duplicate
  cases duplicate

end Sequence

end Keymap
