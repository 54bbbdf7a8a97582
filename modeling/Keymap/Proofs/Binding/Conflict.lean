import Keymap.Proofs.Binding.Content
import Mathlib.Data.List.Induction
import Mathlib.Tactic.SplitIfs

/-!
Bindings that claim one place, one after another. The holder of a place is what the rules leave of
all its claims in the order in which they came; a claim is unsettled when no rule decides between
it and the holder that it meets.
-/

set_option autoImplicit false

namespace Keymap

namespace Conflict

def Action.pick (existing new : Binding) : Action → Binding
  | .keep => existing
  | .replace => new

variable (options : Options)

/-- Who holds the place after a claim. -/
def claim (holder : Option Binding) (new : Binding) : Option Binding :=
  match holder with
  | none => some new
  | some existing => some ((decide options existing new).1.pick existing new)

/-- Who holds the place after all claims. -/
def holder (claims : List Binding) : Option Binding := claims.foldl (claim options) none

/-- No rule decides between a claim and the holder that it meets. -/
def Unsettled (claims : List Binding) (new : Binding) : Prop :=
  ∃ front back existing, claims = front ++ new :: back ∧
    holder options front = some existing ∧ (decide options existing new).2 = none

def claimsOn (place : Binding.Signature) (bindings : List Binding) : List Binding :=
  bindings.filter fun binding => binding.signature = place

theorem holder_concat (claims : List Binding) (new : Binding) :
    holder options (claims ++ [new]) = claim options (holder options claims) new := by
  simp [holder]

theorem claim_of_free (new : Binding) : claim options none new = some new := rfl

theorem claim_of_keep (existing new : Binding) (kept : (decide options existing new).1 = .keep) :
    claim options (some existing) new = some existing := by
  simp only [claim, kept, Action.pick]

theorem claim_of_replace (existing new : Binding)
    (replaced : (decide options existing new).1 = .replace) :
    claim options (some existing) new = some new := by
  simp only [claim, replaced, Action.pick]

theorem claim_is_some (current : Option Binding) (new : Binding) :
    ∃ held, claim options current new = some held ∧ (held = new ∨ some held = current) := by
  cases current with
  | none => exact ⟨new, claim_of_free options new, .inl rfl⟩
  | some existing =>
    cases action : (decide options existing new).1 with
    | keep => exact ⟨existing, claim_of_keep options existing new action, .inr rfl⟩
    | replace => exact ⟨new, claim_of_replace options existing new action, .inl rfl⟩

theorem holder_claims (claims : List Binding) (held : Binding)
    (holds : holder options claims = some held) : held ∈ claims := by
  induction claims using List.reverseRecOn generalizing held with
  | nil => simp [holder] at holds
  | append_singleton front last ih =>
    obtain ⟨winner, wins, source⟩ := claim_is_some options (holder options front) last
    rw [holder_concat, wins, Option.some.injEq] at holds
    subst holds
    rcases source with rfl | before
    · simp
    · exact List.mem_append_left _ (ih winner before.symm)

theorem holder_of_claim (claims : List Binding) (binding : Binding) (claimed : binding ∈ claims) :
    ∃ held, holder options claims = some held := by
  rcases List.eq_nil_or_concat claims with rfl | ⟨front, last, rfl⟩
  · simp at claimed
  · obtain ⟨held, holds, _⟩ := claim_is_some options (holder options front) last
    exact ⟨held, by rw [List.concat_eq_append, holder_concat, holds]⟩

theorem unsettled_concat (claims : List Binding) (last new : Binding) :
    Unsettled options (claims ++ [last]) new ↔
      Unsettled options claims new ∨
        new = last ∧ ∃ existing, holder options claims = some existing ∧
          (decide options existing last).2 = none := by
  constructor
  · rintro ⟨front, back, existing, split, holds, undecided⟩
    rcases List.eq_nil_or_concat back with rfl | ⟨others, other, rfl⟩
    · obtain ⟨rfl, same⟩ := List.append_inj' split rfl
      obtain rfl : last = new := by simpa using same
      exact .inr ⟨rfl, existing, holds, undecided⟩
    · rw [List.concat_eq_append, ← List.cons_append, ← List.append_assoc] at split
      obtain ⟨rfl, _⟩ := List.append_inj' split rfl
      exact .inl ⟨front, others, existing, rfl, holds, undecided⟩
  · rintro (⟨front, back, existing, rfl, holds, undecided⟩ | ⟨rfl, existing, holds, undecided⟩)
    · exact ⟨front, back ++ [last], existing, by simp, holds, undecided⟩
    · exact ⟨claims, [], existing, rfl, holds, undecided⟩

theorem decide_opinions (existing new : Binding) (opinion : Rule → Option Action)
    (same : Rule.decide options existing new = opinion) :
    decide options existing new =
      match opinion .identical with
      | some action => (action, some .identical)
      | none => match opinion .ignoreLoses with
        | some action => (action, some .ignoreLoses)
        | none => match opinion .manualStepWins with
          | some action => (action, some .manualStepWins)
          | none => match opinion .explicitModeWins with
            | some action => (action, some .explicitModeWins)
            | none => (.replace, none) := by
  unfold decide
  rw [same]
  cases first : opinion .identical <;> cases second : opinion .ignoreLoses <;>
    cases third : opinion .manualStepWins <;> cases last : opinion .explicitModeWins <;>
    simp [rules, first, second, third, last]

/-- The rules in their order, as one decision. -/
theorem decide_eq (existing new : Binding) :
    decide options existing new =
      if existing.content = new.content then (.keep, some .identical)
      else if new.onlyRuns options.ignoreCommand then (.keep, some .ignoreLoses)
      else if existing.onlyRuns options.ignoreCommand then (.replace, some .ignoreLoses)
      else if isAutomatedStep options existing && isManualStep options new then
        (.replace, some .manualStepWins)
      else if isAutomatedStep options new && isManualStep options existing then
        (.keep, some .manualStepWins)
      else if new.implicit then (.keep, some .explicitModeWins)
      else if existing.implicit then (.replace, some .explicitModeWins)
      else (.replace, none) := by
  rw [decide_opinions options existing new _ rfl]
  -- The contents stay closed: the cases do not ask how they are written.
  have alike : Rule.identical.decide options existing new =
      if existing.content = new.content then some .keep else none := rfl
  rw [alike]
  generalize existing.content = left
  generalize new.content = right
  simp only [Rule.decide]
  split_ifs <;> rfl

/-- Who holds a place that was held when a claim came. -/
@[irreducible] def outcome (existing new : Binding) : Binding := (decide options existing new).1.pick existing new

/-- To show something of the holder after a conflict that a rule settles, there is a case for each
way in which a rule settles it. -/
theorem outcome_cases (good : Binding → Prop) (existing new : Binding)
    (settled : (decide options existing new).2 ≠ none)
    (identical : Binding.SameContent existing new → good existing)
    (newIgnores : new.onlyRuns options.ignoreCommand = true → good existing)
    (oldIgnores : existing.onlyRuns options.ignoreCommand = true → good new)
    (declared : isAutomatedStep options existing = true → isManualStep options new = true → good new)
    (kept : isAutomatedStep options new = true → isManualStep options existing = true →
      good existing)
    (fallsBack : new.implicit = true → good existing)
    (fellBack : existing.implicit = true → new.implicit = false →
      new.onlyRuns options.ignoreCommand = false → good new) :
    good (outcome options existing new) := by
  unfold outcome
  rw [decide_eq] at settled ⊢
  split_ifs at settled ⊢ with alike ignoresNew ignoresOld replaced stays implicit earlier
  · exact identical ((Binding.content_eq_iff _ _).mp alike)
  · exact newIgnores ignoresNew
  · exact oldIgnores ignoresOld
  · rw [Bool.and_eq_true] at replaced
    exact declared replaced.1 replaced.2
  · rw [Bool.and_eq_true] at stays
    exact kept stays.1 stays.2
  · exact fallsBack implicit
  · rw [Bool.not_eq_true] at implicit ignoresNew
    exact fellBack earlier implicit ignoresNew
  · exact absurd rfl settled

theorem holder_concat_held (claims : List Binding) (existing new : Binding)
    (held : holder options claims = some existing) :
    holder options (claims ++ [new]) = some (outcome options existing new) := by
  rw [holder_concat, held]
  unfold outcome
  rfl

/-- What holds of the holder once a certain claim has come, and which no later claim undoes, holds
in the end. -/
theorem holder_invariant (good : Binding → Prop) (claims : List Binding) (first : Binding)
    (among : first ∈ claims) (settled : ∀ new, ¬ Unsettled options claims new)
    (itself : good first)
    (arrives : ∀ existing ∈ claims, (decide options existing first).2 ≠ none →
      good (outcome options existing first))
    (stays : ∀ existing ∈ claims, ∀ new ∈ claims, (decide options existing new).2 ≠ none →
      good existing → good (outcome options existing new)) :
    ∃ held, holder options claims = some held ∧ good held := by
  induction claims using List.reverseRecOn with
  | nil => cases among
  | append_singleton front last ih =>
    have before : ∀ new, ¬ Unsettled options front new := fun new unsettled =>
      settled new ((unsettled_concat options front last new).mpr (.inl unsettled))
    have met : ∀ existing, holder options front = some existing →
        (decide options existing last).2 ≠ none := fun existing held undecided =>
      settled last ((unsettled_concat options front last last).mpr
        (.inr ⟨rfl, existing, held, undecided⟩))
    -- Either `first` came before and the last claim met a good holder, or it is the last claim itself.
    rcases List.mem_append.mp among with earlier | now
    · obtain ⟨existing, held, holds⟩ := ih earlier before
        (fun existing member => arrives existing (List.mem_append_left _ member))
        (fun existing member new newMember =>
          stays existing (List.mem_append_left _ member) new (List.mem_append_left _ newMember))
      have member := holder_claims options front existing held
      exact ⟨_, holder_concat_held options front existing last held,
        stays existing (List.mem_append_left _ member) last (by simp) (met existing held) holds⟩
    · obtain rfl : first = last := by simpa using now
      cases held : holder options front with
      | none => exact ⟨first, by rw [holder_concat, held, claim_of_free], itself⟩
      | some existing =>
        have member := holder_claims options front existing held
        exact ⟨_, holder_concat_held options front existing first held,
          arrives existing (List.mem_append_left _ member) (met existing held)⟩

theorem mem_claimsOn (place : Binding.Signature) (bindings : List Binding) (binding : Binding) :
    binding ∈ claimsOn place bindings ↔ binding ∈ bindings ∧ binding.signature = place := by
  simp [claimsOn]

end Conflict

end Keymap
