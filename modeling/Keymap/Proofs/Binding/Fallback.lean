import Keymap.Proofs.Binding.Conflict
import Keymap.Mode.Table

/-!
Claims on a place in a mode that falls back to another. The rules that do not ask how a binding
came into its mode judge copies as they judge what was copied; on a tie they leave, the earlier of
two copies stays, while of two explicit bindings the later takes the place.
-/

set_option autoImplicit false

namespace Keymap

namespace Conflict

open ModeTable (place)

variable (options : Options)

/-- What the rules say that do not ask how a binding came into its mode. -/
def ruling (existing new : Binding) : Option Action :=
  [Rule.identical, .ignoreLoses, .manualStepWins].findSome? (Rule.decide options existing new)

/-- Who holds the place after a claim if a tie goes one way. -/
def contend (tie : Action) (holder : Option Binding) (new : Binding) : Option Binding :=
  match holder with
  | none => some new
  | some existing => some (((ruling options existing new).getD tie).pick existing new)

/-- Who holds the place after all claims if every tie goes one way. -/
def survivor (tie : Action) (claims : List Binding) : Option Binding :=
  claims.foldl (contend options tie) none

theorem survivor_concat (tie : Action) (claims : List Binding) (new : Binding) :
    survivor options tie (claims ++ [new]) =
      contend options tie (survivor options tie claims) new := by
  simp [survivor]

theorem contend_is_some (tie : Action) (current : Option Binding) (new : Binding) :
    ∃ held, contend options tie current new = some held ∧ (held = new ∨ some held = current) := by
  cases current with
  | none => exact ⟨new, rfl, .inl rfl⟩
  | some existing =>
    simp only [contend]
    cases (ruling options existing new).getD tie with
    | keep => exact ⟨existing, rfl, .inr rfl⟩
    | replace => exact ⟨new, rfl, .inl rfl⟩

theorem survivor_claims (tie : Action) (claims : List Binding) (held : Binding)
    (survives : survivor options tie claims = some held) : held ∈ claims := by
  induction claims using List.reverseRecOn generalizing held with
  | nil => simp [survivor] at survives
  | append_singleton front last ih =>
    obtain ⟨winner, wins, source⟩ :=
      contend_is_some options tie (survivor options tie front) last
    rw [survivor_concat, wins, Option.some.injEq] at survives
    subst survives
    rcases source with rfl | before
    · simp
    · exact List.mem_append_left _ (ih winner before.symm)

theorem decide_ruling (existing new : Binding) (origin : Option Action)
    (last : Rule.explicitModeWins.decide options existing new = origin) :
    (decide options existing new).1 = ((ruling options existing new).or origin).getD .replace ∧
      ((decide options existing new).2 = none ↔
        ruling options existing new = none ∧ origin = none) := by
  obtain ⟨opinion, same⟩ : ∃ opinion, Rule.decide options existing new = opinion := ⟨_, rfl⟩
  rw [decide_opinions options existing new opinion same, ruling, same]
  rw [same] at last
  cases first : opinion .identical <;> cases second : opinion .ignoreLoses <;>
    cases third : opinion .manualStepWins <;> cases origin <;>
    simp [first, second, third, last]

/-- Of explicit bindings on a tie the later takes the place, and the tie is unsettled. -/
theorem decide_explicit (existing new : Binding) (oldExplicit : existing.implicit = false)
    (newExplicit : new.implicit = false) :
    (decide options existing new).1 = (ruling options existing new).getD .replace ∧
      ((decide options existing new).2 = none ↔ ruling options existing new = none) := by
  have last : Rule.explicitModeWins.decide options existing new = none := by
    simp [Rule.decide, oldExplicit, newExplicit]
  simpa using decide_ruling options existing new none last

theorem decide_implicit (existing new : Binding) (fallsBack : new.implicit = true) :
    (decide options existing new).1 = (ruling options existing new).getD .keep := by
  have last : Rule.explicitModeWins.decide options existing new = some .keep := by
    simp [Rule.decide, fallsBack]
  rw [(decide_ruling options existing new _ last).1]
  cases ruling options existing new <;> rfl

theorem content_place (existing new : Binding) (implicit : Bool) (mode : String)
    (modes : existing.modes = new.modes) (origin : existing.implicit = new.implicit) :
    (place existing implicit mode).content = (place new implicit mode).content ↔
      existing.content = new.content := by
  rw [Binding.content_eq_iff, Binding.content_eq_iff]
  constructor
  · intro same
    exact { same with modes := modes, implicit := origin }
  · intro same
    exact { same with modes := rfl, implicit := rfl }

theorem ruling_place (existing new : Binding) (implicit : Bool) (mode : String)
    (modes : existing.modes = new.modes) (origin : existing.implicit = new.implicit) :
    ruling options (place existing implicit mode) (place new implicit mode) =
      ruling options existing new := by
  have identical : Rule.identical.decide options (place existing implicit mode)
      (place new implicit mode) = Rule.identical.decide options existing new := by
    simp only [Rule.decide, content_place existing new implicit mode modes origin]
  have ignores : Rule.ignoreLoses.decide options (place existing implicit mode)
      (place new implicit mode) = Rule.ignoreLoses.decide options existing new := rfl
  have steps : Rule.manualStepWins.decide options (place existing implicit mode)
      (place new implicit mode) = Rule.manualStepWins.decide options existing new := rfl
  simp only [ruling, List.findSome?_cons, List.findSome?_nil, identical, ignores, steps]

section Explicit

variable (claims : List Binding) (explicit : ∀ claim ∈ claims, claim.implicit = false)

include explicit

theorem holder_explicit : holder options claims = survivor options .replace claims := by
  induction claims using List.reverseRecOn with
  | nil => simp [holder, survivor]
  | append_singleton front last ih =>
    have before := ih fun claim member => explicit claim (List.mem_append_left _ member)
    rw [holder_concat, survivor_concat, before]
    cases held : survivor options .replace front with
    | none => rfl
    | some existing =>
      have earlier := survivor_claims options .replace front existing held
      have action := (decide_explicit options existing last
        (explicit existing (List.mem_append_left _ earlier)) (explicit last (by simp))).1
      simp only [claim, contend, action]

/-- Where nothing is left unsettled no tie comes up. -/
theorem survivor_settled (settled : ∀ new, ¬ Unsettled options claims new) :
    survivor options .keep claims = survivor options .replace claims := by
  induction claims using List.reverseRecOn with
  | nil => simp [survivor]
  | append_singleton front last ih =>
    have each : ∀ claim ∈ front, claim.implicit = false := fun claim member =>
      explicit claim (List.mem_append_left _ member)
    have before := ih each fun new unsettled =>
      settled new ((unsettled_concat options front last new).mpr (.inl unsettled))
    rw [survivor_concat, survivor_concat, before]
    cases held : survivor options .replace front with
    | none => rfl
    | some existing =>
      have earlier := survivor_claims options .replace front existing held
      -- A tie with the holder would leave the last claim unsettled.
      have decided : ruling options existing last ≠ none := by
        intro tie
        apply settled last
        refine (unsettled_concat options front last last).mpr (.inr ⟨rfl, existing, ?_, ?_⟩)
        · rw [holder_explicit options front each, held]
        · exact (decide_explicit options existing last (each existing earlier)
            (explicit last (by simp))).2.mpr tie
      obtain ⟨action, ruled⟩ := Option.ne_none_iff_exists'.mp decided
      simp only [contend, ruled, Option.getD_some]

end Explicit

theorem holder_copies (claims : List Binding) (root mode : String)
    (here : ∀ claim ∈ claims, claim.modes = some [root] ∧ claim.implicit = false) :
    holder options (claims.map (place · true mode)) =
      (survivor options .keep claims).map (place · true mode) := by
  -- Both folds decide alike claim by claim: on a tie the copy keeps, and so does the survivor.
  induction claims using List.reverseRecOn with
  | nil => simp [holder, survivor]
  | append_singleton front last ih =>
    have before := ih fun claim member => here claim (List.mem_append_left _ member)
    rw [List.map_append, List.map_singleton, holder_concat, survivor_concat, before]
    cases held : survivor options .keep front with
    | none => rfl
    | some existing =>
      have earlier := here existing
        (List.mem_append_left _ (survivor_claims options .keep front existing held))
      have latest := here last (by simp)
      have action : (decide options (place existing true mode) (place last true mode)).1 =
          (ruling options existing last).getD .keep := by
        rw [decide_implicit options _ _ rfl, ruling_place options existing last true mode
          (earlier.1.trans latest.1.symm) (earlier.2.trans latest.2.symm)]
      simp only [Option.map_some, claim, contend, action]
      cases (ruling options existing last).getD .keep <;> rfl

end Conflict

end Keymap
