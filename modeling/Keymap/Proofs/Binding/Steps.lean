import Keymap.Proofs.Binding.Conflict

/-!
What becomes of a step that claims a place. With every conflict settled, a place that an explicit
step claims holds a step in the end, unless an implicit declared step displaces the automated one
and an explicit binding for something else then displaces that.
-/

set_option autoImplicit false

namespace Keymap

theorem Options.stepCommand_ne_ignoreCommand (options : Options) :
    options.stepCommand ≠ options.ignoreCommand := by
  intro same
  have chars := congrArg String.toList same
  simp only [Options.stepCommand, Options.ignoreCommand, Options.command, String.toList_append]
    at chars
  have names := List.append_cancel_left chars
  revert names
  decide

theorem Options.command_ne_undefined (options : Options) (name : String) :
    options.command name ≠ "undefined" := by
  intro same
  have dotted : '.' ∈ (options.command name).toList := by simp [Options.command]
  rw [same] at dotted
  revert dotted
  decide

namespace Conflict

variable (options : Options)

theorem ignore_no_step (binding : Binding)
    (ignores : binding.onlyRuns options.ignoreCommand = true) :
    binding.runs options.stepCommand = false := by
  unfold Binding.onlyRuns at ignores
  split at ignores
  · next command single =>
    simp only [Binding.runs, single, List.any_cons, List.any_nil, Bool.or_false]
    simp only [Command.runs, beq_iff_eq, beq_eq_false_iff_ne] at ignores ⊢
    rw [ignores]
    intro same
    exact options.stepCommand_ne_ignoreCommand (Option.some.inj same).symm
  · cases ignores

theorem automated_runs (binding : Binding) (automated : isAutomatedStep options binding = true) :
    binding.runs options.stepCommand = true := by
  unfold isAutomatedStep at automated
  split at automated
  · next command single =>
    rw [Bool.and_eq_true] at automated
    simp [Binding.runs, single, automated.1]
  · cases automated

theorem manual_iff (binding : Binding) :
    isManualStep options binding = true ↔
      binding.runs options.stepCommand = true ∧ isAutomatedStep options binding = false := by
  simp [isManualStep]

/-- An explicit binding for something else than a step, and not only to ignore a key. -/
structure Plain (binding : Binding) : Prop where
  explicit : binding.implicit = false
  noStep : binding.runs options.stepCommand = false
  noIgnore : binding.onlyRuns options.ignoreCommand = false

section Same

variable {left right : Binding} (same : Binding.SameContent left right)

include same

theorem same_steps : left.runs options.stepCommand = right.runs options.stepCommand :=
  same.runs_eq _ (options.command_ne_undefined _)

theorem same_ignores :
    left.onlyRuns options.ignoreCommand = right.onlyRuns options.ignoreCommand :=
  same.onlyRuns_eq _ (options.command_ne_undefined _)

theorem same_plain (plain : Plain options right) : Plain options left where
  explicit := same.implicit.trans plain.explicit
  noStep := (same_steps options same).trans plain.noStep
  noIgnore := (same_ignores options same).trans plain.noIgnore

end Same

section Claims

variable (claims : List Binding) (settled : ∀ new, ¬ Unsettled options claims new)

include settled

/-- A plain binding that claims a place keeps everything but plain bindings from it. -/
theorem plain_holds (first : Binding) (among : first ∈ claims) (plain : Plain options first) :
    ∃ held, holder options claims = some held ∧ Plain options held := by
  apply holder_invariant options (Plain options) claims first among settled plain
  · intro existing _ decided
    apply outcome_cases options (Plain options) existing first decided
    case identical => exact fun same => same_plain options same plain
    case newIgnores => exact fun ignores => absurd (ignores.symm.trans plain.noIgnore) nofun
    case oldIgnores => exact fun _ => plain
    case declared => exact fun _ _ => plain
    case kept =>
      intro automated _
      exact absurd ((automated_runs options first automated).symm.trans plain.noStep) nofun
    case fallsBack => exact fun implicit => absurd (implicit.symm.trans plain.explicit) nofun
    case fellBack => exact fun _ _ _ => plain
  · intro existing _ new _ decided holds
    apply outcome_cases options (Plain options) existing new decided
    case identical => exact fun _ => holds
    case newIgnores => exact fun _ => holds
    case oldIgnores => exact fun ignores => absurd (ignores.symm.trans holds.noIgnore) nofun
    case declared =>
      intro automated _
      exact absurd ((automated_runs options existing automated).symm.trans holds.noStep) nofun
    case kept => exact fun _ _ => holds
    case fallsBack => exact fun _ => holds
    case fellBack => exact fun implicit => absurd (implicit.symm.trans holds.explicit) nofun

/-- What the declared steps on a place share with one explicit step stays true of its holder once
that step has come, as long as bindings from other modes give way to such bindings only. -/
theorem step_invariant (good : Binding → Prop) (first : Binding) (among : first ∈ claims)
    (explicit : first.implicit = false) (itself : good first)
    (steps : ∀ binding, good binding → binding.runs options.stepCommand = true)
    (alike : ∀ left right, Binding.SameContent left right → good right → good left)
    (declared : ∀ claim ∈ claims, isManualStep options claim = true → good claim)
    (fellBack : ∀ existing ∈ claims, good existing → existing.implicit = true → ∀ new ∈ claims,
      new.implicit = false → new.onlyRuns options.ignoreCommand = false → good new) :
    ∃ held, holder options claims = some held ∧ good held := by
  have noIgnore : ∀ binding, good binding → binding.onlyRuns options.ignoreCommand ≠ true := by
    intro binding holds ignores
    exact absurd ((ignore_no_step options binding ignores).symm.trans (steps binding holds)) nofun
  apply holder_invariant options good claims first among settled itself
  · intro existing given decided
    apply outcome_cases options good existing first decided
    case identical => exact fun same => alike existing first same itself
    case newIgnores => exact fun ignores => absurd ignores (noIgnore first itself)
    case oldIgnores => exact fun _ => itself
    case declared => exact fun _ _ => itself
    case kept => exact fun _ manual => declared existing given manual
    case fallsBack => exact fun implicit => absurd (implicit.symm.trans explicit) nofun
    case fellBack => exact fun _ _ _ => itself
  · intro existing given new newGiven decided holds
    apply outcome_cases options good existing new decided
    case identical => exact fun _ => holds
    case newIgnores => exact fun _ => holds
    case oldIgnores => exact fun ignores => absurd ignores (noIgnore existing holds)
    case declared => exact fun _ manual => declared new newGiven manual
    case kept => exact fun _ _ => holds
    case fallsBack => exact fun _ => holds
    case fellBack => exact fun implicit => fellBack existing given holds implicit new newGiven

/-- Without plain bindings a step keeps everything but steps from its place. -/
theorem step_holds (first : Binding) (among : first ∈ claims) (explicit : first.implicit = false)
    (automated : isAutomatedStep options first = true)
    (noPlain : ∀ claim ∈ claims, ¬ Plain options claim) :
    ∃ held, holder options claims = some held ∧ held.runs options.stepCommand = true := by
  apply step_invariant options claims settled _ first among explicit
  case itself => exact automated_runs options first automated
  case steps => exact fun _ runs => runs
  case alike => exact fun left right same runs => (same_steps options same).trans runs
  case declared => exact fun claim _ manual => ((manual_iff options claim).mp manual).1
  case fellBack =>
    intro _ _ _ _ new given newExplicit noIgnore
    by_contra noStep
    exact noPlain new given ⟨newExplicit, Bool.not_eq_true _ ▸ noStep, noIgnore⟩

/-- Without implicit declared steps an explicit step keeps everything but such steps from its
place. -/
theorem explicit_step_holds (first : Binding) (among : first ∈ claims)
    (explicit : first.implicit = false) (automated : isAutomatedStep options first = true)
    (noManual : ∀ claim ∈ claims, isManualStep options claim = true → claim.implicit = false) :
    ∃ held, holder options claims = some held ∧ held.runs options.stepCommand = true := by
  let good (binding : Binding) : Prop :=
    binding.runs options.stepCommand = true ∧ binding.implicit = false
  have invariant : ∃ held, holder options claims = some held ∧ good held := by
    apply step_invariant options claims settled good first among explicit
    case itself => exact ⟨automated_runs options first automated, explicit⟩
    case steps => exact fun _ holds => holds.1
    case alike =>
      intro left right same holds
      exact ⟨(same_steps options same).trans holds.1, same.implicit.trans holds.2⟩
    case declared =>
      intro claim given manual
      exact ⟨((manual_iff options claim).mp manual).1, noManual claim given manual⟩
    case fellBack =>
      exact fun existing _ holds implicit => absurd (implicit.symm.trans holds.2) nofun
  obtain ⟨held, holds, runs, _⟩ := invariant
  exact ⟨held, holds, runs⟩

/-- A place that an explicit automated step claims is lost to another binding exactly when both an
implicit declared step and a plain binding claim it too. -/
theorem step_kept_iff (first : Binding) (among : first ∈ claims)
    (explicit : first.implicit = false) (automated : isAutomatedStep options first = true) :
    (∃ held, holder options claims = some held ∧ held.runs options.stepCommand = true) ↔
      ¬ ((∃ manual ∈ claims, isManualStep options manual = true ∧ manual.implicit = true) ∧
        ∃ plain ∈ claims, Plain options plain) := by
  constructor
  · rintro ⟨held, holds, steps⟩ ⟨_, plain, given, isPlain⟩
    obtain ⟨other, otherHolds, otherPlain⟩ := plain_holds options claims settled plain given isPlain
    obtain rfl : held = other := Option.some.inj (holds.symm.trans otherHolds)
    exact absurd (steps.symm.trans otherPlain.noStep) nofun
  · intro notBoth
    by_cases declared : ∃ manual ∈ claims,
        isManualStep options manual = true ∧ manual.implicit = true
    · have noPlain : ∀ claim ∈ claims, ¬ Plain options claim := fun claim given plain =>
        notBoth ⟨declared, claim, given, plain⟩
      exact step_holds options claims settled first among explicit automated noPlain
    · have noManual : ∀ claim ∈ claims,
          isManualStep options claim = true → claim.implicit = false := by
        intro claim given manual
        by_contra implicit
        exact declared ⟨claim, given, manual, by simpa using implicit⟩
      exact explicit_step_holds options claims settled first among explicit automated noManual

theorem steps_alike (steps : ∀ claim ∈ claims, isAutomatedStep options claim = true ∧
      claim.implicit = false) (claim : Binding) (among : claim ∈ claims) :
    ∃ held, holder options claims = some held ∧ Binding.SameContent held claim := by
  have runs := automated_runs options claim (steps claim among).1
  apply step_invariant options claims settled (Binding.SameContent · claim) claim among
    (steps claim among).2
  case itself => exact Binding.SameContent.refl claim
  case steps => exact fun binding same => (same_steps options same).trans runs
  case alike => exact fun left right same alike => same.trans alike
  case declared =>
    intro other given manual
    have automated := ((manual_iff options other).mp manual).2
    exact absurd (automated.symm.trans (steps other given).1) nofun
  case fellBack =>
    intro existing given _ implicit
    exact absurd (implicit.symm.trans (steps existing given).2) nofun

end Claims

theorem decided_of_sameContent (existing new : Binding)
    (same : Binding.SameContent existing new) : (decide options existing new).2 ≠ none := by
  rw [decide_eq, if_pos ((Binding.content_eq_iff existing new).mpr same)]
  exact nofun

theorem settled_of_agreement (claims : List Binding)
    (agree : claims.Pairwise fun earlier later =>
      earlier.signature = later.signature → Binding.SameContent earlier later)
    (place : Binding.Signature) (new : Binding) :
    ¬ Unsettled options (claimsOn place claims) new := by
  rintro ⟨front, back, existing, split, held, undecided⟩
  have here : ∀ claim ∈ claimsOn place claims, claim.signature = place := fun claim member =>
    ((mem_claimsOn place claims claim).mp member).2
  have onPlace : (claimsOn place claims).Pairwise fun earlier later =>
      earlier.signature = later.signature → Binding.SameContent earlier later := agree.filter _
  rw [split] at onPlace
  have meeting := List.pairwise_append.mp onPlace
  have earlier := holder_claims options front existing held
  have same := meeting.2.2 existing earlier new (.head _) (by
    rw [here existing (split ▸ List.mem_append_left _ earlier),
      here new (split ▸ List.mem_append_right _ (.head _))])
  exact decided_of_sameContent options existing new same undecided

end Conflict

end Keymap
