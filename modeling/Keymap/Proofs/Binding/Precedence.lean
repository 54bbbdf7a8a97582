import Keymap.Proofs.Binding.Steps

/-!
Who wins a place that no step claims. Bindings from other modes and bindings that only ignore a key
are no contenders: whatever of them comes before, between or after, the last contender leaves its
content in the place (`holder_of_contenders`), and only where every claim ignores the key is the
key ignored (`holder_ignores`).
-/

set_option autoImplicit false

namespace Keymap

namespace Conflict

variable (options : Options)

/-- Explicit, and not only there to ignore a key. -/
def contends (binding : Binding) : Bool :=
  !binding.implicit && !binding.onlyRuns options.ignoreCommand

def contenders (claims : List Binding) : List Binding := claims.filter (contends options)

theorem contends_iff (binding : Binding) :
    contends options binding = true ↔
      binding.implicit = false ∧ binding.onlyRuns options.ignoreCommand = false := by
  simp [contends]

theorem contenders_concat (claims : List Binding) (new : Binding) :
    contenders options (claims ++ [new]) =
      contenders options claims ++ if contends options new then [new] else [] := by
  rw [contenders, List.filter_append, List.filter_singleton, Bool.cond_eq_ite, contenders]

theorem no_step_no_automated (binding : Binding)
    (noStep : binding.runs options.stepCommand = false) :
    isAutomatedStep options binding = false := by
  cases automated : isAutomatedStep options binding with
  | false => rfl
  | true => exact absurd ((automated_runs options binding automated).symm.trans noStep) nofun

/-- Without steps three rules are left: the same content stays, a binding that only ignores a key
gives way, and so does one from another mode. -/
theorem outcome_without_steps (existing new : Binding)
    (oldStep : existing.runs options.stepCommand = false)
    (newStep : new.runs options.stepCommand = false) :
    outcome options existing new =
      if existing.content = new.content then existing
      else if new.onlyRuns options.ignoreCommand then existing
      else if existing.onlyRuns options.ignoreCommand then new
      else if new.implicit then existing
      else new := by
  have oldPlain := no_step_no_automated options existing oldStep
  have newPlain := no_step_no_automated options new newStep
  unfold outcome
  rw [decide_eq, oldPlain, newPlain, Bool.false_and, Bool.false_and,
    if_neg Bool.false_ne_true, if_neg Bool.false_ne_true]
  split_ifs <;> rfl

section Claims

variable (claims : List Binding)
  (noSteps : ∀ claim ∈ claims, claim.runs options.stepCommand = false)

include noSteps

theorem holder_of_contenders (last : Binding)
    (ends : (contenders options claims).getLast? = some last) :
    ∃ held, holder options claims = some held ∧ Binding.SameContent held last := by
  induction claims using List.reverseRecOn with
  | nil => cases ends
  | append_singleton front new ih =>
    have before := fun claim member => noSteps claim (List.mem_append_left [new] member)
    have newStep := noSteps new (List.mem_append_right front List.mem_cons_self)
    rw [contenders_concat] at ends
    cases counts : contends options new with
    | true =>
      have itself := (contends_iff options new).mp counts
      rw [counts, if_pos rfl, List.getLast?_concat, Option.some.injEq] at ends
      subst ends
      cases met : holder options front with
      | none =>
        refine ⟨new, ?_, Binding.SameContent.refl new⟩
        rw [holder_concat, met, claim_of_free]
      | some existing =>
        have oldStep := before existing (holder_claims options front existing met)
        refine ⟨_, holder_concat_held options front existing new met, ?_⟩
        rw [outcome_without_steps options existing new oldStep newStep, itself.1, itself.2]
        split
        · next alike => exact (Binding.content_eq_iff existing new).mp alike
        · simp only [Bool.false_eq_true, if_false, ite_self]
          exact Binding.SameContent.refl new
    | false =>
      rw [counts, if_neg (by simp), List.append_nil] at ends
      obtain ⟨existing, met, same⟩ := ih before ends
      have oldStep := before existing (holder_claims options front existing met)
      -- The holder looks like a contender, so nothing but a contender replaces it.
      have contender := (contends_iff options last).mp
        (List.mem_filter.mp (List.mem_of_getLast? ends)).2
      have shown := (same_ignores options same).trans contender.2
      refine ⟨_, holder_concat_held options front existing new met, ?_⟩
      rw [outcome_without_steps options existing new oldStep newStep, shown]
      split
      · exact same
      · split
        · exact same
        · next ignores =>
          have implicit : new.implicit = true := by simpa [contends, ignores] using counts
          rw [implicit]
          exact same

theorem holder_ignores (held : Binding) (holds : holder options claims = some held)
    (ignores : held.onlyRuns options.ignoreCommand = true) :
    ∀ claim ∈ claims, claim.onlyRuns options.ignoreCommand = true := by
  induction claims using List.reverseRecOn generalizing held with
  | nil => cases holds
  | append_singleton front new ih =>
    have before := fun claim member => noSteps claim (List.mem_append_left [new] member)
    have newStep := noSteps new (List.mem_append_right front List.mem_cons_self)
    have both : (∀ claim ∈ front, claim.onlyRuns options.ignoreCommand = true) ∧
        new.onlyRuns options.ignoreCommand = true := by
      cases met : holder options front with
      | none =>
        rw [holder_concat, met, claim_of_free, Option.some.injEq] at holds
        subst holds
        refine ⟨?_, ignores⟩
        intro claim member
        obtain ⟨other, taken⟩ := holder_of_claim options front claim member
        rw [met] at taken
        cases taken
      | some existing =>
        have oldStep := before existing (holder_claims options front existing met)
        rw [holder_concat_held options front existing new met, Option.some.injEq,
          outcome_without_steps options existing new oldStep newStep] at holds
        split_ifs at holds with alike ignoresNew ignoresOld implicit
        · subst holds
          have same := (Binding.content_eq_iff existing new).mp alike
          exact ⟨ih before existing met ignores, (same_ignores options same).symm.trans ignores⟩
        · subst holds
          exact ⟨ih before existing met ignores, ignoresNew⟩
        · subst holds
          exact absurd ignores ignoresNew
        · subst holds
          exact absurd ignores ignoresOld
        · subst holds
          exact absurd ignores ignoresNew
    intro claim member
    rcases List.mem_append.mp member with earlier | now
    · exact both.1 claim earlier
    · rw [List.mem_singleton.mp now]
      exact both.2

end Claims

end Conflict

end Keymap
