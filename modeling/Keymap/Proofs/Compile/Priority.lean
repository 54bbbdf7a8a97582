import Keymap.Proofs.Binding.Account
import Keymap.Proofs.Binding.Precedence
import Keymap.Proofs.Compile.Concrete
import Keymap.Proofs.Number.Order
import Keymap.Proofs.Sequence.Steps
import Keymap.Proofs.Sorting

/-!
Priorities. Bindings reach their places by priority, and those of one priority in the order of the
document. So where no step claims a place, the last contender, which is the one of the highest
priority that is declared last, leaves its content there (`last_contender_wins`).
-/

set_option autoImplicit false

namespace Keymap

/-- Of a lower priority, or of the same and declared no later. -/
def Binding.UpTo (left right : Binding) : Prop :=
  left.priority.less right.priority = true ∨
    left.priority.equals right.priority = true ∧ left.index ≤ right.index

instance (left right : Binding) : Decidable (left.UpTo right) :=
  inferInstanceAs (Decidable (_ ∨ _))

/-- Bindings in ascending order of their priorities, and in the order of the document where these
are the same. -/
structure Binding.Ranked (bindings : List Binding) : Prop where
  numbers : ∀ binding ∈ bindings, binding.priority.isNaN = false
  ordered : bindings.Pairwise Binding.UpTo

namespace Binding

theorem upTo_self (binding : Binding) (number : binding.priority.isNaN = false) :
    binding.UpTo binding :=
  .inr ⟨(Number.equals_iff _ _ number number).mpr rfl, le_refl _⟩

theorem upTo_congr {left right source target : Binding}
    (leftPriority : left.priority = source.priority) (leftIndex : left.index = source.index)
    (rightPriority : right.priority = target.priority) (rightIndex : right.index = target.index)
    (upTo : source.UpTo target) : left.UpTo right := by
  unfold UpTo at upTo ⊢
  rw [leftPriority, rightPriority, leftIndex, rightIndex]
  exact upTo

/-- Pieces that keep the priority and the place of what they are cut from stay in order. -/
theorem Ranked.pieces {bindings : List Binding} (ranked : Ranked bindings)
    (cut : Binding → List Binding)
    (kept : ∀ binding ∈ bindings, ∀ piece ∈ cut binding,
      piece.priority = binding.priority ∧ piece.index = binding.index) :
    Ranked (bindings.flatMap cut) where
  numbers := by
    intro piece member
    obtain ⟨binding, given, made⟩ := List.mem_flatMap.mp member
    rw [(kept binding given piece made).1]
    exact ranked.numbers binding given
  ordered := by
    rw [List.pairwise_flatMap]
    constructor
    · intro binding given
      apply List.pairwise_of_forall_mem_list
      intro left leftMade right rightMade
      have first := kept binding given left leftMade
      have second := kept binding given right rightMade
      exact upTo_congr first.1 first.2 second.1 second.2
        (upTo_self binding (ranked.numbers binding given))
    · apply ranked.ordered.imp_of_mem
      intro source target sourceGiven targetGiven upTo left leftMade right rightMade
      have first := kept source sourceGiven left leftMade
      have second := kept target targetGiven right rightMade
      exact upTo_congr first.1 first.2 second.1 second.2 upTo

/-- The last of the chosen ones stands above them all. -/
theorem Ranked.upTo_last {bindings : List Binding} (ranked : Ranked bindings)
    (chosen : Binding → Bool) (last : Binding)
    (ends : (bindings.filter chosen).getLast? = some last) :
    ∀ binding ∈ bindings.filter chosen, binding.UpTo last := by
  have number := ranked.numbers last (List.mem_of_mem_filter (List.mem_of_getLast? ends))
  have ordered := ranked.ordered.sublist (List.filter_sublist (p := chosen))
  obtain ⟨front, split⟩ := List.getLast?_eq_some_iff.mp ends
  rw [split] at ordered ⊢
  intro binding member
  rcases List.mem_append.mp member with before | itself
  · exact (List.pairwise_append.mp ordered).2.2 binding before last (List.mem_singleton.mpr rfl)
  · rw [List.mem_singleton.mp itself]
    exact upTo_self last number

end Binding

namespace Sequence

/-- A claim that is no step stands for the binding it comes from. -/
theorem claim_rank (options : Options) (codes : PrefixCodes) (binding claim : Binding)
    (made : claim ∈ claimsOf options codes binding)
    (noStep : claim.runs options.stepCommand = false) :
    claim.priority = binding.priority ∧ claim.index = binding.index := by
  obtain ⟨_, before, key, after, _, rfl⟩ := (mem_claimsOf options codes binding claim).mp made
  by_cases last : after = []
  · rw [if_pos last]
    unfold lastClaim
    dsimp only
    split
    · exact ⟨rfl, rfl⟩
    · split <;> exact ⟨rfl, rfl⟩
  · rw [if_neg last] at noStep
    have steps := Conflict.automated_runs options _
      (stepClaim_automated options codes binding before key)
    exact absurd (steps.symm.trans noStep) nofun

end Sequence

namespace Compile

open Binding (Ranked)
open Conflict (claimsOn contenders)

variable (options : Options)

/-- In ascending order of the priorities, those of one priority as they were declared. -/
structure StableOrder (declared sorted : List Binding) : Prop where
  ascending : sorted.Pairwise fun left right => right.priority.less left.priority = false
  stable : ∀ amount : Number, amount.isNaN = false →
    (sorted.filter fun binding => binding.priority.equals amount) =
      declared.filter fun binding => binding.priority.equals amount

section Sorted

variable (bindings : List Binding)
  (numbers : ∀ binding ∈ bindings, binding.priority.isNaN = false)

include numbers

theorem byPriority_eq : byPriority bindings =
    Sorting.sort (Sorting.byRank fun binding : Binding => binding.priority.rank) bindings := by
  apply Sorting.sort_congr
  intro left leftIn right rightIn
  have less := Number.less_iff _ _ (numbers right rightIn) (numbers left leftIn)
  rw [Bool.eq_iff_iff, Bool.not_eq_true', ← Bool.not_eq_true, less, not_lt, Sorting.byRank,
    decide_eq_true_iff]

theorem byPriority_numbers : ∀ binding ∈ byPriority bindings, binding.priority.isNaN = false :=
  fun binding member => numbers binding ((Sorting.mem_sort _ _ _).mp member)

theorem byPriority_stableOrder : StableOrder bindings (byPriority bindings) where
  ascending := by
    have kept := byPriority_numbers bindings numbers
    have sorted := Sorting.sort_byRank (fun binding : Binding => binding.priority.rank) bindings
    rw [← byPriority_eq bindings numbers] at sorted
    apply sorted.imp_of_mem
    intro left right leftIn rightIn atMost
    rw [← Bool.not_eq_true, Number.less_iff _ _ (kept right rightIn) (kept left leftIn), not_lt]
    exact atMost
  stable := by
    intro amount number
    have classes : ∀ source : List Binding,
        (∀ binding ∈ source, binding.priority.isNaN = false) →
        (source.filter fun binding => binding.priority.equals amount) =
          source.filter fun binding => binding.priority.rank = amount.rank := by
      intro source are
      apply List.filter_congr
      intro binding member
      rw [Bool.eq_iff_iff, Number.equals_iff _ _ (are binding member) number, decide_eq_true_iff]
    rw [classes _ numbers, classes _ (byPriority_numbers bindings numbers),
      byPriority_eq bindings numbers]
    exact Sorting.filter_sort _ _ bindings

theorem byPriority_ranked
    (declared : bindings.Pairwise fun left right => left.index ≤ right.index) :
    Ranked (byPriority bindings) := by
  have kept := byPriority_numbers bindings numbers
  refine ⟨kept, ?_⟩
  have stable := Sorting.sort_stable (fun binding : Binding => binding.priority.rank) _ bindings
    declared
  rw [← byPriority_eq bindings numbers] at stable
  apply stable.imp_of_mem
  intro left right leftIn rightIn either
  rcases either with below | ⟨level, before⟩
  · exact .inl ((Number.less_iff _ _ (kept left leftIn) (kept right rightIn)).mpr below)
  · exact .inr ⟨(Number.equals_iff _ _ (kept left leftIn) (kept right rightIn)).mpr level, before⟩

end Sorted

theorem readEntries_declared (spec : Specification) (defaults : DefaultTable) (index : Nat)
    (values : List Value) (bindings : List Binding)
    (ended : (readEntries options spec defaults index values).result = .ok bindings) :
    bindings.Pairwise fun left right => left.index ≤ right.index := by
  induction values generalizing index bindings with
  | nil =>
    cases ended
    exact .nil
  | cons value rest ih =>
    obtain ⟨first, reading, ended⟩ := Noted.andThen_ok _ _ _ ended
    obtain ⟨others, readingRest, ended⟩ := Noted.andThen_ok _ _ _ ended
    cases ended
    have own : ∀ binding ∈ first, binding.index = index := fun binding member =>
      (readEntry_kept options spec defaults index value first reading binding member).1
    rw [List.pairwise_append]
    refine ⟨?_, ih (index + 1) others readingRest, ?_⟩
    · apply List.pairwise_of_forall_mem_list
      intro left leftIn right rightIn
      rw [own left leftIn, own right rightIn]
    · intro left leftIn right rightIn
      obtain ⟨⟨place, _, stands⟩, _⟩ := readEntries_kept options spec defaults (index + 1) rest
        others readingRest right rightIn
      rw [own left leftIn, stands]
      omega

theorem expandEntries_declared (spec : Specification) (bindings : List Binding)
    (ended : (expandEntries options spec).result = .ok bindings) :
    bindings.Pairwise fun left right => left.index ≤ right.index := by
  obtain ⟨_, _, ended⟩ := Noted.andThen_ok _ _ _ ended
  exact readEntries_declared options spec _ 0 _ bindings ended

theorem placed_ranked (modes : List Mode) (expanded : List Binding)
    (numbers : ∀ binding ∈ expanded, binding.priority.isNaN = false)
    (declared : expanded.Pairwise fun left right => left.index ≤ right.index) :
    Ranked (placed modes expanded) := by
  have split : Ranked (Sequence.splitAll (byPriority expanded)) := by
    apply (byPriority_ranked expanded numbers declared).pieces
    intro binding _ piece made
    rcases Sequence.mem_splitPrefixes binding piece made with ⟨rfl, _⟩ | ⟨lead, _, rfl⟩
    · exact ⟨rfl, rfl⟩
    · exact ⟨rfl, rfl⟩
  have copied : Ranked (ModeTable.expand modes (Sequence.splitAll (byPriority expanded))).2 := by
    rw [ModeTable.expand_eq]
    apply split.pieces
    intro binding _ copy made
    obtain ⟨implicit, mode, rfl, _⟩ := (ModeTable.mem_copies modes binding copy).mp made
    exact ⟨rfl, rfl⟩
  unfold placed Docs.merge
  rw [List.map_eq_flatMap]
  apply copied.pieces
  intro binding _ shared made
  rw [List.mem_singleton.mp made]
  exact ⟨rfl, rfl⟩

theorem claims_ranked (bindings : List Binding) (ranked : Ranked bindings)
    (place : Binding.Signature)
    (noSteps : ∀ claim ∈ claimsOn place (Sequence.claims options bindings),
      claim.runs options.stepCommand = false) :
    Ranked (claimsOn place (Sequence.claims options bindings)) := by
  have apart : claimsOn place (Sequence.claims options bindings) =
      bindings.flatMap fun binding => claimsOn place
        (Sequence.claimsOf options (Sequence.compile options bindings).codes binding) :=
    List.filter_flatMap
  rw [apart] at noSteps ⊢
  apply ranked.pieces
  intro binding given claim made
  exact Sequence.claim_rank options _ binding claim ((Conflict.mem_claimsOn _ _ _).mp made).1
    (noSteps claim (List.mem_flatMap.mpr ⟨binding, given, made⟩))

/-- No claim runs the command for steps. -/
def NoSteps (claims : List Binding) : Prop :=
  ∀ claim ∈ claims, claim.runs options.stepCommand = false

/-- What a place without steps is left with: the content of the last contender, and a key that is
only ignored where every claim ignores it. -/
structure Settles (claims : List Binding) (left? : Option Binding) : Prop where
  contended : ∀ last, (contenders options claims).getLast? = some last →
    ∃ held, left? = some held ∧ held.content = last.content
  ignored : ∀ held, left? = some held → held.onlyRuns options.ignoreCommand = true →
    ∀ claim ∈ claims, claim.onlyRuns options.ignoreCommand = true

theorem holder_settles (claims : List Binding) (noSteps : NoSteps options claims) :
    Settles options claims (Conflict.holder options claims) where
  contended := by
    intro last ends
    obtain ⟨held, holds, same⟩ := Conflict.holder_of_contenders options claims noSteps last ends
    exact ⟨held, holds, (Binding.content_eq_iff held last).mpr same⟩
  ignored := Conflict.holder_ignores options claims noSteps

/-- The claims with which the bindings of a document meet at a place. -/
def claimsAt (modes : List Mode) (expanded : List Binding) (place : Binding.Signature) :
    List Binding :=
  claimsOn place (Sequence.claims options (placed modes expanded))

/-- A compiled document has the content of a binding at its place. -/
def Has (result : CompileResult) (winner : Binding) : Prop :=
  ∃ held concrete, held.signature = winner.signature ∧ held.content = winner.content ∧
    concrete ∈ result.bindings ∧
    ConcreteBinding.ofBinding options result.codes held = .ok concrete

theorem has_of_last (spec : Specification) (result : CompileResult)
    (ended : (specification options spec).result = .ok result) (expanded : List Binding)
    (expanding : (expandEntries options spec).result = .ok expanded) (place : Binding.Signature)
    (noSteps : NoSteps options (claimsAt options result.modes expanded place)) (winner : Binding)
    (last : (contenders options (claimsAt options result.modes expanded place)).getLast? =
      some winner) : Has options result winner := by
  obtain ⟨source, expandingToo, _, codes, _, assembled⟩ :=
    specification_stages options spec result ended
  obtain rfl : expanded = source := Except.ok.inj (expanding.symm.trans expandingToo)
  obtain ⟨held, holds, same⟩ := (holder_settles options _ noSteps).contended winner last
  obtain ⟨stands, out⟩ := Sequence.compiled_of_holder options _ place held holds
  obtain ⟨concrete, among, making⟩ :=
    assembled_of_source options result.codes _ result.bindings assembled held out
  have claimed := List.mem_of_mem_filter (List.mem_of_getLast? last)
  have meets := ((Conflict.mem_claimsOn _ _ _).mp claimed).2
  exact ⟨held, concrete, stands.trans meets.symm, same, among, making⟩

theorem Has.runs {result : CompileResult} {winner : Binding} (has : Has options result winner)
    (name : String) (defined : name ≠ "undefined") (runs : winner.runs name = true) :
    ∃ concrete ∈ result.bindings, concrete.key = winner.key ∧
      concrete.commands.any (·.runs name) = true := by
  obtain ⟨held, concrete, stands, same, among, making⟩ := has
  obtain ⟨_, _, key, _, _, _, commands, _⟩ := ConcreteBinding.ofBinding_ok _ _ _ _ making
  have alike := (Binding.content_eq_iff held winner).mp same
  refine ⟨concrete, among, key.trans (congrArg Binding.Signature.key stands), ?_⟩
  rw [commands]
  exact alike.symm.runs name defined runs

/-- Where no step claims a place, the last contender added to a table leaves its content there,
whatever else comes in between. Bindings are added in the stable order of their priorities, so a
compiled document has the contender of the highest priority, the latest declared of these. -/
theorem last_contender_wins :
    (∀ (arrivals : List BindingTable.Arrival) (place : Binding.Signature),
      NoSteps options (claimsOn place (arrivals.map (·.binding))) →
        Settles options (claimsOn place (arrivals.map (·.binding)))
          (BindingTable.survivor? place (BindingTable.run options arrivals))) ∧
    ∀ (spec : Specification) (result : CompileResult) (expanded : List Binding),
      (specification options spec).result = .ok result →
      (expandEntries options spec).result = .ok expanded →
      (∀ binding ∈ expanded, binding.priority.isNaN = false) →
        StableOrder expanded (byPriority expanded) ∧
        ∀ place, NoSteps options (claimsAt options result.modes expanded place) →
          ∀ winner,
            (contenders options (claimsAt options result.modes expanded place)).getLast? =
              some winner →
            Has options result winner ∧
              ∀ claim ∈ contenders options (claimsAt options result.modes expanded place),
                claim.UpTo winner := by
  constructor
  · intro arrivals place noSteps
    rw [BindingTable.survivor?_run]
    exact holder_settles options _ noSteps
  · intro spec result expanded ended expanding numbers
    have declared := expandEntries_declared options spec expanded expanding
    refine ⟨byPriority_stableOrder expanded numbers, fun place noSteps winner last => ?_⟩
    refine ⟨has_of_last options spec result ended expanded expanding place noSteps winner last, ?_⟩
    have ranked := claims_ranked options _ (placed_ranked result.modes expanded numbers declared)
      place noSteps
    exact ranked.upTo_last (Conflict.contends options) winner last

/-- A document without modes. -/
def unmoded (entries : List Fields) : Specification where
  header := ⟨"2.0", none, none, []⟩
  bindings := entries.map .object
  modes := []
  kinds := []
  defaults := []
  definitions := []

theorem unmoded_read (entries : List Fields) :
    (Schema.readSpecification (plainDocument [] entries)).result = .ok (unmoded entries) := rfl

theorem unmoded_modes (entries : List Fields) (result : CompileResult)
    (ended : (specification options (unmoded entries)).result = .ok result) :
    result.modes = [Mode.implied, Mode.capture] := by
  obtain ⟨_, _, modes, _⟩ := specification_stages options _ result ended
  exact modes

/-- Two bindings of one key, another between them, and one that only ignores the key. -/
def contest (between : Number) : List Fields :=
  [[("key", .text "a"), ("command", .text "high"), ("priority", .number (.int 1))],
   [("key", .text "b"), ("command", .text "other"), ("priority", .number between)],
   [("key", .text "a"), ("command", .text "low"), ("priority", .number (.int 0))],
   [("key", .text "a"), ("command", .text "master-key.ignore"), ("priority", .number (.int 2))]]

/-- Where the entries of a contest meet. -/
def arena : Binding.Signature := ⟨"a", some "default", [], [""]⟩

theorem contest_won :
    ∃ result, (specification .default (unmoded (contest (.int 3)))).result = .ok result ∧
      ∃ binding ∈ result.bindings, binding.key = "a" ∧
        binding.commands.any (·.runs "high") = true := by
  obtain ⟨result, ended, _⟩ := ended_of_check
    (specification .default (unmoded (contest (.int 3)))).result (fun _ => true)
    (by decide +kernel)
  obtain ⟨expanded, expanding, found⟩ := ended_of_check
    (expandEntries .default (unmoded (contest (.int 3)))).result
    (fun expanded =>
      let claims := claimsAt .default [Mode.implied, Mode.capture] expanded arena
      expanded.all (fun binding => !binding.priority.isNaN) &&
        claims.all (fun claim => !claim.runs Options.default.stepCommand) &&
        (contenders .default claims).getLast?.any fun winner =>
          winner.key = "a" && winner.runs "high") (by decide +kernel)
  simp only [Bool.and_eq_true, List.all_eq_true, Bool.not_eq_true', Option.any_eq_true_iff_get,
    decide_eq_true_eq, ← unmoded_modes .default _ result ended] at found
  obtain ⟨⟨numbers, noSteps⟩, present, key, high⟩ := found
  obtain ⟨has, _⟩ := ((last_contender_wins .default).2 _ result expanded ended expanding
    numbers).2 arena noSteps _ (Option.some_get present).symm
  obtain ⟨binding, among, same, runs⟩ := has.runs .default "high" (by decide) high
  exact ⟨result, ended, binding, among, same.trans key, runs⟩

/-- With a priority that is no number, the binding of the highest priority can lose its place to
one of a lower priority. -/
theorem lower_priority_wins :
    ¬ ∀ (options : Options) (document : Value) (spec : Specification) (result : CompileResult)
        (expanded : List Binding),
      (Schema.readSpecification document).result = .ok spec →
      (specification options spec).result = .ok result →
      (expandEntries options spec).result = .ok expanded →
      ∀ place, NoSteps options (claimsAt options result.modes expanded place) →
        ∀ winner ∈ contenders options (claimsAt options result.modes expanded place),
          (∀ claim ∈ contenders options (claimsAt options result.modes expanded place),
            claim.UpTo winner) →
          Has options result winner := by
  intro wins
  let entries := contest (.float (Float.ofBits 0x7ff8000000000000))
  obtain ⟨result, ended, lost⟩ := ended_of_check (specification .default (unmoded entries)).result
    (fun result => result.bindings.all fun binding => !binding.commands.any (·.runs "high"))
    (by decide +kernel)
  obtain ⟨expanded, expanding, found⟩ := ended_of_check
    (expandEntries .default (unmoded entries)).result
    (fun expanded =>
      let claims := claimsAt .default [Mode.implied, Mode.capture] expanded arena
      claims.all (fun claim => !claim.runs Options.default.stepCommand) &&
        (contenders .default claims).any fun winner => winner.runs "high" &&
          (contenders .default claims).all fun claim => claim.UpTo winner) (by decide +kernel)
  simp only [Bool.and_eq_true, List.all_eq_true, List.any_eq_true, Bool.not_eq_true',
    decide_eq_true_eq, ← unmoded_modes .default _ result ended] at found
  obtain ⟨noSteps, winner, contends, high, highest⟩ := found
  have has := wins .default _ _ result expanded (unmoded_read entries) ended expanding arena
    noSteps winner contends highest
  obtain ⟨binding, among, _, runs⟩ := has.runs .default "high" (by decide) high
  have missing := List.all_eq_true.mp lost binding among
  rw [runs] at missing
  cases missing

end Compile

end Keymap
