import Keymap.Proofs.Sequence.Duplicates
import Keymap.Proofs.Mode.Table

/-!
The claims that copies of bindings make in another mode are copies of the claims that the bindings
make, place by place.
-/

set_option autoImplicit false

namespace Keymap

namespace Sequence

open Conflict (claimsOn)
open ModeTable (place)

variable (options : Options) (codes : PrefixCodes)

theorem stepClaims_place (binding : Binding) (implicit : Bool) (mode lead : String)
    (keys : List String) :
    stepClaims options codes (place binding implicit mode) lead keys =
      (stepClaims options codes binding lead keys).map (place · implicit mode) := by
  induction keys generalizing lead with
  | nil => rfl
  | cons key rest ih =>
    rw [stepClaims, stepClaims, List.map_cons, ih]
    rfl

theorem lastClaim_place (binding : Binding) (implicit : Bool) (mode : String)
    (before : List String) (key : String) :
    lastClaim options codes (place binding implicit mode) before key =
      place (lastClaim options codes binding before key) implicit mode := by
  unfold lastClaim
  have steps : (place binding implicit mode).runs options.stepCommand =
      binding.runs options.stepCommand := rfl
  rw [steps]
  by_cases declared : binding.runs options.stepCommand = true
  · simp only [declared, if_true]
    rfl
  · simp only [declared]
    by_cases first : before = []
    · simp only [first, if_true]
      rfl
    · simp only [first, if_false]
      rfl

theorem claimsOf_place (binding : Binding) (implicit : Bool) (mode : String) :
    claimsOf options codes (place binding implicit mode) =
      (claimsOf options codes binding).map (place · implicit mode) := by
  have sequence : sequenceOf (place binding implicit mode) = sequenceOf binding := rfl
  by_cases skipped : Skipped options binding
  · rw [claimsOf_skipped options codes _ skipped, claimsOf_skipped options codes
      (place binding implicit mode) skipped]
    rfl
  rcases List.eq_nil_or_concat (sequenceOf binding) with blank | ⟨before, key, split⟩
  · rw [claimsOf_blank options codes _ blank, claimsOf_blank options codes
      (place binding implicit mode) (sequence.trans blank)]
    rfl
  · rw [List.concat_eq_append] at split
    rw [claimsOf_sequence options codes _ skipped before key split,
      claimsOf_sequence options codes (place binding implicit mode) skipped before key
        (sequence.trans split), List.map_append, stepClaims_place, lastClaim_place]
    rfl

theorem claim_modes (binding claim : Binding) (made : claim ∈ claimsOf options codes binding) :
    claim.modes = binding.modes ∧ claim.implicit = binding.implicit := by
  obtain ⟨_, before, key, after, _, rfl⟩ := (mem_claimsOf options codes binding claim).mp made
  refine ⟨?_, (claim_placeOf options codes binding _ before key after rfl).2⟩
  split
  · unfold lastClaim
    split
    · rfl
    · split <;> rfl
  · rfl

theorem claimsOn_in_mode (bindings : List Binding) (mode : String) (where_ : Binding.Signature)
    (here : where_.mode = some mode) :
    claimsOn where_ (bindings.flatMap (claimsOf options codes)) =
      claimsOn where_ ((bindings.filter fun binding => binding.mode? = some mode).flatMap
        (claimsOf options codes)) := by
  induction bindings with
  | nil => rfl
  | cons binding rest ih =>
    have split : ∀ front back : List Binding,
        claimsOn where_ (front ++ back) = claimsOn where_ front ++ claimsOn where_ back :=
      fun _ _ => List.filter_append ..
    rw [List.flatMap_cons, split, ih, List.filter_cons]
    by_cases same : binding.mode? = some mode
    · rw [if_pos (by simpa using same), List.flatMap_cons, split]
    · rw [if_neg (by simpa using same)]
      have apart : claimsOn where_ (claimsOf options codes binding) = [] := by
        apply List.filter_eq_nil_iff.mpr
        intro claim made
        have modes := (claim_modes options codes binding claim made).1
        simp only [decide_eq_true_eq]
        rintro rfl
        rw [Binding.signature, Binding.mode?, modes] at here
        exact same here
      rw [apart, List.nil_append]

theorem claimsOn_place (bindings : List Binding) (root mode : String) (implicit : Bool)
    (each : ∀ binding ∈ bindings, binding.mode? = some root) (where_ : Binding.Signature) :
    claimsOn { where_ with mode := some mode }
        ((bindings.map (place · implicit mode)).flatMap (claimsOf options codes)) =
      (claimsOn { where_ with mode := some root }
        (bindings.flatMap (claimsOf options codes))).map (place · implicit mode) := by
  have copied : (bindings.map (place · implicit mode)).flatMap (claimsOf options codes) =
      (bindings.flatMap (claimsOf options codes)).map (place · implicit mode) := by
    rw [List.flatMap_map, List.map_flatMap]
    simp only [claimsOf_place]
  rw [copied, claimsOn, List.filter_map, claimsOn]
  congr 1
  apply List.filter_congr
  intro claim member
  obtain ⟨binding, given, made⟩ := List.mem_flatMap.mp member
  have modes := (claim_modes options codes binding claim made).1
  have here : claim.mode? = some root := by
    rw [Binding.mode?, modes]
    exact each binding given
  obtain ⟨key, _, guards, prefixes⟩ := where_
  simp [Binding.signature, place, Binding.mode?] at here ⊢
  simp [here]

end Sequence

end Keymap
