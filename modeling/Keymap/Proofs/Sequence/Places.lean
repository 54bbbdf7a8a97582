import Keymap.Proofs.Sequence.Claims

/-!
The places that come out of a compilation: those of every key of every sequence that goes in, each
once.
-/

set_option autoImplicit false

namespace Keymap

/-- What an entry with a key and a command declares in one mode, unless it says more. -/
def Binding.declared (key command : String) (index : Int) : Binding where
  key := key
  commands := [Command.named command]
  index := index
  guards := []
  modes := some ["normal"]
  implicit := false
  prefixes := [""]
  priority := .int 0
  finalKey := true
  repeatCount := .null
  docs := []

namespace Sequence

open Text (wordsOf joined IsNormal)

/-- What holds of every binding that reaches the compiler: one prefix at most, and a prefix and a
key that are written with single blanks. -/
structure WellFormed (binding : Binding) : Prop where
  atMostOne : binding.prefixes.length ≤ 1
  prefixNormal : ∀ lead ∈ binding.prefixes, IsNormal lead
  keyNormal : IsNormal binding.key
  keyed : binding.key ≠ ""

/-- The place of one key of a sequence: after the keys before it, in the mode and under the guards
of the binding. A key all by itself stays where its binding puts it, unless it is a step. -/
def keyPlace (options : Options) (binding : Binding) (before : List String) (key : String)
    (after : List String) : Binding.Signature :=
  if before = [] ∧ after = [] ∧ binding.runs options.stepCommand = false then
    { binding.signature with key := key }
  else placeOf binding before key

theorem key_of_single (binding : Binding) (formed : WellFormed binding) (key : String)
    (single : sequenceOf binding = [key]) : binding.key = key := by
  have own : wordsOf binding.key ≠ [] := by
    intro blank
    have normal := formed.keyNormal
    rw [IsNormal, blank] at normal
    exact formed.keyed normal.symm
  have alone : wordsOf binding.key = [key] := by
    rcases List.append_eq_singleton_iff.mp single with ⟨_, words⟩ | ⟨_, blank⟩
    · exact words
    · exact absurd blank own
  have normal := formed.keyNormal
  rw [IsNormal, alone] at normal
  exact normal.symm

theorem claim_place (options : Options) (codes : PrefixCodes) (binding : Binding)
    (formed : WellFormed binding) (before : List String) (key : String) (after : List String)
    (split : sequenceOf binding = before ++ key :: after) :
    (if after = [] then lastClaim options codes binding before key
      else stepClaim options codes binding before key).signature =
      keyPlace options binding before key after := by
  by_cases last : after = []
  · subst last
    rw [if_pos rfl, lastClaim_signature]
    by_cases alone : before = [] ∧ binding.runs options.stepCommand = false
    · obtain ⟨rfl, plain⟩ := alone
      have same := key_of_single binding formed key (by simpa using split)
      rw [if_pos ⟨rfl, plain⟩, keyPlace, if_pos ⟨rfl, rfl, plain⟩, ← same]
      rfl
    · rw [if_neg alone, keyPlace, if_neg fun single => alone ⟨single.1, single.2.2⟩]
  · rw [if_neg last, stepClaim_signature, keyPlace, if_neg fun single => last single.2.1]

theorem compiled_places_iff (options : Options) (bindings : List Binding)
    (formed : ∀ binding ∈ bindings, WellFormed binding) (place : Binding.Signature) :
    place ∈ (compile options bindings).table.bindings.map (·.signature) ↔
      ∃ binding ∈ bindings, ¬ Skipped options binding ∧ ∃ before key after,
        sequenceOf binding = before ++ key :: after ∧
        place = keyPlace options binding before key after := by
  rw [compiled_signatures]
  constructor
  · intro member
    obtain ⟨claim, among, rfl⟩ := List.mem_map.mp member
    obtain ⟨binding, given, made⟩ := (mem_claims options bindings claim).mp among
    obtain ⟨taken, before, key, after, split, rfl⟩ := (mem_claimsOf options _ binding claim).mp made
    exact ⟨binding, given, taken, before, key, after, split,
      claim_place options _ binding (formed binding given) before key after split⟩
  · rintro ⟨binding, given, taken, before, key, after, split, rfl⟩
    rw [← claim_place options (compile options bindings).codes binding (formed binding given)
      before key after split]
    apply List.mem_map_of_mem
    exact (mem_claims options bindings _).mpr
      ⟨binding, given, (mem_claimsOf options _ binding _).mpr
        ⟨taken, before, key, after, split, rfl⟩⟩

end Sequence

end Keymap
