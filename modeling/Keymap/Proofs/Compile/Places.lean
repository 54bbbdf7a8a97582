import Keymap.Proofs.Compile.Stages
import Keymap.Proofs.Mode.Table
import Keymap.Proofs.Sequence.Places

/-!
The places of a compiled document. Two bindings for one key in one mode never ask for the same
guards after the same code.
-/

set_option autoImplicit false

namespace Keymap

namespace ConcreteBinding

/-- The editor cannot tell two bindings apart: one key, one mode, one code, and guards with the
same ids, however often and in whatever order. -/
structure SamePlace (left right : ConcreteBinding) : Prop where
  key : left.key = right.key
  mode : left.mode = right.mode
  guards : (left.guards.map (·.id)).Perm (right.guards.map (·.id))
  code : left.prefixCode = right.prefixCode

theorem codesOf_of_atMostOne (codes : CodeTable) (prefixes : List String)
    (required : List (Nat × String)) (atMostOne : prefixes.length ≤ 1)
    (found : codesOf codes prefixes = .ok required) :
    (prefixes = [] ∧ required = []) ∨
      ∃ lead code, prefixes = [lead] ∧ codes.codeOf? lead = some code ∧ required = [(code, lead)] := by
  match prefixes with
  | [] =>
    cases found
    exact .inl ⟨rfl, rfl⟩
  | [lead] =>
    simp only [codesOf] at found
    split at found
    · cases found
    · next code known =>
      cases found
      exact .inr ⟨lead, code, rfl, known, rfl⟩
  | _ :: _ :: _ => simp at atMostOne

theorem prefixes_of_code (codes : PrefixCodes) (left right : List String)
    (leftCodes rightCodes : List (Nat × String)) (leftOne : left.length ≤ 1)
    (rightOne : right.length ≤ 1) (leftFound : codesOf codes.freeze left = .ok leftCodes)
    (rightFound : codesOf codes.freeze right = .ok rightCodes)
    (same : leftCodes.head?.map (·.1) = rightCodes.head?.map (·.1)) :
    left = right ∧ leftCodes = rightCodes := by
  rcases codesOf_of_atMostOne _ _ _ leftOne leftFound with
    ⟨leftNone, rfl⟩ | ⟨lead, first, leftLead, leftKnown, rfl⟩ <;>
  rcases codesOf_of_atMostOne _ _ _ rightOne rightFound with
    ⟨rightNone, rfl⟩ | ⟨other, second, rightLead, rightKnown, rfl⟩
  · exact ⟨leftNone.trans rightNone.symm, rfl⟩
  · cases same
  · cases same
  · obtain rfl : first = second := Option.some.inj same
    obtain rfl := codes.codeOf_injective lead other first leftKnown rightKnown
    exact ⟨leftLead.trans rightLead.symm, rfl⟩

/-- The guards that a binding gets beside its own: one for its mode, one for the typed keys. -/
def addedGuards (options : Options) (mode : Option String) (required : List (Nat × String)) :
    List Guard :=
  (mode.map (modeGuard options)).toList ++
    if required.isEmpty then [] else [codeGuard options (required.map (·.1))]

theorem ofBinding_ok (options : Options) (codes : CodeTable) (binding : Binding)
    (concrete : ConcreteBinding) (made : ofBinding options codes binding = .ok concrete) :
    ∃ required, codesOf codes binding.prefixes = .ok required ∧
      concrete.key = binding.key ∧ concrete.mode = binding.mode? ∧
      concrete.prefixCode = required.head?.map (·.1) ∧
      concrete.guards = binding.guards ++ addedGuards options binding.mode? required ∧
      concrete.commands = binding.commands ∧ concrete.finalKey = binding.finalKey ∧
      concrete.repeatCount = binding.repeatCount := by
  obtain ⟨required, found, ended⟩ := bind_ok _ _ _ made
  cases ended
  exact ⟨required, found, rfl, rfl, rfl, List.append_assoc _ _ _, rfl, rfl, rfl⟩

/-- Bindings that the editor cannot tell apart come from one place. -/
theorem signature_of_samePlace (options : Options) (codes : PrefixCodes) (left right : Binding)
    (leftMade rightMade : ConcreteBinding)
    (leftOne : left.prefixes.length ≤ 1) (rightOne : right.prefixes.length ≤ 1)
    (makeLeft : ofBinding options codes.freeze left = .ok leftMade)
    (makeRight : ofBinding options codes.freeze right = .ok rightMade)
    (same : SamePlace leftMade rightMade) : left.signature = right.signature := by
  obtain ⟨leftCodes, leftFound, leftKey, leftMode, leftCode, leftGuards, _⟩ :=
    ofBinding_ok _ _ _ _ makeLeft
  obtain ⟨rightCodes, rightFound, rightKey, rightMode, rightCode, rightGuards, _⟩ :=
    ofBinding_ok _ _ _ _ makeRight
  have key : left.key = right.key := leftKey.symm.trans (same.key.trans rightKey)
  have mode : left.mode? = right.mode? := leftMode.symm.trans (same.mode.trans rightMode)
  have code : leftCodes.head?.map (·.1) = rightCodes.head?.map (·.1) :=
    leftCode.symm.trans (same.code.trans rightCode)
  have leads := prefixes_of_code codes left.prefixes right.prefixes leftCodes rightCodes leftOne
    rightOne leftFound rightFound code
  have guards := same.guards
  rw [leftGuards, rightGuards, mode, leads.2, List.map_append, List.map_append,
    List.perm_append_right_iff, ← Sorting.sortTexts_eq_iff] at guards
  simp only [Binding.signature, key, mode, guards, leads.1]

end ConcreteBinding

namespace Sequence

/-- A binding is split into copies that ask for one of its prefixes each, unless it asks for at
most one. -/
theorem mem_splitPrefixes (source binding : Binding) (made : binding ∈ splitPrefixes source) :
    (binding = source ∧ source.prefixes.length ≤ 1) ∨
      ∃ lead ∈ source.prefixes, binding = { source with prefixes := [lead] } := by
  unfold splitPrefixes at made
  split at made
  · next leadless =>
    exact .inl ⟨List.mem_singleton.mp made, leadless ▸ Nat.zero_le 1⟩
  · next lead one =>
    exact .inl ⟨List.mem_singleton.mp made, one ▸ Nat.le_refl 1⟩
  · obtain ⟨lead, given, rfl⟩ := List.mem_map.mp made
    exact .inr ⟨lead, given, rfl⟩

theorem splitAll_atMostOne (bindings : List Binding) (binding : Binding)
    (member : binding ∈ splitAll bindings) : binding.prefixes.length ≤ 1 := by
  obtain ⟨source, _, made⟩ := List.mem_flatMap.mp member
  rcases mem_splitPrefixes source binding made with ⟨rfl, few⟩ | ⟨lead, _, rfl⟩
  · exact few
  · exact Nat.le_refl 1

theorem compiled_atMostOne (options : Options) (bindings : List Binding)
    (atMostOne : ∀ binding ∈ bindings, binding.prefixes.length ≤ 1) (binding : Binding)
    (member : binding ∈ (compile options bindings).table.bindings) :
    binding.prefixes.length ≤ 1 := by
  have claim := compiled_is_claim options bindings binding member
  obtain ⟨source, given, made⟩ := (mem_claims options bindings binding).mp claim
  obtain ⟨_, before, key, after, _, shape⟩ := (mem_claimsOf options _ source binding).mp made
  have prefixes : binding.prefixes = [Text.joined " " before] ∨
      binding.prefixes = source.prefixes := by
    have signature := congrArg Binding.Signature.prefixes (congrArg Binding.signature shape)
    split at signature
    · rw [lastClaim_signature] at signature
      split at signature
      · exact .inr signature
      · exact .inl signature
    · exact .inl signature
  rcases prefixes with one | own
  · simp [one]
  · rw [own]
    exact atMostOne source given

end Sequence

namespace Compile

theorem placed_atMostOne (modes : List Mode) (expanded : List Binding) (binding : Binding)
    (member : binding ∈ placed modes expanded) : binding.prefixes.length ≤ 1 := by
  obtain ⟨copy, copied, rfl⟩ := List.mem_map.mp member
  obtain ⟨source, given, made⟩ := (ModeTable.mem_expand modes _ copy).mp copied
  obtain ⟨_, _, rfl, _⟩ := (ModeTable.mem_copies modes source copy).mp made
  exact Sequence.splitAll_atMostOne _ source given

theorem assembled_apart (options : Options) (codes : PrefixCodes) (bindings : List Binding)
    (concrete : List ConcreteBinding)
    (atMostOne : ∀ binding ∈ bindings, binding.prefixes.length ≤ 1)
    (distinct : (bindings.map (·.signature)).Nodup)
    (assembled : assemble options codes.freeze bindings = .ok concrete) :
    concrete.Pairwise fun left right => ¬ ConcreteBinding.SamePlace left right := by
  induction bindings generalizing concrete with
  | nil =>
    cases assembled
    exact .nil
  | cons binding rest ih =>
    obtain ⟨first, others, making, assembling, rfl⟩ := assemble_cons _ _ _ _ _ assembled
    rw [List.map_cons, List.nodup_cons] at distinct
    refine .cons ?_ (ih others (fun other given => atMostOne other (.tail _ given)) distinct.2
      assembling)
    intro other among same
    obtain ⟨source, given, makingOther⟩ := source_of_assembled _ _ _ _ assembling other among
    apply distinct.1
    rw [ConcreteBinding.signature_of_samePlace options codes binding source first other
      (atMostOne binding (.head _)) (atMostOne source (.tail _ given)) making makingOther same]
    exact List.mem_map_of_mem given

theorem document_places_apart (options : Options) (document : Value) (compiled : Compiled)
    (ended : Compile.document options document = .ok compiled) :
    compiled.result.bindings.Pairwise fun left right => ¬ ConcreteBinding.SamePlace left right := by
  obtain ⟨_, spec, result, _, _, compiling, made⟩ :=
    document_sections options document compiled ended
  obtain ⟨expanded, _, _, codes, _, assembled⟩ :=
    specification_stages options spec result compiling
  rw [codes] at assembled
  rw [made]
  exact assembled_apart options _ _ _
    (Sequence.compiled_atMostOne options _ (placed_atMostOne result.modes expanded))
    (Sequence.compiled_distinct options _) assembled

/-- One binding comes out for the place of each key of each sequence and no other, and in a
compiled document no two bindings stand in one place. -/
theorem places_of_keys (options : Options) (bindings : List Binding)
    (formed : ∀ binding ∈ bindings, Sequence.WellFormed binding) :
    ((Sequence.compile options bindings).table.bindings.map (·.signature)).Nodup ∧
    (∀ place, place ∈ (Sequence.compile options bindings).table.bindings.map (·.signature) ↔
      ∃ binding ∈ bindings, ¬ Sequence.Skipped options binding ∧ ∃ before key after,
        Sequence.sequenceOf binding = before ++ key :: after ∧
        place = Sequence.keyPlace options binding before key after) ∧
    ∀ document compiled, Compile.document options document = .ok compiled →
      compiled.result.bindings.Pairwise fun left right =>
        ¬ ConcreteBinding.SamePlace left right :=
  ⟨Sequence.compiled_distinct options bindings,
    Sequence.compiled_places_iff options bindings formed,
    document_places_apart options⟩

theorem places_of_shared_step :
    ((Sequence.compile .default
        [.declared "g d" "first" 0, .declared "g r" "second" 1]).table.bindings.map
      (·.signature)).Nodup ∧
    (∃ place ∈ (Sequence.compile .default
        [.declared "g d" "first" 0, .declared "g r" "second" 1]).table.bindings.map
      (·.signature), place.key = "g" ∧ place.prefixes = [""]) ∧
    ∃ compiled, Compile.document .default (plainDocument []
        [[("key", .text "g d"), ("command", .text "first")],
         [("key", .text "g r"), ("command", .text "second")]]) = .ok compiled ∧
      compiled.result.bindings.length = 3 ∧
      compiled.result.bindings.Pairwise fun left right =>
        ¬ ConcreteBinding.SamePlace left right := by
  have formed : ∀ binding ∈ [Binding.declared "g d" "first" 0, .declared "g r" "second" 1],
      Sequence.WellFormed binding := by
    intro binding member
    simp only [List.mem_cons, List.not_mem_nil, or_false] at member
    rcases member with rfl | rfl <;> exact ⟨by decide, by decide, by decide, by decide⟩
  obtain ⟨distinct, places, apart⟩ := places_of_keys .default _ formed
  refine ⟨distinct, ⟨_, (places _).mpr ⟨_, .head _, by decide, [], "g", ["d"], by decide, rfl⟩,
    by decide, by decide⟩, ?_⟩
  obtain ⟨compiled, ended, three⟩ := ended_of_check (Compile.document .default (plainDocument []
      [[("key", .text "g d"), ("command", .text "first")],
       [("key", .text "g r"), ("command", .text "second")]]))
    (fun compiled => compiled.result.bindings.length = 3) (by decide +kernel)
  exact ⟨compiled, ended, by simpa using three, apart _ compiled ended⟩

end Compile

end Keymap
