import Keymap.Proofs.Binding.Docs
import Keymap.Proofs.Binding.Fallback
import Keymap.Proofs.Compile.Places
import Keymap.Proofs.Schema.Specification
import Keymap.Proofs.Sequence.Copies

/-!
A mode that has all its bindings from a mode it falls back to. It mirrors that mode where no two
bindings tie there: on a tie the copies keep the earlier binding, and the mode itself the later.
-/

set_option autoImplicit false

namespace Keymap

/-- What a binding does in its place. -/
structure Effect where
  commands : List Command
  finalKey : Bool
  repeatCount : Value

def Binding.effect (binding : Binding) : Effect :=
  ⟨binding.commands, binding.finalKey, binding.repeatCount⟩

namespace ConcreteBinding

def effect (binding : ConcreteBinding) : Effect :=
  ⟨binding.commands, binding.finalKey, binding.repeatCount⟩

/-- The guards before those for the mode and for the typed keys. -/
def userGuards (binding : ConcreteBinding) : List Guard :=
  binding.guards.take
    (binding.guards.length - binding.mode.toList.length - binding.prefixCode.toList.length)

theorem addedGuards_length (options : Options) (mode : Option String)
    (required : List (Nat × String)) :
    (addedGuards options mode required).length =
      mode.toList.length + (required.head?.map (·.1)).toList.length := by
  cases mode <;> cases required <;> rfl

theorem userGuards_ofBinding (options : Options) (codes : CodeTable) (binding : Binding)
    (concrete : ConcreteBinding) (made : ofBinding options codes binding = .ok concrete) :
    concrete.userGuards = binding.guards ∧ concrete.effect = binding.effect := by
  obtain ⟨required, _, _, mode, code, guards, commands, finalKey, repeatCount⟩ :=
    ofBinding_ok options codes binding concrete made
  constructor
  · have added := addedGuards_length options binding.mode? required
    have own : (binding.guards ++ addedGuards options binding.mode? required).length -
        binding.mode?.toList.length - (required.head?.map (·.1)).toList.length =
          binding.guards.length := by
      rw [List.length_append]
      omega
    rw [userGuards, mode, code, guards, own, List.take_left]
  · rw [effect, commands, finalKey, repeatCount, Binding.effect]

end ConcreteBinding

namespace Compile

open Conflict (claimsOn holder survivor)

/-- A mode has a binding for a key after a code and under some guards, and this is what it does. -/
def Shows (bindings : List ConcreteBinding) (mode key : String) (code : Option Nat)
    (guards : List String) (effect : Effect) : Prop :=
  ∃ binding ∈ bindings, binding.mode = some mode ∧ binding.key = key ∧
    binding.prefixCode = code ∧ (binding.userGuards.map (·.id)).Perm guards ∧
    binding.effect = effect

/-- Two modes do the same for each key after each code and under the same guards, or neither has
a binding there. -/
def Mirrors (bindings : List ConcreteBinding) (mode root : String) : Prop :=
  ∀ key code guards effect,
    Shows bindings mode key code guards effect ↔ Shows bindings root key code guards effect

/-- The code that an editor asks for before a key. -/
def AsksFor (codes : CodeTable) (prefixes : List String) (code : Option Nat) : Prop :=
  ∃ required, ConcreteBinding.codesOf codes prefixes = .ok required ∧
    required.head?.map (·.1) = code

section Assembled

variable (options : Options) (bindings : List Binding) (concrete : List ConcreteBinding)
  (assembled : assemble options (Sequence.compile options bindings).codes.freeze
    (Sequence.compile options bindings).table.bindings = .ok concrete)

include assembled

/-- What a mode shows is what the holders of its places do. -/
theorem shows_iff (mode key : String) (code : Option Nat) (guards : List String)
    (effect : Effect) :
    Shows concrete mode key code guards effect ↔
      ∃ prefixes held, AsksFor (Sequence.compile options bindings).codes.freeze prefixes code ∧
        holder options (claimsOn ⟨key, some mode, Sorting.sortTexts guards, prefixes⟩
          (Sequence.claims options bindings)) = some held ∧ held.effect = effect := by
  constructor
  · rintro ⟨made, among, here, rfl, rfl, same, rfl⟩
    obtain ⟨binding, given, making⟩ := source_of_assembled _ _ _ _ assembled made among
    obtain ⟨own, does⟩ := ConcreteBinding.userGuards_ofBinding _ _ _ _ making
    obtain ⟨required, found, sameKey, sameMode, sameCode, _⟩ :=
      ConcreteBinding.ofBinding_ok _ _ _ _ making
    refine ⟨binding.prefixes, binding, ⟨required, found, sameCode.symm⟩, ?_, does.symm⟩
    have place : binding.signature = ⟨made.key, some mode, Sorting.sortTexts guards,
        binding.prefixes⟩ := by
      rw [own, ← Sorting.sortTexts_eq_iff] at same
      rw [Binding.signature, ← sameKey, ← sameMode, here, same]
    rw [← place]
    exact (Sequence.compiled_iff_holds options bindings binding).mp given
  · rintro ⟨prefixes, held, ⟨required, found, rfl⟩, holds, rfl⟩
    have place := ((Conflict.mem_claimsOn _ _ _).mp
      (Conflict.holder_claims options _ held holds)).2
    rw [← place] at holds
    have out := (Sequence.compiled_iff_holds options bindings held).mpr holds
    obtain ⟨made, among, making⟩ := assembled_of_source _ _ _ _ assembled held out
    obtain ⟨own, does⟩ := ConcreteBinding.userGuards_ofBinding _ _ _ _ making
    obtain ⟨others, known, sameKey, sameMode, sameCode, _⟩ :=
      ConcreteBinding.ofBinding_ok _ _ _ _ making
    obtain rfl : held.prefixes = prefixes := congrArg Binding.Signature.prefixes place
    obtain rfl : others = required := Except.ok.inj (known.symm.trans found)
    refine ⟨made, among, sameMode.trans (congrArg Binding.Signature.mode place),
      sameKey.trans (congrArg Binding.Signature.key place), sameCode, ?_, does⟩
    rw [own, ← Sorting.sortTexts_eq_iff]
    exact congrArg Binding.Signature.guards place

section Places

variable (atMostOne : ∀ binding ∈ bindings, binding.prefixes.length ≤ 1)

include atMostOne

theorem held_of_shows (mode key : String) (code : Option Nat) (guards prefixes : List String)
    (effect : Effect) (few : prefixes.length ≤ 1)
    (asks : AsksFor (Sequence.compile options bindings).codes.freeze prefixes code)
    (shown : Shows concrete mode key code guards effect) :
    (holder options (claimsOn ⟨key, some mode, Sorting.sortTexts guards, prefixes⟩
      (Sequence.claims options bindings))).map Binding.effect = some effect := by
  obtain ⟨others, held, ⟨required, found, rfl⟩, holds, rfl⟩ :=
    (shows_iff options bindings concrete assembled mode key code guards effect).mp shown
  obtain ⟨known, foundToo, same⟩ := asks
  obtain ⟨stands, out⟩ := Sequence.compiled_of_holder options bindings _ held holds
  obtain rfl : held.prefixes = others := congrArg Binding.Signature.prefixes stands
  have heldFew := Sequence.compiled_atMostOne options bindings atMostOne held out
  obtain ⟨rfl, _⟩ :=
    ConcreteBinding.prefixes_of_code _ _ _ _ _ few heldFew foundToo found same
  rw [holds, Option.map_some]

theorem effect_of_shows (mode root : String)
    (mirrors : ∀ key code guards effect, Shows concrete mode key code guards effect →
      Shows concrete root key code guards effect)
    (place : Binding.Signature) (effect : Effect)
    (does : (holder options (claimsOn { place with mode := some mode }
      (Sequence.claims options bindings))).map Binding.effect = some effect) :
    (holder options (claimsOn { place with mode := some root }
      (Sequence.claims options bindings))).map Binding.effect = some effect := by
  obtain ⟨held, holds, rfl⟩ := Option.map_eq_some_iff.mp does
  obtain ⟨stands, out⟩ := Sequence.compiled_of_holder options bindings _ held holds
  obtain ⟨made, _, making⟩ := assembled_of_source _ _ _ _ assembled held out
  obtain ⟨required, found, _⟩ := ConcreteBinding.ofBinding_ok _ _ _ _ making
  obtain ⟨key, _, guards, prefixes⟩ := place
  obtain rfl : held.prefixes = prefixes := congrArg Binding.Signature.prefixes stands
  obtain rfl : Sorting.sortTexts (held.guards.map (·.id)) = guards :=
    congrArg Binding.Signature.guards stands
  have few := Sequence.compiled_atMostOne options bindings atMostOne held out
  -- The code names the prefix, so what the other mode shows is at the same place.
  refine held_of_shows options bindings concrete assembled atMostOne root key _ _ held.prefixes
    held.effect few ⟨required, found, rfl⟩ ?_
  refine mirrors _ _ _ _ ((shows_iff options bindings concrete assembled _ _ _ _ _).mpr ?_)
  exact ⟨held.prefixes, held, ⟨required, found, rfl⟩, holds, rfl⟩

/-- One mode mirrors another if the holders of their places do the same, and only then. -/
theorem mirrors_iff (mode root : String) :
    Mirrors concrete mode root ↔ ∀ place : Binding.Signature,
      (holder options (claimsOn { place with mode := some mode }
        (Sequence.claims options bindings))).map Binding.effect =
      (holder options (claimsOn { place with mode := some root }
        (Sequence.claims options bindings))).map Binding.effect := by
  constructor
  · intro mirrors place
    ext effect
    constructor
    · exact effect_of_shows options bindings concrete assembled atMostOne mode root
        (fun key code guards effect => (mirrors key code guards effect).mp) place effect
    · exact effect_of_shows options bindings concrete assembled atMostOne root mode
        (fun key code guards effect => (mirrors key code guards effect).mpr) place effect
  · intro same key code guards effect
    rw [shows_iff options bindings concrete assembled,
      shows_iff options bindings concrete assembled]
    refine exists_congr fun prefixes => ?_
    have alike := same ⟨key, none, Sorting.sortTexts guards, prefixes⟩
    constructor
    · rintro ⟨held, asks, holds, rfl⟩
      rw [holds, Option.map_some, eq_comm, Option.map_eq_some_iff] at alike
      obtain ⟨other, otherHolds, does⟩ := alike
      exact ⟨other, asks, otherHolds, does⟩
    · rintro ⟨held, asks, holds, rfl⟩
      rw [holds, Option.map_some, Option.map_eq_some_iff] at alike
      obtain ⟨other, otherHolds, does⟩ := alike
      exact ⟨other, asks, otherHolds, does⟩

end Places

end Assembled

theorem split_source (expanded : List Binding) (binding : Binding)
    (made : binding ∈ Sequence.splitAll (byPriority expanded)) :
    ∃ source ∈ expanded, binding.key = source.key ∧ binding.modes = source.modes := by
  obtain ⟨source, given, split⟩ := List.mem_flatMap.mp made
  refine ⟨source, (Sorting.mem_sort _ _ _).mp given, ?_⟩
  rcases Sequence.mem_splitPrefixes source binding split with ⟨rfl, _⟩ | ⟨lead, _, rfl⟩
  · exact ⟨rfl, rfl⟩
  · exact ⟨rfl, rfl⟩

/-- A mode has bindings of one other mode only: it falls back to that mode, which itself falls
back to none, and no binding selects it. -/
structure OnlyFallsBack (modes : List Mode) (expanded : List Binding) (mode root : Mode) : Prop where
  given : mode ∈ modes
  rootGiven : root ∈ modes
  falls : mode.fallback = some root.name
  rootFalls : root.fallback = none
  unselected : ∀ binding ∈ expanded,
    mode.name ∉ (ModeTable.select modes binding.key binding.modes).2

section Fallback

variable {options : Options} {modes : List Mode} {expanded : List Binding} {mode root : Mode}
  (different : (modes.map (·.name)).Nodup) (only : OnlyFallsBack modes expanded mode root)
  (named : root.name ≠ "")

include different only named

theorem placed_fallback :
    ((placed modes expanded).filter fun binding => binding.mode? = some mode.name) =
      ((placed modes expanded).filter fun binding => binding.mode? = some root.name).map
        (ModeTable.place · true mode.name) := by
  have unselected : ∀ binding ∈ Sequence.splitAll (byPriority expanded),
      mode.name ∉ (ModeTable.select modes binding.key binding.modes).2 := by
    intro binding made
    obtain ⟨source, given, key, chosen⟩ := split_source expanded binding made
    rw [key, chosen]
    exact only.unselected source given
  have copied := ModeTable.expand_fallback modes different _ mode root only.given only.rootGiven
    only.falls named only.rootFalls unselected
  rw [placed, Docs.merge_in_mode, Docs.merge_in_mode, copied]
  refine Docs.merge_place _ root.name ?_ true mode.name
  intro binding member
  simpa using (List.mem_filter.mp member).2

omit only named in
theorem placed_root (rootGiven : root ∈ modes) (rootFalls : root.fallback = none)
    (binding : Binding) (given : binding ∈ placed modes expanded)
    (here : binding.mode? = some root.name) :
    binding.modes = some [root.name] ∧ binding.implicit = false := by
  obtain ⟨copy, made, rfl⟩ := List.mem_map.mp given
  exact ModeTable.expand_root modes different _ root rootGiven rootFalls copy made here

theorem claims_fallback (place : Binding.Signature) :
    claimsOn { place with mode := some mode.name }
        (Sequence.claims options (placed modes expanded)) =
      (claimsOn { place with mode := some root.name }
        (Sequence.claims options (placed modes expanded))).map
          (ModeTable.place · true mode.name) := by
  let codes := (Sequence.compile options (placed modes expanded)).codes
  rw [Sequence.claims,
    Sequence.claimsOn_in_mode options codes _ mode.name { place with mode := some mode.name } rfl,
    Sequence.claimsOn_in_mode options codes _ root.name { place with mode := some root.name } rfl,
    placed_fallback different only named]
  refine Sequence.claimsOn_place options codes _ root.name mode.name true ?_ place
  intro binding member
  simpa using (List.mem_filter.mp member).2

omit only named in
theorem claims_root (rootGiven : root ∈ modes) (rootFalls : root.fallback = none)
    (place : Binding.Signature) (here : place.mode = some root.name) (claim : Binding)
    (claimed : claim ∈ claimsOn place (Sequence.claims options (placed modes expanded))) :
    claim.modes = some [root.name] ∧ claim.implicit = false := by
  obtain ⟨among, stands⟩ := (Conflict.mem_claimsOn _ _ _).mp claimed
  obtain ⟨binding, given, made⟩ := (Sequence.mem_claims options _ claim).mp among
  obtain ⟨chosen, origin⟩ := Sequence.claim_modes options _ binding claim made
  rw [chosen, origin]
  apply placed_root different rootGiven rootFalls binding given
  rw [← here, ← stands, Binding.signature, Binding.mode?, Binding.mode?, chosen]

theorem holder_fallback (place : Binding.Signature) :
    holder options (claimsOn { place with mode := some mode.name }
        (Sequence.claims options (placed modes expanded))) =
      (survivor options .keep (claimsOn { place with mode := some root.name }
        (Sequence.claims options (placed modes expanded)))).map
          (ModeTable.place · true mode.name) := by
  rw [claims_fallback different only named]
  exact Conflict.holder_copies options _ root.name mode.name
    (claims_root different only.rootGiven only.rootFalls _ rfl)

omit only named in
theorem holder_root (rootGiven : root ∈ modes) (rootFalls : root.fallback = none)
    (place : Binding.Signature) (here : place.mode = some root.name) :
    holder options (claimsOn place (Sequence.claims options (placed modes expanded))) =
      survivor options .replace
        (claimsOn place (Sequence.claims options (placed modes expanded))) :=
  Conflict.holder_explicit options _ fun claim claimed =>
    (claims_root different rootGiven rootFalls place here claim claimed).2

end Fallback

/-- Ties at a place do not show: whether the earlier binding stays or the later takes the place,
the same is done there. -/
def TiesAgree (options : Options) (claims : List Binding) : Prop :=
  (survivor options .keep claims).map Binding.effect =
    (survivor options .replace claims).map Binding.effect

theorem ties_of_no_duplicates (options : Options) (bindings : List Binding) (root : String)
    (clean : ∀ shown,
      .duplicateBinding shown root ∉ (Sequence.compile options bindings).table.problems)
    (place : Binding.Signature) (here : place.mode = some root)
    (explicit : ∀ claim ∈ claimsOn place (Sequence.claims options bindings),
      claim.implicit = false) :
    TiesAgree options (claimsOn place (Sequence.claims options bindings)) := by
  rw [TiesAgree, Conflict.survivor_settled options _ explicit]
  intro new unsettled
  obtain ⟨front, back, _, split, _⟩ := id unsettled
  have among : new ∈ claimsOn place (Sequence.claims options bindings) := split ▸ by simp
  obtain ⟨_, rfl⟩ := (Conflict.mem_claimsOn _ _ _).mp among
  have reported := (Sequence.compiled_duplicates options bindings (Conflict.duplicate new) rfl).mpr
    ⟨new, rfl, unsettled⟩
  have named : new.mode?.getD "None" = root := by
    rw [show new.mode? = some root from here, Option.getD_some]
  rw [Conflict.duplicate, named] at reported
  exact clean _ reported

/-- A mode that only falls back to another mirrors it if no tie shows there, and only then; so it
does if no duplicate is reported for that mode. -/
theorem fallback_mirrors_iff (options : Options) (spec : Specification) (result : CompileResult)
    (ended : (specification options spec).result = .ok result) (expanded : List Binding)
    (expanding : (expandEntries options spec).result = .ok expanded)
    (declared : ∀ mode ∈ spec.modes, mode.name ≠ "") (mode root : Mode)
    (only : OnlyFallsBack result.modes expanded mode root) :
    (Mirrors result.bindings mode.name root.name ↔
      ∀ place : Binding.Signature, place.mode = some root.name → TiesAgree options
        (claimsOn place (Sequence.claims options (placed result.modes expanded)))) ∧
    ((∀ shown, .duplicateBinding shown root.name ∉ (specification options spec).notes) →
      Mirrors result.bindings mode.name root.name) := by
  obtain ⟨source, expandingToo, modes, codes, notes, assembled⟩ :=
    specification_stages options spec result ended
  obtain rfl : expanded = source := Except.ok.inj (expanding.symm.trans expandingToo)
  have different : (result.modes.map (·.name)).Nodup := modes ▸ ModeTable.ofModes_names spec.modes
  have named : root.name ≠ "" :=
    ModeTable.ofModes_named spec.modes declared root (modes ▸ only.rootGiven)
  rw [codes] at assembled
  have mirrors : Mirrors result.bindings mode.name root.name ↔
      ∀ place : Binding.Signature, place.mode = some root.name → TiesAgree options
        (claimsOn place (Sequence.claims options (placed result.modes expanded))) := by
    rw [mirrors_iff options _ result.bindings assembled (placed_atMostOne result.modes expanded)]
    have ties : ∀ place : Binding.Signature,
        (holder options (claimsOn { place with mode := some mode.name }
          (Sequence.claims options (placed result.modes expanded)))).map Binding.effect =
        (holder options (claimsOn { place with mode := some root.name }
          (Sequence.claims options (placed result.modes expanded)))).map Binding.effect ↔
        TiesAgree options (claimsOn { place with mode := some root.name }
          (Sequence.claims options (placed result.modes expanded))) := by
      intro place
      -- The two holders are left of the same claims, with ties going either way.
      rw [holder_fallback different only named, Option.map_map,
        holder_root different only.rootGiven only.rootFalls _ rfl]
      exact Iff.rfl
    simp only [ties]
    constructor
    · rintro agree ⟨key, _, guards, prefixes⟩ rfl
      exact agree ⟨key, none, guards, prefixes⟩
    · intro agree place
      exact agree _ rfl
  refine ⟨mirrors, fun clean => mirrors.mpr fun place here => ?_⟩
  refine ties_of_no_duplicates options _ root.name
    (fun shown reported => clean shown (notes _ reported)) place here ?_
  intro claim claimed
  exact (claims_root different only.rootGiven only.rootFalls place here claim claimed).2

/-- The default mode, a mode that falls back to it, and some entries. -/
def twoModes (entries : List Fields) : Specification where
  header := ⟨"2.0", none, none, []⟩
  bindings := entries.map .object
  modes := [{ Mode.named "T" with isDefault := true }, { Mode.named "V" with fallback := some "T" }]
  kinds := []
  defaults := []
  definitions := []

def twoModesDocument (entries : List Fields) : Value :=
  plainDocument [[("name", .text "T"), ("default", .bool true)],
    [("name", .text "V"), ("fallbackBindings", .text "T")]] entries

theorem twoModes_read (entries : List Fields) :
    (Schema.readSpecification (twoModesDocument entries)).result = .ok (twoModes entries) := rfl

theorem twoModes_onlyFallsBack (entries : List Fields) (result : CompileResult)
    (ended : (specification .default (twoModes entries)).result = .ok result)
    (expanded : List Binding) (unmoded : expanded.all (·.modes.isNone) = true) :
    OnlyFallsBack result.modes expanded { Mode.named "V" with fallback := some "T" }
      { Mode.named "T" with isDefault := true } := by
  obtain ⟨_, _, modes, _⟩ := specification_stages _ _ result ended
  rw [modes]
  refine ⟨.tail _ (.head _), .head _, rfl, rfl, ?_⟩
  intro binding given
  have default : binding.modes = none := by simpa using List.all_eq_true.mp unmoded binding given
  rw [default]
  show "V" ∉ ["T"]
  decide

theorem fallback_mirrors_of_one :
    ∃ result, (specification .default
        (twoModes [[("key", .text "a b"), ("command", .text "first")]])).result = .ok result ∧
      result.bindings.length = 4 ∧ Mirrors result.bindings "V" "T" := by
  let entries : List Fields := [[("key", .text "a b"), ("command", .text "first")]]
  obtain ⟨result, ended, four⟩ := ended_of_check (specification .default (twoModes entries)).result
    (fun result => result.bindings.length = 4) (by decide +kernel)
  obtain ⟨expanded, expanding, unmoded⟩ := ended_of_check
    (expandEntries .default (twoModes entries)).result
    (fun expanded => expanded.all (·.modes.isNone)) (by decide +kernel)
  have silent : (specification .default (twoModes entries)).notes = [] := by decide +kernel
  have mirrors := (fallback_mirrors_iff .default (twoModes entries) result ended expanded expanding
    (Schema.readSpecification_named _ _ (twoModes_read entries)) _ _
    (twoModes_onlyFallsBack _ result ended expanded unmoded)).2
  refine ⟨result, ended, by simpa using four, mirrors fun shown reported => ?_⟩
  rw [silent] at reported
  cases reported

def isFor (mode command : String) (binding : ConcreteBinding) : Bool :=
  binding.mode = some mode && binding.commands.any (·.runs command)

/-- A mode that only falls back to another need not mirror it. -/
theorem tie_not_mirrored :
    ¬ ∀ (options : Options) (document : Value) (spec : Specification) (result : CompileResult),
      (Schema.readSpecification document).result = .ok spec →
      (specification options spec).result = .ok result →
      ∀ expanded, (expandEntries options spec).result = .ok expanded →
      ∀ mode root, OnlyFallsBack result.modes expanded mode root →
        Mirrors result.bindings mode.name root.name := by
  intro mirrored
  let entries : List Fields := [[("key", .text "a"), ("command", .text "first")],
    [("key", .text "a"), ("command", .text "second")]]
  obtain ⟨result, ended, apart⟩ := ended_of_check (specification .default (twoModes entries)).result
    (fun result => result.bindings.any (isFor "T" "second") &&
      result.bindings.all fun binding => !isFor "V" "second" binding) (by decide +kernel)
  obtain ⟨expanded, expanding, unmoded⟩ := ended_of_check
    (expandEntries .default (twoModes entries)).result
    (fun expanded => expanded.all (·.modes.isNone)) (by decide +kernel)
  have mirrors := mirrored .default _ _ result (twoModes_read entries) ended expanded expanding _ _
    (twoModes_onlyFallsBack _ result ended expanded unmoded)
  rw [Bool.and_eq_true] at apart
  obtain ⟨taken, among, second⟩ := List.any_eq_true.mp apart.1
  simp only [isFor, Bool.and_eq_true, decide_eq_true_eq] at second
  obtain ⟨copy, copied, here, _, _, _, does⟩ := (mirrors _ _ _ _).mpr
    ⟨taken, among, second.1, rfl, rfl, List.Perm.refl _, rfl⟩
  have commands : copy.commands = taken.commands := congrArg Effect.commands does
  have other := List.all_eq_true.mp apart.2 copy copied
  simp [isFor, here, commands, second.2, Mode.named] at other

end Compile

end Keymap
