import Keymap.Proofs.Binding.Docs
import Keymap.Proofs.Compile.Priority
import Keymap.Proofs.Value.Fields

/-!
The documentation in a compiled document. It is shared before sequences are taken apart, so between
bindings that are written with one key text after one prefix and hold in one mode
(`documentation_shared`). Bindings for one key that are written differently do not share it
(`written_apart`).
-/

set_option autoImplicit false

namespace Keymap

namespace Docs

/-- What documentation says in a field, unless that is empty. -/
def doc? (name : String) (docs : Fields) : Option Value := (docs.get? name).filter isDoc

theorem firstDoc?_cons (name : String) (binding : Binding) (rest : List Binding) :
    firstDoc? name (binding :: rest) = (doc? name binding.docs).or (firstDoc? name rest) := by
  unfold firstDoc? doc?
  rw [List.findSome?_cons]
  cases (binding.docs.get? name).filter isDoc <;> rfl

theorem firstDoc?_some (name : String) (bindings : List Binding) (value : Value)
    (first : firstDoc? name bindings = some value) :
    ∃ binding ∈ bindings, doc? name binding.docs = some value :=
  List.exists_of_findSome?_eq_some first

theorem firstDoc?_none_iff (name : String) (bindings : List Binding) :
    firstDoc? name bindings = none ↔ ∀ binding ∈ bindings, doc? name binding.docs = none :=
  List.findSome?_eq_none_iff

/-- Bindings that say nothing in a field do not matter for it. -/
theorem firstDoc?_filter (name : String) (chosen : Binding → Bool) (bindings : List Binding) :
    firstDoc? name (bindings.filter chosen) = firstDoc? name (bindings.filter fun binding =>
      chosen binding && (doc? name binding.docs).isSome) := by
  induction bindings with
  | nil => rfl
  | cons binding rest ih =>
    cases taken : chosen binding with
    | false => simpa [taken] using ih
    | true =>
      cases stated : doc? name binding.docs with
      | none => simp [taken, stated, firstDoc?_cons, ih]
      | some value => simp [taken, stated, firstDoc?_cons]

/-- Bindings that are cut into pieces with their documentation say what some piece of them says. -/
theorem firstDoc?_pieces (name : String) (cut : Binding → List Binding)
    (kept : ∀ binding, ∀ piece ∈ cut binding, piece.docs = binding.docs)
    (chosen : Binding → Bool) (bindings : List Binding) :
    firstDoc? name ((bindings.flatMap cut).filter chosen) =
      firstDoc? name (bindings.filter fun binding => (cut binding).any chosen) := by
  -- The pieces of one binding all have its documentation, so any chosen one of them will do.
  have pieces (docs : Fields) (parts : List Binding) (same : ∀ part ∈ parts, part.docs = docs) :
      firstDoc? name (parts.filter chosen) = if parts.any chosen then doc? name docs else none := by
    induction parts with
    | nil => rfl
    | cons part rest ih =>
      obtain ⟨first, others⟩ := List.forall_mem_cons.mp same
      cases taken : chosen part with
      | false => simpa [taken] using ih others
      | true =>
        simp only [taken, List.filter_cons_of_pos, List.any_cons, Bool.true_or, if_true,
          firstDoc?_cons, first, ih others]
        cases rest.any chosen <;> cases doc? name docs <;> rfl
  have append (left right : List Binding) : firstDoc? name (left ++ right) =
      (firstDoc? name left).or (firstDoc? name right) := List.findSome?_append
  induction bindings with
  | nil => rfl
  | cons binding rest ih =>
    rw [List.flatMap_cons, List.filter_append, append, ih,
      pieces binding.docs (cut binding) (kept binding)]
    cases taken : (cut binding).any chosen with
    | false => simp [taken]
    | true => simp [taken, firstDoc?_cons]

theorem get?_sharedDocs (bindings : List Binding) (name : String) (shared : name ∈ sharedNames) :
    (sharedDocs bindings).get? name = firstDoc? name bindings := by
  have each (names : List String) : Fields.get? name (names.filterMap fun name =>
      (firstDoc? name bindings).map fun value => (name, value)) =
        if name ∈ names then firstDoc? name bindings else none := by
    induction names with
    | nil => rfl
    | cons known rest ih =>
      by_cases same : known = name
      · subst same
        cases first : firstDoc? known bindings with
        | none => simp [first] at ih ⊢; exact ih
        | some value => simp [first, Fields.get?]
      · cases first : firstDoc? known bindings with
        | none => simpa [first, Ne.symm same] using ih
        | some value => simpa [first, Fields.get?, same, Ne.symm same] using ih
  rw [sharedDocs, each, if_pos shared]

theorem sharedDocs_distinct (bindings : List Binding) : (sharedDocs bindings).names.Nodup := by
  have each (names : List String) : (Fields.names (names.filterMap fun name =>
      (firstDoc? name bindings).map fun value => (name, value))).Sublist names := by
    induction names with
    | nil => exact .slnil
    | cons known rest ih =>
      cases first : firstDoc? known bindings with
      | none => simpa [first] using ih.cons known
      | some value => simpa [first, Fields.names] using ih
  exact List.Nodup.sublist (each sharedNames) (by decide)

/-- Every binding of a group says in a shared field what the first of the group says there. -/
theorem doc?_share (bindings : List Binding) (binding : Binding) (given : binding ∈ bindings)
    (name : String) (shared : name ∈ sharedNames) :
    doc? name (share bindings binding).docs =
      firstDoc? name (bindings.filter fun other => groupOf other = groupOf binding) := by
  rw [share, doc?, Fields.get?_overlay _ _ (sharedDocs_distinct _), get?_sharedDocs _ _ shared]
  cases first : firstDoc? name
      (bindings.filter fun other => groupOf other = groupOf binding) with
  | none =>
    exact (firstDoc?_none_iff name _).mp first binding
      (List.mem_filter.mpr ⟨given, by simp⟩)
  | some value =>
    obtain ⟨_, _, stated⟩ := firstDoc?_some name _ value first
    obtain ⟨_, filled⟩ := Option.filter_eq_some_iff.mp stated
    simp [filled]

end Docs

namespace Sequence

open Text (joined)

variable (options : Options) (codes : PrefixCodes)

/-- A last key keeps the documentation of its sequence; only its kind may be added. -/
theorem doc?_lastClaim (binding : Binding) (before : List String) (key name : String)
    (shared : name ∈ Docs.sharedNames) :
    Docs.doc? name (lastClaim options codes binding before key).docs =
      Docs.doc? name binding.docs := by
  have other : name ≠ "kind" := by
    rintro rfl
    exact absurd shared (by decide)
  unfold lastClaim
  dsimp only
  split
  · unfold manualStep
    dsimp only
    split
    · rfl
    · rw [Docs.doc?, Fields.get?_insert, if_neg other, Docs.doc?]
  · split <;> rfl

/-- A last key comes after the keys before it, or wherever it is typed if it is all there is. -/
theorem lastClaim_typed (binding : Binding) (formed : WellFormed binding) (before : List String)
    (key : String) (split : sequenceOf binding = before ++ [key]) :
    let claim := lastClaim options codes binding before key
    claim.key = key ∧
      (claim.prefixes = [joined " " before] ∨ claim.prefixes = [] ∧ before = []) := by
  intro claim
  have signature := lastClaim_signature options codes binding before key
  have typed : claim.key = claim.signature.key ∧ claim.prefixes = claim.signature.prefixes :=
    ⟨rfl, rfl⟩
  rw [typed.1, typed.2, show claim.signature = _ from signature]
  by_cases alone : before = [] ∧ binding.runs options.stepCommand = false
  · obtain ⟨rfl, plain⟩ := alone
    have single : sequenceOf binding = [key] := split
    rw [if_pos ⟨rfl, plain⟩]
    refine ⟨key_of_single binding formed key single, ?_⟩
    rcases lead_of_single binding formed key single with anywhere | first
    · exact .inr ⟨anywhere, rfl⟩
    · exact .inl first
  · rw [if_neg alone]
    exact ⟨rfl, .inl rfl⟩

theorem lastClaim_atMostOne (binding : Binding) (formed : WellFormed binding)
    (before : List String) (key : String) (split : sequenceOf binding = before ++ [key]) :
    (lastClaim options codes binding before key).prefixes.length ≤ 1 := by
  rcases (lastClaim_typed options codes binding formed before key split).2 with one | ⟨anywhere, _⟩
  · rw [one, List.length_singleton]
  · rw [anywhere]
    exact Nat.zero_le 1

theorem lastClaim_mode? (binding : Binding) (before : List String) (key : String) :
    (lastClaim options codes binding before key).mode? = binding.mode? := by
  unfold lastClaim
  dsimp only
  split
  · rfl
  · split <;> rfl

/-- Last keys that are typed alike end the same sequence. -/
theorem same_sequence (left right : Binding) (leftFormed : WellFormed left)
    (rightFormed : WellFormed right) (leftBefore rightBefore : List String)
    (leftKey rightKey : String) (leftSplit : sequenceOf left = leftBefore ++ [leftKey])
    (rightSplit : sequenceOf right = rightBefore ++ [rightKey])
    (key : (lastClaim options codes left leftBefore leftKey).key =
      (lastClaim options codes right rightBefore rightKey).key)
    (prefixes : (lastClaim options codes left leftBefore leftKey).prefixes =
      (lastClaim options codes right rightBefore rightKey).prefixes) :
    sequenceOf left = sequenceOf right := by
  obtain ⟨leftLast, leftTyped⟩ :=
    lastClaim_typed options codes left leftFormed leftBefore leftKey leftSplit
  obtain ⟨rightLast, rightTyped⟩ :=
    lastClaim_typed options codes right rightFormed rightBefore rightKey rightSplit
  have keys : leftKey = rightKey := leftLast.symm.trans (key.trans rightLast)
  have before : leftBefore = rightBefore := by
    rcases leftTyped with leftAfter | ⟨leftAny, rfl⟩ <;>
    rcases rightTyped with rightAfter | ⟨rightAny, rfl⟩
    · refine Text.joined_words_injective _ _ (words_before left _ _ leftSplit)
        (words_before right _ _ rightSplit) ?_
      exact (List.cons.inj (leftAfter.symm.trans (prefixes.trans rightAfter))).1
    · cases leftAfter.symm.trans (prefixes.trans rightAny)
    · cases leftAny.symm.trans (prefixes.trans rightAfter)
    · rfl
  rw [leftSplit, rightSplit, keys, before]

/-- A sequence and the prefix that it is written with leave one key text. -/
theorem key_of_sequence (left right : Binding) (leftFormed : WellFormed left)
    (rightFormed : WellFormed right) (lead : left.prefixes.head? = right.prefixes.head?)
    (same : sequenceOf left = sequenceOf right) : left.key = right.key := by
  rw [sequenceOf, sequenceOf, List.headD_eq_head?_getD, List.headD_eq_head?_getD, lead] at same
  have words := List.append_cancel_left same
  rw [← leftFormed.keyNormal, ← rightFormed.keyNormal, words]

end Sequence

namespace Compile

open Docs (doc? firstDoc? groupOf sharedNames)
open Sequence (lastClaim sequenceOf)

/-- The copies of an entry with one prefix each and in one mode each. -/
def pieces (modes : List Mode) (entry : Binding) : List Binding :=
  (Sequence.splitPrefixes entry).flatMap fun part => (ModeTable.copies modes part).2

/-- Whether an entry is written with a key text after a prefix and holds in a mode. -/
def written (modes : List Mode) (way : Docs.Group) (entry : Binding) : Bool :=
  (pieces modes entry).any fun piece => groupOf piece = way

theorem pieces_docs (modes : List Mode) (entry piece : Binding)
    (made : piece ∈ pieces modes entry) : piece.docs = entry.docs := by
  obtain ⟨part, split, copied⟩ := List.mem_flatMap.mp made
  obtain ⟨_, _, rfl, _⟩ := (ModeTable.mem_copies modes part piece).mp copied
  rcases Sequence.mem_splitPrefixes entry part split with ⟨rfl, _⟩ | ⟨_, _, rfl⟩ <;> rfl

theorem placed_eq (modes : List Mode) (expanded : List Binding) :
    placed modes expanded = Docs.merge ((byPriority expanded).flatMap (pieces modes)) := by
  rw [placed, ModeTable.expand_eq, Sequence.splitAll, List.flatMap_assoc]
  rfl

theorem doc?_placed (modes : List Mode) (expanded : List Binding) (copy : Binding)
    (member : copy ∈ placed modes expanded) (name : String) (shared : name ∈ sharedNames) :
    doc? name copy.docs =
      firstDoc? name ((byPriority expanded).filter (written modes (groupOf copy))) := by
  rw [placed_eq] at member
  obtain ⟨piece, given, rfl⟩ := List.mem_map.mp member
  rw [Docs.doc?_share _ piece given name shared,
    Docs.firstDoc?_pieces name (pieces modes) (pieces_docs modes)]
  rfl

variable (options : Options)

/-- The step that a longer sequence implies at one of its keys. -/
def IsAutomated (made : ConcreteBinding) : Prop :=
  ∃ code, made.commands = [Sequence.stepCommand options code true]

/-- A binding that comes out for the last key of a sequence that is written in this way. -/
def StemsFrom (modes : List Mode) (expanded : List Binding) (way : Docs.Group)
    (made : ConcreteBinding) : Prop :=
  let sequences := Sequence.compile options (placed modes expanded)
  ∃ copy ∈ placed modes expanded, groupOf copy = way ∧ ¬ Sequence.Skipped options copy ∧
    ∃ before key, sequenceOf copy = before ++ [key] ∧
      ConcreteBinding.ofBinding options sequences.codes.freeze
        (lastClaim options sequences.codes copy before key) = .ok made

/-- Whether sorting by priority leaves the entries written in one way that state a field in the
order of the document. -/
def InOrder (modes : List Mode) (expanded : List Binding) (way : Docs.Group) (name : String) :
    Prop :=
  let states := fun entry : Binding => written modes way entry && (doc? name entry.docs).isSome
  (byPriority expanded).filter states = expanded.filter states

theorem inOrder_of_ascending (modes : List Mode) (expanded : List Binding) (way : Docs.Group)
    (name : String)
    (ascending : expanded.Pairwise fun left right => right.priority.less left.priority = false) :
    InOrder modes expanded way name := by
  have sorted : byPriority expanded = expanded := by
    apply Sorting.sort_of_pairwise
    exact ascending.imp fun least => by rw [least, Bool.not_false]
  rw [InOrder, sorted]

/-- What bindings written in one way carry in a field: what one of the entries so written states,
the first of them if they keep the order of the document, and nothing only where none states
anything. -/
structure Carries (modes : List Mode) (expanded : List Binding) (way : Docs.Group) (name : String)
    (carried : Option Value) : Prop where
  stated : ∀ value, carried = some value →
    ∃ entry ∈ expanded, written modes way entry = true ∧ doc? name entry.docs = some value
  silent : carried = none →
    ∀ entry ∈ expanded, written modes way entry = true → doc? name entry.docs = none
  first : InOrder modes expanded way name →
    carried = firstDoc? name (expanded.filter (written modes way))

theorem carries_first (modes : List Mode) (expanded : List Binding) (way : Docs.Group)
    (name : String) : Carries modes expanded way name
      (firstDoc? name ((byPriority expanded).filter (written modes way))) := by
  refine ⟨?_, ?_, ?_⟩
  · intro value shown
    obtain ⟨entry, among, stated⟩ := Docs.firstDoc?_some name _ value shown
    obtain ⟨given, way⟩ := List.mem_filter.mp among
    exact ⟨entry, (Sorting.mem_sort _ _ _).mp given, way, stated⟩
  · intro hidden entry given way
    refine (Docs.firstDoc?_none_iff name _).mp hidden entry ?_
    exact List.mem_filter.mpr ⟨(Sorting.mem_sort _ _ _).mpr given, way⟩
  · intro inOrder
    rw [Docs.firstDoc?_filter, inOrder, ← Docs.firstDoc?_filter]

theorem doc?_stems (modes : List Mode) (expanded : List Binding) (way : Docs.Group)
    (made : ConcreteBinding) (stems : StemsFrom options modes expanded way made) (name : String)
    (shared : name ∈ sharedNames) :
    doc? name made.docs = firstDoc? name ((byPriority expanded).filter (written modes way)) := by
  obtain ⟨copy, member, rfl, _, before, key, _, making⟩ := stems
  obtain ⟨_, _, ended⟩ := bind_ok _ _ _ making
  cases ended
  exact (Sequence.doc?_lastClaim options _ copy before key name shared).trans
    (doc?_placed modes expanded copy member name shared)

/-- What comes out and is not implied by a longer sequence is for the last key of one. -/
theorem stems_of_assembled (modes : List Mode) (expanded : List Binding)
    (bindings : List ConcreteBinding)
    (assembled : assemble options (Sequence.compile options (placed modes expanded)).codes.freeze
      (Sequence.compile options (placed modes expanded)).table.bindings = .ok bindings)
    (made : ConcreteBinding) (among : made ∈ bindings) (declared : ¬ IsAutomated options made) :
    ∃ way, StemsFrom options modes expanded way made := by
  obtain ⟨claim, out, making⟩ := source_of_assembled options _ _ _ assembled made among
  obtain ⟨copy, member, claimed⟩ := (Sequence.mem_claims options _ claim).mp
    (Sequence.compiled_is_claim options _ claim out)
  obtain ⟨taken, before, key, after, split, rfl⟩ :=
    (Sequence.mem_claimsOf options _ copy claim).mp claimed
  by_cases last : after = []
  · subst last
    rw [if_pos rfl] at making
    exact ⟨_, copy, member, rfl, taken, before, key, split, making⟩
  · rw [if_neg last] at making
    obtain ⟨_, _, _, _, _, _, commands, _⟩ := ConcreteBinding.ofBinding_ok _ _ _ _ making
    exact absurd ⟨_, commands⟩ declared

/-- At one place, what is written after one prefix is written with one key text. -/
theorem same_way (modes : List Mode) (expanded : List Binding)
    (kept : ∀ binding ∈ expanded, Schema.Kept binding) (left right : ConcreteBinding)
    (first second : Docs.Group) (fromFirst : StemsFrom options modes expanded first left)
    (fromSecond : StemsFrom options modes expanded second right) (key : left.key = right.key)
    (mode : left.mode = right.mode) (code : left.prefixCode = right.prefixCode)
    (lead : first.lead = second.lead) : first = second := by
  obtain ⟨copy, member, rfl, _, before, last, split, making⟩ := fromFirst
  obtain ⟨other, otherMember, rfl, _, otherBefore, otherLast, otherSplit, otherMaking⟩ := fromSecond
  have formed := placed_formed modes expanded kept copy member
  have otherFormed := placed_formed modes expanded kept other otherMember
  obtain ⟨required, found, sameKey, sameMode, sameCode, _⟩ :=
    ConcreteBinding.ofBinding_ok _ _ _ _ making
  obtain ⟨otherRequired, otherFound, otherKey, otherMode, otherCode, _⟩ :=
    ConcreteBinding.ofBinding_ok _ _ _ _ otherMaking
  have prefixes := (ConcreteBinding.prefixes_of_code _ _ _ _ _
    (Sequence.lastClaim_atMostOne options _ copy formed before last split)
    (Sequence.lastClaim_atMostOne options _ other otherFormed otherBefore otherLast otherSplit)
    found otherFound (sameCode.symm.trans (code.trans otherCode))).1
  -- The place tells the whole sequence, and the prefix how much of it stands in the key text.
  have sequences := Sequence.same_sequence options _ copy other formed otherFormed before
    otherBefore last otherLast split otherSplit (sameKey.symm.trans (key.trans otherKey)) prefixes
  have texts := Sequence.key_of_sequence copy other formed otherFormed lead sequences
  rw [Sequence.lastClaim_mode?] at sameMode otherMode
  simp only [groupOf, texts, sameMode.symm.trans (mode.trans otherMode)] at lead ⊢
  rw [lead]

/-- In a compiled document, bindings for one key in one mode after one code that are written with
one prefix carry the same documentation, that of the entries so written. -/
theorem documentation_shared (document : Value) (compiled : Compiled)
    (ended : Compile.document options document = .ok compiled) :
    ∃ entries expanded, Declares options document entries expanded ∧
      (expanded.Pairwise fun left right => left.index ≤ right.index) ∧
      (∀ made ∈ compiled.result.bindings, ¬ IsAutomated options made →
        ∃ way, StemsFrom options compiled.result.modes expanded way made) ∧
      ∀ left ∈ compiled.result.bindings, ∀ right ∈ compiled.result.bindings,
        left.key = right.key → left.mode = right.mode → left.prefixCode = right.prefixCode →
        ∀ first second, StemsFrom options compiled.result.modes expanded first left →
          StemsFrom options compiled.result.modes expanded second right →
          first.lead = second.lead →
          ∀ name ∈ sharedNames, doc? name left.docs = doc? name right.docs ∧
            Carries compiled.result.modes expanded first name (doc? name left.docs) := by
  obtain ⟨current, spec, result, upgrading, reading, compiling, made⟩ :=
    document_sections options document compiled ended
  obtain ⟨root, rfl, entries⟩ := Schema.readSpecification_entries current spec reading
  obtain ⟨expanded, expanding, _, codes, _, assembled⟩ :=
    specification_stages options spec result compiling
  have kept := fun binding member =>
    (expandEntries_kept options spec expanded expanding binding member).2
  rw [codes] at assembled
  rw [made]
  refine ⟨spec.bindings, expanded, ⟨root, spec, upgrading, entries, reading, expanding⟩,
    expandEntries_declared options spec expanded expanding,
    stems_of_assembled options result.modes expanded _ assembled, ?_⟩
  intro left _ right _ key mode code first second fromFirst fromSecond lead name shared
  have way := same_way options result.modes expanded kept left right first second fromFirst
    fromSecond key mode code lead
  subst way
  have carried := doc?_stems options result.modes expanded first left fromFirst name shared
  refine ⟨carried.trans ?_, carried ▸ carries_first result.modes expanded first name⟩
  exact (doc?_stems options result.modes expanded first right fromSecond name shared).symm

theorem runs_of_automated (made : ConcreteBinding) (automated : IsAutomated options made) :
    made.commands.any (·.runs options.stepCommand) = true := by
  obtain ⟨code, commands⟩ := automated
  rw [commands]
  simp [Sequence.stepCommand_runs]

theorem declared_of_runs_not (made : ConcreteBinding)
    (runs : made.commands.any (·.runs options.stepCommand) = false) :
    ¬ IsAutomated options made := by
  intro automated
  cases (runs_of_automated options made automated).symm.trans runs

/-- Where no entry names another prefix than the start, every way to write a sequence starts
there. -/
theorem lead_of_stems (modes : List Mode) (expanded : List Binding) (way : Docs.Group)
    (made : ConcreteBinding) (stems : StemsFrom options modes expanded way made)
    (start : ∀ entry ∈ expanded, entry.prefixes = [""]) : way.lead = some "" := by
  obtain ⟨copy, member, rfl, _⟩ := stems
  obtain ⟨entry, given, _, _, _, _, same | ⟨lead, among, one⟩⟩ :=
    placed_source modes expanded copy member
  · rw [groupOf, same, start entry given]
    rfl
  · rw [start entry given, List.mem_singleton] at among
    rw [groupOf, one, among]
    rfl

/-- Whether a binding is the declared one of `d` after the code 1 that runs a command, and goes by
a name. -/
def isNamed (command name : String) (made : ConcreteBinding) : Bool :=
  made.key = "d" && made.mode = some "default" && made.prefixCode = some 1 &&
    made.commands.any (·.runs command) &&
    !made.commands.any (·.runs Options.default.stepCommand) &&
    (doc? "name" made.docs).bind Value.text? = some name

structure Named (command name : String) (made : ConcreteBinding) : Prop where
  key : made.key = "d"
  mode : made.mode = some "default"
  code : made.prefixCode = some 1
  runs : made.commands.any (·.runs command) = true
  declared : ¬ IsAutomated .default made
  name : (doc? "name" made.docs).bind Value.text? = some name

theorem named_of_check (command name : String) (made : ConcreteBinding)
    (passes : isNamed command name made = true) : Named command name made := by
  simp only [isNamed, Bool.and_eq_true, decide_eq_true_eq, Bool.not_eq_true'] at passes
  obtain ⟨⟨⟨⟨⟨key, mode⟩, code⟩, runs⟩, noStep⟩, name⟩ := passes
  exact ⟨key, mode, code, runs, declared_of_runs_not .default made noStep, name⟩

theorem two_named (entries : List Fields) (first second : String)
    (passes : (Compile.document .default (plainDocument [] entries)).toOption.any (fun compiled =>
      compiled.result.bindings.any (isNamed "first" first) &&
        compiled.result.bindings.any (isNamed "second" second)) = true) :
    ∃ compiled, Compile.document .default (plainDocument [] entries) = .ok compiled ∧
      (∃ left ∈ compiled.result.bindings, Named "first" first left) ∧
      ∃ right ∈ compiled.result.bindings, Named "second" second right := by
  obtain ⟨compiled, ended, found⟩ := ended_of_check _ _ passes
  simp only [Bool.and_eq_true, List.any_eq_true] at found
  obtain ⟨⟨left, leftIn, leftPasses⟩, right, rightIn, rightPasses⟩ := found
  exact ⟨compiled, ended, ⟨left, leftIn, named_of_check _ _ left leftPasses⟩,
    right, rightIn, named_of_check _ _ right rightPasses⟩

/-- A sequence without a condition and with one, of which the second entry tells the name. -/
def oneSequence : List Fields :=
  [[("key", .text "g d"), ("command", .text "first")],
   [("key", .text "g d"), ("command", .text "second"), ("when", .text "q"),
    ("name", .text "delete")]]

theorem oneSequence_declares (entries : List Value) (expanded : List Binding)
    (declares : Declares .default (plainDocument [] oneSequence) entries expanded) :
    (∀ entry ∈ expanded, entry.prefixes = [""]) ∧
      expanded.Pairwise fun left right => right.priority.less left.priority = false := by
  obtain ⟨root, spec, upgrading, _, reading, expanding⟩ := declares
  have document : Value.object root = plainDocument [] oneSequence :=
    Except.ok.inj (upgrading.symm.trans rfl)
  rw [document, unmoded_read] at reading
  cases reading
  obtain ⟨other, again, found⟩ := ended_of_check
    (expandEntries .default (unmoded oneSequence)).result
    (fun expanded => (expanded.all fun entry => entry.prefixes = [""]) &&
      decide (expanded.Pairwise fun left right => right.priority.less left.priority = false))
    (by decide +kernel)
  cases expanding.symm.trans again
  simpa using found

theorem shared_of_one_sequence :
    ∃ compiled expanded way,
      Compile.document .default (plainDocument [] oneSequence) = .ok compiled ∧
      ∃ left ∈ compiled.result.bindings, ∃ right ∈ compiled.result.bindings,
        Named "first" "delete" left ∧ Named "second" "delete" right ∧
        StemsFrom .default compiled.result.modes expanded way left ∧
        ∀ name ∈ sharedNames, doc? name left.docs = doc? name right.docs ∧
          doc? name left.docs =
            firstDoc? name (expanded.filter (written compiled.result.modes way)) := by
  obtain ⟨compiled, ended, ⟨left, leftIn, leftNamed⟩, right, rightIn, rightNamed⟩ :=
    two_named oneSequence "delete" "delete" (by decide +kernel)
  obtain ⟨entries, expanded, declares, _, stems, shared⟩ :=
    documentation_shared .default _ compiled ended
  obtain ⟨start, ascending⟩ := oneSequence_declares entries expanded declares
  obtain ⟨first, fromFirst⟩ := stems left leftIn leftNamed.declared
  obtain ⟨second, fromSecond⟩ := stems right rightIn rightNamed.declared
  have lead := (lead_of_stems .default _ expanded first left fromFirst start).trans
    (lead_of_stems .default _ expanded second right fromSecond start).symm
  refine ⟨compiled, expanded, first, ended, left, leftIn, right, rightIn, leftNamed, rightNamed,
    fromFirst, fun name among => ?_⟩
  obtain ⟨same, carries⟩ := shared left leftIn right rightIn
    (leftNamed.key.trans rightNamed.key.symm) (leftNamed.mode.trans rightNamed.mode.symm)
    (leftNamed.code.trans rightNamed.code.symm) first second fromFirst fromSecond lead name among
  exact ⟨same, carries.first (inOrder_of_ascending _ expanded first name ascending)⟩

/-- One key after one prefix, written as a sequence and after a prefix of its own. -/
def writtenTwice : List Fields :=
  [[("key", .text "g d"), ("command", .text "first"), ("name", .text "x")],
   [("key", .text "d"), ("prefixes", .text "g"), ("command", .text "second"), ("when", .text "q"),
    ("name", .text "y")]]

/-- Bindings of one place do not share their documentation if they are written differently. -/
theorem written_apart :
    ¬ ∀ (options : Options) (document : Value) (compiled : Compiled),
      Compile.document options document = .ok compiled →
      ∀ left ∈ compiled.result.bindings, ∀ right ∈ compiled.result.bindings,
        ¬ IsAutomated options left → ¬ IsAutomated options right →
        left.key = right.key → left.mode = right.mode → left.prefixCode = right.prefixCode →
        ∀ name ∈ sharedNames, doc? name left.docs = doc? name right.docs := by
  intro alike
  obtain ⟨compiled, ended, ⟨left, leftIn, leftNamed⟩, right, rightIn, rightNamed⟩ :=
    two_named writtenTwice "x" "y" (by decide +kernel)
  have same := alike .default _ compiled ended left leftIn right rightIn leftNamed.declared
    rightNamed.declared (leftNamed.key.trans rightNamed.key.symm)
    (leftNamed.mode.trans rightNamed.mode.symm) (leftNamed.code.trans rightNamed.code.symm)
    "name" (by decide)
  have names := leftNamed.name
  rw [same, rightNamed.name] at names
  exact absurd names (by decide)

end Compile

end Keymap
