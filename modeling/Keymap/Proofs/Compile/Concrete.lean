import Keymap.Proofs.Compile.Entries
import Keymap.Proofs.Compile.Failures
import Keymap.Proofs.Compile.Places
import Keymap.Proofs.Schema.Specification
import Keymap.Proofs.Sequence.Growth
import Keymap.Proofs.Sequence.Known

/-!
What an editor can rely on: every binding of a compiled document is for one key in one mode, and
asks for one known code at most. So no prefix is ever without a code (`document_usable`).
-/

set_option autoImplicit false

namespace Keymap

namespace Sequence

open Text (wordsOf joined IsWord)

variable (options : Options) (bindings : List Binding)

/-- Whatever is typed before a key of a sequence has a code. -/
theorem lead_known (binding : Binding) (given : binding ∈ bindings)
    (taken : ¬ Skipped options binding) (before : List String) (key : String)
    (after : List String) (split : sequenceOf binding = before ++ key :: after) :
    joined " " before ∈ (compile options bindings).codes.names := by
  rcases List.eq_nil_or_concat before with rfl | ⟨front, last, rfl⟩
  · exact List.mem_of_mem_head? (PrefixCodes.grown_first _ (grown_compile options bindings))
  · rw [List.concat_eq_append] at split ⊢
    exact addAll_known options bindings binding given front last
      ⟨taken, key :: after, by simpa using split, fun empty => by cases empty⟩ State.start

/-- A key all by itself is typed at the start, unless it may be typed anywhere. -/
theorem lead_of_single (binding : Binding) (formed : WellFormed binding) (key : String)
    (single : sequenceOf binding = [key]) :
    binding.prefixes = [] ∨ binding.prefixes = [""] := by
  have word : IsWord key := sequence_words binding key (single ▸ List.mem_singleton_self key)
  have untyped : wordsOf (binding.prefixes.headD "") = [] := by
    have own : wordsOf binding.key = [key] := by
      rw [key_of_single binding formed key single, Text.words_of_one_word key word]
    rw [sequenceOf, own] at single
    simpa using single
  cases leads : binding.prefixes with
  | nil => exact .inl rfl
  | cons lead rest =>
    have few := formed.atMostOne
    have normal := formed.prefixNormal lead (leads ▸ List.mem_cons_self)
    rw [leads] at untyped few
    rw [Text.IsNormal, show wordsOf lead = [] from untyped] at normal
    obtain rfl : rest = [] := List.length_eq_zero_iff.mp (by simpa using few)
    rw [← normal]
    exact .inr rfl

/-- A binding for one key of the sequence of another one. -/
structure OneKeyOf (codes : PrefixCodes) (source binding : Binding) : Prop where
  word : IsWord binding.key
  modes : binding.modes = source.modes
  index : binding.index = source.index
  typed : (binding.prefixes = [] ∧ source.prefixes = [] ∧ binding.key = source.key) ∨
    ∃ lead ∈ codes.names, binding.prefixes = [lead]

theorem claim_one_key (source : Binding) (given : source ∈ bindings) (formed : WellFormed source)
    (claim : Binding) (made : claim ∈ claimsOf options (compile options bindings).codes source) :
    OneKeyOf (compile options bindings).codes source claim := by
  obtain ⟨taken, before, key, after, split, shape⟩ := (mem_claimsOf options _ source claim).mp made
  have known := lead_known options bindings source given taken before key after split
  have word : IsWord key := sequence_words source key (split ▸ by simp)
  by_cases last : after = []
  · subst last
    rw [if_pos rfl, lastClaim] at shape
    split at shape
    · subst shape
      exact ⟨word, rfl, rfl, .inr ⟨_, known, rfl⟩⟩
    · split at shape
      · next first =>
        subst shape first
        -- The binding stays as it is, so its own key and prefix have to be fine.
        have same := key_of_single claim formed key split
        refine ⟨same ▸ word, rfl, rfl, ?_⟩
        rcases lead_of_single claim formed key split with leadless | start
        · exact .inl ⟨leadless, leadless, rfl⟩
        · exact .inr ⟨"", known, start⟩
      · subst shape
        exact ⟨word, rfl, rfl, .inr ⟨_, known, rfl⟩⟩
  · rw [if_neg last] at shape
    subst shape
    exact ⟨word, rfl, rfl, .inr ⟨_, known, rfl⟩⟩

theorem compiled_one_key (formed : ∀ binding ∈ bindings, WellFormed binding) (binding : Binding)
    (out : binding ∈ (compile options bindings).table.bindings) :
    ∃ source ∈ bindings, OneKeyOf (compile options bindings).codes source binding := by
  obtain ⟨source, given, made⟩ := (mem_claims options bindings binding).mp
    (compiled_is_claim options bindings binding out)
  exact ⟨source, given,
    claim_one_key options bindings source given (formed source given) binding made⟩

end Sequence

namespace Compile

open Text (IsWord)

/-- The bindings that sequences are compiled from each hold in one mode and stem from a binding
that an entry declares. -/
theorem placed_source (modes : List Mode) (expanded : List Binding) (binding : Binding)
    (member : binding ∈ placed modes expanded) :
    ∃ source ∈ expanded, ∃ mode, binding.modes = some [mode] ∧ binding.key = source.key ∧
      binding.index = source.index ∧
      (binding.prefixes = source.prefixes ∨
        ∃ lead ∈ source.prefixes, binding.prefixes = [lead]) := by
  obtain ⟨copy, copied, rfl⟩ := List.mem_map.mp member
  obtain ⟨part, given, made⟩ := (ModeTable.mem_expand modes _ copy).mp copied
  obtain ⟨_, mode, rfl, _⟩ := (ModeTable.mem_copies modes part copy).mp made
  obtain ⟨source, among, split⟩ := List.mem_flatMap.mp given
  refine ⟨source, (Sorting.mem_sort _ _ _).mp among, mode, ?_⟩
  rcases Sequence.mem_splitPrefixes source part split with ⟨rfl, _⟩ | ⟨lead, asked, rfl⟩
  · exact ⟨rfl, rfl, rfl, .inl rfl⟩
  · exact ⟨rfl, rfl, rfl, .inr ⟨lead, asked, rfl⟩⟩

theorem placed_formed (modes : List Mode) (expanded : List Binding)
    (kept : ∀ binding ∈ expanded, Schema.Kept binding) (binding : Binding)
    (member : binding ∈ placed modes expanded) : Sequence.WellFormed binding := by
  obtain ⟨source, given, _, _, key, _, leads⟩ := placed_source modes expanded binding member
  have held := kept source given
  refine ⟨placed_atMostOne modes expanded binding member, ?_, key ▸ held.key, key ▸ held.keyed⟩
  rcases leads with same | ⟨lead, asked, one⟩
  · rw [same]
    exact held.prefixes
  · rw [one, List.forall_mem_singleton]
    exact held.prefixes lead asked

theorem codesOf_known (codes : PrefixCodes) (prefixes : List String)
    (known : ∀ lead ∈ prefixes, lead ∈ codes.names) :
    ∃ required, ConcreteBinding.codesOf codes.freeze prefixes = .ok required := by
  induction prefixes with
  | nil => exact ⟨[], rfl⟩
  | cons lead rest ih =>
    obtain ⟨first, later⟩ := List.forall_mem_cons.mp known
    obtain ⟨required, found⟩ := ih later
    refine ⟨((codes.codeFor lead).1, lead) :: required, ?_⟩
    rw [ConcreteBinding.codesOf, PrefixCodes.codeOf_freeze_of_mem codes lead first, found]
    rfl

theorem assemble_known (options : Options) (codes : PrefixCodes) (bindings : List Binding)
    (known : ∀ binding ∈ bindings, ∀ lead ∈ binding.prefixes, lead ∈ codes.names) :
    ∃ concrete, assemble options codes.freeze bindings = .ok concrete := by
  induction bindings with
  | nil => exact ⟨[], rfl⟩
  | cons binding rest ih =>
    obtain ⟨first, later⟩ := List.forall_mem_cons.mp known
    obtain ⟨required, found⟩ := codesOf_known codes binding.prefixes first
    refine (both_ok_iff _ _ _).mpr ⟨?_, ih later⟩
    rw [ConcreteBinding.ofBinding, found]
    exact ⟨_, rfl⟩

theorem sequences_assembled (options : Options) (modes : List Mode) (expanded : List Binding)
    (kept : ∀ binding ∈ expanded, Schema.Kept binding) :
    let sequences := Sequence.compile options (placed modes expanded)
    ∃ concrete,
      assemble options sequences.codes.freeze sequences.table.bindings = .ok concrete := by
  refine assemble_known options _ _ fun binding out lead asked => ?_
  obtain ⟨_, _, made⟩ := Sequence.compiled_one_key options _
    (placed_formed modes expanded kept) binding out
  rcases made.typed with ⟨anywhere, _⟩ | ⟨known, among, one⟩
  · rw [anywhere] at asked
    cases asked
  · rw [one, List.mem_singleton] at asked
    exact asked ▸ among

/-- Once the entries are expanded nothing fails any more. -/
theorem specification_failsWith_iff (options : Options) (spec : Specification)
    (kind : Fault → Prop) :
    FailsWith kind (specification options spec).result ↔
      FailsWith kind (expandEntries options spec).result := by
  refine (Noted.passed_failsWith_iff kind (Noted.note _) () rfl _).trans ?_
  refine (Noted.andThen_failsWith_iff kind _ _).trans (or_iff_left ?_)
  rintro ⟨expanded, expanding, failed⟩
  replace failed := (Noted.passed_failsWith_iff kind (Noted.note _) () rfl _).mp failed
  replace failed := (Noted.passed_failsWith_iff kind (Noted.note _) () rfl _).mp failed
  have kept := expandEntries_kept options spec expanded expanding
  obtain ⟨concrete, assembled⟩ := sequences_assembled options (ModeTable.ofModes spec.modes).2
    expanded fun binding member => (kept binding member).2
  rcases (Noted.andThen_failsWith_iff kind _ _).mp failed with unassembled | ⟨_, _, made⟩
  · obtain ⟨_, unassembled, _⟩ := unassembled
    cases assembled.symm.trans unassembled
  · exact not_failsWith_ok _ _ made

/-- The entries of a document in the current layout, and the bindings that they declare. -/
def Declares (options : Options) (document : Value) (entries : List Value)
    (expanded : List Binding) : Prop :=
  ∃ root spec, upgraded document = .ok (.object root) ∧ Schema.entries root "bind" = .ok entries ∧
    (Schema.readSpecification (.object root)).result = .ok spec ∧
    (expandEntries options spec).result = .ok expanded

/-- What an editor can rely on. A binding that asks for no code is declared for its key after any
prefix. -/
structure Usable (codes : CodeTable) (entries : List Value) (expanded : List Binding)
    (binding : ConcreteBinding) : Prop where
  key : IsWord binding.key
  mode : ∃ mode, binding.mode = some mode
  index : 0 ≤ binding.index ∧ binding.index < entries.length
  required : (binding.prefixCode = none ∧ binding.prefixDescriptions = [] ∧
      ∃ source ∈ expanded, source.prefixes = [] ∧ source.key = binding.key ∧
        source.index = binding.index) ∨
    ∃ lead code, (lead, code) ∈ codes.entries ∧ codes.codeOf? lead = some code ∧
      binding.prefixCode = some code ∧
      binding.prefixDescriptions = [Number.intText code ++ ": " ++ lead]

theorem ofBinding_required (options : Options) (codes : CodeTable) (binding : Binding)
    (concrete : ConcreteBinding)
    (made : ConcreteBinding.ofBinding options codes binding = .ok concrete) :
    concrete.index = binding.index ∧
      ∃ required, ConcreteBinding.codesOf codes binding.prefixes = .ok required ∧
        concrete.prefixCode = required.head?.map (·.1) ∧
        concrete.prefixDescriptions =
          required.map fun (code, lead) => Number.intText code ++ ": " ++ lead := by
  obtain ⟨required, found, ended⟩ := bind_ok _ _ _ made
  cases ended
  exact ⟨rfl, required, found, rfl, rfl⟩

theorem specification_usable (options : Options) (spec : Specification) (result : CompileResult)
    (ended : (specification options spec).result = .ok result) :
    ∃ expanded, (expandEntries options spec).result = .ok expanded ∧
      ∀ binding ∈ result.bindings, Usable result.codes spec.bindings expanded binding := by
  obtain ⟨expanded, expanding, _, codes, _, assembled⟩ :=
    specification_stages options spec result ended
  have kept := expandEntries_kept options spec expanded expanding
  refine ⟨expanded, expanding, fun concrete among => ?_⟩
  obtain ⟨binding, out, making⟩ := source_of_assembled options _ _ _ assembled concrete among
  obtain ⟨_, _, key, mode, _⟩ := ConcreteBinding.ofBinding_ok _ _ _ _ making
  obtain ⟨index, required, found, code, descriptions⟩ := ofBinding_required _ _ _ _ making
  obtain ⟨part, given, made⟩ := Sequence.compiled_one_key options _
    (placed_formed result.modes expanded fun source member => (kept source member).2) binding out
  obtain ⟨source, declared, name, modes, sameKey, sameIndex, leads⟩ :=
    placed_source result.modes expanded part given
  refine ⟨key ▸ made.word, ⟨name, ?_⟩, ?_, ?_⟩
  · rw [mode, Binding.mode?, made.modes, modes]
    rfl
  · rw [index, made.index, sameIndex]
    exact (kept source declared).1
  rcases made.typed with ⟨leadless, anywhere, alone⟩ | ⟨lead, known, one⟩
  · rw [leadless] at found
    cases found
    refine .inl ⟨code, descriptions, source, declared, ?_, ?_, ?_⟩
    · rcases leads with same | ⟨lead, _, one⟩
      · exact same.symm.trans anywhere
      · cases one.symm.trans anywhere
    · rw [key, alone, sameKey]
    · rw [index, made.index, sameIndex]
  · rcases ConcreteBinding.codesOf_of_atMostOne _ _ _ (one ▸ Nat.le_refl 1) found with
      ⟨leadless, _⟩ | ⟨other, number, _, numbered, rfl⟩
    · cases leadless.symm.trans one
    · have listed := numbered
      rw [codes, (CodeTable.closed_of_grown _ (Sequence.grown_compile options _)).codeOf,
        ← codes] at listed
      exact .inr ⟨other, number, listed, numbered, code, descriptions⟩

theorem specification_raw (options : Options) (spec : Specification) (result : CompileResult)
    (ended : (specification options spec).result = .ok result) :
    result.diagnostics.rawBindings = spec.bindings.length := by
  obtain ⟨_, _, ended⟩ := Noted.andThen_ok _ _ _ ended
  obtain ⟨_, _, ended⟩ := Noted.andThen_ok _ _ _ ended
  obtain ⟨_, _, ended⟩ := Noted.andThen_ok _ _ _ ended
  obtain ⟨_, _, ended⟩ := Noted.andThen_ok _ _ _ ended
  obtain ⟨_, _, ended⟩ := Noted.andThen_ok _ _ _ ended
  cases ended
  rfl

/-- A compilation fails where the document is brought to the current layout, where it is read into
its sections, or where its entries are expanded. -/
theorem document_failsWith_iff (options : Options) (document : Value) (kind : Fault → Prop) :
    FailsWith kind (Compile.document options document) ↔
      FailsWith kind (upgraded document) ∨ ∃ current, upgraded document = .ok current ∧
        (FailsWith (fun defect => kind (.defect defect)) (Schema.readSpecification current).result ∨
          ∃ spec, (Schema.readSpecification current).result = .ok spec ∧
            FailsWith kind (expandEntries options spec).result) := by
  refine (bind_failsWith_iff kind _ _).trans
    (or_congr Iff.rfl (exists_congr fun current => and_congr Iff.rfl ?_))
  refine (bind_failsWith_iff kind _ _).trans
    (or_congr (mapError_failsWith_iff kind _ _) (exists_congr fun spec => ?_))
  refine and_congr (mapError_ok_iff _ _ spec) ?_
  rw [← specification_failsWith_iff]
  refine (bind_failsWith_iff kind _ _).trans (or_iff_left ?_)
  rintro ⟨_, _, made⟩
  exact not_failsWith_ok _ _ made

theorem upgraded_failsWith_iff (document : Value) (kind : Fault → Prop) :
    FailsWith kind (upgraded document) ↔
      (∃ digits, Version.overlong? document.version.display.toList = some digits ∧
        kind (.overlong (.read digits))) ∨
      Version.overlong? document.version.display.toList = none ∧ document.isLegacy = true ∧
        Legacy.upgrade document = .error .notIterable ∧ kind .notIterable := by
  unfold upgraded
  cases Version.overlong? document.version.display.toList with
  | some digits => simp [failsWith_error_iff]
  | none =>
    cases document.isLegacy with
    | false => simp [not_failsWith_ok]
    | true =>
      cases Legacy.upgrade document with
      | ok current => simp [not_failsWith_ok]
      | error fault =>
        cases fault
        simp [failsWith_error_iff]

theorem document_coded (options : Options) (document : Value) (lead : String) :
    ¬ FailsWith (· = .noCode lead) (Compile.document options document) := by
  rw [document_failsWith_iff, upgraded_failsWith_iff]
  rintro ((⟨_, _, same⟩ | ⟨_, _, _, same⟩) | ⟨_, _, ⟨_, _, same⟩ | ⟨spec, _, failed⟩⟩)
  · cases same
  · cases same
  · cases same
  · obtain ⟨label, resolved, _, failed, _, same⟩ := expandEntries_failsWith options _ spec failed
    exact Foreach.expand_uncoded label lead spec.definitions resolved ⟨_, failed, same⟩

/-- The bindings of a compiled document are fit for an editor, and on no document is there a prefix
without a code. -/
theorem document_usable (options : Options) (document : Value) :
    (∀ compiled, Compile.document options document = .ok compiled →
      ∃ entries expanded, Declares options document entries expanded ∧
        compiled.result.diagnostics.rawBindings = entries.length ∧
        ∀ binding ∈ compiled.result.bindings,
          Usable compiled.result.codes entries expanded binding) ∧
    ∀ lead, Compile.document options document ≠ .error (.noCode lead) := by
  constructor
  · intro compiled ended
    obtain ⟨current, spec, result, upgrading, reading, compiling, made⟩ :=
      document_sections options document compiled ended
    obtain ⟨root, rfl, entries⟩ := Schema.readSpecification_entries current spec reading
    obtain ⟨expanded, expanding, usable⟩ := specification_usable options spec result compiling
    refine ⟨spec.bindings, expanded, ⟨root, spec, upgrading, entries, reading, expanding⟩, ?_, ?_⟩
    · rw [made]
      exact specification_raw options spec result compiling
    · rw [made]
      exact usable
  · exact fun lead failed => document_coded options document lead ⟨_, failed, rfl⟩

theorem usable_of_two_entries :
    ∃ compiled entries expanded, Compile.document .default (plainDocument []
        [[("key", .text "a b"), ("command", .text "first")],
         [("key", .text "c"), ("command", .text "second"),
          ("prefixes", .text Legacy.allPrefixes)]]) = .ok compiled ∧
      compiled.result.bindings.map (·.prefixCode) = [some 0, some 1, none] ∧
      entries.length = 2 ∧
      ∀ binding ∈ compiled.result.bindings,
        Usable compiled.result.codes entries expanded binding := by
  obtain ⟨compiled, ended, found⟩ := ended_of_check (Compile.document .default (plainDocument []
      [[("key", .text "a b"), ("command", .text "first")],
       [("key", .text "c"), ("command", .text "second"),
        ("prefixes", .text Legacy.allPrefixes)]]))
    (fun compiled => compiled.result.bindings.map (·.prefixCode) = [some 0, some 1, none] &&
      compiled.result.diagnostics.rawBindings = 2) (by decide +kernel)
  simp only [Bool.and_eq_true, decide_eq_true_eq] at found
  obtain ⟨entries, expanded, _, raw, usable⟩ := (document_usable .default _).1 compiled ended
  exact ⟨compiled, entries, expanded, ended, found.1, raw.symm.trans found.2, usable⟩

end Compile

end Keymap
