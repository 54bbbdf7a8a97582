import Keymap.Proofs.Compile.Failures
import Keymap.Proofs.Compile.Reordering
import Keymap.Proofs.Entry.Unset

/-!
Null in the entries of a document. An optional field that an entry names with null counts as one
that it does not name, wherever in the entry it stands. Three fields are exceptions: a null among
the variables is refused, a null reference is one to a default of the name `None`, and a null
condition settles where the conditions of the default are put (`null_absent_iff`).
-/

set_option autoImplicit false

namespace Keymap

open DefaultTable (referenceOf laidOver)
open Fields (Alike)
open Schema (itemLabel withEntries)

namespace Compile

variable (options : Options)

theorem readExpanded_erase {name : String} (known : name ∈ Schema.bindingFields)
    (other : name ≠ "foreach") (kinds : List Kind) (label : String) (index : Int)
    (entries : List Fields) (unset : ∀ entry ∈ entries, Fields.Unset name entry) :
    readExpanded options kinds label index (entries.map (Fields.erase name)) =
      readExpanded options kinds label index entries := by
  induction entries with
  | nil => rfl
  | cons entry rest ih =>
    obtain ⟨first, later⟩ := List.forall_mem_cons.mp unset
    rw [List.map_cons, readExpanded, readExpanded, ih later,
      Schema.readBinding_erase first known other]

section Entry

variable (spec : Specification) (index : Nat) {name : String} {left right : Fields}
  (known : name ∈ Schema.bindingFields) (apart : name ≠ "command") (other : name ≠ "foreach")

/-- An entry over its default. -/
def overlaid (spec : Specification) (index : Nat) (entry : Fields) : List Problem × Fields :=
  (DefaultTable.ofEntries spec.defaults).2.apply (itemLabel "bind" index) entry

include known apart other

theorem readEntry_erase (problems : (overlaid spec index left).1 = (overlaid spec index right).1)
    (leftUnset : (overlaid spec index left).2.Unset name)
    (rightUnset : (overlaid spec index right).2.Unset name)
    (same : (overlaid spec index left).2.erase name = (overlaid spec index right).2.erase name) :
    readEntry options spec (DefaultTable.ofEntries spec.defaults).2 index (.object left) =
      readEntry options spec (DefaultTable.ofEntries spec.defaults).2 index (.object right) := by
  have settled : Fields.erase name <$> prepared spec index left =
      Fields.erase name <$> prepared spec index right := by
    unfold overlaid at leftUnset rightUnset same
    unfold prepared
    rw [← Definition.resolve_erase _ _ leftUnset apart,
      ← Definition.resolve_erase _ _ rightUnset apart, same]
  unfold overlaid at problems
  unfold readEntry
  dsimp only [asEntry]
  -- Up to the field the two stay the same from stage to stage, and a stage fails for both or none.
  rcases map_alike _ settled with
    ⟨defect, leftRefused, rightRefused⟩ | ⟨first, second, leftReady, rightReady, alike⟩
  · rw [expandEntry_refused options spec index left defect leftRefused,
      expandEntry_refused options spec index right defect rightRefused, problems]
  have firstUnset := Definition.resolve_unset _ _ leftUnset first leftReady
  have secondUnset := Definition.resolve_unset _ _ rightUnset second rightReady
  have expanded : List.map (Fields.erase name) <$>
        Foreach.expand spec.definitions (itemLabel "bind" index) first =
      List.map (Fields.erase name) <$>
        Foreach.expand spec.definitions (itemLabel "bind" index) second := by
    rw [← Foreach.expand_erase _ _ firstUnset other, ← Foreach.expand_erase _ _ secondUnset other,
      alike]
  rw [Noted.map_eq, Noted.map_eq, Noted.mk.injEq] at expanded
  rw [expandEntry_ready options spec index left first leftReady,
    expandEntry_ready options spec index right second rightReady, problems, expanded.1]
  rcases map_alike _ expanded.2 with
    ⟨fault, leftFailed, rightFailed⟩ | ⟨firsts, seconds, leftDone, rightDone, alikeToo⟩
  · rw [leftFailed, rightFailed]
  · have firstsUnset := Foreach.expand_unset _ _ firstUnset firsts leftDone
    have secondsUnset := Foreach.expand_unset _ _ secondUnset seconds rightDone
    have read := readExpanded_erase options known other spec.kinds (itemLabel "bind" index) index
    simp only [leftDone, rightDone, settleFault, Noted.done, Noted.bind_eq, Noted.andThen]
    rw [← read firsts firstsUnset, ← read seconds secondsUnset, alikeToo]

end Entry

section Default

variable (spec : Specification) (index : Nat) {name : String}
  (known : name ∈ Schema.bindingFields) (apart : name ≠ "command") (other : name ≠ "foreach")
  (own : name ≠ "defaults")

/-- The default that an entry refers to; one that is not known is empty. -/
def referred (spec : Specification) (entry : Fields) : Default :=
  ((DefaultTable.ofEntries spec.defaults).2.lookup (referenceOf entry)).getD Default.empty

include known apart other own

/-- Entries that differ at most in a field that neither sets are read alike, if they differ no more
than that over their default. -/
theorem readEntry_alike {left right : Fields} (alike : Alike name left right)
    (laid : Alike name (laidOver (referred spec right) left)
      (laidOver (referred spec right) right)) :
    readEntry options spec (DefaultTable.ofEntries spec.defaults).2 index (.object left) =
      readEntry options spec (DefaultTable.ofEntries spec.defaults).2 index (.object right) := by
  have refers : referenceOf left = referenceOf right := by
    rw [referenceOf, alike.get?_of_ne _ (Ne.symm own), referenceOf]
  have problems : (overlaid spec index left).1 = (overlaid spec index right).1 := by
    rw [overlaid, overlaid, DefaultTable.apply_eq, DefaultTable.apply_eq, refers]
  have leftLaid : (overlaid spec index left).2 = laidOver (referred spec right) left := by
    rw [overlaid, DefaultTable.apply_eq, refers, referred]
  have rightLaid : (overlaid spec index right).2 = laidOver (referred spec right) right := by
    rw [overlaid, DefaultTable.apply_eq, referred]
  rcases laid with same | ⟨leftUnset, rightUnset, same⟩
  · have both : overlaid spec index left = overlaid spec index right := by
      apply Prod.ext problems
      rw [leftLaid, rightLaid, same]
    unfold overlaid at both
    unfold readEntry expandEntry
    dsimp only [asEntry]
    rw [both]
  · refine readEntry_erase options spec index known apart other problems ?_ ?_ ?_
    · rwa [leftLaid]
    · rwa [rightLaid]
    · rwa [leftLaid, rightLaid]

/-- A null that comes last in an entry is as good as nothing. -/
theorem readEntry_add_null {entry : Fields} (unset : entry.Unset name)
    (inherited : (referred spec entry).fields.Unset name) :
    readEntry options spec (DefaultTable.ofEntries spec.defaults).2 index
        (.object (entry.insert name .null)) =
      readEntry options spec (DefaultTable.ofEntries spec.defaults).2 index (.object entry) :=
  readEntry_alike options spec index known apart other own (Fields.alike_insert_null unset)
    (DefaultTable.laidOver_add_null inherited unset)

/-- So is a null anywhere in an entry, but for one that the conditions of a default would be put in
the place of. -/
theorem readEntry_with_null (notWhen : name ≠ "when") {front back : Fields}
    (unset : Fields.Unset name (front ++ back))
    (inherited : (referred spec (front ++ back)).fields.Unset name) :
    readEntry options spec (DefaultTable.ofEntries spec.defaults).2 index
        (.object (front ++ (name, .null) :: back)) =
      readEntry options spec (DefaultTable.ofEntries spec.defaults).2 index
        (.object (front ++ back)) :=
  readEntry_alike options spec index known apart other own (Fields.alike_added unset)
    (DefaultTable.laidOver_alike inherited notWhen (Fields.alike_added unset))

end Default

section Document

variable (spec : Specification) {value other : Value} (before after : List Value)

theorem readEntries_replaced (defaults : DefaultTable) (index : Nat)
    (same : ∀ place, readEntry options spec defaults place value =
      readEntry options spec defaults place other) :
    readEntries options spec defaults index (before ++ value :: after) =
      readEntries options spec defaults index (before ++ other :: after) := by
  induction before generalizing index with
  | nil => rw [List.nil_append, List.nil_append, readEntries, readEntries, same]
  | cons first rest ih => rw [List.cons_append, List.cons_append, readEntries, readEntries, ih]

theorem specification_replaced
    (same : ∀ index, readEntry options spec (DefaultTable.ofEntries spec.defaults).2 index value =
      readEntry options spec (DefaultTable.ofEntries spec.defaults).2 index other) :
    specification options { spec with bindings := before ++ value :: after } =
      specification options { spec with bindings := before ++ other :: after } := by
  have expanded : expandEntries options { spec with bindings := before ++ value :: after } =
      expandEntries options { spec with bindings := before ++ other :: after } := by
    unfold expandEntries
    dsimp only
    rw [readEntries_bindings options spec (before ++ value :: after),
      readEntries_bindings options spec (before ++ other :: after),
      readEntries_replaced options spec before after _ 0 same]
  unfold specification
  rw [expanded]
  simp only [List.length_append, List.length_cons]

theorem readSpecification_entries (root : Fields) (values : List Value) :
    Schema.readSpecification (withEntries root values) =
      (fun spec => { spec with bindings := values }) <$>
        Schema.readSpecification (withEntries root []) := by
  have names : Fields.names (root.insert "bind" (.list values)) =
      Fields.names (root.insert "bind" (.list [])) := by
    rw [Fields.names_insert, Fields.names_insert]
  have unknown : Schema.unknownNames Schema.sectionNames (root.insert "bind" (.list values)) =
      Schema.unknownNames Schema.sectionNames (root.insert "bind" (.list [])) := by
    rw [Schema.unknownNames, names, Schema.unknownNames]
  have elsewhere (name : String) (different : name ≠ "bind") :
      Schema.entries (root.insert "bind" (.list values)) name =
        Schema.entries (root.insert "bind" (.list [])) name := by
    rw [Schema.entries, Schema.read_other root [] values name different, Schema.entries]
  unfold Schema.readSpecification withEntries
  simp only [Schema.mapping, Noted.ofExcept_ok, pure_bind, unknown,
    Schema.read_other root [] values "header" (by decide),
    Schema.read_other root [] values "define" (by decide), elsewhere "mode" (by decide),
    elsewhere "kind" (by decide), elsewhere "default" (by decide), Schema.entries_withEntries,
    map_bind, map_pure]

theorem document_replaced (root : Fields)
    (current : (withEntries root (before ++ other :: after)).isLegacy = false)
    (same : ∀ spec,
      (Schema.readSpecification (withEntries root (before ++ other :: after))).result = .ok spec →
      ∀ index,
        readEntry options spec (DefaultTable.ofEntries spec.defaults).2 index value =
          readEntry options spec (DefaultTable.ofEntries spec.defaults).2 index other) :
    Compile.document options (withEntries root (before ++ value :: after)) =
      Compile.document options (withEntries root (before ++ other :: after)) := by
  have currentToo : (withEntries root (before ++ value :: after)).isLegacy = false := by
    rw [Value.isLegacy, Schema.version_withEntries] at current ⊢
    exact current
  unfold Compile.document upgraded
  rw [current, currentToo, Schema.version_withEntries, Schema.version_withEntries]
  cases Version.overlong? (Value.object root).version.display.toList with
  | some digits => rfl
  | none =>
    have reading := readSpecification_entries root (before ++ other :: after)
    have readingToo := readSpecification_entries root (before ++ value :: after)
    rw [Noted.map_eq] at reading readingToo
    rw [reading] at same
    simp only [Bool.false_eq_true, if_false, bind, Except.bind]
    rw [reading, readingToo]
    cases sections : (Schema.readSpecification (withEntries root [])).result with
    | error defect => rfl
    | ok spec =>
      rw [sections] at same
      have compiled : specification options { spec with bindings := before ++ value :: after } =
          specification options { spec with bindings := before ++ other :: after } :=
        specification_replaced options { spec with bindings := before ++ other :: after } before
          after (same _ rfl)
      simp only [Functor.map, Except.map, Except.mapError, compiled]

end Document

/-- The fields that an entry may do without. -/
def optionalFields : List String :=
  Schema.bindingFields.filter fun name => name ≠ "key" && name ≠ "command"

theorem known_of_optional {name : String} (optional : name ∈ optionalFields) :
    name ∈ Schema.bindingFields ∧ name ≠ "command" := by
  obtain ⟨known, required⟩ := List.mem_filter.mp optional
  refine ⟨known, ?_⟩
  rintro rfl
  cases required

/-- A document with one entry among others. -/
def entered (root : Fields) (before after : List Value) (entry : Fields) : Value :=
  withEntries root (before ++ .object entry :: after)

/-- What a document compiles to: its bindings, the codes of their sequences, and its problems. -/
def shown (options : Options) (document : Value) :
    Except Fault (List ConcreteBinding × CodeTable × List Problem) :=
  (fun compiled => (compiled.result.bindings, compiled.result.codes, compiled.result.problems)) <$>
    Compile.document options document

/-- A field of an entry in a current document that neither the entry nor the default that it refers
to sets. -/
structure Silent (root : Fields) (before after : List Value) (entry : Fields) (name : String) :
    Prop where
  current : (entered root before after entry).isLegacy = false
  own : entry.Unset name
  inherited : ∀ spec,
    (Schema.readSpecification (entered root before after entry)).result = .ok spec →
      ∀ default, (DefaultTable.ofEntries spec.defaults).2.lookup (referenceOf entry) =
        some default → default.fields.Unset name

section Absent

variable {name : String} (optional : name ∈ optionalFields) (own : name ≠ "defaults")
  (other : name ≠ "foreach") (root : Fields) (before after : List Value)

theorem referred_unset {entry : Fields} (silent : Silent root before after entry name)
    (spec : Specification)
    (reading : (Schema.readSpecification (entered root before after entry)).result = .ok spec) :
    (referred spec entry).fields.Unset name := by
  have inherited := silent.inherited spec reading
  unfold referred
  cases known : (DefaultTable.ofEntries spec.defaults).2.lookup (referenceOf entry) with
  | none => exact fun _ among => nomatch among
  | some default => exact inherited default known

include optional own other

theorem document_add_null {entry : Fields} (silent : Silent root before after entry name) :
    Compile.document options (entered root before after (entry.insert name .null)) =
      Compile.document options (entered root before after entry) := by
  obtain ⟨known, apart⟩ := known_of_optional optional
  apply document_replaced options before after root silent.current
  intro spec reading index
  exact readEntry_add_null options spec index known apart other own silent.own
    (referred_unset root before after silent spec reading)

theorem document_with_null (notWhen : name ≠ "when") {front back : Fields}
    (silent : Silent root before after (front ++ back) name) :
    Compile.document options (entered root before after (front ++ (name, .null) :: back)) =
      Compile.document options (entered root before after (front ++ back)) := by
  obtain ⟨known, apart⟩ := known_of_optional optional
  apply document_replaced options before after root silent.current
  intro spec reading index
  exact readEntry_with_null options spec index known apart other own notWhen silent.own
    (referred_unset root before after silent spec reading)

end Absent

/-- Whether a null that is added to an entry as its last field changes nothing. -/
def AbsentLast (name : String) : Prop :=
  ∀ options root before after entry, Silent root before after entry name →
    shown options (entered root before after (entry.insert name .null)) =
      shown options (entered root before after entry)

/-- Whether a null that is put anywhere among the fields of an entry changes nothing. -/
def AbsentAnywhere (name : String) : Prop :=
  ∀ options root before after front back, Silent root before after (front ++ back) name →
    shown options (entered root before after (front ++ (name, .null) :: back)) =
      shown options (entered root before after (front ++ back))

theorem AbsentAnywhere.last {name : String} (anywhere : AbsentAnywhere name) : AbsentLast name := by
  intro options root before after entry silent
  by_cases held : name ∈ entry.names
  · rw [Fields.insert_null silent.own held]
  · have absent := anywhere options root before after entry []
    rw [List.append_nil] at absent
    rw [Fields.insert_of_new name .null entry held]
    exact absent silent

/-- What is said of a document that is compiled. -/
def told (document : Value) : Option (List String) :=
  (shown .default document).toOption.map fun seen => seen.2.2.map (·.message)

def plainEntry : Fields := [("key", .text "a"), ("command", .text "x")]

theorem silent_plain (name : String) (absent : name ∉ plainEntry.names) :
    Silent shuffledRoot [] [] plainEntry name := by
  refine ⟨by decide +kernel, Fields.unset_of_new _ absent, ?_⟩
  intro spec reading default found
  cases reading
  cases found
  exact fun _ among => nomatch among

theorem told_plain : told (entered shuffledRoot [] [] plainEntry) = some [] := by decide +kernel

theorem told_null_reference :
    told (entered shuffledRoot [] [] (plainEntry.insert "defaults" .null)) =
      some ["bind[0]: The default 'None' is undefined."] := by
  decide +kernel

theorem told_null_variables :
    told (entered shuffledRoot [] [] (plainEntry.insert "foreach" .null)) =
      some ["bind[0].foreach must be a mapping"] := by
  decide +kernel

theorem not_absentLast {name : String} (absent : name ∉ plainEntry.names) (message : String)
    (noted : told (entered shuffledRoot [] [] (plainEntry.insert name .null)) = some [message]) :
    ¬ AbsentLast name := by
  intro last
  have same := last .default shuffledRoot [] [] plainEntry (silent_plain name absent)
  have silenced : told (entered shuffledRoot [] [] (plainEntry.insert name .null)) = some [] := by
    rw [told, same]
    exact told_plain
  cases noted.symm.trans silenced

/-- A document whose default for all bindings adds a condition. -/
def guardedRoot : Fields :=
  [("header", .object [("version", .text "2.0")]),
   ("default", .list [.object [("id", .text ""), ("appendWhen", .text "\x7b\x7b y \x7d\x7d")]])]

def keyed : Fields := [("key", .text "a")]

def ranging : Fields :=
  [("command", .text "\x7b\x7b x \x7d\x7d"), ("foreach", .object [("n", .list [.text "b"])])]

theorem silent_ranging : Silent guardedRoot [] [] (keyed ++ ranging) "when" := by
  refine ⟨by decide +kernel, Fields.unset_of_new _ (by decide), ?_⟩
  intro spec reading default found
  cases reading
  cases found
  exact fun _ among => nomatch among

/-- The conditions of the default are put in the place of the null, before the command, and so are
the complaints about them. -/
theorem not_absentAnywhere_when : ¬ AbsentAnywhere "when" := by
  intro anywhere
  have same := anywhere .default guardedRoot [] [] keyed ranging silent_ranging
  have order : told (entered guardedRoot [] [] (keyed ++ ("when", .null) :: ranging)) ≠
      told (entered guardedRoot [] [] (keyed ++ ranging)) := by decide +kernel
  exact order (by rw [told, same, told])

/-- A field that is null counts as one that is not there, but for a reference to a default and the
variables of an entry, and where it stands does not matter, but for the condition. -/
theorem null_absent_iff (name : String) (optional : name ∈ optionalFields) :
    (AbsentLast name ↔ name ≠ "defaults" ∧ name ≠ "foreach") ∧
    (AbsentAnywhere name ↔ name ≠ "defaults" ∧ name ≠ "foreach" ∧ name ≠ "when") := by
  have exceptions (last : AbsentLast name) : name ≠ "defaults" ∧ name ≠ "foreach" := by
    constructor
    · rintro rfl
      exact not_absentLast (by decide) _ told_null_reference last
    · rintro rfl
      exact not_absentLast (by decide) _ told_null_variables last
  refine ⟨⟨exceptions, ?_⟩, ⟨?_, ?_⟩⟩
  · rintro ⟨own, other⟩ options root before after entry silent
    rw [shown, shown, document_add_null options optional own other root before after silent]
  · intro anywhere
    obtain ⟨own, other⟩ := exceptions anywhere.last
    refine ⟨own, other, ?_⟩
    rintro rfl
    exact not_absentAnywhere_when anywhere
  · rintro ⟨own, other, notWhen⟩ options root before after front back silent
    rw [shown, shown,
      document_with_null options optional own other root before after notWhen silent]

/-- A null condition that comes last leaves both complaints in their order. -/
theorem nullCondition_absent :
    shown .default (entered guardedRoot [] [] ((keyed ++ ranging).insert "when" .null)) =
      shown .default (entered guardedRoot [] [] (keyed ++ ranging)) ∧
    (told (entered guardedRoot [] [] (keyed ++ ranging))).map List.length = some 2 := by
  have absent := (null_absent_iff "when" (by decide)).1.mpr ⟨by decide, by decide⟩
  exact ⟨absent .default guardedRoot [] [] _ silent_ranging, by decide +kernel⟩

/-- Of two optional fields a null is told. -/
theorem nulls_told :
    ¬ (∀ name ∈ optionalFields, AbsentLast name) ∧
    told (entered shuffledRoot [] [] plainEntry) = some [] ∧
    told (entered shuffledRoot [] [] (plainEntry.insert "defaults" .null)) =
      some ["bind[0]: The default 'None' is undefined."] ∧
    told (entered shuffledRoot [] [] (plainEntry.insert "foreach" .null)) =
      some ["bind[0].foreach must be a mapping"] := by
  refine ⟨fun all => ?_, told_plain, told_null_reference, told_null_variables⟩
  exact not_absentLast (by decide) _ told_null_variables (all "foreach" (by decide))

end Compile

end Keymap
