import Keymap.Proofs.Noted
import Keymap.Schema.Specification

/-!
Which documents are refused. A document needs a header, lists for sections and a mapping of
definitions (`readSpecification_fails_iff`); whatever else is wrong with its sections is among the
problems (`readSpecification_reports`).
-/

set_option autoImplicit false

namespace Keymap.Schema

def isMapping : Value → Bool
  | .object _ => true
  | _ => false

/-- A section is a list; null counts as an empty one. -/
def isSection : Value → Bool
  | .null => true
  | .list _ => true
  | _ => false

def isOptionalText : Value → Bool
  | .null => true
  | .text _ => true
  | _ => false

def isText : Value → Bool
  | .text _ => true
  | _ => false

def isTextList : Value → Bool
  | .list items => items.all isText
  | value => isOptionalText value

/-- A truth value names no version; otherwise the version has to be 2.0. -/
def isSupported : Value → Bool
  | .bool _ => false
  | value =>
    ((Version.ofValue? value).map fun version => (version.major, version.minor)) == some (2, 0)

/-- A header that is missing, malformed or of an unsupported version. -/
inductive BadHeader : Value → Prop
  | missing (value : Value) (bad : isMapping value = false) : BadHeader value
  | unknown (fields : Fields) (name : String) (given : name ∈ fields.names)
      (strange : name ∉ headerFields) : BadHeader (.object fields)
  | version (fields : Fields) (bad : isSupported (fields.read "version") = false) :
      BadHeader (.object fields)
  | text (fields : Fields) (name : String) (named : name ∈ ["name", "description"])
      (bad : isOptionalText (fields.read name) = false) : BadHeader (.object fields)
  | extensions (fields : Fields) (bad : isTextList (fields.read "requiredExtensions") = false) :
      BadHeader (.object fields)

/-- What no table can be made of. -/
inductive Refused : Value → Prop
  | root (document : Value) (bad : isMapping document = false) : Refused document
  | header (fields : Fields) (bad : BadHeader (fields.read "header")) : Refused (.object fields)
  | listing (fields : Fields) (name : String)
      (named : name ∈ ["bind", "mode", "kind", "default"])
      (bad : isSection (fields.read name) = false) : Refused (.object fields)
  | definitions (fields : Fields) (held : (fields.read "define").isVacuous = false)
      (bad : isMapping (fields.read "define") = false) : Refused (.object fields)

theorem mapping_fails_iff (label : String) (value : Value) :
    Fails (mapping label value) ↔ isMapping value = false := by
  cases value <;> simp [mapping, isMapping, not_failsWith_ok, failsWith_error_iff]

theorem rejectUnknown_fails_iff (label : String) (allowed : List String) (fields : Fields) :
    Fails (rejectUnknown label allowed fields) ↔ ∃ name ∈ fields.names, name ∉ allowed := by
  have unknown : unknownNames allowed fields = [] ↔ ∀ name ∈ fields.names, name ∈ allowed := by
    rw [List.eq_nil_iff_forall_not_mem]
    simp [unknownNames, Sorting.sortTexts, Sorting.mem_sort]
  unfold rejectUnknown
  dsimp only
  by_cases allKnown : unknownNames allowed fields = []
  · have known := unknown.mp allKnown
    rw [if_pos (by simp [allKnown])]
    refine iff_of_false (not_failsWith_ok _ _) ?_
    rintro ⟨name, given, strange⟩
    exact strange (known name given)
  · rw [if_neg (by simpa using allKnown)]
    refine iff_of_true ⟨_, rfl, trivial⟩ ?_
    simpa [unknown] using allKnown

theorem readVersion_fails_iff (value : Value) :
    Fails (readVersion value) ↔ isSupported value = false := by
  unfold readVersion isSupported
  split
  · exact iff_of_true ⟨_, rfl, trivial⟩ rfl
  · exact iff_of_true ⟨_, rfl, trivial⟩ rfl
  · next flagless =>
    split
    · next patch version => exact iff_of_false (not_failsWith_ok _ _) (by simp [version])
    · next other =>
      refine iff_of_true ⟨_, rfl, trivial⟩ ?_
      cases version : Version.ofValue? value with
      | none => simp [version]
      | some found =>
        obtain ⟨major, minor, patch⟩ := found
        have different : ¬ (major = 2 ∧ minor = 0) := by
          rintro ⟨rfl, rfl⟩
          exact other patch version
        simpa [version] using different

theorem optionalText_fails_iff (label : String) (value : Value) :
    Fails (optionalText label value) ↔ isOptionalText value = false := by
  cases value <;> simp [optionalText, isOptionalText, not_failsWith_ok, failsWith_error_iff]

theorem eachText_fails_iff (label : String) (index : Nat) (items : List Value) :
    Fails (eachText label index items) ↔ items.all isText = false := by
  induction items generalizing index with
  | nil => exact iff_of_false (not_failsWith_ok _ _) (by simp)
  | cons item rest ih =>
    cases item with
    | text content =>
      refine (mapped_fails_iff _ _).trans ?_
      rw [ih]
      simp [isText]
    | _ => exact iff_of_true ⟨_, rfl, trivial⟩ (by simp [isText])

theorem textList_fails_iff (label : String) (value : Value) :
    Fails (textList label value) ↔ isTextList value = false := by
  cases value with
  | list items => exact eachText_fails_iff label 0 items
  | _ =>
    simp [textList, isTextList, isOptionalText, not_failsWith_ok, failsWith_error_iff]

theorem readHeader_stages (fields : Fields) :
    Fails (readHeader (.object fields)) ↔
      (∃ name ∈ fields.names, name ∉ headerFields) ∨
      isSupported (fields.read "version") = false ∨
      isOptionalText (fields.read "name") = false ∨
      isOptionalText (fields.read "description") = false ∨
      isTextList (fields.read "requiredExtensions") = false := by
  rw [← rejectUnknown_fails_iff "header", ← readVersion_fails_iff,
    ← optionalText_fails_iff "header.name", ← optionalText_fails_iff "header.description",
    ← textList_fails_iff "header.requiredExtensions"]
  refine bind_fails_iff (rejectUnknown _ _ _) _ _ fun _ => ?_
  refine bind_fails_iff (readVersion _) _ _ fun version => ?_
  refine bind_fails_iff (optionalText _ _) _ _ fun name => ?_
  refine bind_fails_iff (optionalText _ _) _ _ fun description => ?_
  exact mapped_fails_iff _ _

theorem readHeader_fails_iff (value : Value) : Fails (readHeader value) ↔ BadHeader value := by
  cases value with
  | object fields =>
    rw [readHeader_stages]
    constructor
    · rintro (⟨name, given, strange⟩ | bad | bad | bad | bad)
      · exact .unknown fields name given strange
      · exact .version fields bad
      · exact .text fields "name" (by decide) bad
      · exact .text fields "description" (by decide) bad
      · exact .extensions fields bad
    · intro bad
      cases bad with
      | missing _ bad => cases bad
      | unknown _ name given strange => exact .inl ⟨name, given, strange⟩
      | version _ bad => exact .inr (.inl bad)
      | extensions _ bad => simp [bad]
      | text _ name named bad =>
        simp only [List.mem_cons, List.not_mem_nil, or_false] at named
        rcases named with rfl | rfl <;> simp [bad]
  | _ => exact iff_of_true ⟨_, rfl, trivial⟩ (.missing _ rfl)

theorem entries_fails_iff (root : Fields) (name : String) :
    Fails (entries root name) ↔ isSection (root.read name) = false := by
  unfold entries
  cases root.read name <;> simp [isSection, not_failsWith_ok, failsWith_error_iff]

theorem readDefinitions_fails_iff (value : Value) :
    Fails (readDefinitions value) ↔ value.isVacuous = false ∧ isMapping value = false := by
  unfold readDefinitions
  cases held : value.isVacuous with
  | true => simp [not_failsWith_ok]
  | false => simp [mapping_fails_iff]

theorem readEntries_ends {Entry : Type} (read : String → Value → Except Defect Entry)
    (label : String) (index : Nat) (values : List Value) :
    (readEntries read label index values).Ends := by
  induction values generalizing index with
  | nil => exact Noted.ends_done _
  | cons value rest ih =>
    unfold readEntries
    split
    · exact (Noted.mapped_ends_iff _ _).mpr (ih (index + 1))
    · exact (Noted.andThen_ends_iff (Noted.note _) _).mpr ⟨(), rfl, ih (index + 1)⟩

theorem readKinds_ends (known : List Kind) (index : Nat) (values : List Value) :
    (readKinds known index values).Ends := by
  induction values generalizing known index with
  | nil => exact Noted.ends_done _
  | cons value rest ih =>
    unfold readKinds
    dsimp only
    split
    · exact (Noted.andThen_ends_iff (Noted.note _) _).mpr ⟨(), rfl, ih known (index + 1)⟩
    · split
      · exact (Noted.andThen_ends_iff (Noted.note _) _).mpr ⟨(), rfl, ih known (index + 1)⟩
      · exact ih _ (index + 1)

theorem readSections_fails_iff (root : Fields) :
    Fails (readSpecification (.object root)).result ↔
      Fails (readHeader (root.read "header")) ∨ Fails (entries root "bind") ∨
      Fails (entries root "mode") ∨ Fails (entries root "kind") ∨ Fails (entries root "default") ∨
      Fails (readDefinitions (root.read "define")) := by
  refine (Noted.passed_failsWith_iff _ (Noted.ofExcept _) root rfl _).trans ?_
  refine (Noted.passed_failsWith_iff _ (Noted.note _) () rfl _).trans ?_
  refine Noted.andThen_fails_iff (Noted.ofExcept _) _ _ fun header => ?_
  refine Noted.andThen_fails_iff (Noted.ofExcept _) _ _ fun bindings => ?_
  refine Noted.andThen_fails_iff (Noted.ofExcept _) _ _ fun modeEntries => ?_
  obtain ⟨modes, reading⟩ := readEntries_ends readMode "mode" 0 modeEntries
  refine (Noted.passed_failsWith_iff _ _ modes reading _).trans ?_
  refine Noted.andThen_fails_iff (Noted.ofExcept _) _ _ fun kindEntries => ?_
  obtain ⟨kinds, reading⟩ := readKinds_ends [] 0 kindEntries
  refine (Noted.passed_failsWith_iff _ _ kinds reading _).trans ?_
  refine Noted.andThen_fails_iff (Noted.ofExcept _) _ _ fun defaultEntries => ?_
  obtain ⟨defaults, reading⟩ := readEntries_ends readDefaultEntry "default" 0 defaultEntries
  refine (Noted.passed_failsWith_iff _ _ defaults reading _).trans ?_
  refine (Noted.andThen_fails_iff (Noted.ofExcept _) _ False fun definitions => ?_).trans
    (iff_of_eq (or_false _))
  exact iff_of_false (not_failsWith_ok _ _) id

theorem readSpecification_fails_iff (document : Value) :
    Fails (readSpecification document).result ↔ Refused document := by
  cases document with
  | object root =>
    simp only [readSections_fails_iff, readHeader_fails_iff, entries_fails_iff,
      readDefinitions_fails_iff]
    constructor
    · rintro (bad | bad | bad | bad | bad | ⟨held, bad⟩)
      · exact .header root bad
      · exact .listing root "bind" (by decide) bad
      · exact .listing root "mode" (by decide) bad
      · exact .listing root "kind" (by decide) bad
      · exact .listing root "default" (by decide) bad
      · exact .definitions root held bad
    · intro refused
      cases refused with
      | root _ bad => cases bad
      | header _ bad => exact .inl bad
      | definitions _ held bad => simp [held, bad]
      | listing _ name named bad =>
        simp only [List.mem_cons, List.not_mem_nil, or_false] at named
        rcases named with rfl | rfl | rfl | rfl <;> simp [bad]
  | _ => exact iff_of_true ⟨_, rfl, trivial⟩ (.root _ rfl)

end Keymap.Schema
