import Keymap.Proofs.Compile.Concrete
import Keymap.Proofs.Compile.Reports
import Keymap.Proofs.Legacy.Upgrade
import Keymap.Proofs.Schema.Specification

/-!
How a compilation can end. It refuses a document for its header, for a section that is no list and
for definitions that are no mapping, and all else that is wrong is reported beside the result. But
for three things: a version of too many digits, the commands of a legacy sequence that are no list,
and an entry with variables that counts too far (`document_outcome`).
-/

set_option autoImplicit false

namespace Keymap

namespace Compile

open Schema (Refused)

/-- What ends a compilation with neither a table nor a refusal. Texts hold no surrogates here, so
each has a digest, and data and key patterns may be nested to any depth. -/
inductive Escapes (document : Value) : Prop
  | version (digits : Nat)
      (long : Version.overlong? document.version.display.toList = some digits) : Escapes document
  | arguments (root : Fields) (mapping : document = .object root)
      (legacy : document.isLegacy = true) (stuck : Legacy.HoldsStuck root) : Escapes document
  | entry (current : Value) (upgrading : upgraded document = .ok current) (spec : Specification)
      (read : (Schema.readSpecification current).result = .ok spec) (index : Nat) (value : Value)
      (stands : spec.bindings[index]? = some value) (halts : EntryHalts spec index value) :
      Escapes document

theorem expandEntries_no_defect (options : Options) (spec : Specification) :
    ¬ FailsWith (fun fault => fault.isDefect = true) (expandEntries options spec).result := by
  intro failed
  obtain ⟨_, _, _, _, ends, defect⟩ := expandEntries_failsWith options _ spec failed
  cases ends.symm.trans defect

theorem expandEntries_stops_iff (options : Options) (spec : Specification) :
    Stops (expandEntries options spec).result ↔
      ∃ index value, spec.bindings[index]? = some value ∧ EntryHalts spec index value := by
  have fails : Stops (expandEntries options spec).result ↔
      Fails (expandEntries options spec).result := by
    constructor
    · rintro ⟨fault, failed, _⟩
      exact ⟨fault, failed, trivial⟩
    · rintro ⟨fault, failed, _⟩
      refine ⟨fault, failed, (Bool.not_eq_true _).mp fun defect => ?_⟩
      exact expandEntries_no_defect options spec ⟨fault, failed, defect⟩
  have ends := expandEntries_ends_iff options spec
  rw [Noted.ends_iff, ← fails] at ends
  rw [← not_iff_not, ends]
  simp

/-- A compilation stops with more than a defect if something in the document escapes, and only
then. -/
theorem document_stops_iff (options : Options) (document : Value) :
    Stops (Compile.document options document) ↔ Escapes document := by
  rw [Stops, document_failsWith_iff, upgraded_failsWith_iff]
  constructor
  · rintro ((⟨digits, long, _⟩ | ⟨_, legacy, failed, _⟩) |
      ⟨current, upgrading, ⟨_, _, defect⟩ | ⟨spec, read, stops⟩⟩)
    · exact .version digits long
    · obtain ⟨_, root, mapping, stuck⟩ :=
        (Legacy.upgrade_fails_iff document).mp ⟨_, failed, trivial⟩
      exact .arguments root mapping legacy stuck
    · cases defect
    · obtain ⟨index, value, stands, halts⟩ := (expandEntries_stops_iff options spec).mp stops
      exact .entry current upgrading spec read index value stands halts
  · rintro (⟨digits, long⟩ | ⟨root, mapping, legacy, stuck⟩ |
      ⟨current, upgrading, spec, read, index, value, stands, halts⟩)
    · exact .inl (.inl ⟨digits, long, rfl⟩)
    · cases long : Version.overlong? document.version.display.toList with
      | some digits => exact .inl (.inl ⟨digits, rfl, rfl⟩)
      | none =>
        obtain ⟨fault, failed, _⟩ :=
          (Legacy.upgrade_fails_iff document).mpr ⟨legacy, root, mapping, stuck⟩
        cases fault
        exact .inl (.inr ⟨rfl, legacy, failed, rfl⟩)
    · exact .inr ⟨current, upgrading, .inr ⟨spec, read,
        (expandEntries_stops_iff options spec).mpr ⟨index, value, stands, halts⟩⟩⟩

theorem document_refused_iff (options : Options) (document : Value) :
    FailsWith (fun fault => fault.isDefect = true) (Compile.document options document) ↔
      ∃ current, upgraded document = .ok current ∧ Refused current := by
  rw [document_failsWith_iff, upgraded_failsWith_iff]
  constructor
  · rintro ((⟨_, _, defect⟩ | ⟨_, _, _, defect⟩) |
      ⟨current, upgrading, ⟨defect, failed, _⟩ | ⟨spec, _, failed⟩⟩)
    · cases defect
    · cases defect
    · exact ⟨current, upgrading,
        (Schema.readSpecification_fails_iff current).mp ⟨defect, failed, trivial⟩⟩
    · exact absurd failed (expandEntries_no_defect options spec)
  · rintro ⟨current, upgrading, refused⟩
    obtain ⟨defect, failed, _⟩ := (Schema.readSpecification_fails_iff current).mpr refused
    exact .inr ⟨current, upgrading, .inl ⟨defect, failed, rfl⟩⟩

/-- A document with a text among its entries. -/
def strayDocument : Value := .object
  [("header", .object [("version", .text "2.0")]), ("bind", .list [.text "a"])]

/-- A legacy document whose one binding runs a sequence that is a number. -/
def stuckDocument : Value := .object
  [("header", .object [("version", .text "1.0")]),
   ("bind", .list [.object [("key", .text "a"), ("command", .text "runCommands"),
     ("args", .object [("commands", Value.ofInt 5)])]])]

end Compile

end Keymap
