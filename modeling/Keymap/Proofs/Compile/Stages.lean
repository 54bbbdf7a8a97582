import Keymap.Compile.Document
import Keymap.Proofs.Noted

/-!
The stages of a compilation, read off one that came to its end: the modes, the bindings that each
hold in one mode, their sequences taken apart, and the bindings as the editor takes them.
-/

set_option autoImplicit false

namespace Keymap

namespace Compile

/-- A document that holds its version, its modes and its entries. -/
def plainDocument (modes entries : List Fields) : Value := .object
  [("header", .object [("version", .text "2.0")]), ("mode", .list (modes.map .object)),
   ("bind", .list (entries.map .object))]

/-- The bindings that sequences are compiled from: those of the document by priority, each with
one prefix at most and in one mode, with the documentation that they share. -/
def placed (modes : List Mode) (expanded : List Binding) : List Binding :=
  Docs.merge (ModeTable.expand modes (Sequence.splitAll (byPriority expanded))).2

theorem specification_stages (options : Options) (spec : Specification) (result : CompileResult)
    (ended : (specification options spec).result = .ok result) :
    ∃ expanded, (expandEntries options spec).result = .ok expanded ∧
      result.modes = (ModeTable.ofModes spec.modes).2 ∧
      result.codes = (Sequence.compile options (placed result.modes expanded)).codes.freeze ∧
      (∀ problem ∈ (Sequence.compile options (placed result.modes expanded)).table.problems,
        problem ∈ (specification options spec).notes) ∧
      assemble options result.codes
        (Sequence.compile options (placed result.modes expanded)).table.bindings =
          .ok result.bindings := by
  obtain ⟨_, _, ended⟩ := Noted.andThen_ok _ _ _ ended
  obtain ⟨expanded, expanding, ended⟩ := Noted.andThen_ok _ _ _ ended
  obtain ⟨_, _, ended⟩ := Noted.andThen_ok _ _ _ ended
  obtain ⟨_, _, ended⟩ := Noted.andThen_ok _ _ _ ended
  obtain ⟨bindings, assembled, ended⟩ := Noted.andThen_ok _ _ _ ended
  cases ended
  refine ⟨expanded, expanding, rfl, rfl, ?_, assembled⟩
  intro problem present
  apply Noted.mem_notes_andThen _ _ _ rfl problem
  apply Noted.mem_notes_andThen _ _ expanded expanding problem
  apply Noted.mem_notes_andThen _ _ _ rfl problem
  exact List.mem_append_left _ present

/-- A document that came to its end was read into its sections, and these were compiled. -/
theorem document_sections (options : Options) (document : Value) (compiled : Compiled)
    (ended : Compile.document options document = .ok compiled) :
    ∃ current spec result, upgraded document = .ok current ∧
      (Schema.readSpecification current).result = .ok spec ∧
      (specification options spec).result = .ok result ∧
      compiled.result = withProblems
        ((Schema.readSpecification current).notes ++ (specification options spec).notes) result := by
  obtain ⟨current, upgrading, ended⟩ := bind_ok _ _ _ ended
  obtain ⟨spec, reading, ended⟩ := bind_ok _ _ _ ended
  obtain ⟨result, compiling, ended⟩ := bind_ok _ _ _ ended
  cases ended
  exact ⟨current, spec, result, upgrading, (mapError_ok_iff _ _ _).mp reading, compiling, rfl⟩

theorem assemble_cons (options : Options) (codes : CodeTable) (binding : Binding)
    (rest : List Binding) (concrete : List ConcreteBinding)
    (assembled : assemble options codes (binding :: rest) = .ok concrete) :
    ∃ made others, ConcreteBinding.ofBinding options codes binding = .ok made ∧
      assemble options codes rest = .ok others ∧ concrete = made :: others := by
  obtain ⟨made, making, ended⟩ := bind_ok _ _ _ assembled
  obtain ⟨others, assembling, ended⟩ := bind_ok _ _ _ ended
  cases ended
  exact ⟨made, others, making, assembling, rfl⟩

theorem source_of_assembled (options : Options) (codes : CodeTable) (bindings : List Binding)
    (concrete : List ConcreteBinding) (assembled : assemble options codes bindings = .ok concrete)
    (made : ConcreteBinding) (among : made ∈ concrete) :
    ∃ binding ∈ bindings, ConcreteBinding.ofBinding options codes binding = .ok made := by
  induction bindings generalizing concrete with
  | nil =>
    cases assembled
    cases among
  | cons binding rest ih =>
    obtain ⟨first, others, making, assembling, rfl⟩ := assemble_cons _ _ _ _ _ assembled
    rcases List.mem_cons.mp among with rfl | later
    · exact ⟨binding, .head _, making⟩
    · obtain ⟨source, given, made⟩ := ih others assembling later
      exact ⟨source, .tail _ given, made⟩

theorem assembled_of_source (options : Options) (codes : CodeTable) (bindings : List Binding)
    (concrete : List ConcreteBinding) (assembled : assemble options codes bindings = .ok concrete)
    (source : Binding) (given : source ∈ bindings) :
    ∃ made ∈ concrete, ConcreteBinding.ofBinding options codes source = .ok made := by
  induction bindings generalizing concrete with
  | nil => cases given
  | cons binding rest ih =>
    obtain ⟨first, others, making, assembling, rfl⟩ := assemble_cons _ _ _ _ _ assembled
    rcases List.mem_cons.mp given with rfl | later
    · exact ⟨first, .head _, making⟩
    · obtain ⟨made, among, making⟩ := ih others assembling later
      exact ⟨made, .tail _ among, making⟩

end Compile

end Keymap
