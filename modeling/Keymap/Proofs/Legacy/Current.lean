import Keymap.Compile.Document
import Keymap.Proofs.Legacy.Walk

/-!
The current layout is reached in one step. What a document yields is no legacy document any more:
it is left as it is, and it compiles as the document does (`upgrade_settles`).
-/

set_option autoImplicit false

namespace Keymap

namespace Legacy

/-- A field whose name no rule sets ends up under its own name. -/
theorem get?_upgradeFields_kept (table : List Rule) (root : Fields) (path : Path)
    (fields result : Fields) (name : String) (value : Value)
    (never : ∀ rule ∈ table, rule.action ≠ .rename name)
    (kept : nameAfter table path name = name) (distinct : fields.names.Nodup)
    (found : fields.get? name = some value)
    (ended : upgradeFields table root path [] fields = .ok result) :
    ∃ upgraded, upgradeAt table root path (.field name) value = .ok upgraded ∧
      result.get? name = some upgraded := by
  have placed := get?_upgradeFields table root path [] fields result name ended
  have alone (other : String) (_ : other ∈ fields.names)
      (same : nameAfter table path other = name) : other = name :=
    name_kept table path other name same never
  rw [latest_kept (nameAfter table path) name fields distinct kept alone, found] at placed
  exact placed

theorem header_kept : nameAfter rules [] "header" = "header" := rfl

theorem version_kept : nameAfter rules [.field "header"] "version" = "version" := rfl

theorem header_destination :
    destination rules [.field "header"] = ([.field "header"], none) := rfl

theorem version_destination : destination rules [.field "header", .field "version"] =
    ([.field "header", .field "version"], some .version) := rfl

theorem not_legacy_without_version (document : Value) (unversioned : document.version = .null) :
    document.isLegacy = false := by
  rw [Value.isLegacy, unversioned]
  rfl

/-- A legacy document has a header that is a mapping and names a version. -/
theorem header_of_legacy (root : Fields) (legacy : (Value.object root).isLegacy = true) :
    ∃ (header : Fields) (version : Value), root.get? "header" = some (.object header) ∧
      header.get? "version" = some version := by
  have versioned : (Value.object root).version ≠ .null := by
    intro unversioned
    cases (not_legacy_without_version _ unversioned).symm.trans legacy
  rw [Value.version, Fields.read] at versioned
  cases named : root.get? "header" with
  | none => simp [named] at versioned
  | some found =>
    rw [named, Option.getD_some] at versioned
    cases found with
    | object header =>
      cases set : Fields.get? "version" header with
      | none => simp [Fields.read, set] at versioned
      | some version => exact ⟨header, version, rfl, set⟩
    | _ => exact absurd rfl versioned

theorem upgraded_version (root : Fields) (result : Value)
    (once : (Value.object root).namesOnce = true) (legacy : (Value.object root).isLegacy = true)
    (ended : upgradeValue rules root [] none (.object root) = .ok result) :
    result.version = .text "2.0" := by
  obtain ⟨header, version, named, versioned⟩ := header_of_legacy root legacy
  obtain ⟨distinct, each⟩ := (Value.namesOnce_object root).mp once
  have within := each _ (Fields.mem_of_get? "header" _ root named)
  rw [upgradeValue] at ended
  obtain ⟨fields, walked, ended⟩ := bind_ok _ _ _ ended
  cases ended
  obtain ⟨newHeader, here, placed⟩ := get?_upgradeFields_kept rules root [] root fields "header" _
    (by decide) header_kept distinct named walked
  rw [upgradeAt, List.nil_append, header_destination, upgradeValue] at here
  obtain ⟨inside, walked, ended⟩ := bind_ok _ _ _ here
  cases ended
  obtain ⟨newVersion, here, set⟩ := get?_upgradeFields_kept rules root [.field "header"] header
    inside "version" version (by decide) version_kept ((Value.namesOnce_object header).mp within).1
    versioned walked
  rw [upgradeAt, List.singleton_append, version_destination, upgradeValue_converts] at here
  cases here
  simp [Value.version, Fields.read, placed, set]

/-- The document's version can be read, and the document in the current layout is this one. -/
def Yields (document current : Value) : Prop :=
  Version.overlong? document.version.display.toList = none ∧ upgrade document = .ok current

theorem upgraded_of_yields (document current : Value) (yields : Yields document current) :
    Compile.upgraded document =
      if document.isLegacy then .ok current else .ok document := by
  rw [Compile.upgraded, yields.1, yields.2]

theorem upgrade_current (document : Value) (once : document.namesOnce = true)
    (settled : document.isLegacy = false) : upgrade document = .ok document := by
  cases document with
  | object root =>
    rw [upgrade, settled]
    exact copied [] root [] (untouched_without_rules []) _ once
  | _ => rfl

/-- What a document yields is in the current layout, names no field twice and has a version that can
be read. -/
theorem settled_of_yields (root : Fields) (current : Value)
    (once : (Value.object root).namesOnce = true) (yields : Yields (.object root) current) :
    current.isLegacy = false ∧ current.namesOnce = true ∧
      Version.overlong? current.version.display.toList = none := by
  have walked := yields.2
  cases legacy : (Value.object root).isLegacy with
  | false =>
    cases (upgrade_current (.object root) once legacy).symm.trans walked
    exact ⟨legacy, once, yields.1⟩
  | true =>
    rw [upgrade, legacy] at walked
    have version := upgraded_version root current once legacy walked
    refine ⟨?_, upgradeValue_once rules root [] none _ current once walked, ?_⟩
    · rw [Value.isLegacy, version]
      decide
    · rw [version]
      decide

/-- Documents that are read as one document compile alike but for the mark that one was legacy. -/
theorem document_alike (options : Options) (document current : Value)
    (first : Compile.upgraded document = .ok current)
    (second : Compile.upgraded current = .ok current) (settled : current.isLegacy = false) :
    Compile.document options current = (Compile.document options document).map fun compiled =>
      { compiled with upgraded := false } := by
  unfold Compile.document
  rw [first, second, settled]
  change (((Schema.readSpecification current).result.mapError _) >>= _) =
    Except.map _ (((Schema.readSpecification current).result.mapError _) >>= _)
  cases (Schema.readSpecification current).result with
  | error defect => rfl
  | ok spec =>
    change ((Compile.specification options spec).result >>= _) =
      Except.map _ ((Compile.specification options spec).result >>= _)
    cases (Compile.specification options spec).result <;> rfl

/-- A document in the current layout stays as it is, and the document that any other yields is in
the current layout and compiles alike: to the same table with the same problems, or to the same
fault. -/
theorem upgrade_settles (root : Fields) (current : Value)
    (once : (Value.object root).namesOnce = true) (yields : Yields (.object root) current) :
    current.isLegacy = false ∧ Yields current current ∧
      ((Value.object root).isLegacy = false → current = .object root) ∧
      ∀ options, Compile.document options current =
        (Compile.document options (.object root)).map fun compiled =>
          { compiled with upgraded := false } := by
  obtain ⟨settled, kept, readable⟩ := settled_of_yields root current once yields
  have again : Yields current current := ⟨readable, upgrade_current current kept settled⟩
  have same : (Value.object root).isLegacy = false → current = .object root := by
    intro modern
    have copied := upgrade_current (.object root) once modern
    exact (Except.ok.inj (copied.symm.trans yields.2)).symm
  refine ⟨settled, again, same, fun options => ?_⟩
  apply document_alike options _ current _ _ settled
  · rw [upgraded_of_yields _ current yields]
    split
    · rfl
    · next modern => rw [same ((Bool.not_eq_true _).mp modern)]
  · rw [upgraded_of_yields _ current again]
    split <;> rfl

def olderDocument : Fields :=
  [("header", .object [("version", .text "1.2")]),
   ("bind", .list [.object
     [("key", .text "d"), ("command", .text "runCommands"), ("path", .text "motion"),
      ("prefixes", .text "<all-prefixes>"), ("args", .object
       [("commands", .list [.text "cut", .object
         [("command", .text "replayFromStack"),
          ("args", .object [("at", .text "{last}")])]])])]])]

def newerDocument : Value := .object
  [("header", .object [("version", .text "2.0")]),
   ("bind", .list [.object
     [("key", .text "d"), ("command", .text "runCommands"), ("defaults", .text "motion"),
      ("prefixes", .text allPrefixes), ("args", .object
       [("commands", .list [.text "cut", .object
         [("command", .text "replayFromStack"),
          ("args", .object [("whereComputedIndexIs", .text (Braces.double "{last}"))])]])])]])]

theorem older_settles : Yields (.object olderDocument) newerDocument ∧
    newerDocument.isLegacy = false ∧ Yields newerDocument newerDocument ∧
      ∀ options, Compile.document options newerDocument =
        (Compile.document options (.object olderDocument)).map fun compiled =>
          { compiled with upgraded := false } := by
  have yields : Yields (.object olderDocument) newerDocument := ⟨by decide +kernel, rfl⟩
  have once : (Value.object olderDocument).namesOnce = true := by decide +kernel
  obtain ⟨settled, again, -, alike⟩ := upgrade_settles olderDocument newerDocument once yields
  exact ⟨yields, settled, again, alike⟩

end Legacy

end Keymap
