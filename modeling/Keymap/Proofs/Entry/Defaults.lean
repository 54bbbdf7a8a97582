import Keymap.Entry.Defaults
import Keymap.Proofs.Value.Fields
import Mathlib.Data.List.Induction

/-!
Defaults as their ids say it. The table that the entries build in file order holds under each id
what the chain of its parents comes to, as far up as each parent is declared before its child
(`lookup_ofEntries`), and an entry that refers to a default is laid over that
(`defaults_by_chain`).
-/

set_option autoImplicit false

namespace Keymap

/-- What a field of an entry becomes over that of its default. -/
def overDefault (field : String × Value) : Option Value → Value
  | some old => if mergedNames.contains field.1 then old.merge field.2 else field.2
  | none => field.2

theorem mergeDefaults_eq (base upper : Fields) :
    mergeDefaults base upper = Fields.setAll overDefault base upper := by
  have step : mergeField = fun fields field =>
      Fields.insert field.1 (overDefault field (Fields.get? field.1 fields)) fields := by
    funext fields field
    unfold mergeField overDefault
    cases Fields.get? field.1 fields with
    | none => rfl
    | some old => exact (apply_ite (fields.insert field.1) _ _ _).symm
  rw [mergeDefaults, step]
  rfl

/-- A field that is not merged deeply is the upper one, or else that of the base. -/
theorem get?_mergeDefaults (base upper : Fields) (distinct : upper.names.Nodup) (name : String)
    (plain : mergedNames.contains name = false) :
    (mergeDefaults base upper).get? name = (upper.get? name).or (base.get? name) := by
  rw [mergeDefaults_eq, Fields.get?_setAll _ _ _ distinct]
  cases upper.get? name with
  | none => rfl
  | some value =>
    cases base.get? name with
    | none => rfl
    | some old =>
      change some (overDefault (name, value) (some old)) = some value
      rw [overDefault, plain]
      rfl

namespace DefaultTable

def ids (entries : List DefaultEntry) : List String := entries.map (·.id)

theorem ids_concat (entries : List DefaultEntry) (entry : DefaultEntry) :
    ids (entries ++ [entry]) = ids entries ++ [entry.id] := List.map_append

/-- The first entry of each id, in order. -/
def firstEntries (entries : List DefaultEntry) : List DefaultEntry :=
  entries.foldl (fun firsts entry =>
    if entry.id ∈ ids firsts then firsts else firsts ++ [entry]) []

theorem firstEntries_concat (entries : List DefaultEntry) (entry : DefaultEntry) :
    firstEntries (entries ++ [entry]) =
      if entry.id ∈ ids (firstEntries entries) then firstEntries entries
      else firstEntries entries ++ [entry] := by
  rw [firstEntries, List.foldl_append]
  rfl

theorem mem_ids_firstEntries (entries : List DefaultEntry) (id : String) :
    id ∈ ids (firstEntries entries) ↔ id ∈ ids entries := by
  induction entries using List.reverseRecOn with
  | nil => rfl
  | append_singleton entries entry ih =>
    rw [firstEntries_concat, ids_concat, List.mem_append, List.mem_singleton, ← ih]
    split
    · next repeated =>
      constructor
      · exact .inl
      · rintro (earlier | rfl)
        · exact earlier
        · exact repeated
    · rw [ids_concat, List.mem_append, List.mem_singleton]

theorem firstEntries_distinct (entries : List DefaultEntry) :
    (ids (firstEntries entries)).Nodup := by
  induction entries using List.reverseRecOn with
  | nil => exact .nil
  | append_singleton entries entry ih =>
    rw [firstEntries_concat]
    split
    · exact ih
    · next new =>
      rw [ids_concat, ← List.concat_eq_append]
      exact ih.concat new

/-- An id's way up, entries being given the latest first: its parent's way up among the entries
before its own, then its own entry. -/
def chainUp : List DefaultEntry → String → List DefaultEntry
  | [], _ => []
  | entry :: earlier, id =>
      if entry.id = id then ((parent? id).map (chainUp earlier)).getD [] ++ [entry]
      else chainUp earlier id

/-- The entries that an id builds on, the furthest parent first and its own last. -/
def chain (firsts : List DefaultEntry) (id : String) : List DefaultEntry :=
  chainUp firsts.reverse id

theorem chain_concat (firsts : List DefaultEntry) (entry : DefaultEntry) (id : String) :
    chain (firsts ++ [entry]) id =
      if entry.id = id then ((parent? id).map (chain firsts)).getD [] ++ [entry]
      else chain firsts id := by
  rw [chain, List.reverse_append]
  rfl

theorem chain_append (earlier later : List DefaultEntry) (id : String)
    (undeclared : id ∉ ids later) : chain (earlier ++ later) id = chain earlier id := by
  induction later using List.reverseRecOn with
  | nil => rw [List.append_nil]
  | append_singleton later entry ih =>
    rw [ids_concat, List.mem_append, List.mem_singleton, not_or] at undeclared
    rw [← List.append_assoc, chain_concat, if_neg (Ne.symm undeclared.2), ih undeclared.1]

theorem chain_undeclared (firsts : List DefaultEntry) (id : String)
    (undeclared : id ∉ ids firsts) : chain firsts id = [] :=
  chain_append [] firsts id undeclared

/-- An id builds on its parent where that is declared before it, and else on nothing. -/
theorem chain_eq (earlier later : List DefaultEntry) (entry : DefaultEntry)
    (distinct : (ids (earlier ++ entry :: later)).Nodup) :
    chain (earlier ++ entry :: later) entry.id =
      (match parent? entry.id with
        | some parent =>
            if parent ∈ ids earlier then chain (earlier ++ entry :: later) parent else []
        | none => []) ++ [entry] := by
  have apart : (ids earlier ++ entry.id :: ids later).Nodup := by
    simpa [ids] using distinct
  have single : earlier ++ entry :: later = earlier ++ [entry] ++ later := by simp
  have last : entry.id ∉ ids later :=
    (List.nodup_cons.mp (List.nodup_append.mp apart).2.1).1
  rw [single, chain_append _ later _ last, chain_concat, if_pos rfl]
  congr 1
  cases parent? entry.id with
  | none => rfl
  | some parent =>
    by_cases declared : parent ∈ ids earlier
    · have before : parent ∉ ids (entry :: later) := by
        intro after
        exact (List.nodup_append.mp apart).2.2 parent declared parent after rfl
      dsimp only [Option.map_some, Option.getD_some]
      rw [if_pos declared, ← single, chain_append earlier (entry :: later) parent before]
    · dsimp only [Option.map_some, Option.getD_some]
      rw [if_neg declared, chain_undeclared earlier parent declared]

/-- What a chain of entries comes to: their fields one over the other, and all their conditions. -/
def accumulated (chain : List DefaultEntry) : Default where
  fields := chain.foldl (fun fields entry => mergeDefaults fields entry.fields) []
  appendWhen := chain.flatMap (·.appendWhen)

theorem accumulated_concat (chain : List DefaultEntry) (entry : DefaultEntry) :
    accumulated (chain ++ [entry]) = (accumulated chain).extend entry := by
  simp [accumulated, Default.extend, List.foldl_append]

theorem joined_nonempty (separator first : String) (rest : List String) (nonempty : first ≠ "") :
    Text.joined separator (first :: rest) ≠ "" := by
  cases rest with
  | nil => exact nonempty
  | cons second rest =>
    rw [Text.joined, String.append_assoc, ne_eq, String.append_eq_empty_iff]
    · exact fun empty => nonempty empty.1
    · exact List.cons_ne_nil second rest

/-- Only the id of no parts is empty, and no other id builds on it. -/
theorem parent_nonempty (id parent : String) (accepted : Schema.isDefaultId id = true)
    (up : parent? id = some parent) : parent ≠ "" := by
  unfold parent? at up
  split at up
  · cases up
  · cases up
  · next parts one more =>
    cases up
    cases parts : Text.pieces '.' id with
    | nil => exact absurd parts one
    | cons first rest =>
      have others : rest ≠ [] := by
        rintro rfl
        exact more first parts
      rw [List.dropLast_cons_of_ne_nil others]
      apply joined_nonempty
      rintro rfl
      have cut : (Text.splitOn '.' id.toList).map String.ofList = "" :: rest := parts
      simp only [Schema.isDefaultId, Bool.or_eq_true, List.all_eq_true] at accepted
      rcases accepted with empty | each
      · have blank : id = "" := by simpa using empty
        subst blank
        exact others (List.cons.inj cut).2.symm
      · obtain ⟨piece, pieces, split, blank, _⟩ := List.map_eq_cons_iff.mp cut
        have held := each piece (split ▸ List.mem_cons_self)
        have nothing : piece = [] := by simpa using congrArg String.toList blank
        simp [Schema.isIdPart, nothing] at held

/-- An entry whose parent is not declared before it is reported. -/
def orphaned (earlier : List DefaultEntry) (entry : DefaultEntry) : List Problem :=
  match parent? entry.id with
  | some parent => if parent ∈ ids earlier then [] else [.orphanDefault entry.id parent]
  | none => []

/-- What is reported of an entry after those before it. -/
def complaintsOn (earlier : List DefaultEntry) (entry : DefaultEntry) : List Problem :=
  if entry.id ∈ ids earlier then [.repeatedDefault entry.id] else orphaned earlier entry

theorem orphaned_firstEntries (entries : List DefaultEntry) (entry : DefaultEntry) :
    orphaned (firstEntries entries) entry = orphaned entries entry := by
  unfold orphaned
  split
  · simp only [mem_ids_firstEntries]
  · rfl

theorem declareAll_concat (declared : List String) (table : DefaultTable)
    (entries : List DefaultEntry) (entry : DefaultEntry) :
    declareAll declared table (entries ++ [entry]) =
      let built := declareAll declared table entries
      if entry.id ∈ declared ∨ entry.id ∈ ids entries then
        (built.1 ++ [.repeatedDefault entry.id], built.2)
      else (built.1 ++ (built.2.declare entry).1, (built.2.declare entry).2) := by
  induction entries generalizing declared table with
  | nil =>
    by_cases repeated : entry.id ∈ declared
    · simp [declareAll, repeated]
    · simp [declareAll, repeated, ids]
  | cons first rest ih =>
    by_cases known : first.id ∈ declared
    · have same : entry.id ∈ declared ∨ entry.id ∈ ids (first :: rest) ↔
          entry.id ∈ declared ∨ entry.id ∈ ids rest := by
        simp only [ids, List.map_cons, List.mem_cons]
        constructor
        · rintro (before | again | later)
          · exact .inl before
          · exact .inl (again ▸ known)
          · exact .inr later
        · rintro (before | later)
          · exact .inl before
          · exact .inr (.inr later)
      simp only [List.cons_append, declareAll, List.contains_iff_mem, known, if_true, ih, same]
      split <;> rfl
    · have same : entry.id ∈ first.id :: declared ∨ entry.id ∈ ids rest ↔
          entry.id ∈ declared ∨ entry.id ∈ ids (first :: rest) := by
        simp only [ids, List.map_cons, List.mem_cons]
        tauto
      simp only [List.cons_append, declareAll, List.contains_iff_mem, known, if_false, ih, same]
      split <;> simp

section Table

variable (entries : List DefaultEntry)

theorem ofEntries_concat (entry : DefaultEntry) :
    ofEntries (entries ++ [entry]) =
      if entry.id ∈ ids entries then
        ((ofEntries entries).1 ++ [.repeatedDefault entry.id], (ofEntries entries).2)
      else ((ofEntries entries).1 ++ ((ofEntries entries).2.declare entry).1,
        ((ofEntries entries).2.declare entry).2) := by
  rw [ofEntries, declareAll_concat]
  simp [ofEntries]

/-- A table with the default under each id that the id's chain comes to. -/
def Holds (table : DefaultTable) (firsts : List DefaultEntry) : Prop :=
  ∀ id, table.lookup id =
    if id ∈ ids firsts then some (accumulated (chain firsts id)) else start.lookup id

theorem declare_eq (table : DefaultTable) (firsts : List DefaultEntry) (holds : Holds table firsts)
    (entry : DefaultEntry) (accepted : Schema.isDefaultId entry.id = true) :
    table.declare entry = (orphaned firsts entry, table.insert entry.id
      (accumulated (((parent? entry.id).map (chain firsts)).getD [] ++ [entry]))) := by
  rw [accumulated_concat]
  unfold declare orphaned
  cases up : parent? entry.id with
  | none => rfl
  | some parent =>
    dsimp only [Option.map_some, Option.getD_some]
    rw [holds parent]
    by_cases declared : parent ∈ ids firsts
    · rw [if_pos declared, if_pos declared]
    · have unset : start.lookup parent = none := by
        have other := beq_eq_false_iff_ne.mpr (parent_nonempty entry.id parent accepted up)
        rw [start, List.lookup_cons, other]
        rfl
      rw [if_neg declared, if_neg declared, unset, chain_undeclared firsts parent declared]
      rfl

theorem holds_declare (table : DefaultTable) (firsts : List DefaultEntry)
    (holds : Holds table firsts) (entry : DefaultEntry)
    (accepted : Schema.isDefaultId entry.id = true) :
    Holds (table.declare entry).2 (firsts ++ [entry]) := by
  intro id
  rw [declare_eq table firsts holds entry accepted, lookup_insert, ids_concat, chain_concat]
  by_cases own : id = entry.id
  · subst own
    simp
  · simp [own, Ne.symm own, holds id]

variable (accepted : ∀ entry ∈ entries, Schema.isDefaultId entry.id = true)

include accepted

/-- The table of a list of entries, whatever stands between a parent and its children. -/
theorem lookup_ofEntries : Holds (ofEntries entries).2 (firstEntries entries) := by
  -- The last entry is declared to the table of all before it, which holds their chains.
  induction entries using List.reverseRecOn with
  | nil => exact fun _ => rfl
  | append_singleton entries entry ih =>
    have before := ih fun other member => accepted other (List.mem_append_left _ member)
    rw [ofEntries_concat, firstEntries_concat]
    simp only [mem_ids_firstEntries]
    split
    · exact before
    · exact holds_declare _ _ before entry (accepted entry (by simp))

theorem complaints_ofEntries :
    (ofEntries entries).1 = entries.zipIdx.flatMap fun (entry, place) =>
      complaintsOn (entries.take place) entry := by
  induction entries using List.reverseRecOn with
  | nil => rfl
  | append_singleton entries entry ih =>
    have each := fun other member => accepted other (List.mem_append_left [entry] member)
    have earlier : (entries.zipIdx.flatMap fun (other, place) =>
          complaintsOn ((entries ++ [entry]).take place) other) =
        entries.zipIdx.flatMap fun (other, place) => complaintsOn (entries.take place) other := by
      apply List.flatMap_congr
      rintro ⟨other, place⟩ member
      have within := (List.mem_zipIdx' member).1
      dsimp only
      rw [List.take_append_of_le_length (Nat.le_of_lt within)]
    have last : complaintsOn ((entries ++ [entry]).take entries.length) entry =
        complaintsOn entries entry := by
      rw [List.take_append_of_le_length (Nat.le_refl _), List.take_length]
    rw [ofEntries_concat, List.zipIdx_append, List.flatMap_append, earlier, ← ih each]
    simp only [List.zipIdx_cons, List.zipIdx_nil, List.flatMap_cons, List.flatMap_nil,
      List.append_nil, Nat.zero_add, last]
    unfold complaintsOn
    split
    · rfl
    · rw [declare_eq _ _ (lookup_ofEntries entries each) entry (accepted entry (by simp)),
        orphaned_firstEntries]

theorem lookup_undeclared (id : String) (undeclared : id ∉ ids entries) :
    (ofEntries entries).2.lookup id = if id = "" then some Default.empty else none := by
  rw [lookup_ofEntries entries accepted id]
  simp only [mem_ids_firstEntries, if_neg undeclared]
  by_cases root : id = ""
  · subst root
    rfl
  · rw [if_neg root, start, List.lookup_cons, beq_eq_false_iff_ne.mpr root]
    rfl

/-- What a reference finds: what its chain comes to, which for an undeclared id is nothing. -/
theorem referred (id : String) :
    ((ofEntries entries).2.lookup id).getD Default.empty =
      accumulated (chain (firstEntries entries) id) := by
  by_cases declared : id ∈ ids entries
  · have first := (mem_ids_firstEntries entries id).mpr declared
    rw [lookup_ofEntries entries accepted id, if_pos first]
    rfl
  · rw [lookup_undeclared entries accepted id declared, chain_undeclared]
    · split <;> rfl
    · exact (mem_ids_firstEntries entries id).not.mpr declared

end Table

/-- An entry laid over a default: the entry's fields before the default's, the arguments merged,
and the default's conditions after those that the entry has or else inherits. -/
structure Applied (base : Default) (raw result : Fields) : Prop where
  others : ∀ name, name ≠ "when" →
    result.get? name = (mergeDefaults base.fields raw).get? name
  guarded : ∀ own, conditions? ((raw.get? "when").getD (base.fields.read "when")) = some own →
    conditions? (result.read "when") = some (own ++ base.appendWhen.map .text)
  malformed : conditions? ((raw.get? "when").getD (base.fields.read "when")) = none →
    result = mergeDefaults base.fields raw

theorem read_when_mergeDefaults (base raw : Fields) (distinct : raw.names.Nodup) :
    (mergeDefaults base raw).read "when" = (raw.get? "when").getD (base.read "when") := by
  rw [Fields.read, get?_mergeDefaults base raw distinct "when" (by decide)]
  cases raw.get? "when" <;> rfl

/-- The id that an entry refers to; an entry that refers to none has the empty one. -/
def referenceOf (raw : Fields) : String := ((raw.get? "defaults").getD (.text "")).display

/-- An entry over one default. -/
def laidOver (base : Default) (raw : Fields) : Fields :=
  let merged := mergeDefaults base.fields raw
  match conditions? (merged.read "when") with
  | none => merged
  | some own =>
      let all := own ++ base.appendWhen.map .text
      if all.isEmpty then merged else merged.insert "when" (.list all)

theorem apply_eq (table : DefaultTable) (label : String) (raw : Fields) :
    table.apply label raw =
      (match table.lookup (referenceOf raw) with
        | some _ => []
        | none => [.undefinedDefault label (referenceOf raw)],
      laidOver ((table.lookup (referenceOf raw)).getD Default.empty) raw) := by
  unfold apply laidOver referenceOf
  cases known : table.lookup ((raw.get? "defaults").getD (.text "")).display with
  | none =>
    simp only [known, Option.getD_none]
    cases conditions? ((mergeDefaults Default.empty.fields raw).read "when") <;> rfl
  | some base =>
    simp only [known, Option.getD_some]
    cases conditions? ((mergeDefaults base.fields raw).read "when") <;> rfl

theorem applied_laidOver (base : Default) (raw : Fields) (distinct : raw.names.Nodup) :
    Applied base raw (laidOver base raw) := by
  have inherited := read_when_mergeDefaults base.fields raw distinct
  unfold laidOver
  simp only [inherited]
  cases shape : conditions? ((raw.get? "when").getD (base.fields.read "when")) with
  | none => exact ⟨fun _ _ => rfl, fun own given => by simp [shape] at given, fun _ => rfl⟩
  | some own =>
    refine ⟨?_, ?_, fun missing => by simp [shape] at missing⟩
    · intro name other
      dsimp only
      split
      · rfl
      · rw [Fields.get?_insert, if_neg other]
    · intro given same
      cases shape.symm.trans same
      dsimp only
      split
      · next empty =>
        have nothing := List.isEmpty_iff.mp empty
        rw [inherited, shape, nothing, (List.append_eq_nil_iff.mp nothing).1]
      · rw [Fields.read, Fields.get?_insert, if_pos rfl]
        rfl

/-- Every id has the default that its chain of parents comes to, wherever the entries of the chain
stand among the others. A second entry of an id and an entry before its parent are each reported
once, and a binding's entry is laid over what the chain of its reference comes to. -/
theorem defaults_by_chain (entries : List DefaultEntry)
    (accepted : ∀ entry ∈ entries, Schema.isDefaultId entry.id = true) :
    (ids (firstEntries entries)).Nodup ∧
      (∀ earlier entry later, firstEntries entries = earlier ++ entry :: later →
        chain (firstEntries entries) entry.id =
          (match parent? entry.id with
            | some parent =>
                if parent ∈ ids earlier then chain (firstEntries entries) parent else []
            | none => []) ++ [entry]) ∧
      (∀ id ∈ ids entries, (ofEntries entries).2.lookup id =
        some (accumulated (chain (firstEntries entries) id))) ∧
      (ofEntries entries).1 = (entries.zipIdx.flatMap fun (entry, place) =>
        complaintsOn (entries.take place) entry) ∧
      ∀ (label : String) (raw : Fields), raw.names.Nodup →
        ((ofEntries entries).2.apply label raw).1 =
            (if referenceOf raw = "" ∨ referenceOf raw ∈ ids entries then []
              else [.undefinedDefault label (referenceOf raw)]) ∧
          Applied (accumulated (chain (firstEntries entries) (referenceOf raw))) raw
            ((ofEntries entries).2.apply label raw).2 := by
  have distinct := firstEntries_distinct entries
  have looked : ∀ id ∈ ids entries, (ofEntries entries).2.lookup id =
      some (accumulated (chain (firstEntries entries) id)) := by
    intro id declared
    rw [lookup_ofEntries entries accepted id,
      if_pos ((mem_ids_firstEntries entries id).mpr declared)]
  refine ⟨distinct, ?_, looked, complaints_ofEntries entries accepted, ?_⟩
  · intro earlier entry later split
    rw [split] at distinct ⊢
    exact chain_eq earlier later entry distinct
  · intro label raw names
    rw [apply_eq, referred entries accepted]
    refine ⟨?_, applied_laidOver _ raw names⟩
    by_cases declared : referenceOf raw ∈ ids entries
    · simp [looked _ declared, declared]
    · rw [lookup_undeclared entries accepted _ declared]
      by_cases root : referenceOf raw = "" <;> simp [root, declared]

/-- A child before its parent, and the parent declared again between its own children. -/
def outOfOrder : List DefaultEntry := [
  ⟨"a.b", [], ["x"]⟩,
  ⟨"a", [("name", .text "n")], ["y"]⟩,
  ⟨"a.c", [], ["z"]⟩,
  ⟨"a", [], []⟩,
  ⟨"a.c.d", [("name", .text "m")], []⟩]

theorem declared_out_of_order :
    (ofEntries outOfOrder).1 = [.orphanDefault "a.b" "a", .repeatedDefault "a"] ∧
      ((ofEntries outOfOrder).2.lookup "a.b").map (·.appendWhen) = some ["x"] ∧
      ((ofEntries outOfOrder).2.lookup "a.c.d").map (·.appendWhen) = some ["y", "z"] ∧
      conditions? (((ofEntries outOfOrder).2.apply "bind[0]"
        [("defaults", .text "a.c"), ("when", .text "w")]).2.read "when") =
          some [.text "w", .text "y", .text "z"] := by
  have accepted : ∀ entry ∈ outOfOrder, Schema.isDefaultId entry.id = true := by decide +kernel
  obtain ⟨-, -, looked, told, applied⟩ := defaults_by_chain outOfOrder accepted
  rw [told, looked "a.b" (by decide +kernel), looked "a.c.d" (by decide +kernel)]
  have guarded := (applied "bind[0]" [("defaults", .text "a.c"), ("when", .text "w")]
    (by decide +kernel)).2.guarded [.text "w"] rfl
  rw [guarded]
  refine ⟨by decide +kernel, by decide +kernel, by decide +kernel, ?_⟩
  rfl

end DefaultTable

end Keymap
