import Sbe.Proofs.FolderOutput
import Sbe.Proofs.FormattedNames
import Sbe.Proofs.GuardLines

/-!
**Units as modules.**

A unit becomes a module of its name, declared in the index of a folder or in the one file of all
units. The name is made from that of the type in snake case, and reserved words get no token here.
One side of a type has an ending that no reserved word has. The unit of an enum has none.

* `isReserved_sideName`, `mem_unitNames_iff_of_isReserved`: which names of units are reserved
  words;
* `declaredModules`: the modules that a text declares;
* `declaredModules_index`, `declaredModules_singleFile`: those of both kinds of output;
* `generate_module_names`: the modules of a run that comes to its end.
-/

namespace Sbe

open Sbe.Name

/-! ### Names of units -/

namespace Plan

theorem isIdentifier_sideName {typeName : String} (identifier : isIdentifier typeName = true)
    (side : Source.Side) : isIdentifier (unitName typeName side) = true := by
  refine isIdentifier_append (isIdentifier_snakeCase identifier) (List.all_eq_true.mp ?_)
  cases side <;> rfl

/-- Reserved words are made of letters, and the ending of a side is not. -/
theorem isReserved_sideName (typeName : String) (side : Source.Side) :
    isReserved (unitName typeName side) = false := by
  rw [← Bool.not_eq_true]
  intro reserved
  have underscore : '_' ∈ (unitName typeName side).toList := by
    rw [unitName, String.toList_append]
    refine List.mem_append_right _ ?_
    cases side <;> simp [Source.Side.unitSuffix]
  exact absurd ((wellSpelled_of_isReserved reserved).1 _ underscore) (by decide)

end Plan

namespace Schema

open Plan

variable {schema : Schema}

theorem isIdentifier_of_mem_unitNames (accepted : schema.Accepted) :
    ∀ name ∈ schema.unitNames, isIdentifier name = true := by
  intro name member
  rcases mem_unitNames_cases accepted member
    with ⟨_, side, identifier, rfl⟩ | ⟨_, _, _, _, identifier, rfl⟩
  · exact isIdentifier_sideName identifier side
  · exact isIdentifier_snakeCase identifier

/-- The reserved words among the names of units are those of enums. -/
theorem mem_unitNames_iff_of_isReserved (accepted : schema.Accepted) {word : String}
    (reserved : isReserved word = true) : word ∈ schema.unitNames ↔
      ∃ first rest, first :: rest ∈ schema.types ∧ first.signal = .beginEnum ∧
        snakeCase first.typeName = word := by
  constructor
  · intro member
    rcases mem_unitNames_cases accepted member
      with ⟨_, side, _, rfl⟩ | ⟨first, rest, listed, isEnum, _, rfl⟩
    · rw [isReserved_sideName] at reserved
      cases reserved
    · exact ⟨first, rest, listed, isEnum, rfl⟩
  · rintro ⟨first, rest, listed, isEnum, rfl⟩
    have purposes : Purpose.ofType (first :: rest) = [.enumeration first (first :: rest)] := by
      rw [Purpose.ofType, isEnum]
    refine List.mem_map.mpr ⟨.enumeration first (first :: rest), ?_, rfl⟩
    obtain ⟨opening, later, header, _⟩ := accepted.header.opening
    rw [Schema.purposes, header]
    refine List.mem_append_left _ (List.mem_append_right _ (List.mem_flatMap.mpr ⟨_, listed, ?_⟩))
    rw [purposes]
    exact List.mem_singleton_self _

end Schema

/-! ### The modules that a text declares -/

namespace Output

/-- The module that a line declares from its first character on. -/
def declared? (line : List Char) : Option String :=
  if "pub mod ".toList.isPrefixOf line then
    some (String.ofList ((line.drop "pub mod ".length).takeWhile continuesIdentifier))
  else none

/-- The modules that the lines of a text declare, in their order. -/
def declaredModules (text : String) : List String := (text.toList.splitOn '\n').filterMap declared?

theorem declared?_declaration {name : String} (identifier : isIdentifier name = true) {mark : Char}
    (ends : continuesIdentifier mark = false) (rest : List Char) :
    declared? ("pub mod ".toList ++ (name.toList ++ mark :: rest)) = some name := by
  have name_eq : (name.toList ++ mark :: rest).takeWhile continuesIdentifier = name.toList := by
    rw [List.takeWhile_append_of_pos fun _ member => continuesIdentifier_of_mem identifier member,
      List.takeWhile_cons_of_neg (by simp [ends]), List.append_nil]
  rw [declared?, if_pos (List.isPrefixOf_iff_prefix.mpr (List.prefix_append _ _)),
    ← String.length_toList, List.drop_left, name_eq, String.ofList_toList]

/-- A line is read by itself. -/
theorem declaredModules_line {ended : String} (line : String) (single : Text.Plain line)
    (same : ended = line ++ "\n") (rest : String) :
    declaredModules (ended ++ rest) = (declared? line.toList).toList ++ declaredModules rest := by
  have shape : (ended ++ rest).toList = line.toList ++ '\n' :: rest.toList := by simp [same]
  rw [declaredModules, shape, List.splitOn_append_cons_self, List.splitOn_eq_singleton single,
    List.filterMap_append]
  cases found : declared? line.toList <;> simp [found, declaredModules]

/-- Texts one after another declare what each of them declares. -/
theorem declaredModules_join {α : Type} {text : α → String} {modules : α → List String}
    {items : List α}
    (each : ∀ item ∈ items, ∀ rest, declaredModules (text item ++
      rest) = modules item ++ declaredModules rest) (rest : String) :
    declaredModules (String.join (items.map text) ++ rest) =
      items.flatMap modules ++ declaredModules rest := by
  induction items with
  | nil => simp
  | cons item items ih =>
    obtain ⟨first, later⟩ := List.forall_mem_cons.mp each
    rw [List.map_cons, String.join_cons, String.append_assoc, first, ih later, List.flatMap_cons,
      List.append_assoc]

theorem declaredModules_banner (rest : String) :
    declaredModules (banner ++ "\n" ++ rest) = declaredModules rest := by
  rw [declaredModules_line banner (Text.plain_literal rfl) rfl]
  simp [declared?, banner]

theorem declaredModules_empty : declaredModules "" = [] := rfl

theorem declaredModules_break (rest : String) :
    declaredModules ("\n" ++ rest) = declaredModules rest := by
  rw [declaredModules_line "" (Text.plain_literal rfl) (by simp)]
  simp [declared?]

section

variable {name : String} (identifier : isIdentifier name = true)

include identifier

theorem declaredModules_declaration {ending ended : String} (single : Text.Plain ending)
    (same : ended = ending ++ "\n") {mark : Char} {others : List Char}
    (opens : ending.toList = mark :: others) (ends : continuesIdentifier mark = false)
    (rest : String) :
    declaredModules ("pub mod " ++ name ++ ended ++ rest) = [name] ++ declaredModules rest := by
  have plain : Text.Plain ("pub mod " ++ name ++ ending) := by
    rw [Text.plain_append, Text.plain_append]
    exact ⟨⟨Text.plain_literal rfl, plain_of_isIdentifier identifier⟩, single⟩
  rw [declaredModules_line _ plain (by rw [same, ← String.append_assoc]), String.toList_append,
    String.toList_append, List.append_assoc, opens, declared?_declaration identifier ends]
  rfl

/-- The line that opens a module to its surroundings declares none. -/
theorem declaredModules_opening (rest : String) :
    declaredModules ("pub use " ++ name ++ "::*;\n" ++ rest) = [] ++ declaredModules rest := by
  have plain : Text.Plain ("pub use " ++ name ++ "::*;") := by
    rw [Text.plain_append, Text.plain_append]
    exact ⟨⟨Text.plain_literal rfl, plain_of_isIdentifier identifier⟩, Text.plain_literal rfl⟩
  rw [declaredModules_line _ plain (by simp only [String.append_assoc]; rfl)]
  simp [declared?]

end

/-- The index declares the units in their order. -/
theorem declaredModules_index {names : List String}
    (identifiers : ∀ name ∈ names, isIdentifier name = true) :
    declaredModules (index names) = names := by
  have declarations := declaredModules_join fun name member =>
    declaredModules_declaration (identifiers name member) (Text.plain_literal rfl)
      (show ";\n" = ";" ++ "\n" from rfl) rfl (by decide)
  have openings :=
    declaredModules_join (fun name member => declaredModules_opening (identifiers name member)) ""
  have front : banner ++ "\n\n" = banner ++ "\n" ++ "\n" := rfl
  rw [String.append_empty] at openings
  rw [index, front, String.append_assoc, String.append_assoc, String.append_assoc,
    declaredModules_banner, declaredModules_break, declarations, declaredModules_break, openings,
    declaredModules_empty, List.append_nil, List.flatMap_eq_nil_iff.mpr fun _ _ => rfl,
    List.append_nil, List.flatMap_singleton']

end Output

namespace Text

theorem dropReturn_subset (line : List Char) : dropReturn line ⊆ line := by
  unfold dropReturn
  split
  · exact List.subset_cons_self _ _
  · exact List.Subset.refl _

/-- The lines of a text have no line feeds. -/
theorem plain_of_mem_linesFrom {before rest : List Char} (opened : '\n' ∉ before) :
    ∀ line ∈ linesFrom before rest, Plain line := by
  fun_induction linesFrom before rest with
  | case1 => simp
  | case2 before filled => simpa [plain_ofList] using opened
  | case3 before rest ih =>
    refine List.forall_mem_cons.mpr ⟨?_, ih List.not_mem_nil⟩
    rw [plain_ofList, List.mem_reverse]
    exact fun inside => opened (dropReturn_subset before inside)
  | case4 before character rest other ih =>
    refine ih ?_
    rw [List.mem_cons, not_or]
    exact ⟨fun same => other same.symm, opened⟩

end Text

namespace Output

/-- A line of a unit is indented, and declares nothing. -/
theorem declaredModules_moduleLine {line : String} (plain : Text.Plain line) (rest : String) :
    declaredModules (moduleLine line ++ rest) = [] ++ declaredModules rest := by
  rw [moduleLine]
  split
  · exact declaredModules_break rest
  · have indented : Text.Plain ("    " ++ line) :=
      (Text.plain_append _ _).mpr ⟨Text.plain_literal rfl, plain⟩
    rw [declaredModules_line _ indented rfl]
    simp [declared?]

theorem declaredModules_moduleText {unit : SourceUnit}
    (identifier : isIdentifier unit.name = true) (rest : String) :
    declaredModules (moduleText unit ++ rest) = [unit.name] ++ declaredModules rest := by
  have lines := declaredModules_join fun line (member : line ∈ Text.lines unit.code) =>
    declaredModules_moduleLine (Text.plain_of_mem_linesFrom List.not_mem_nil line member)
  have declaration := declaredModules_declaration identifier (Text.plain_literal rfl)
    (show " \x7b\n" = " \x7b" ++ "\n" from rfl) rfl (by decide)
  have closing (rest : String) : declaredModules ("\x7d" ++ "\n" ++ rest) =
      declaredModules rest := by
    rw [declaredModules_line "\x7d" (Text.plain_literal rfl) rfl]
    simp [declared?]
  have shape : moduleText unit ++ rest = "\n" ++ ("pub mod " ++ unit.name ++ " \x7b\n" ++
      (String.join ((Text.lines unit.code).map moduleLine) ++
        ("\x7d" ++ "\n" ++ ("pub use " ++ unit.name ++ "::*;\n" ++ rest)))) := by
    unfold moduleText
    generalize String.join ((Text.lines unit.code).map moduleLine) = body
    exact String.toList_inj.mp (by simp)
  rw [shape]
  refine (declaredModules_break _).trans ((declaration _).trans (congrArg ([unit.name] ++ ·) ?_))
  refine (lines _).trans ?_
  rw [List.flatMap_eq_nil_iff.mpr fun _ _ => rfl]
  exact (closing _).trans (declaredModules_opening identifier rest)

/-- So does the one file of all units. -/
theorem declaredModules_singleFile {units : List SourceUnit}
    (identifiers : ∀ unit ∈ units, isIdentifier unit.name = true) :
    declaredModules (singleFile units) = units.map SourceUnit.name := by
  have modules := declaredModules_join
    (fun unit member => declaredModules_moduleText (identifiers unit member)) ""
  rw [String.append_empty] at modules
  rw [singleFile, declaredModules_banner, modules, declaredModules_empty, List.append_nil,
    ← List.map_eq_flatMap]

end Output

namespace Schema

variable {schema : Schema} {settings : Settings}

/-- **The modules of a run.** For a schema that is accepted and a run that comes to its end, the
index and the one file of all units declare the units as modules, in their order and nothing else.
Their names are identifiers. A reserved word is among them exactly when an enum has it as its name
in snake case. -/
theorem generate_module_names (accepted : schema.verify = .ok ())
    (ended : (schema.generate settings).ending = none) :
    Output.declaredModules (Output.index ((schema.generate settings).units.map SourceUnit.name)) =
      (schema.generate settings).units.map SourceUnit.name ∧
    Output.declaredModules (Output.singleFile (schema.generate settings).units) =
      (schema.generate settings).units.map SourceUnit.name ∧
    (∀ unit ∈ (schema.generate settings).units, isIdentifier unit.name = true) ∧
    ∀ word, isReserved word = true →
      (word ∈ (schema.generate settings).units.map SourceUnit.name ↔
        ∃ first rest, first :: rest ∈ schema.types ∧ first.signal = .beginEnum ∧
          snakeCase first.typeName = word) := by
  have checked := verify_eq_ok_iff.mp accepted
  have names := names_generate ended
  have identifiers : ∀ name ∈ (schema.generate settings).units.map SourceUnit.name,
      isIdentifier name = true := by
    rw [names]
    exact isIdentifier_of_mem_unitNames checked
  have each : ∀ unit ∈ (schema.generate settings).units, isIdentifier unit.name = true :=
    fun unit member => identifiers _ (List.mem_map_of_mem member)
  refine ⟨Output.declaredModules_index identifiers, Output.declaredModules_singleFile each, each,
    ?_⟩
  rw [names]
  exact fun word reserved => mem_unitNames_iff_of_isReserved checked reserved

/-- A set and an enum that are both named for reserved words. -/
def matched : Schema where
  packageName := "matched"
  id := 1
  header := Build.messageHeader
  types := [Build.bitSet "Match" 0 (.of .uint8) [("first", 2)],
    Build.enumeration "Type" 0 (.of .uint8) [("small", .uint 1)]]

/-- The name of the enum is a reserved word, those of the sides of the set are not. -/
theorem matched_module_names :
    matched.verify = .ok () ∧ (matched.generate {}).ending = none ∧
    Output.declaredModules (Output.singleFile (matched.generate {}).units) =
      ["message_header_decoder", "message_header_encoder", "match_decoder", "match_encoder",
        "type"] ∧
    "match" ∉ (matched.generate {}).units.map SourceUnit.name := by
  have accepted : matched.verify = .ok () := Outcome.eq_ok_of_isOk (by decide +kernel)
  have ended : (matched.generate {}).ending = none := by decide +kernel
  have names : (matched.generate {}).units.map SourceUnit.name =
      ["message_header_decoder", "message_header_encoder", "match_decoder", "match_encoder",
        "type"] := by
    decide +kernel
  obtain ⟨_, declared, _, reserved⟩ := generate_module_names accepted ended
  refine ⟨accepted, ended, declared.trans names, fun inside => ?_⟩
  obtain ⟨first, rest, listed, isEnum, named⟩ := (reserved "match" (by decide +kernel)).mp inside
  rcases List.mem_cons.mp listed with same | later
  · rw [(List.cons.inj same).1] at isEnum
    cases isEnum
  · rw [(List.cons.inj (List.mem_singleton.mp later)).1] at named
    exact absurd named (by decide +kernel)

/-- The enum is the module `type` also where there is a token for reserved words. -/
theorem matched_declares_reserved :
    matched.verify = .ok () ∧ (matched.generate { keywordAppendToken := some "_" }).ending = none ∧
    "type" ∈ Output.declaredModules (Output.index ((matched.generate
      { keywordAppendToken := some "_" }).units.map SourceUnit.name)) ∧
    isReserved "type" = true := by
  have accepted : matched.verify = .ok () := Outcome.eq_ok_of_isOk (by decide +kernel)
  have ended : (matched.generate { keywordAppendToken := some "_" }).ending = none := by
    decide +kernel
  have checked := verify_eq_ok_iff.mp accepted
  refine ⟨accepted, ended, ?_, by decide +kernel⟩
  rw [names_generate ended,
    Output.declaredModules_index (isIdentifier_of_mem_unitNames checked)]
  decide +kernel

end Schema

end Sbe
