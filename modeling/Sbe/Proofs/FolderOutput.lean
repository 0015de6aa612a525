import Mathlib.Data.List.Nodup
import Mathlib.Data.List.Perm.Subperm
import Sbe.Output
import Sbe.Proofs.Accepted
import Sbe.Proofs.Folder
import Sbe.Proofs.PlainText
import Sbe.Proofs.Purposes
import Sbe.Token.Build

/-!
**What becomes of units in a folder.**

Every unit is written to the file of its name, and the index last of all. Names of units are made by
lowering capitals, so that types or messages of different names can have units of the same name, and
a unit can have the name of the index. Then the file holds what was written last.

* `unitNames`: the names of the units of a schema, whatever the settings;
* `slash_not_mem_of_mem_unitNames`: a unit of an accepted schema has its file in the folder itself;
* `run_generateFolder`: what a run that comes to its end leaves;
* `generateFolder_keeps_units_iff`: it leaves every unit exactly when the names differ and none is
  `mod`.
-/

namespace Sbe

open Sbe.Files (Job Path Place Tree)

/-! ### Names without slashes -/

namespace Name

/-- The unit of an identifier has a name without slashes. -/
theorem slash_not_mem_unitName {name : String} (identifier : isIdentifier name = true) :
    '/' ∉ (unitName name).toList := by
  intro slash
  have member := mem_snakeCase (by decide) (by decide) slash
  exact absurd (continuesIdentifier_of_mem identifier member) (by decide)

end Name

/-! ### The names of the units of a schema -/

namespace Schema

open Plan

/-- The names of the units of a schema, in the order in which they are generated. -/
def unitNames (schema : Schema) : List String := schema.purposes.map Purpose.name

/-- The names do not depend on the settings. -/
theorem names_generate {schema : Schema} {settings : Settings}
    (ended : (schema.generate settings).ending = none) :
    (schema.generate settings).units.map SourceUnit.name = schema.unitNames := by
  rw [generate, ofSchema_eq] at ended ⊢
  rw [unitNames, ← List.forall₂_eq_eq_eq, List.forall₂_map_left_iff, List.forall₂_map_right_iff]
  exact (forall₂_run ended).flip.imp fun _ _ written => written.1

/-- A unit of an accepted schema is one side of a header, type or message, or a whole enum. -/
theorem mem_unitNames_cases {schema : Schema} (accepted : schema.Accepted) {name : String}
    (member : name ∈ schema.unitNames) :
    (∃ typeName side, Name.isIdentifier typeName = true ∧ name = unitName typeName side) ∨
      ∃ first rest, first :: rest ∈ schema.types ∧ first.signal = .beginEnum ∧
        Name.isIdentifier first.typeName = true ∧ name = Name.unitName first.typeName := by
  obtain ⟨purpose, planned, rfl⟩ := List.mem_map.mp member
  clear member
  revert purpose
  refine forall_purposes ?_ ?_ ?_ ?_
  · intro absent
    obtain ⟨first, rest, header, _⟩ := accepted.header.opening
    rw [absent] at header
    cases header
  · intro first rest header side
    have named := accepted.header.named first (by rw [header]; exact List.mem_cons_self)
    exact .inl ⟨_, side, named.typeName, rfl⟩
  · intro tokens inside
    obtain ⟨first, rest, rfl, opens⟩ := (accepted.types tokens inside).opening
    have named := (accepted.types _ inside).named first List.mem_cons_self
    rw [Purpose.ofType]
    cases kind : first.signal with
    | beginEnum =>
      exact List.forall_mem_singleton.mpr (.inr ⟨_, _, inside, kind, named.typeName, rfl⟩)
    | beginSet | beginComposite =>
      exact List.forall_mem_map.mpr fun side _ => .inl ⟨_, side, named.typeName, rfl⟩
    | _ =>
      rw [kind] at opens
      cases opens
  · intro _ _ _ tokens inside
    obtain ⟨first, rest, rfl, _⟩ := (accepted.messages tokens inside).1.opening
    have named := (accepted.messages _ inside).1.named first List.mem_cons_self
    exact List.forall_mem_map.mpr fun side _ => .inl ⟨_, side, named.1, rfl⟩

/-- The units of an accepted schema have their files in the folder itself. -/
theorem slash_not_mem_of_mem_unitNames {schema : Schema} (accepted : schema.Accepted) :
    ∀ name ∈ schema.unitNames, '/' ∉ name.toList := by
  intro name member
  rcases mem_unitNames_cases accepted member
    with ⟨typeName, side, identifier, rfl⟩ | ⟨_, _, _, _, identifier, rfl⟩
  · rw [unitName, String.toList_append, List.mem_append, not_or]
    refine ⟨Name.slash_not_mem_unitName identifier, ?_⟩
    cases side <;> decide
  · exact Name.slash_not_mem_unitName identifier

end Schema

/-! ### What a run leaves -/

namespace Output

/-- The file of a unit, and what is written to it. -/
def entry (unit : SourceUnit) : String × String := (unit.name ++ ".rs", unit.code ++ "\n")

/-- All that is written into a folder, in the order of writing. -/
def entries (units : List SourceUnit) : List (String × String) :=
  units.map entry ++ [("mod.rs", index (units.map SourceUnit.name))]

variable {folder : String} {working : Place} {tree after : Tree}

theorem run_writeUnits {units : List SourceUnit} (plain : ∀ unit ∈ units, '/' ∉ unit.name.toList)
    (done : (writeUnits folder units).run working tree = (.ok (), after)) :
    after = tree.putAll (Path.place working folder) (units.map entry) := by
  induction units generalizing tree with
  | nil =>
    cases done
    rfl
  | cons unit rest ih =>
    obtain ⟨first, later⟩ := List.forall_mem_cons.mp plain
    have file : '/' ∉ (unit.name ++ ".rs").toList := by
      rw [String.toList_append, List.mem_append, not_or]
      exact ⟨first, by decide⟩
    rw [writeUnits, Job.run_bind, writeUnit, Job.run] at done
    cases written : tree.write working (Path.inside folder (unit.name ++ ".rs"))
        (unit.code ++ "\n") with
    | none =>
      rw [written] at done
      cases done
    | some middle =>
      rw [written] at done
      rw [ih later done, Tree.write_inside file written]
      rfl

theorem run_writeRun {run : GenerationRun} {count : Nat}
    (plain : run.ending = none → ∀ unit ∈ run.units, '/' ∉ unit.name.toList)
    (done : (writeRun folder run).run working tree = (.ok count, after)) :
    run.ending = none ∧ count = run.written ∧
      after = tree.putAll (Path.place working folder) (entries run.units) := by
  rw [writeRun, Job.run_bind] at done
  cases units : (writeUnits folder run.units).run working tree with
  | mk outcome middle =>
    rw [units] at done
    cases outcome with
    | error halt => cases done
    | ok =>
      cases ending : run.ending with
      | some halt =>
        rw [ending] at done
        cases done
      | none =>
        rw [ending] at done
        dsimp only at done
        rw [Job.run_bind, writeIndex, Job.run] at done
        cases written : middle.write working (Path.inside folder "mod.rs")
            (index (run.units.map SourceUnit.name)) with
        | none =>
          rw [written] at done
          cases done
        | some final =>
          rw [written] at done
          cases done
          refine ⟨rfl, rfl, ?_⟩
          rw [Tree.write_inside (by decide) written, run_writeUnits (plain ending) units, entries,
            Tree.putAll, Tree.putAll, List.foldl_append]
          rfl

/-- A folder with one file for each unit besides the index, and in the file of each unit its
code. -/
structure KeepsAll (tree : Tree) (folder : Place) (units : List SourceUnit) : Prop where
  count : ((tree.listing folder).filter (· != "mod.rs")).length = units.length
  contents : ∀ unit ∈ units,
    tree.content? (folder ++ [unit.name ++ ".rs"]) = some (unit.code ++ "\n")

theorem lookup_of_mem {files : List (String × String)} (single : (files.map Prod.fst).Nodup)
    {file content : String} (member : (file, content) ∈ files) :
    files.lookup file = some content := by
  induction files with
  | nil => cases member
  | cons first rest ih =>
    rw [List.map_cons, List.nodup_cons] at single
    rcases List.mem_cons.mp member with rfl | later
    · simp
    · have differs : file ≠ first.1 := by
        rintro rfl
        exact single.1 (List.mem_map.mpr ⟨_, later, rfl⟩)
      rw [List.lookup_cons, beq_eq_false_iff_ne.mpr differs]
      exact ih single.2 later

theorem append_rs_injective : Function.Injective fun name : String => name ++ ".rs" := by
  intro name other same
  have characters := congrArg String.toList same
  exact String.toList_inj.mp (by simpa using characters)

theorem map_fst_entry (units : List SourceUnit) :
    (units.map entry).map Prod.fst = (units.map SourceUnit.name).map fun name => name ++ ".rs" := by
  rw [List.map_map, List.map_map]
  rfl

/-- The files of units in a folder that had no files, the index apart. -/
theorem mem_unitFiles_iff {tree : Tree} {folder : Place} (empty : tree.listing folder = [])
    {units : List SourceUnit} {file : String} :
    file ∈ ((tree.putAll folder (entries units)).listing folder).filter (· != "mod.rs") ↔
      file ∈ (units.map SourceUnit.name).map (fun name => name ++ ".rs") ∧ file ≠ "mod.rs" := by
  rw [List.mem_filter, Tree.mem_listing_putAll, empty, entries, List.map_append, map_fst_entry]
  by_cases isIndex : file = "mod.rs"
  · simp [isIndex]
  · simp [isIndex]

section Distinct

variable {units : List SourceUnit} (noMod : "mod" ∉ units.map SourceUnit.name)
include noMod

theorem index_not_mem : "mod.rs" ∉ (units.map SourceUnit.name).map fun name => name ++ ".rs" := by
  intro inside
  obtain ⟨name, member, same⟩ := List.mem_map.mp inside
  have isMod : name = "mod" := append_rs_injective (same.trans rfl)
  exact noMod (isMod ▸ member)

/-- Nothing is written over when the names of the units differ and none is that of the index. -/
theorem nodup_map_fst_entries (differ : (units.map SourceUnit.name).Nodup) :
    ((entries units).map Prod.fst).Nodup := by
  rw [entries, List.map_append, map_fst_entry]
  refine List.nodup_append.mpr
    ⟨differ.map append_rs_injective, List.nodup_singleton _, fun file inside other last same => ?_⟩
  rw [same, List.mem_singleton.mp last] at inside
  exact index_not_mem noMod inside

end Distinct

/-- In a folder that had no files, no unit is lost exactly when no two units have the same file and
none has that of the index. -/
theorem keepsAll_putAll_iff {tree : Tree} {folder : Place} (empty : tree.listing folder = [])
    (units : List SourceUnit) : KeepsAll (tree.putAll folder (entries units)) folder units ↔
      (units.map SourceUnit.name).Nodup ∧ "mod" ∉ units.map SourceUnit.name := by
  have single : ((tree.putAll folder (entries units)).listing folder).Nodup :=
    Tree.nodup_listing_putAll _ (by rw [empty]; exact List.nodup_nil)
  have distinct := single.filter (· != "mod.rs")
  have inUnits := distinct.subperm fun file member => ((mem_unitFiles_iff empty).mp member).1
  have sizes : ((units.map SourceUnit.name).map fun name => name ++ ".rs").length =
      units.length := by
    rw [List.length_map, List.length_map]
  constructor
  · intro keeps
    -- There are as many different files of units as units, so no two units share one.
    have same := inUnits.perm_of_length_le (by rw [sizes]; exact Nat.le_of_eq keeps.count.symm)
    refine ⟨(same.nodup_iff.mp distinct).of_map, fun isMod => ?_⟩
    have inside := same.mem_iff.mpr (List.mem_map_of_mem isMod)
    exact ((mem_unitFiles_iff empty).mp inside).2 rfl
  · rintro ⟨differ, noMod⟩
    refine ⟨Nat.le_antisymm (sizes ▸ inUnits.length_le) ?_, fun unit member => ?_⟩
    · rw [← sizes]
      refine ((differ.map append_rs_injective).subperm fun file member =>
        (mem_unitFiles_iff empty).mpr ⟨member, ?_⟩).length_le
      rintro rfl
      exact index_not_mem noMod member
    · have keys : ((entries units).reverse.map Prod.fst).Nodup := by
        rw [List.map_reverse, List.nodup_reverse]
        exact nodup_map_fst_entries noMod differ
      have written : entry unit ∈ (entries units).reverse :=
        List.mem_reverse.mpr (List.mem_append_left _ (List.mem_map_of_mem member))
      rw [Tree.content?_putAll, lookup_of_mem keys written, Option.some_or]

end Output

namespace Schema

variable {schema : Schema} {settings : Settings} {folder : String} {working : Place}
  {tree after : Tree} {count : Nat}

/-- A run that comes to its end has made the folder and then put one content after another into
it. -/
theorem run_generateFolder
    (done : (schema.generateFolder settings folder).run working tree = (.ok count, after)) :
    schema.Accepted ∧ (schema.generate settings).ending = none ∧
      count = (schema.generate settings).units.length ∧ ∃ made : Tree, made.files = tree.files ∧
        after = made.putAll (Path.place working folder)
          (Output.entries (schema.generate settings).units) := by
  have kept := Job.files_makeFolders working folder tree
  rw [generateFolder, Job.run_bind] at done
  split at done
  · cases verified : schema.verify with
    | error halt =>
      rw [verified] at done
      cases done
    | ok =>
      rw [verified] at done
      have accepted := verify_eq_ok_iff.mp verified
      have plain (ended : (schema.generate settings).ending = none) :
          ∀ unit ∈ (schema.generate settings).units, '/' ∉ unit.name.toList := by
        intro unit member
        refine slash_not_mem_of_mem_unitNames accepted unit.name ?_
        rw [← names_generate ended]
        exact List.mem_map_of_mem member
      obtain ⟨ended, counted, rfl⟩ := Output.run_writeRun plain done
      exact ⟨accepted, ended, counted.trans (Plan.written_run _), _, kept, rfl⟩
  · cases done

/-- **No unit is lost in a folder exactly when all have names of their own.** A run that comes to
its end in a folder without files leaves there the last content that was written under each name,
the index under `mod.rs` last of all. There is a file for every unit besides the index, with the
code of that unit in it, exactly when the names of the units of the schema differ and none of them
is `mod`. -/
theorem generateFolder_keeps_units_iff
    (done : (schema.generateFolder settings folder).run working tree = (.ok count, after))
    (empty : tree.listing (Path.place working folder) = []) :
    count = (schema.generate settings).units.length ∧
    (∀ file, after.content? (Path.place working folder ++ [file]) =
      (Output.entries (schema.generate settings).units).reverse.lookup file) ∧
    (Output.KeepsAll after (Path.place working folder) (schema.generate settings).units ↔
      schema.unitNames.Nodup ∧ "mod" ∉ schema.unitNames) := by
  obtain ⟨accepted, ended, counted, made, kept, rfl⟩ := run_generateFolder done
  have cleared : made.listing (Path.place working folder) = [] := by
    rw [← empty, Tree.listing, Tree.listing, kept]
  refine ⟨counted, fun file => ?_, ?_⟩
  · have absent : file ∉ made.listing (Path.place working folder) := by
      rw [cleared]
      exact List.not_mem_nil
    rw [Tree.content?_putAll, Tree.content?_of_listing absent, Option.or_none]
  · rw [← names_generate ended]
    exact Output.keepsAll_putAll_iff cleared _

/-- Two enums whose units have names of their own. -/
def paired : Schema where
  packageName := "paired"
  id := 1
  header := Build.messageHeader
  types := [Build.enumeration "Fuel" 0 (.of .uint8) [("petrol", .uint 1)],
    Build.enumeration "Brake" 0 (.of .uint8) [("disc", .uint 3)]]

theorem paired_generateFolder_keeps_units :
    ∃ after, (paired.generateFolder {} "out").run [] {} = (.ok 4, after) ∧
      Output.KeepsAll after ["out"] (paired.generate {}).units := by
  have ended : ((paired.generateFolder {} "out").run [] {}).1 = .ok 4 := by decide +kernel
  have done : (paired.generateFolder {} "out").run [] {} =
      (.ok 4, ((paired.generateFolder {} "out").run [] {}).2) := by rw [← ended]
  have place : Path.place [] "out" = ["out"] := by decide +kernel
  obtain ⟨_, _, keeps⟩ := generateFolder_keeps_units_iff done (by rw [place]; rfl)
  rw [place] at keeps
  exact ⟨_, done, keeps.mpr (by decide +kernel)⟩

/-- Two enums whose units have the same name. -/
def twins : Schema where
  packageName := "twins"
  id := 1
  header := Build.messageHeader
  types := [Build.enumeration "Fuel" 0 (.of .uint8) [("petrol", .uint 1)],
    Build.enumeration "fuel" 0 (.of .uint8) [("diesel", .uint 2)]]

/-- Four units are counted and three have files: the fourth is written over the third. -/
theorem twins_generateFolder_loses_unit :
    twins.verify = .ok () ∧
    (twins.generate {}).units.map SourceUnit.name =
      ["message_header_decoder", "message_header_encoder", "fuel", "fuel"] ∧
    ((twins.generateFolder {} "out").run [] {}).1 = .ok 4 ∧
    ((twins.generateFolder {} "out").run [] {}).2.listing ["out"] =
      ["message_header_decoder.rs", "message_header_encoder.rs", "fuel.rs", "mod.rs"] ∧
    ((twins.generateFolder {} "out").run [] {}).2.content? ["out", "fuel.rs"] ≠
      (twins.generate {}).units[2]?.map fun unit => unit.code ++ "\n" := by
  decide +kernel

end Schema

end Sbe
