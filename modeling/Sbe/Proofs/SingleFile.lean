import Mathlib.Data.List.Forall2
import Sbe.Proofs.DescriptiveTexts
import Sbe.Proofs.ModuleNames

/-!
**One file tells its units apart.**

In the one file of all units every row ends in a line feed. The rows of a unit stand between the row
that opens its module and a brace of its own, and are empty or indented, so that the brace is the
first row that can close the module: what the code looks like cannot end a unit early. The file is
therefore read back to the names of its units and the lines of their code.

* `Text.rows_ended`: a text whose rows all end in a line feed has these rows and no others;
* `moduleText_eq`, `singleFile_eq`: the file as rows;
* `moduleRow_injective`, `brace_not_mem`: the rows of a line of code;
* `flatMap_moduleRows_inj`: units are recovered from rows, one after another;
* `singleFile_eq_iff`: so equal files have equal units.
-/

namespace Sbe

namespace Text

/-- Rows as a text, each ended by a line feed. -/
def ended (rows : List String) : String := String.join (rows.map (· ++ "\n"))

theorem ended_cons (row : String) (rest : List String) :
    ended (row :: rest) = row ++ "\n" ++ ended rest := by
  rw [ended, List.map_cons, String.join_cons]
  rfl

theorem ended_append (first second : List String) :
    ended (first ++ second) = ended first ++ ended second := by
  rw [ended, List.map_append, String.join_append]
  rfl

/-- A text whose rows all end in a line feed has these rows, and an empty one behind the last. -/
theorem rows_ended {lines : List String} (plain : ∀ line ∈ lines, Plain line) :
    rows (ended lines) = lines ++ [""] := by
  induction lines with
  | nil => rfl
  | cons line rest ih =>
    obtain ⟨first, later⟩ := List.forall_mem_cons.mp plain
    have shape : (ended (line :: rest)).toList = line.toList ++ '\n' :: (ended rest).toList := by
      simp [ended_cons]
    rw [rows, shape, List.splitOn_append_cons_self, List.splitOn_eq_singleton first,
      List.map_append, List.map_singleton, String.ofList_toList, ← rows, ih later]
    rfl

theorem ended_inj {lines others : List String} (plain : ∀ line ∈ lines, Plain line)
    (othersPlain : ∀ line ∈ others, Plain line) (same : ended lines = ended others) :
    lines = others := by
  have split := congrArg rows same
  rw [rows_ended plain, rows_ended othersPlain] at split
  exact List.append_cancel_right split

end Text

namespace Output

open Sbe.Text (Plain ended)

/-! ### The file as rows -/

/-- A line of code as a row of the file. -/
def moduleRow (line : String) : String := if line.isEmpty then "" else "    " ++ line

/-- The rows of a unit. -/
def moduleRows (unit : SourceUnit) : List String :=
  ["", "pub mod " ++ unit.name ++ " \x7b"] ++
    ((Text.lines unit.code).map moduleRow ++ ["\x7d", "pub use " ++ unit.name ++ "::*;"])

theorem ended_moduleRow (lines : List String) :
    ended (lines.map moduleRow) = String.join (lines.map moduleLine) := by
  rw [ended, List.map_map]
  rfl

theorem moduleText_eq (unit : SourceUnit) : moduleText unit = ended (moduleRows unit) := by
  unfold moduleText moduleRows
  rw [Text.ended_append, Text.ended_append, ended_moduleRow]
  generalize String.join ((Text.lines unit.code).map moduleLine) = body
  exact String.toList_inj.mp (by simp [ended])

theorem singleFile_eq (units : List SourceUnit) :
    singleFile units = ended (banner :: units.flatMap moduleRows) := by
  have modules : String.join (units.map moduleText) = ended (units.flatMap moduleRows) := by
    induction units with
    | nil => rfl
    | cons unit rest ih =>
      rw [List.map_cons, String.join_cons, List.flatMap_cons, Text.ended_append, ih, moduleText_eq]
  rw [singleFile, Text.ended_cons, modules]

theorem plain_moduleRow {line : String} (plain : Plain line) : Plain (moduleRow line) := by
  unfold moduleRow
  split
  · exact Text.plain_literal rfl
  · exact (Text.plain_append _ _).mpr ⟨Text.plain_literal rfl, plain⟩

/-- No row of a unit holds a line feed. -/
theorem plain_of_mem_moduleRows {unit : SourceUnit} (named : Plain unit.name) :
    ∀ row ∈ moduleRows unit, Plain row := by
  have around {before after : String} (front : Plain before) (back : Plain after) :
      Plain (before ++ unit.name ++ after) := by
    rw [Text.plain_append, Text.plain_append]
    exact ⟨⟨front, named⟩, back⟩
  have opening : Plain ("pub mod " ++ unit.name ++ " \x7b") :=
    around (Text.plain_literal rfl) (Text.plain_literal rfl)
  have closing : Plain ("pub use " ++ unit.name ++ "::*;") :=
    around (Text.plain_literal rfl) (Text.plain_literal rfl)
  have lines : ∀ row ∈ (Text.lines unit.code).map moduleRow, Plain row := by
    rw [List.forall_mem_map]
    exact fun line member =>
      plain_moduleRow (Text.plain_of_mem_linesFrom List.not_mem_nil line member)
  rw [moduleRows, List.forall_mem_append, List.forall_mem_append]
  refine ⟨?_, lines, ?_⟩
  · exact List.forall_mem_cons.mpr ⟨Text.plain_literal rfl, List.forall_mem_singleton.mpr opening⟩
  · exact List.forall_mem_cons.mpr ⟨Text.plain_literal rfl, List.forall_mem_singleton.mpr closing⟩

theorem plain_of_mem_file {units : List SourceUnit} (named : ∀ unit ∈ units, Plain unit.name) :
    ∀ row ∈ banner :: units.flatMap moduleRows, Plain row := by
  rw [List.forall_mem_cons, List.forall_mem_flatMap]
  exact ⟨Text.plain_literal rfl, fun unit member => plain_of_mem_moduleRows (named unit member)⟩

/-! ### Units from rows -/

/-- A row keeps its line. -/
theorem moduleRow_injective : Function.Injective moduleRow := by
  intro line other same
  unfold moduleRow at same
  split at same <;> split at same
  · next empty emptyToo => rw [String.isEmpty_iff.mp empty, String.isEmpty_iff.mp emptyToo]
  · exact absurd (congrArg String.toList same) (by simp)
  · exact absurd (congrArg String.toList same) (by simp)
  · exact (String.append_right_inj _).mp same

/-- A brace that is not indented is the row of no line. -/
theorem brace_not_mem (lines : List String) : "\x7d" ∉ lines.map moduleRow := by
  rw [List.mem_map]
  rintro ⟨line, _, same⟩
  have first := congrArg (fun row => row.toList.head?) same
  unfold moduleRow at first
  split at first
  · cases first
  · simp at first

/-- A list is cut in one way at the first place where a mark stands. -/
theorem append_cons_inj_of_not_mem {α : Type} {mark : α} {front other back later : List α}
    (free : mark ∉ front) (otherFree : mark ∉ other)
    (same : front ++ mark :: back = other ++ mark :: later) : front = other ∧ back = later := by
  rcases List.append_eq_append_iff.mp same with ⟨between, rfl, behind⟩ | ⟨between, rfl, behind⟩
  · cases between with
    | nil => exact ⟨(List.append_nil _).symm, (List.cons.inj behind).2⟩
    | cons first rest =>
      rw [(List.cons.inj behind).1] at otherFree
      exact absurd (List.mem_append_right _ List.mem_cons_self) otherFree
  · cases between with
    | nil => exact ⟨List.append_nil _, (List.cons.inj behind).2.symm⟩
    | cons first rest =>
      rw [(List.cons.inj behind).1] at free
      exact absurd (List.mem_append_right _ List.mem_cons_self) free

/-- Units that the file does not tell apart: they have one name, and the same lines of code. -/
def SameContents (unit other : SourceUnit) : Prop :=
  unit.name = other.name ∧ Text.lines unit.code = Text.lines other.code

/-- The rows of units one after another tell where each unit ends. -/
theorem sameContents_of_flatMap_moduleRows {left right : List SourceUnit}
    (same : left.flatMap moduleRows = right.flatMap moduleRows) :
    List.Forall₂ SameContents left right := by
  induction left generalizing right with
  | nil =>
    cases right with
    | nil => exact .nil
    | cons unit rest => cases same
  | cons unit rest ih =>
    cases right with
    | nil => cases same
    | cons other others =>
      simp only [List.flatMap_cons, moduleRows, List.append_assoc, List.cons_append,
        List.nil_append, List.cons.injEq, true_and] at same
      obtain ⟨header, same⟩ := same
      have names : unit.name = other.name :=
        (String.append_right_inj _).mp ((String.append_left_inj _).mp header)
      -- The brace stands in neither body, so both bodies end where it stands first.
      obtain ⟨bodies, same⟩ := append_cons_inj_of_not_mem (brace_not_mem _) (brace_not_mem _) same
      exact .cons ⟨names, moduleRow_injective.list_map bodies⟩ (ih (List.cons.inj same).2)

theorem flatMap_moduleRows_of_sameContents {left right : List SourceUnit}
    (same : List.Forall₂ SameContents left right) :
    left.flatMap moduleRows = right.flatMap moduleRows := by
  induction same with
  | nil => rfl
  | @cons unit other _ _ first _ ih =>
    have rows : moduleRows unit = moduleRows other := by
      rw [moduleRows, moduleRows, first.1, first.2]
    rw [List.flatMap_cons, List.flatMap_cons, rows, ih]

/-- **One file tells its units apart.** For units whose names have no line feed, as identifiers have
none, the files of two lists are equal exactly when the lists are equally long and have, one by one,
the same names and the same lines of code. -/
theorem singleFile_eq_iff {left right : List SourceUnit}
    (named : ∀ unit ∈ left ++ right, Plain unit.name) :
    singleFile left = singleFile right ↔ List.Forall₂ SameContents left right := by
  obtain ⟨leftNamed, rightNamed⟩ := List.forall_mem_append.mp named
  rw [singleFile_eq, singleFile_eq]
  constructor
  · intro same
    have rows := Text.ended_inj (plain_of_mem_file leftNamed) (plain_of_mem_file rightNamed) same
    exact sameContents_of_flatMap_moduleRows (List.cons.inj rows).2
  · intro same
    rw [flatMap_moduleRows_of_sameContents same]

/-- A unit whose code looks like the end of its module and the start of another. -/
def disguised : SourceUnit := ⟨"model", "\x7d\npub use model::*;\n\npub mod engine \x7b\r\n"⟩

/-- The two units that it looks like. -/
def undisguised : List SourceUnit := [⟨"model", ""⟩, ⟨"engine", ""⟩]

/-- The file of the one unit is not that of the two, and only line endings are lost from it. -/
theorem disguised_singleFile :
    (∀ unit ∈ disguised :: undisguised, Name.isIdentifier unit.name = true) ∧
    singleFile [disguised] ≠ singleFile undisguised ∧
    singleFile [disguised] =
      singleFile [⟨"model", "\x7d\r\npub use model::*;\r\n\r\npub mod engine \x7b"⟩] := by
  have identifiers : ∀ unit ∈ disguised :: undisguised, Name.isIdentifier unit.name = true := by
    decide +kernel
  refine ⟨identifiers, fun same => ?_, ?_⟩
  · have units := (singleFile_eq_iff fun unit member =>
      Name.plain_of_isIdentifier (identifiers unit member)).mp same
    exact absurd units.length_eq (by decide)
  · refine (singleFile_eq_iff ?_).mpr (.cons ⟨rfl, by decide +kernel⟩ .nil)
    rw [List.forall_mem_append, List.forall_mem_singleton, List.forall_mem_singleton]
    exact ⟨Name.plain_of_isIdentifier (by decide +kernel),
      Name.plain_of_isIdentifier (by decide +kernel)⟩

end Output

end Sbe
