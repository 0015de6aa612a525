import Sbe.Proofs.PlainText
import Sbe.Text.Lines

/-!
**Guards among the lines of a text.**

A guard is the line that tests the version. Code is a list of lines, but its text is split into
lines anew, so that a line of code with a line break inside is more than one line of the text. What
is claimed of guards in the text therefore speaks of all pieces of a line.

* `guardLine`: the guard of a version at a depth of blocks;
* `Inert`: a line of code of which no piece is a guard, however far it is indented;
* `Free`: code whose lines are seen to be inert by their characters, which `simp` can test;
* `Guards`: code whose guards stand at one depth, with their versions;
* `Guards.count_lines`: the guards among the lines of the text of such code.
-/

namespace Sbe.Source

open Sbe.Text

/-! ### Guards -/

/-- What a guard starts with. -/
def guardOpening : String := "if self.cursor.acting_version() < "

/-- The guard of a version at a depth of blocks. -/
def guardLine (depth version : Nat) : String :=
  String.ofList (List.replicate (4 * depth) ' ') ++ (guardOpening ++ toString version ++ " \x7b")

example : guardLine 2 7 = "        if self.cursor.acting_version() < 7 \x7b" := by decide

theorem toList_guardOpening :
    guardOpening.toList =
      ['i', 'f', ' ', 's', 'e', 'l', 'f', '.', 'c', 'u', 'r', 's', 'o', 'r', '.', 'a', 'c', 't',
        'i', 'n', 'g', '_', 'v', 'e', 'r', 's', 'i', 'o', 'n', '(', ')', ' ', '<', ' '] :=
  String.toList_ofList

theorem toList_guardLine (depth version : Nat) : (guardLine depth version).toList =
    List.replicate (4 * depth) ' ' ++
      (guardOpening.toList ++ (Nat.toDigits 10 version ++ [' ', '\x7b'])) := by
  simp [guardLine, Nat.toList_repr]

theorem guardLine_succ (depth version : Nat) :
    guardLine (depth + 1) version = "    " ++ guardLine depth version := by
  rw [← String.toList_inj, String.toList_append, toList_guardLine, toList_guardLine, Nat.mul_succ,
    Nat.add_comm, ← List.replicate_append_replicate, List.append_assoc]
  rfl

theorem guardLine_inj {depth version other later : Nat} :
    guardLine depth version = guardLine other later ↔ depth = other ∧ version = later := by
  refine ⟨fun same => ?_, fun ⟨one, two⟩ => by rw [one, two]⟩
  rw [← String.toList_inj, toList_guardLine, toList_guardLine] at same
  have blank (depth version : Nat) :
      (List.replicate (4 * depth) ' ' ++
          (guardOpening.toList ++ (Nat.toDigits 10 version ++ [' ', '\x7b']))).takeWhile
          (· == ' ') = List.replicate (4 * depth) ' ' := by
    rw [List.takeWhile_append_of_pos (by simp), toList_guardOpening]
    simp
  have depths := congrArg (fun line => (line.takeWhile (· == ' ')).length) same
  rw [blank, blank, List.length_replicate, List.length_replicate] at depths
  obtain rfl : depth = other := by omega
  have digits := List.append_cancel_right (List.append_cancel_left (List.append_cancel_left same))
  have values := congrArg (Nat.ofDigitChars 10 · 0) digits
  rw [Nat.ofDigitChars_ten_toDigits, Nat.ofDigitChars_ten_toDigits] at values
  exact ⟨rfl, values⟩

/-- The codes of the characters that guards are made of, and of the carriage return, as bits. -/
def guardCodes : Nat := 0x87cd2ea8000000013ff430100002000

theorem guardCodes_of_mem {depth version : Nat} {character : Char}
    (member : character ∈ (guardLine depth version).toList) :
    guardCodes.testBit character.toNat = true := by
  have opening : (guardOpening.toList.all fun character => guardCodes.testBit character.toNat) =
      true := by
    rw [toList_guardOpening]
    decide
  have digits : ∀ code < 58, 48 ≤ code → guardCodes.testBit code = true := by decide
  rw [toList_guardLine, List.mem_append, List.mem_append, List.mem_append] at member
  rcases member with blank | start | digit | ending
  · rw [List.eq_of_mem_replicate blank]
    decide
  · exact List.all_eq_true.mp opening character start
  · have isDigit := Nat.isDigit_of_mem_toDigits (by decide) (by decide) digit
    obtain ⟨least, greatest⟩ := Char.isDigit_iff_toNat.mp isDigit
    exact digits _ (Nat.lt_succ_of_le greatest) least
  · have closing : ([' ', '\x7b'].all fun character => guardCodes.testBit character.toNat) =
        true := by
      decide
    exact List.all_eq_true.mp closing character ending

/-- A piece of a text that is a guard once the end of its line is taken off. -/
def IsGuard (piece : List Char) : Prop :=
  ∃ depth version,
    piece = (guardLine depth version).toList ∨ piece = (guardLine depth version).toList ++ ['\r']

namespace IsGuard

variable {piece : List Char}

theorem codes (isGuard : IsGuard piece) {character : Char} (member : character ∈ piece) :
    guardCodes.testBit character.toNat = true := by
  obtain ⟨depth, version, rfl | rfl⟩ := isGuard
  · exact guardCodes_of_mem member
  · rcases List.mem_append.mp member with inside | ending
    · exact guardCodes_of_mem inside
    · rw [List.mem_singleton.mp ending]
      decide

theorem mem (isGuard : IsGuard piece) {character : Char}
    (member : character ∈ guardOpening.toList) : character ∈ piece := by
  obtain ⟨depth, version, rfl | rfl⟩ := isGuard
  · simp [toList_guardLine, member]
  · simp [toList_guardLine, member]

/-- A guard that is indented is a guard without its indentation. -/
theorem of_indented (isGuard : IsGuard ("    ".toList ++ piece)) : IsGuard piece := by
  have blanks : "    ".toList = [' ', ' ', ' ', ' '] := rfl
  obtain ⟨depth, version, same⟩ := isGuard
  cases depth with
  | zero =>
    rw [toList_guardLine, toList_guardOpening, blanks] at same
    rcases same with same | same <;> cases same
  | succ depth =>
    rw [guardLine_succ, String.toList_append, List.append_assoc] at same
    exact ⟨depth, version, same.imp (List.append_cancel_left ·) (List.append_cancel_left ·)⟩

/-- A guard that is not indented starts as every guard does. -/
theorem opening (isGuard : IsGuard piece) (start : piece.head? = some 'i') :
    guardOpening.toList <+: piece := by
  obtain ⟨depth, version, same⟩ := isGuard
  cases depth with
  | zero =>
    rw [toList_guardLine, Nat.mul_zero, List.replicate_zero, List.nil_append,
      List.append_assoc] at same
    rcases same with same | same
    · exact ⟨_, same.symm⟩
    · exact ⟨_, same.symm⟩
  | succ depth =>
    rw [guardLine_succ, String.toList_append,
      show "    ".toList = [' ', ' ', ' ', ' '] from rfl] at same
    rcases same with rfl | rfl <;> cases start

end IsGuard

/-! ### Lines that are no guards -/

/-- A line of code of which no piece is a guard, however far it is indented. -/
def Inert (line : String) : Prop := ∀ piece ∈ line.toList.splitOn '\n', ¬ IsGuard piece

/-- Text without line breaks joins the first piece of the text behind it. -/
theorem mem_splitOn_append {front text : String} (plain : Plain front) {piece : List Char}
    (member : piece ∈ (front ++ text).toList.splitOn '\n') :
    (∃ first ∈ text.toList.splitOn '\n', piece = front.toList ++ first) ∨
      piece ∈ text.toList.splitOn '\n' := by
  have pieces : (front.toList ++ text.toList).splitOn '\n' =
      (text.toList.splitOn '\n').modifyHead (front.toList ++ ·) := by
    unfold Plain at plain
    generalize front.toList = characters at plain
    induction characters with
    | nil => exact (congrFun List.modifyHead_id _).symm
    | cons character rest ih =>
      rw [List.mem_cons, not_or] at plain
      rw [List.cons_append, List.splitOn_cons_eq_if_modifyHead,
        if_neg (by simpa using Ne.symm plain.1), ih plain.2, List.modifyHead_modifyHead]
      rfl
  rw [String.toList_append, pieces] at member
  cases split : text.toList.splitOn '\n' with
  | nil => exact absurd split (List.splitOn_ne_nil _ _)
  | cons first rest =>
    rw [split, List.modifyHead_cons] at member
    rcases List.mem_cons.mp member with rfl | later
    · exact .inl ⟨first, List.mem_cons_self, rfl⟩
    · exact .inr (List.mem_cons_of_mem _ later)

theorem Inert.indent {line : String} (inert : Inert line) : Inert ("    " ++ line) := by
  intro piece member
  rcases mem_splitOn_append (plain_literal rfl) member with ⟨first, inside, rfl⟩ | later
  · exact fun isGuard => inert first inside isGuard.of_indented
  · exact inert piece later

/-- Text with a character that no guard has. -/
def Foreign (text : String) : Prop :=
  ∃ character ∈ text.toList, guardCodes.testBit character.toNat = false

@[simp] theorem foreign_append (first second : String) :
    Foreign (first ++ second) ↔ Foreign first ∨ Foreign second := by
  simp [Foreign, or_and_right, exists_or]

@[simp low] theorem foreign_of_spelled {text : String} (spelled : Spelled
    (fun characters => characters.any fun character => !guardCodes.testBit character.toNat) text) :
    Foreign text := by
  obtain ⟨character, member, passed⟩ := List.any_eq_true.mp spelled.passes
  exact ⟨character, member, by simpa using passed⟩

/-- Text that compares nothing. -/
def Calm (text : String) : Prop := '<' ∉ text.toList

/-- A line without line breaks that has a character no guard has, or lacks one that every guard
has. -/
def Mild (line : String) : Prop := Plain line ∧ (Foreign line ∨ Calm line)

@[simp] theorem mild_append (first second : String) : Mild (first ++ second) ↔
    Plain (first ++ second) ∧ (Foreign (first ++ second) ∨ Calm (first ++ second)) := Iff.rfl

@[simp low] theorem mild_of_spelled {line : String} (spelled : Spelled
    (fun characters => (characters.all fun character => character.toNat != 10) &&
      ((characters.any fun character => !guardCodes.testBit character.toNat) ||
        characters.all fun character => character.toNat != 60)) line) : Mild line := by
  have passed := spelled.passes
  rw [Bool.and_eq_true, Bool.or_eq_true] at passed
  refine ⟨plain_of_spelled ⟨_, String.ofList_toList, passed.1⟩,
    passed.2.imp (fun any => ?_) fun all => ?_⟩
  · exact foreign_of_spelled ⟨_, String.ofList_toList, any⟩
  · intro compared
    have other := List.all_eq_true.mp all _ compared
    cases other

theorem Mild.inert {line : String} (mild : Mild line) : Inert line := by
  obtain ⟨plain, distinct⟩ := mild
  intro piece member isGuard
  rw [List.splitOn_eq_singleton plain, List.mem_singleton] at member
  subst member
  rcases distinct with ⟨character, inside, other⟩ | calm
  · rw [isGuard.codes inside] at other
    cases other
  · exact calm (isGuard.mem (by rw [toList_guardOpening]; decide))

theorem mem_of_mem_splitOn {text piece : List Char} (member : piece ∈ text.splitOn '\n')
    {character : Char} (inside : character ∈ piece) : character ∈ text := by
  induction text generalizing piece with
  | nil =>
    rw [List.splitOn_nil, List.mem_singleton] at member
    rwa [member] at inside
  | cons first rest ih =>
    rw [List.splitOn_cons_eq_if_modifyHead] at member
    split at member
    · rcases List.mem_cons.mp member with rfl | later
      · cases inside
      · exact List.mem_cons_of_mem _ (ih later inside)
    · cases split : rest.splitOn '\n' with
      | nil => exact absurd split (List.splitOn_ne_nil _ _)
      | cons head others =>
        rw [split] at member ih
        rcases List.mem_cons.mp member with rfl | later
        · rcases List.mem_cons.mp inside with rfl | inside
          · exact List.mem_cons_self
          · exact List.mem_cons_of_mem _ (ih List.mem_cons_self inside)
        · exact List.mem_cons_of_mem _ (ih (List.mem_cons_of_mem _ later) inside)

/-- A variant is no guard, not even behind a line break, where it has no underscores. -/
theorem inert_variant {enumName variant : String} (plain : Plain enumName)
    (settled : Plain variant ∨ '_' ∉ variant.toList) : Inert (enumName ++ "::" ++ variant) := by
  rcases settled with whole | mark
  · exact Mild.inert (by simp (disch := constructor; rfl; decide) [plain, whole])
  · have front : Plain (enumName ++ "::") := (plain_append _ _).mpr ⟨plain, plain_literal rfl⟩
    intro piece member isGuard
    rcases mem_splitOn_append front member with ⟨first, _, rfl⟩ | later
    · have colon : ':' ∈ (enumName ++ "::").toList ++ first := by simp
      exact absurd (isGuard.codes colon) (by decide)
    · exact mark (mem_of_mem_splitOn later (isGuard.mem (by rw [toList_guardOpening]; decide)))

/-! ### Code without guards -/

/-- Code whose lines are mild. -/
def Free (code : Code) : Prop := ∀ line ∈ code, Mild line

@[simp] theorem free_nil : Free [] := by simp [Free]

@[simp] theorem free_cons (line : String) (code : Code) :
    Free (line :: code) ↔ Mild line ∧ Free code := by
  simp [Free]

@[simp] theorem free_append (code later : Code) :
    Free (code ++ later) ↔ Free code ∧ Free later := by
  simp [Free, or_imp, forall_and]

theorem free_map {α : Type} (image : α → String) (items : List α) :
    Free (items.map image) ↔ ∀ item ∈ items, Mild (image item) := by
  simp [Free]

theorem free_flatMap {α : Type} (image : α → Code) (items : List α) :
    Free (items.flatMap image) ↔ ∀ item ∈ items, Free (image item) := by
  simp only [Free, List.mem_flatMap]
  exact ⟨fun all item member line inside => all line ⟨item, member, inside⟩,
    fun all line ⟨item, member, inside⟩ => all item member line inside⟩

theorem mild_indented (line : String) : Mild ("    " ++ line) ↔ Mild line := by
  have blank : ¬ Foreign "    " := by
    rintro ⟨character, member, other⟩
    rw [List.eq_of_mem_replicate (n := 4) member] at other
    cases other
  have calm : Calm ("    " ++ line) ↔ Calm line := by simp [Calm]
  rw [Mild, Mild, plain_append, foreign_append, calm, or_iff_right blank,
    and_iff_right (plain_literal rfl)]

@[simp] theorem free_indent (code : Code) : Free (Code.indent code) ↔ Free code := by
  rw [Code.indent, free_map]
  refine forall₂_congr fun line _ => ?_
  split
  · rfl
  · exact mild_indented line

@[simp] theorem free_block (head : String) (body : Code) :
    Free (Code.block head body) ↔ Mild (head ++ " \x7b") ∧ Free body := by
  rw [Code.block, free_append, free_cons, free_indent]
  simp (disch := constructor; rfl; decide)

@[simp] theorem free_spaced (code : Code) : Free (Code.spaced code) ↔ Free code := by
  rw [Code.spaced, free_cons]
  simp (disch := constructor; rfl; decide)

@[simp] theorem free_function (signature : String) (body : Code) :
    Free (Code.function signature body) ↔ Plain signature ∧ Free body := by
  simp (disch := constructor; rfl; decide) [Code.function]

@[simp] theorem free_constantFunction (signature : String) (body : Code) :
    Free (Code.constantFunction signature body) ↔ Plain signature ∧ Free body := by
  simp (disch := constructor; rfl; decide) [Code.constantFunction]

@[simp] theorem mild_constant (name type value : String) :
    Mild (Code.constant name type value) ↔ Plain name ∧ Plain type ∧ Plain value := by
  show Mild ("pub const " ++ name ++ ": " ++ type ++ " = " ++ value ++ ";") ↔ _
  simp (disch := constructor; rfl; decide) [and_assoc]

@[simp] theorem mild_quote (text : String) : Mild (quote text) := by
  refine ⟨plain_quote text, .inl ⟨'"', ?_, by decide⟩⟩
  rw [quote, String.toList_ofList]
  exact List.mem_cons_self

@[simp] theorem mild_readAt (primitive : Primitive) (index : String) (order : ByteOrder) :
    Mild (readAt primitive "self.buffer" index order) ↔ Plain index := by
  show Mild ("self.buffer" ++ ".get_" ++ primitive.sourceType ++ "(" ++ index ++
    orderArgument primitive order ++ ")") ↔ _
  simp (disch := constructor; rfl; decide)

@[simp] theorem mild_writeAt (primitive : Primitive) (buffer index value : String)
    (order : ByteOrder) :
    Mild (writeAt primitive buffer index value order) ↔
    Plain buffer ∧ Plain index ∧ Plain value := by
  show Mild (buffer ++ ".put_" ++ primitive.sourceType ++ "(" ++ index ++ ", " ++ value ++
    orderArgument primitive order ++ ");") ↔ _
  simp (disch := constructor; rfl; decide) [and_assoc]

@[simp] theorem plain_braced (fields : String) : Plain (Code.braced fields) ↔ Plain fields := by
  simp (disch := constructor; rfl; decide) [Code.braced]

/-! ### Code with guards -/

/-- Code whose guards stand at one depth, with their versions in order. -/
inductive Guards (depth : Nat) : Code → List Nat → Prop where
  | nil : Guards depth [] []
  | line {line : String} {code : Code} {versions : List Nat} (inert : Inert line)
      (rest : Guards depth code versions) : Guards depth (line :: code) versions
  | guard (version : Nat) {code : Code} {versions : List Nat} (rest : Guards depth code versions) :
      Guards depth (guardLine depth version :: code) (version :: versions)

namespace Guards

variable {depth : Nat} {code later : Code} {versions others : List Nat}

theorem of_inert (inert : ∀ line ∈ code, Inert line) : Guards depth code [] := by
  induction code with
  | nil => exact .nil
  | cons line rest ih =>
    obtain ⟨first, rest⟩ := List.forall_mem_cons.mp inert
    exact .line first (ih rest)

theorem of_free (free : Free code) : Guards depth code [] :=
  of_inert fun line member => (free line member).inert

theorem append (one : Guards depth code versions) (two : Guards depth later others) :
    Guards depth (code ++ later) (versions ++ others) := by
  induction one with
  | nil => exact two
  | line inert _ ih => exact .line inert ih
  | guard version _ ih => exact .guard version ih

theorem preceded (guards : Guards depth later others) (free : Free code) :
    Guards depth (code ++ later) others := (of_free free).append guards

theorem followed (guards : Guards depth code versions) (free : Free later) :
    Guards depth (code ++ later) versions := by
  have joined := guards.append (of_free free)
  rwa [List.append_nil] at joined

theorem flatten {α : Type} {items : List α} {codes : List Code} {image : α → List Nat}
    (each : List.Forall₂ (fun item code => Guards depth code (image item)) items codes) :
    Guards depth codes.flatten (items.flatMap image) := by
  induction each with
  | nil => exact .nil
  | cons first _ ih => exact first.append ih

theorem flatMap {α : Type} {image : α → Code} {items : List α}
    (each : ∀ item ∈ items, Guards depth (image item) []) :
    Guards depth (items.flatMap image) [] := by
  induction items with
  | nil => exact .nil
  | cons item rest ih =>
    obtain ⟨first, later⟩ := List.forall_mem_cons.mp each
    exact first.append (ih later)

theorem indent (guards : Guards depth code versions) :
    Guards (depth + 1) (Code.indent code) versions := by
  induction guards with
  | nil => exact .nil
  | line inert _ ih =>
    refine .line ?_ ih
    dsimp only
    split
    · exact inert
    · exact inert.indent
  | @guard version _ _ _ ih =>
    have filled : (guardLine depth version).isEmpty = false := by
      rw [String.isEmpty_eq_false_iff, ne_eq, ← String.toList_inj, toList_guardLine,
        toList_guardOpening]
      simp
    rw [Code.indent, List.map_cons, filled, if_neg Bool.false_ne_true, ← guardLine_succ]
    exact .guard version ih

theorem block {head : String} (inert : Inert (head ++ " \x7b"))
    (guards : Guards depth code versions) : Guards (depth + 1) (Code.block head code) versions := by
  have closing : Guards (depth + 1) ["\x7d"] [] :=
    of_free (by simp (disch := constructor; rfl; decide))
  have inside := (guards.indent).append closing
  rw [List.append_nil] at inside
  exact .line inert inside

theorem spaced (guards : Guards depth code versions) : Guards depth (Code.spaced code) versions :=
  .line (mild_of_spelled (.intro [] rfl rfl)).inert guards

theorem function {signature : String} (plain : Plain signature)
    (guards : Guards depth code versions) :
    Guards (depth + 1) (Code.function signature code) versions :=
  (block (Mild.inert (by simp (disch := constructor; rfl; decide) [plain])) guards).spaced

/-- A function behind a comment. -/
theorem documented {comment head : String} (said : Mild comment) (opens : Mild (head ++ " \x7b"))
    (guards : Guards depth code versions) :
    Guards (depth + 1) (Code.spaced (comment :: Code.block head code)) versions :=
  spaced (.line said.inert (block opens.inert guards))

end Guards

theorem guards_guard (since : UInt32) {fallback : String} (plain : Plain fallback) :
    Guards 0 (guard since fallback) [since.toNat] := by
  have inside : Free (Code.indent ["return " ++ fallback ++ ";"] ++ ["\x7d"]) := by
    simp (disch := constructor; rfl; decide) [plain]
  have opening : guardLine 0 since.toNat = guardOpening ++ toString since.toNat ++ " \x7b" := by
    rw [guardLine, Nat.mul_zero, List.replicate_zero]
    exact String.empty_append
  have guards : Guards 0 (guardLine 0 since.toNat :: _) _ := .guard since.toNat (.of_free inside)
  rw [opening] at guards
  exact guards

/-- The versions of a number of guards for one version, none where nothing is guarded. -/
def versionTests (guarded : Bool) (count version : Nat) : List Nat :=
  List.replicate (if guarded then count else 0) version

theorem guards_guardIf (guarded : Bool) (since : UInt32) {fallback : String}
    (plain : Plain fallback) :
    Guards 0 (guardIf guarded since fallback) (versionTests guarded 1 since.toNat) := by
  cases guarded with
  | false => exact .nil
  | true => exact guards_guard since plain

theorem Guards.join {depth : Nat} {code later : Code} {guarded : Bool} {count more version : Nat}
    (one : Guards depth code (versionTests guarded count version))
    (two : Guards depth later (versionTests guarded more version)) :
    Guards depth (code ++ later) (versionTests guarded (count + more) version) := by
  have joined := one.append two
  rw [versionTests, versionTests, List.replicate_append_replicate] at joined
  cases guarded with
  | false => exact joined
  | true => exact joined

/-! ### Lines of a text -/

theorem count_ofList_cons (characters : List Char) (lines : List String) (line : String) :
    (String.ofList characters :: lines).count line =
      lines.count line + if characters = line.toList then 1 else 0 := by
  have same : String.ofList characters = line ↔ characters = line.toList := by
    rw [← String.toList_inj, String.toList_ofList]
  rw [List.count_cons]
  simp only [beq_iff_eq, same]

theorem reverse_dropReturn_eq_iff {characters before : List Char}
    (kept : characters.getLast? ≠ some '\r') (single : characters ++ ['\r'] ≠ before.reverse) :
    (dropReturn before).reverse = characters ↔ before.reverse = characters := by
  unfold dropReturn
  split
  · rw [List.reverse_cons] at single ⊢
    constructor
    · rintro rfl
      exact absurd rfl single
    · rintro rfl
      exact absurd List.getLast?_concat kept
  · rfl

/-- A line counts as often among the lines of a text as among its pieces between line breaks, if it
is not empty and no carriage return comes into play. -/
theorem count_linesFrom {line : String} (filled : line.toList ≠ [])
    (kept : line.toList.getLast? ≠ some '\r') {before rest : List Char}
    (single : line.toList ++ ['\r'] ∉ (rest.splitOn '\n').modifyHead (before.reverse ++ ·)) :
    (linesFrom before rest).count line =
      ((rest.splitOn '\n').modifyHead (before.reverse ++ ·)).count line.toList := by
  fun_induction linesFrom before rest with
  | case1 => simp [filled.symm]
  | case2 before =>
    rw [List.splitOn_nil, List.modifyHead_cons, List.append_nil, count_ofList_cons, List.count_cons]
    simp
  | case3 before rest ih =>
    rw [List.splitOn_cons_eq_if_modifyHead, if_pos (beq_self_eq_true _), List.modifyHead_cons,
      List.append_nil] at single ⊢
    rw [List.mem_cons, not_or] at single
    rw [count_ofList_cons, List.count_cons]
    have empty : (rest.splitOn '\n').modifyHead (List.reverse [] ++ ·) = rest.splitOn '\n' :=
      congrFun List.modifyHead_id _
    rw [empty] at ih
    rw [ih single.2]
    simp only [reverse_dropReturn_eq_iff kept single.1, beq_iff_eq]
  | case4 before character rest other ih =>
    have joined : ((character :: rest).splitOn '\n').modifyHead (before.reverse ++ ·) =
        (rest.splitOn '\n').modifyHead ((character :: before).reverse ++ ·) := by
      rw [List.splitOn_cons_eq_if_modifyHead, if_neg (by simpa using other),
        List.modifyHead_modifyHead]
      simp [Function.comp_def]
    rw [joined] at single ⊢
    exact ih single

theorem splitOn_text {code : Code} (filled : code ≠ []) : code.text.toList.splitOn '\n' =
    code.flatMap fun line => line.toList.splitOn '\n' := by
  induction code with
  | nil => exact absurd rfl filled
  | cons line rest ih =>
    cases rest with
    | nil => rw [Code.text, String.intercalate_singleton, List.flatMap_singleton]
    | cons next rest =>
      have joined : (Code.text (line :: next :: rest)).toList =
          line.toList ++ '\n' :: (Code.text (next :: rest)).toList := by
        simp [Code.text, String.intercalate_cons_cons]
      rw [joined, List.splitOn_append_cons_self, ih (by simp)]
      rfl

theorem splitOn_guardLine (depth version : Nat) :
    (guardLine depth version).toList.splitOn '\n' = [(guardLine depth version).toList] :=
  List.splitOn_eq_singleton fun broken => absurd (guardCodes_of_mem broken) (by decide)

theorem getLast?_guardLine (depth version : Nat) :
    (guardLine depth version).toList.getLast? = some '\x7b' := by
  simp [toList_guardLine]

namespace Guards

variable {depth : Nat} {code : Code} {versions : List Nat}

/-- The pieces of the lines that are guards. -/
theorem count_pieces (guards : Guards depth code versions) (other version : Nat) :
    (code.flatMap fun line => line.toList.splitOn '\n').count (guardLine other version).toList =
      if other = depth then versions.count version else 0 := by
  induction guards with
  | nil => simp
  | line inert _ ih =>
    rw [List.flatMap_cons, List.count_append, ih, List.count_eq_zero.mpr, Nat.zero_add]
    exact fun member => inert _ member ⟨other, version, .inl rfl⟩
  | guard first _ ih =>
    rw [List.flatMap_cons, List.count_append, ih, splitOn_guardLine, List.count_singleton,
      List.count_cons]
    simp only [beq_iff_eq, String.toList_inj, guardLine_inj]
    by_cases here : other = depth
    · subst here
      simp [Nat.add_comm]
    · simp [here, Ne.symm here]

theorem return_not_mem (guards : Guards depth code versions) (other version : Nat) :
    (guardLine other version).toList ++ ['\r'] ∉
      code.flatMap fun line => line.toList.splitOn '\n' := by
  induction guards with
  | nil => simp
  | line inert _ ih =>
    rw [List.flatMap_cons, List.mem_append, not_or]
    exact ⟨fun member => inert _ member ⟨other, version, .inr rfl⟩, ih⟩
  | guard first _ ih =>
    rw [List.flatMap_cons, List.mem_append, not_or, splitOn_guardLine, List.mem_singleton]
    refine ⟨fun same => ?_, ih⟩
    have last := getLast?_guardLine depth first
    rw [← same, List.getLast?_concat] at last
    cases last

/-- **The guards among the lines of a text** are those of the code, all at one depth. -/
theorem count_lines (guards : Guards depth code versions) (other version : Nat) :
    (lines code.text).count (guardLine other version) =
      if other = depth then versions.count version else 0 := by
  rw [← guards.count_pieces]
  by_cases empty : code = []
  · subst empty
    rfl
  · have last := getLast?_guardLine other version
    have filled : (guardLine other version).toList ≠ [] := by
      intro nothing
      rw [nothing] at last
      cases last
    have pieces : (code.text.toList.splitOn '\n').modifyHead (List.reverse [] ++ ·) =
        code.flatMap fun line => line.toList.splitOn '\n' :=
      (congrFun List.modifyHead_id _).trans (splitOn_text empty)
    have single := guards.return_not_mem other version
    rw [← pieces] at single ⊢
    exact count_linesFrom filled (by rw [last]; decide) single

end Guards

end Sbe.Source
