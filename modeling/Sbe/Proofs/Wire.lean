import Sbe.Codec.Wire
import Sbe.Proofs.Outcome

/-!
**Bytes put on a wire, and bytes taken from it.**

Work on a wire is described by the bytes it is about. Work that fills a block puts bytes at a fixed
place below the limit and further bytes at the limit, which moves past them. Work that scans a block
finds bytes at these two places. Both are put together from single steps by joining the bytes.

* `Buffer.overwrite_append`, `Buffer.overwrite_comm`: overwriting next to and apart from each other;
* `Puts`, `Fills`: writers and how they follow one another;
* `Gets`, `Scans`: readers and how they follow one another.
-/

namespace Sbe

/-! ### Overwriting -/

namespace Buffer

theorem ext_toList {buffer other : Buffer} (same : buffer.toList = other.toList) :
    buffer = other := by
  cases buffer
  cases other
  exact congrArg Buffer.mk (Array.toList_inj.mp same)

theorem replaceFrom_append (bytes : Array UInt8) (index : Nat) (first second : List UInt8) :
    replaceFrom bytes index (first ++ second) =
      replaceFrom (replaceFrom bytes index first) (index + first.length) second := by
  induction first generalizing bytes index with
  | nil => rfl
  | cons byte rest ih =>
    rw [List.cons_append, replaceFrom, ih, replaceFrom, List.length_cons,
      show index + 1 + rest.length = index + (rest.length + 1) by omega]

/-- Bytes one after another are overwritten one after another. -/
theorem overwrite_append (buffer : Buffer) (index : Nat) (first second : List UInt8) :
    buffer.overwrite index (first ++ second) =
      (buffer.overwrite index first).overwrite (index + first.length) second :=
  congrArg Buffer.mk (replaceFrom_append buffer.bytes index first second)

theorem setIfInBounds_replaceFrom {bytes : Array UInt8} {index other : Nat} {source : List UInt8}
    (apart : index < other) (byte : UInt8) :
    (replaceFrom bytes other source).setIfInBounds index byte =
      replaceFrom (bytes.setIfInBounds index byte) other source := by
  induction source generalizing bytes other with
  | nil => rfl
  | cons first rest ih =>
    rw [replaceFrom, replaceFrom, ih (by omega), Array.setIfInBounds_comm _ _ (by omega)]

theorem replaceFrom_comm {bytes : Array UInt8} {index other : Nat} {source second : List UInt8}
    (apart : index + source.length ≤ other) :
    replaceFrom (replaceFrom bytes other second) index source =
      replaceFrom (replaceFrom bytes index source) other second := by
  induction source generalizing bytes index with
  | nil => rfl
  | cons byte rest ih =>
    rw [List.length_cons] at apart
    rw [replaceFrom, replaceFrom, setIfInBounds_replaceFrom (by omega), ih (by omega)]

/-- Ranges that do not meet can be overwritten in either order. -/
theorem overwrite_comm {buffer : Buffer} {index other : Nat} {source second : List UInt8}
    (apart : index + source.length ≤ other) :
    (buffer.overwrite other second).overwrite index source =
      (buffer.overwrite index source).overwrite other second :=
  congrArg Buffer.mk (replaceFrom_comm apart)

/-- The last of two writes to a range counts. -/
theorem overwrite_overwrite {buffer : Buffer} {index : Nat} {first second : List UInt8}
    (same : first.length = second.length) (inside : index + second.length ≤ buffer.capacity) :
    (buffer.overwrite index first).overwrite index second = buffer.overwrite index second := by
  have firstInside : index + first.length ≤ buffer.capacity := by omega
  have taken : (buffer.toList.take index).length = index := by
    rw [List.length_take, length_toList]
    omega
  have before (rest : List UInt8) :
      (buffer.toList.take index ++ (first ++ rest)).take index = buffer.toList.take index :=
    List.take_left' taken
  have after (rest : List UInt8) :
      (buffer.toList.take index ++ (first ++ rest)).drop (index + first.length) = rest := by
    rw [← List.append_assoc]
    exact List.drop_left' (by rw [List.length_append, taken])
  apply ext_toList
  rw [toList_overwrite _ _ _ (by rwa [capacity_overwrite]), toList_overwrite _ _ _ firstInside,
    toList_overwrite _ _ _ inside, List.append_assoc (buffer.toList.take index) first, ← same,
    before, after]

/-! ### What a buffer holds -/

/-- The bytes that stand at an index. -/
def Holds (buffer : Buffer) (index : Nat) (bytes : List UInt8) : Prop :=
  ∃ before after, buffer.toList = before ++ (bytes ++ after) ∧ before.length = index

theorem Holds.left {buffer : Buffer} {index : Nat} {first second : List UInt8}
    (holds : buffer.Holds index (first ++ second)) : buffer.Holds index first := by
  obtain ⟨before, after, whole, start⟩ := holds
  exact ⟨before, second ++ after, by rw [whole, List.append_assoc], start⟩

theorem Holds.right {buffer : Buffer} {index : Nat} {first second : List UInt8}
    (holds : buffer.Holds index (first ++ second)) :
    buffer.Holds (index + first.length) second := by
  obtain ⟨before, after, whole, start⟩ := holds
  refine ⟨before ++ first, after, ?_, ?_⟩
  · rw [whole, List.append_assoc, List.append_assoc]
  · rw [List.length_append, start]

theorem Holds.slice_eq {ε : Type} {buffer : Buffer} {index : Nat} {bytes : List UInt8}
    (holds : buffer.Holds index bytes) :
    (buffer.slice index bytes.length : Outcome ε (List UInt8)) = .ok bytes := by
  obtain ⟨before, after, whole, start⟩ := holds
  have inside : index + bytes.length ≤ buffer.capacity := by
    rw [← length_toList, whole, List.length_append, List.length_append]
    omega
  rw [Buffer.slice_eq buffer index bytes.length inside, whole, List.drop_left' start,
    List.take_left]

theorem holds_overwrite {buffer : Buffer} {index : Nat} {bytes : List UInt8}
    (inside : index + bytes.length ≤ buffer.capacity) :
    (buffer.overwrite index bytes).Holds index bytes := by
  refine ⟨buffer.toList.take index, buffer.toList.drop (index + bytes.length), ?_, ?_⟩
  · rw [toList_overwrite _ _ _ inside, List.append_assoc]
  · rw [List.length_take, length_toList]
    omega

theorem overwrite_zero {buffer : Buffer} {bytes : List UInt8}
    (inside : bytes.length ≤ buffer.capacity) :
    buffer.overwrite 0 bytes = ofList (bytes ++ buffer.toList.drop bytes.length) := by
  refine ext_toList ?_
  rw [toList_overwrite _ _ _ (by rwa [Nat.zero_add]), List.take_zero, List.nil_append, Nat.zero_add,
    toList_ofList]

end Buffer

namespace Wire

/-- The wire with bytes put at an index. -/
def put (wire : Wire) (index : Nat) (bytes : List UInt8) : Wire :=
  { wire with buffer := wire.buffer.overwrite index bytes }

/-- The wire with the limit moved forward. -/
def advance (wire : Wire) (length : Nat) : Wire :=
  { wire with cursor := { wire.cursor with limit := wire.cursor.limit + length } }

@[simp] theorem buffer_put (wire : Wire) (index : Nat) (bytes : List UInt8) :
    (wire.put index bytes).buffer = wire.buffer.overwrite index bytes := rfl

@[simp] theorem cursor_put (wire : Wire) (index : Nat) (bytes : List UInt8) :
    (wire.put index bytes).cursor = wire.cursor := rfl

@[simp] theorem buffer_advance (wire : Wire) (length : Nat) :
    (wire.advance length).buffer = wire.buffer := rfl

@[simp] theorem limit_advance (wire : Wire) (length : Nat) :
    (wire.advance length).cursor.limit = wire.cursor.limit + length := rfl

theorem advance_advance (wire : Wire) (first second : Nat) :
    (wire.advance first).advance second = wire.advance (first + second) := by
  simp [advance, Nat.add_assoc]

theorem put_append (wire : Wire) (index : Nat) (first second : List UInt8) :
    wire.put index (first ++ second) =
      (wire.put index first).put (index + first.length) second := by
  simp [put, Buffer.overwrite_append]

/-- Bytes put apart from each other are put in any order. -/
theorem put_comm (wire : Wire) {index other : Nat} {first second : List UInt8}
    (apart : index + first.length ≤ other ∨ other + second.length ≤ index) :
    (wire.put index first).put other second = (wire.put other second).put index first := by
  rcases apart with before | behind
  · simp only [put, Buffer.overwrite_comm before]
  · simp only [put, Buffer.overwrite_comm behind]

/-- The wire with bytes put at the limit and the limit moved past them. -/
def append (wire : Wire) (bytes : List UInt8) : Wire :=
  (wire.put wire.cursor.limit bytes).advance bytes.length

@[simp] theorem capacity_append (wire : Wire) (bytes : List UInt8) :
    (wire.append bytes).buffer.capacity = wire.buffer.capacity :=
  Buffer.capacity_overwrite _ _ _

@[simp] theorem limit_append (wire : Wire) (bytes : List UInt8) :
    (wire.append bytes).cursor.limit = wire.cursor.limit + bytes.length := rfl

theorem append_append (wire : Wire) (first second : List UInt8) :
    (wire.append first).append second = wire.append (first ++ second) := by
  simp [append, put, advance, Buffer.overwrite_append, Nat.add_assoc]

end Wire

namespace Codec

variable {α β : Type}

theorem run_bind_of_ok {ε σ : Type} {first : ExceptT ε (StateM σ) α}
    {next : α → ExceptT ε (StateM σ) β} {state after : σ} {value : α}
    (done : first.run state = (.ok value, after)) :
    (first >>= next).run state = (next value).run after := by
  show (StateT.bind first (ExceptT.bindCont next)) state = _
  rw [StateT.bind, show first state = (.ok value, after) from done]
  rfl

@[simp] theorem run_pure (value : α) (wire : Wire) :
    (pure value : Codec α).run wire = (.ok value, wire) := rfl

/-! ### Writers -/

/-- Work that puts bytes at an index and leaves the limit. -/
def Puts (work : Codec Unit) (index : Nat) (bytes : List UInt8) : Prop :=
  ∀ wire : Wire, index + bytes.length ≤ wire.buffer.capacity → index + bytes.length < wordBound →
    work.run wire = (.ok (), wire.put index bytes)

/-- Work that puts bytes at the limit and moves the limit past them. -/
def Appends (work : Codec Unit) (bytes : List UInt8) : Prop :=
  ∀ wire : Wire, wire.cursor.limit + bytes.length ≤ wire.buffer.capacity →
    wire.cursor.limit + bytes.length < wordBound →
    work.run wire = (.ok (), wire.append bytes)

/-- Work that puts bytes into a block below the limit, and appends further bytes. -/
def Fills (work : Codec Unit) (index : Nat) (block tail : List UInt8) : Prop :=
  ∀ wire : Wire, index + block.length ≤ wire.cursor.limit →
    wire.cursor.limit + tail.length ≤ wire.buffer.capacity →
    wire.cursor.limit + tail.length < wordBound →
    work.run wire = (.ok (), (wire.put index block).append tail)

theorem Puts.pure (index : Nat) : Puts (pure ()) index [] := fun _ _ _ => rfl

theorem Puts.bind {first second : Codec Unit} {index : Nat} {front back : List UInt8}
    (one : Puts first index front) (two : Puts second (index + front.length) back) :
    Puts (first >>= fun _ => second) index (front ++ back) := by
  intro wire room small
  rw [List.length_append] at room small
  rw [run_bind_of_ok (one wire (by omega) (by omega)),
    two _ (by rw [Wire.buffer_put, Buffer.capacity_overwrite]; omega) (by omega), Wire.put_append]

/-- Work that only finds out where to put something does not change what is put. -/
theorem Puts.after_view {view : Codec α} {value : α} {next : α → Codec Unit} {index : Nat}
    {bytes : List UInt8} (puts : Puts (next value) index bytes)
    (found : index < wordBound → ∀ wire, view.run wire = (.ok value, wire)) :
    Puts (view >>= next) index bytes := by
  intro wire room small
  rw [run_bind_of_ok (found (by omega) wire), puts wire room small]

theorem Puts.fills {work : Codec Unit} {index : Nat} {block : List UInt8}
    (puts : Puts work index block) : Fills work index block [] := by
  intro wire below room small
  rw [List.length_nil] at room small
  exact puts wire (by omega) (by omega)

theorem Puts.bind_appends {first second : Codec Unit} {index : Nat} {block tail : List UInt8}
    (puts : Puts first index block) (appends : Appends second tail) :
    Fills (first >>= fun _ => second) index block tail := by
  intro wire below room small
  rw [run_bind_of_ok (puts wire (by omega) (by omega))]
  exact appends (wire.put index block)
    (by rw [Wire.buffer_put, Buffer.capacity_overwrite]; exact room) small

theorem Appends.bind {first second : Codec Unit} {front back : List UInt8}
    (one : Appends first front) (two : Appends second back) :
    Appends (first >>= fun _ => second) (front ++ back) := by
  intro wire room small
  rw [List.length_append] at room small
  rw [run_bind_of_ok (one wire (by omega) (by omega)), two, Wire.append_append]
  · rw [Wire.limit_append, Wire.capacity_append]
    omega
  · rw [Wire.limit_append]
    omega

theorem Appends.pure : Appends (pure ()) [] := fun _ _ _ => rfl

/-! ### Readers -/

/-- Work that finds bytes at an index and leaves the wire. -/
def Gets (version : Nat) (work : Codec α) (index : Nat) (bytes : List UInt8) (value : α) : Prop :=
  ∀ wire : Wire, wire.cursor.version = version → wire.buffer.Holds index bytes →
    index + bytes.length < wordBound → work.run wire = (.ok value, wire)

/-- Work that finds bytes at the limit and moves the limit past them. -/
def Reads (version : Nat) (work : Codec α) (bytes : List UInt8) (value : α) : Prop :=
  ∀ wire : Wire, wire.cursor.version = version → wire.buffer.Holds wire.cursor.limit bytes →
    wire.cursor.limit + bytes.length < wordBound →
    work.run wire = (.ok value, wire.advance bytes.length)

/-- Work that finds bytes in a block, and takes further bytes at the limit. -/
def Scans (version : Nat) (work : Codec α) (index : Nat) (block tail : List UInt8) (value : α) :
    Prop :=
  ∀ wire : Wire, wire.cursor.version = version → wire.buffer.Holds index block →
    index + block.length < wordBound → wire.buffer.Holds wire.cursor.limit tail →
    wire.cursor.limit + tail.length < wordBound →
    work.run wire = (.ok value, wire.advance tail.length)

theorem Gets.bind {version : Nat} {first : Codec α} {next : α → Codec β} {index : Nat}
    {front back : List UInt8} {value : α} {result : β} (one : Gets version first index front value)
    (two : Gets version (next value) (index + front.length) back result) :
    Gets version (first >>= next) index (front ++ back) result := by
  intro wire same holds small
  rw [List.length_append] at small
  rw [run_bind_of_ok (one wire same holds.left (by omega)), two wire same holds.right (by omega)]

theorem Gets.map {version : Nat} {work : Codec α} {index : Nat} {bytes : List UInt8} {value : α}
    (gets : Gets version work index bytes value) (image : α → β) :
    Gets version (work >>= fun found => pure (image found)) index bytes (image value) := by
  intro wire same holds small
  rw [run_bind_of_ok (gets wire same holds small)]
  rfl

theorem Scans.after_view {version : Nat} {view : Codec α} {value : α} {next : α → Codec β}
    {index : Nat} {block tail : List UInt8} {result : β}
    (found : index < wordBound → ∀ wire, view.run wire = (.ok value, wire))
    (scans : Scans version (next value) index block tail result) :
    Scans version (view >>= next) index block tail result := by
  intro wire same holds small
  rw [run_bind_of_ok (found (by omega) wire)]
  exact scans wire same holds small

theorem Gets.bind_scans {version : Nat} {first : Codec α} {next : α → Codec β} {index : Nat}
    {front block tail : List UInt8} {value : α} {result : β}
    (gets : Gets version first index front value)
    (scans : Scans version (next value) (index + front.length) block tail result) :
    Scans version (first >>= next) index (front ++ block) tail result := by
  intro wire same holds small tailHolds tailSmall
  rw [List.length_append] at small
  rw [run_bind_of_ok (gets wire same holds.left (by omega)),
    scans wire same holds.right (by omega) tailHolds tailSmall]

theorem Gets.scans {version : Nat} {work : Codec α} {index : Nat} {block : List UInt8} {value : α}
    (gets : Gets version work index block value) : Scans version work index block [] value :=
  fun wire same holds small _ _ => gets wire same holds small

theorem Gets.bind_reads {version : Nat} {first : Codec α} {next : α → Codec β} {index : Nat}
    {block tail : List UInt8} {value : α} {result : β} (gets : Gets version first index block value)
    (reads : Reads version (next value) tail result) :
    Scans version (first >>= next) index block tail result := by
  intro wire same holds small tailHolds tailSmall
  rw [run_bind_of_ok (gets wire same holds small)]
  exact reads wire same tailHolds tailSmall

theorem Reads.bind {version : Nat} {first : Codec α} {next : α → Codec β}
    {front back : List UInt8} {value : α} {result : β} (one : Reads version first front value)
    (two : Reads version (next value) back result) :
    Reads version (first >>= next) (front ++ back) result := by
  intro wire same holds small
  rw [List.length_append] at small
  rw [run_bind_of_ok (one wire same holds.left (by omega)), two, List.length_append,
    Wire.advance_advance]
  · exact same
  · exact holds.right
  · rw [Wire.limit_advance]
    omega

theorem Reads.map {version : Nat} {work : Codec α} {bytes : List UInt8} {value : α}
    (reads : Reads version work bytes value) (image : α → β) :
    Reads version (work >>= fun found => pure (image found)) bytes (image value) := by
  intro wire same holds small
  rw [run_bind_of_ok (reads wire same holds small)]
  rfl

end Codec

end Sbe
