import Sbe.Demo.Parts
import Sbe.Proofs.Groups

/-!
**The bytes of the shared parts.**

The enums, the extras and the engine are the same in every message that has them. Each of them puts
its bytes into a block, and is found in the same bytes.

* `Extras.write_puts`, `Extras.read_gets`: a set of three flags in one byte;
* `Engine.write_puts`, `Engine.read_gets`: an engine in six bytes, its code cut to three characters.
-/

namespace Sbe.Demo

open Sbe.Codec Sbe.Text
open Sbe.Text.Charset (oneByte)

variable {version : Nat}

/-! ### Enums -/

theorem booleanType_isDistinct : booleanType.IsDistinct :=
  ⟨by decide, by decide, by decide, by decide⟩

theorem modelType_isDistinct : modelType.IsDistinct := ⟨by decide, by decide, by decide, by decide⟩

/-! ### Extras -/

namespace Extras

/-- The bit pattern of the extras. -/
def raw (extras : Extras) : Nat :=
  SetType.change (SetType.change (SetType.change 0 2 extras.cruiseControl) 1 extras.sportsPack) 0
    extras.sunRoof

/-- The bytes of the extras. -/
def bytes (extras : Extras) : List UInt8 := numberBytes extrasType.primitive extras.raw

/-- Three flags fit into one byte, and each flag is the bit that was set for it. -/
theorem raw_spec (extras : Extras) :
    extras.raw < patternCount extrasType.primitive.size ∧
    extras = ⟨SetType.test extras.raw 0, SetType.test extras.raw 1, SetType.test extras.raw 2⟩ := by
  obtain ⟨sunRoof, sportsPack, cruiseControl⟩ := extras
  cases sunRoof <;> cases sportsPack <;> cases cruiseControl <;> decide

theorem write_puts (extras : Extras) (offset : Nat) :
    Puts (extras.write ⟨extrasType, offset⟩) offset extras.bytes := by
  obtain ⟨sunRoof, sportsPack, cruiseControl⟩ := extras
  have cleared : Puts (⟨extrasType, offset⟩ : SetView).clear offset
      (numberBytes extrasType.primitive 0) := putNumber_puts _ _ _
  have first := SetView.change_puts cleared (by decide) 2 cruiseControl
  have second := SetView.change_puts first (by cases cruiseControl <;> decide) 1 sportsPack
  have third :=
    SetView.change_puts second (by cases cruiseControl <;> cases sportsPack <;> decide) 0 sunRoof
  rw [bind_assoc, bind_assoc] at third
  exact third

theorem read_gets (extras : Extras) (offset : Nat) :
    Gets version (read ⟨extrasType, offset⟩) offset extras.bytes extras := by
  obtain ⟨fits, flags⟩ := extras.raw_spec
  have found : Gets version (SetView.raw ⟨extrasType, offset⟩) offset extras.bytes extras.raw :=
    getNumber_gets fits offset
  have read := found.map fun raw =>
    (⟨SetType.test raw 0, SetType.test raw 1, SetType.test raw 2⟩ : Extras)
  rw [← flags] at read
  exact read

end Extras

/-! ### Engines -/

namespace Engine

/-- The bytes of an engine. -/
def bytes (engine : Engine) : List UInt8 :=
  numberBytes .uint16 engine.capacity.toNat ++ (numberBytes .uint8 engine.numCylinders.toNat ++
    padded 3 (oneByte engine.manufacturerCode.toList))

/-- An engine as it is read back: the field of its code keeps three characters. -/
def asRead (engine : Engine) : Engine :=
  { engine with manufacturerCode := shortened 3 engine.manufacturerCode }

variable {engine : Engine}

theorem write_puts (ascii : IsAscii engine.manufacturerCode) (offset : Nat) :
    Puts (engine.write ⟨type, offset⟩) offset engine.bytes := by
  refine (NumberField.puts rfl _).bind ((NumberField.puts rfl _).bind ?_)
  exact TextField.puts (Charset.encode_ascii ascii) rfl

theorem read_gets (ascii : IsAscii engine.manufacturerCode) (offset : Nat) :
    Gets version (read ⟨type, offset⟩) offset engine.bytes engine.asRead := by
  have code :
      Gets version (manufacturerCodeField.read offset) (offset + 2 + 1)
        (padded 3 (oneByte engine.manufacturerCode.toList))
        (shortened 3 engine.manufacturerCode) := by
    rw [← Charset.decode_beforeNul ascii]
    exact TextField.gets (Nat.zero_le _) rfl _
  refine Gets.bind (NumberField.gets (Nat.zero_le _) rfl engine.capacity.toNat_lt) ?_
  refine Gets.bind (NumberField.gets (Nat.zero_le _) rfl engine.numCylinders.toNat_lt) ?_
  rw [UInt16.ofNat_toNat, UInt8.ofNat_toNat]
  exact code.map _

end Engine

end Sbe.Demo
