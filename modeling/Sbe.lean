import Sbe.Demo.Program
import Sbe.Main
import Sbe.Proofs.BufferCalls
import Sbe.Proofs.BuiltSchema
import Sbe.Proofs.CarRoundTrip
import Sbe.Proofs.CharacterEnums
import Sbe.Proofs.ChoiceBits
import Sbe.Proofs.ConstantTexts
import Sbe.Proofs.CountedSpans
import Sbe.Proofs.DeclarationOrder
import Sbe.Proofs.DerivedShapes
import Sbe.Proofs.Independence
import Sbe.Proofs.KindInsensitivity
import Sbe.Proofs.OrderText
import Sbe.Proofs.Overflow
import Sbe.Proofs.PlannedUnits
import Sbe.Proofs.References
import Sbe.Proofs.ReservedWords
import Sbe.Proofs.SingleFile
import Sbe.Proofs.Switches
import Sbe.Proofs.TextCodecs
import Sbe.Proofs.VarDataLengths
import Sbe.Proofs.VarDataReading
import Sbe.Proofs.VersionGuards
import Sbe.Proofs.WritingSessions
