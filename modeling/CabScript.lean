import CabScript.Element
import CabScript.Script.Reversal
import CabScript.Machine.Effect
import CabScript.Proofs.Admission
import CabScript.Proofs.Outcome
import CabScript.Proofs.History
import CabScript.Proofs.Frame
import CabScript.Proofs.Composition
import CabScript.Proofs.RawStream
import CabScript.Proofs.Session
import CabScript.Proofs.Dependence
import CabScript.Proofs.Constancy
import CabScript.Proofs.Reload
import CabScript.Proofs.Latch
import CabScript.Proofs.NumberOrder
import CabScript.Proofs.Pins
import CabScript.Proofs.Trimming
import CabScript.Proofs.PoolWalks
import CabScript.Proofs.Alignment
import CabScript.Proofs.Reads
import CabScript.Proofs.Alone
import CabScript.Proofs.CarNumbers
import CabScript.Proofs.ShortestDecimal
import CabScript.Proofs.NumberText
import CabScript.Proofs.Depth
import CabScript.Proofs.Replacement
import CabScript.Proofs.SpelledOut
import CabScript.Proofs.Disassembly
import CabScript.Proofs.Blocks
import CabScript.Proofs.OwnCar
import CabScript.Proofs.TrainWide
import CabScript.Proofs.StreamFaults
import CabScript.Proofs.ExactValue
import CabScript.Proofs.NearestInteger
import CabScript.Proofs.OperandLookup
import CabScript.Proofs.WholeSums
import CabScript.Proofs.BrakeScale
import CabScript.Proofs.NumberSign
import CabScript.Proofs.Interpolation
import CabScript.Proofs.TrackPosition
import CabScript.Proofs.NearestAxle
import CabScript.Proofs.Truncation
import CabScript.Proofs.UniformDraw
import CabScript.Proofs.WordRounds
import CabScript.Proofs.Rounding
import CabScript.Proofs.NearestDouble
import CabScript.Proofs.RoundedArithmetic
import CabScript.Proofs.FlooredModulo
import CabScript.Proofs.FiniteFunctions
import CabScript.Proofs.StepTable
