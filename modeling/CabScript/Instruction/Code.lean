import CabScript.Instruction.Basic

/-!
# Raw codes

Every instruction has a raw code of 16 bits. The codes in use run from `0` to `136` without a gap;
a code beyond them stands for no instruction.
-/

namespace CabScript

/-- The code of a unary operator. -/
def UnaryOp.code : UnaryOp → UInt16
  | negate => 9 | reciprocal => 12 | increment => 16 | decrement => 17 | floor => 21
  | ceiling => 22 | round => 23 | abs => 26 | sign => 27 | exp => 28 | log => 29 | sqrt => 30
  | sin => 31 | cos => 32 | tan => 33 | arctan => 34 | not => 42

/-- The code of a binary operator. -/
def BinaryOp.code : BinaryOp → UInt16
  | add => 7 | subtract => 8 | multiply => 10 | divide => 11 | power => 13 | quotient => 19
  | modulo => 20 | min => 24 | max => 25 | equal => 35 | unequal => 36 | less => 37
  | greater => 38 | lessEqual => 39 | greaterEqual => 40 | and => 43 | or => 44 | nand => 45
  | nor => 46 | xor => 47

/-- The code of a ternary operator. -/
def TernaryOp.code : TernaryOp → UInt16
  | multiplyAdd => 18 | choose => 41

/-- The code of a draw. -/
def Draw.code : Draw → UInt16
  | uniform => 14 | integer => 15

/-- The code of a reading of the element's own car. The next code asks for the same reading of a
selected car. -/
def CarReading.code : CarReading → UInt16
  | speed => 58 | shownSpeed => 60 | acceleration => 62 | mainReservoir => 112
  | equalizingReservoir => 114 | brakePipe => 116 | brakeCylinder => 118
  | straightAirPipe => 120

/-- The code of a query about a selected car. -/
def CarQuery.code : CarQuery → UInt16
  | reading r => r.code + 1 | motorAcceleration => 65 | distance => 67 | trackDistance => 69
  | curveRadius => 71 | frontCurveRadius => 73 | rearCurveRadius => 75 | cant => 77
  | pitch => 79 | odometer => 81 | doors none => 83 | doors (some .left) => 85
  | doors (some .right) => 87 | doorTarget .left => 89 | doorTarget .right => 91
  | brightness => 135

/-- The code of a query about the train. -/
def TrainQuery.code : TrainQuery → UInt16
  | isPlayer => 55 | carCount => 56 | destination => 57 | motorAcceleration => 64
  | distance => 66 | trackDistance => 68 | doors none => 82 | doors (some .left) => 84
  | doors (some .right) => 86 | doorTarget .left => 88 | doorTarget .right => 90
  | reverser => 95 | powerNotch => 96 | powerNotches => 97 | brakeNotch => 98
  | brakeNotches => 99 | brakeNotchLinear => 100 | brakeNotchesLinear => 101
  | emergencyBrake => 102 | hasAirBrake => 107 | holdBrake => 108 | hasHoldBrake => 109
  | constSpeed => 110 | hasConstSpeed => 111

/-- The code of a query without an answer. -/
def Unprovided.code : Unprovided → UInt16
  | curveRadius => 70 | frontCurveRadius => 72 | rearCurveRadius => 74 | cant => 76
  | pitch => 78 | odometer => 80 | pilotLamp => 92 | passAlarm => 93 | stationAdjustAlarm => 94
  | klaxon => 103 | primaryKlaxon => 104 | secondaryKlaxon => 105 | musicKlaxon => 106
  | distanceNextStation => 125 | stopsNextStation => 126 | nextStation => 127
  | nextStationStop => 128 | routeLimit => 129 | terminalStation => 130

/-- The code of a query without an operand. -/
def Query.code : Query → UInt16
  | elapsed => 4 | objectState => 48 | time => 49 | cameraDistance => 50 | cameraOffset .x => 51
  | cameraOffset .y => 52 | cameraOffset .z => 53 | cameraView => 54 | ownCar r => r.code
  | train q => q.code | panelAvailable => 122 | showsTimetable => 124 | sectionAspect => 133
  | carNumber => 136 | unprovided u => u.code

/-- The code of a query with an operand. -/
def IndexedQuery.code : IndexedQuery → UInt16
  | car q => q.code | panel => 123 | station .distance => 131 | station .stops => 132

namespace Instruction

/-- The code of a block of constants, which the length of the block follows in a raw stream. -/
def blockCode : UInt16 := 2

/-- The raw code of an instruction. -/
def code : Instruction → UInt16
  | halt => 0
  | constant => 1
  | constants _ => blockCode
  | previous => 3
  | copy => 5
  | swap => 6
  | unary op => op.code
  | binary op => op.code
  | ternary op => op.code
  | draw d => d.code
  | query q => q.code
  | queryAt q => q.code
  | panelTimetable => 134
  | unknown code => code

end Instruction

end CabScript
