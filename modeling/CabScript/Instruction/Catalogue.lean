import CabScript.Instruction.Code

/-!
# The catalogue of instructions

The catalogue lists the instruction set in the order of the raw codes, each instruction with its
word.

## Main definitions

* `Instruction.catalogue`: words and instructions by code.
* `Instruction.ofCode`: the instruction of a raw code.
* `Instruction.mnemonic`, `Instruction.text`: words, without and with the operand.

## Main statements

* `code_catalogue`: every entry stands at the place that its code says.
-/

namespace CabScript.Instruction

/-- The words of the instruction set with their instructions, in the order of the codes from `0`.
The entry for blocks of constants stands for blocks of every length. -/
def catalogue : List (String × Instruction) := [
  -- Control and the constant pool
  ("halt", halt), ("constant", constant), ("constants", constants 0), ("value", previous),
  ("delta", query .elapsed),
  -- The stack
  ("~", copy), ("<>", swap),
  -- Arithmetic
  ("+", binary .add), ("-", binary .subtract), ("minus", unary .negate),
  ("*", binary .multiply), ("/", binary .divide), ("reciprocal", unary .reciprocal),
  ("power", binary .power), ("random", draw .uniform), ("randomint", draw .integer),
  ("++", unary .increment), ("--", unary .decrement), ("fma", ternary .multiplyAdd),
  ("quotient", binary .quotient), ("mod", binary .modulo), ("floor", unary .floor),
  ("ceiling", unary .ceiling), ("round", unary .round), ("min", binary .min),
  ("max", binary .max), ("abs", unary .abs), ("sign", unary .sign), ("exp", unary .exp),
  ("log", unary .log), ("sqrt", unary .sqrt), ("sin", unary .sin), ("cos", unary .cos),
  ("tan", unary .tan), ("arctan", unary .arctan),
  -- Comparison and choice
  ("==", binary .equal), ("!=", binary .unequal), ("<", binary .less), (">", binary .greater),
  ("<=", binary .lessEqual), (">=", binary .greaterEqual), ("?", ternary .choose),
  -- Logic
  ("!", unary .not), ("&", binary .and), ("|", binary .or), ("!&", binary .nand),
  ("!|", binary .nor), ("^", binary .xor),
  -- The element, the clock and the camera
  ("currentstate", query .objectState), ("time", query .time),
  ("cameradistance", query .cameraDistance), ("cameraxdistance", query (.cameraOffset .x)),
  ("cameraydistance", query (.cameraOffset .y)), ("camerazdistance", query (.cameraOffset .z)),
  ("cameramode", query .cameraView),
  -- The train and its cars
  ("playertrain", query (.train .isPlayer)), ("cars", query (.train .carCount)),
  ("destination", query (.train .destination)), ("speed", query (.ownCar .speed)),
  ("speedindex", queryAt (.car (.reading .speed))),
  ("speedometer", query (.ownCar .shownSpeed)),
  ("speedometerindex", queryAt (.car (.reading .shownSpeed))),
  ("acceleration", query (.ownCar .acceleration)),
  ("accelerationindex", queryAt (.car (.reading .acceleration))),
  ("accelerationmotor", query (.train .motorAcceleration)),
  ("accelerationmotorindex", queryAt (.car .motorAcceleration)),
  ("distance", query (.train .distance)), ("distanceindex", queryAt (.car .distance)),
  ("trackdistance", query (.train .trackDistance)),
  ("trackdistanceindex", queryAt (.car .trackDistance)),
  ("curveradius", query (.unprovided .curveRadius)),
  ("curveradiusindex", queryAt (.car .curveRadius)),
  ("frontaxlecurveradius", query (.unprovided .frontCurveRadius)),
  ("frontaxlecurveradiusindex", queryAt (.car .frontCurveRadius)),
  ("rearaxlecurveradius", query (.unprovided .rearCurveRadius)),
  ("rearaxlecurveradiusindex", queryAt (.car .rearCurveRadius)),
  ("curvecant", query (.unprovided .cant)), ("curvecantindex", queryAt (.car .cant)),
  ("pitch", query (.unprovided .pitch)), ("pitchindex", queryAt (.car .pitch)),
  ("odometer", query (.unprovided .odometer)), ("odometerindex", queryAt (.car .odometer)),
  -- Doors
  ("doors", query (.train (.doors none))), ("doorsindex", queryAt (.car (.doors none))),
  ("leftdoors", query (.train (.doors (some .left)))),
  ("leftdoorsindex", queryAt (.car (.doors (some .left)))),
  ("rightdoors", query (.train (.doors (some .right)))),
  ("rightdoorsindex", queryAt (.car (.doors (some .right)))),
  ("leftdoorstarget", query (.train (.doorTarget .left))),
  ("leftdoorstargetindex", queryAt (.car (.doorTarget .left))),
  ("rightdoorstarget", query (.train (.doorTarget .right))),
  ("rightdoorstargetindex", queryAt (.car (.doorTarget .right))),
  -- Lamps and alarms
  ("pilotlamp", query (.unprovided .pilotLamp)), ("passalarm", query (.unprovided .passAlarm)),
  ("stationadjustalarm", query (.unprovided .stationAdjustAlarm)),
  -- Controls
  ("reversernotch", query (.train .reverser)), ("powernotch", query (.train .powerNotch)),
  ("powernotches", query (.train .powerNotches)), ("brakenotch", query (.train .brakeNotch)),
  ("brakenotches", query (.train .brakeNotches)),
  ("brakenotchlinear", query (.train .brakeNotchLinear)),
  ("brakenotcheslinear", query (.train .brakeNotchesLinear)),
  ("emergencybrake", query (.train .emergencyBrake)),
  -- Horns
  ("klaxon", query (.unprovided .klaxon)),
  ("primaryklaxon", query (.unprovided .primaryKlaxon)),
  ("secondaryklaxon", query (.unprovided .secondaryKlaxon)),
  ("musicklaxon", query (.unprovided .musicKlaxon)),
  -- Equipment
  ("hasairbrake", query (.train .hasAirBrake)), ("holdbrake", query (.train .holdBrake)),
  ("hasholdbrake", query (.train .hasHoldBrake)), ("constspeed", query (.train .constSpeed)),
  ("hasconstspeed", query (.train .hasConstSpeed)),
  -- Brake pressures
  ("mainreservoir", query (.ownCar .mainReservoir)),
  ("mainreservoirindex", queryAt (.car (.reading .mainReservoir))),
  ("equalizingreservoir", query (.ownCar .equalizingReservoir)),
  ("equalizingreservoirindex", queryAt (.car (.reading .equalizingReservoir))),
  ("brakepipe", query (.ownCar .brakePipe)),
  ("brakepipeindex", queryAt (.car (.reading .brakePipe))),
  ("brakecylinder", query (.ownCar .brakeCylinder)),
  ("brakecylinderindex", queryAt (.car (.reading .brakeCylinder))),
  ("straightairpipe", query (.ownCar .straightAirPipe)),
  ("straightairpipeindex", queryAt (.car (.reading .straightAirPipe))),
  -- The safety panel
  ("hasplugin", query .panelAvailable), ("pluginstate", queryAt .panel),
  -- The timetable, stations and sections
  ("timetable", query .showsTimetable),
  ("distancenextstation", query (.unprovided .distanceNextStation)),
  ("stopsnextstation", query (.unprovided .stopsNextStation)),
  ("nextstation", query (.unprovided .nextStation)),
  ("nextstationstop", query (.unprovided .nextStationStop)),
  ("routelimit", query (.unprovided .routeLimit)),
  ("terminalstation", query (.unprovided .terminalStation)),
  ("distancestationindex", queryAt (.station .distance)),
  ("stopsstationindex", queryAt (.station .stops)), ("section", query .sectionAspect),
  -- Late additions
  ("panel2timetable", panelTimetable), ("brightnessindex", queryAt (.car .brightness)),
  ("carnumber", query .carNumber)]

/-- The instruction of a raw code that needs no operand. -/
def ofCode (code : UInt16) : Instruction :=
  match catalogue[code.toNat]? with
  | some (_, i) => i
  | none => unknown code

/-- The word of an instruction. -/
def mnemonic : Instruction → String
  | unknown _ => "unknown"
  | i =>
    match catalogue[i.code.toNat]? with
    | some (word, _) => word
    | none => "unknown"

/-- The word of an instruction, with its operand in brackets. -/
def text : Instruction → String
  | constants count => s!"constants({count})"
  | unknown code => s!"unknown({code})"
  | i => i.mnemonic

/-- The catalogue is in the order of the codes, which leave no gap. -/
theorem code_catalogue : catalogue.map (·.2.code) = (List.range 137).map UInt16.ofNat := by
  decide +kernel

end CabScript.Instruction
