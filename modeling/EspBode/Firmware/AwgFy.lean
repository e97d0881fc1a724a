import EspBode.Firmware.Scpi
import EspBode.Foundations.Dialogue
import EspBode.Foundations.Rounding

/-!
# The driver of the FY-series AWGs

`AWG_FY`, as dialogues over the serial line to the AWG, with the table of the FY6900. A dialogue is
a tree of what the driver says, what it waits for and what it reads, so `get` and `set` do not
mention the line or the AWG at all; what answers them is supplied by whoever runs the dialogue.

## What the platform decides

What the methods do with doubles depends on the platform: how results are rounded, and what a
conversion to an integer type gives where the language does not say. How numbers are printed is the
business of the `Print` class of the Arduino core, which is not part of the program. These are the
fields of a `Platform`, and the one thing that is asked of it is that a printed number has no
newline in it, because the line protocol would fall apart otherwise.

## How the methods are cut

* `set` is the checks, then what its loop does not change (`prepare`), then the loop, whose body is
  `attempt`. The loop carries one variable, `set_value`: a Boolean parameter overwrites it in every
  pass, and the others keep what `prepare` calculated.
* `get` is the checks, the query, and `interpret`, a pure function of the response.

An access to a table is checked, and the test that is to make it safe is `Invalid`, which is the
source's own. Whether it does make it safe is left to be shown. The debug output is left out, but
not what it reads: the message at the end of a `set` that failed names the parameter.
-/

namespace EspBode

/-! ### The platform -/

/-- What is inserted into the serial stream. -/
inductive Insertion where
  | long (n : ℤ)
  | double (x : Double)
  /-- `_FLOAT(x, precision)`. -/
  | float (x : Double) (precision : ℕ)
  /-- `_WIDTH(value, width)`. -/
  | width (value : Insertion) (width : ℕ)
  deriving DecidableEq, Repr

/-- What the program runs on. -/
structure Platform where
  arithmetic : Rounding
  /-- What a conversion to an integer type leaves, where the language does not define it. -/
  undefined : Double → ℤ
  print : Insertion → List UInt8
  /-- A number is printed on one line. -/
  print_line : ∀ i, chr '\n' ∉ print i

namespace Platform

variable (pf : Platform)

/-- Conversion to an unsigned type of so many bits. -/
def toUnsigned (bits : ℕ) (x : Double) : ℕ :=
  ((x.truncIn 0 (2 ^ bits)).getD (pf.undefined x % 2 ^ bits)).toNat

/-- Conversion to `long int`, which has 32 bits. -/
def toLong (x : Double) : ℤ :=
  (x.truncIn (-2 ^ 31) (2 ^ 31)).getD ((pf.undefined x).bmod (2 ^ 32))

/-- Conversion of an unsigned number. -/
def ofUnsigned (n : ℕ) : Double :=
  pf.arithmetic.round n

/-- The loop of `pow10`. -/
def powerOfTen (n : ℕ) : UInt32 :=
  (· * 10)^[n] 1

/-- `pow10(p)`. -/
def pow10 (p : ℤ) : Double :=
  if p < -9 ∨ 9 < p then .finite 1
  else
    let val := pf.ofUnsigned (powerOfTen p.natAbs).toNat
    if p < 0 then pf.arithmetic.div (.finite 1) val else val

end Platform

/-- `wait_for_serial(b_consume)`. -/
def waitForSerial (bConsume : Bool := false) : Dialogue Unit := do
  Dialogue.waitAvailable
  if bConsume then Dialogue.readAvailable

/-! ### Tables -/

/-- Checked access to a table. -/
def entry {α : Type} (table : List α) (i : ℕ) : Except Fault α :=
  match table[i]? with
  | some a => .ok a
  | none => .error .index

/-- Letters used to indicate FeelTech parameters. -/
def fyCodes : List UInt8 :=
  ascii "NNWFAOP"

/-- Letters used to indicate FeelTech channels; there should be no channel 0. -/
def fyChannels : List UInt8 :=
  ascii "MMF"

/-- The id of the sine wave among the wave forms of the FY series. -/
def Fy.sine : ℕ := 0

/-- The types of values used to send values to or receive values from the AWG. -/
inductive ParamType
  | bool
  | int
  | double
  deriving DecidableEq, Repr

/-- The structure used to translate parameters. -/
structure ParamTranslator where
  setType : ParamType
  setExponent : ℤ
  setPrecision : ℕ
  setWidth : ℕ
  getType : ParamType
  getExponent : ℤ
  deriving DecidableEq, Repr

/-- The translation table needed for FY6900 AWGs with recent firmware. -/
def pt6900 : List ParamTranslator :=
  [⟨.bool, 0, 0, 0, .bool, 0⟩, -- OFF
    ⟨.bool, 0, 0, 0, .bool, 0⟩, -- ON
    ⟨.int, 0, 0, 0, .int, 0⟩, -- WVTP
    ⟨.double, 0, 6, 0, .double, 0⟩, -- FRQ
    ⟨.double, 0, 4, 0, .int, -4⟩, -- AMP
    ⟨.double, 0, 3, 0, .int, -3⟩, -- OFST
    ⟨.double, 0, 3, 0, .int, -3⟩] -- PHSE

/-! ### The driver -/

/-- Maximum length of any line received from an FY-series AWG. -/
def awgResponseLength : ℕ := 20

/-- The driver: the retry count, and the table that the descendant class supplies. -/
structure AwgFy where
  mRetryCount : UInt32 := 0
  pt : List ParamTranslator

/-- The driver of the FY6900. -/
def awgFy6900 (retries : UInt32 := 0) : AwgFy :=
  ⟨retries, pt6900⟩

namespace AwgFy

/-- The number of channels, which no class of the program overrides. -/
def channels : UInt32 := 2

/-- `int retries = retry()`. -/
def retries (awg : AwgFy) : ℤ :=
  awg.mRetryCount.toInt32.toInt

/-- The validity test of `set` and `get`. -/
def Invalid (channel : UInt32) (paramId : ℕ) : Prop :=
  channels < channel ∨ Scpi.parameterCount < paramId

instance (channel : UInt32) (paramId : ℕ) : Decidable (Invalid channel paramId) :=
  inferInstanceAs (Decidable (_ ∨ _))

/-- `translate_wave(wave, direction)`. -/
def translateWave (_wave : ℕ) (direction : Bool) : ℕ :=
  if direction = Siglent.fromSig then Fy.sine else Siglent.sine

variable (pf : Platform)

/-- The value that `get` starts from. -/
def noValue : Double :=
  pf.arithmetic.round (-123 / 100)

/-- What `get` makes of a response, which ends at a NUL. -/
def interpret (row : ParamTranslator) (response : List UInt8) : Double :=
  let value := (sscanfLf (response.takeWhile (· != 0))).getD (noValue pf)
  let value := pf.arithmetic.mul value (pf.pow10 row.getExponent)
  if row.getType = .bool then value.truth else value

/-- `get(channel, param_id)`. -/
def get (awg : AwgFy) (channel : UInt32) (paramId : ℕ) : Dialogue Double := do
  if Invalid channel paramId then
    return .finite 0
  else
    let command := [chr 'R', ← entry fyChannels channel.toNat, ← entry fyCodes paramId, chr '\n']
    let row ← entry awg.pt paramId
    Dialogue.say (command ++ ascii "\n")
    -- wait until the AWG responds
    waitForSerial
    let response ← Dialogue.readBytesUntil (chr '\n') awgResponseLength
    return interpret pf row response

/-- Limit a value to a precision: `((uint64_t)(value * p10 + 0.5)) / p10`. -/
def limit (precision : ℕ) (value : Double) : Double :=
  let p10 := pf.pow10 precision
  let scaled := pf.arithmetic.add (pf.arithmetic.mul value p10) (.finite (1 / 2))
  pf.arithmetic.div (pf.ofUnsigned (pf.toUnsigned 64 scaled)) p10

/-- The `switch` of `set`: what is inserted for a value of the type. -/
def insertion (setType : ParamType) (width precision : ℕ) (setValue : Double) : Insertion :=
  match setType with
  | .bool | .int =>
    if width ≠ 0 then .width (.long (pf.toLong setValue)) width else .long (pf.toLong setValue)
  | .double =>
    if width ≠ 0 then .width (.float setValue precision) width
    else if precision ≠ 0 then .float setValue precision
    else .double setValue

/-- The locals of `set` that its loop does not change. -/
structure Locals where
  command : List UInt8
  setType : ParamType
  width : ℕ
  precision : ℕ
  value : Double
  bValidate : Bool
  deriving DecidableEq, Repr

/-- One pass of the loop of `set`: whether it is verified, and the value of `set_value` then. -/
def attempt (awg : AwgFy) (channel : UInt32) (paramId : ℕ) (l : Locals) (setValue : Double) :
    Dialogue (Bool × Double) := do
  Dialogue.say l.command
  let setValue := if l.setType = .bool then l.value.truth else setValue
  Dialogue.say (pf.print (insertion pf l.setType l.width l.precision setValue))
  Dialogue.say (ascii "\n") -- complete the line
  -- wait for the AWG to respond and discard the response
  waitForSerial true
  if l.bValidate then
    let value ← get pf awg channel paramId
    return (l.value.eq value, setValue)
  else
    return (true, setValue)

/-- The part of `set` before its loop: the locals, and the value of `set_value`. -/
def prepare (awg : AwgFy) (command : List UInt8) (row : ParamTranslator) (paramId : ℕ)
    (value : Double) : Locals × Double :=
  let bValidate := decide (0 < awg.retries)
  if paramId = Scpi.wave then
    let wave := translateWave (pf.toUnsigned 32 value) Siglent.fromSig
    (⟨command, row.setType, 0, 0, value, bValidate⟩, pf.ofUnsigned wave)
  else
    let value := limit pf row.setPrecision value
    (⟨command, row.setType, row.setWidth, row.setPrecision, value, bValidate⟩,
      pf.arithmetic.mul value (pf.pow10 row.setExponent))

/-- `set(channel, param_id, value)`. -/
def set (awg : AwgFy) (channel : UInt32) (paramId : ℕ) (value : Double) : Dialogue Bool := do
  if Invalid channel paramId then
    return false
  else
    let command := [chr 'W', ← entry fyChannels channel.toNat, ← entry fyCodes paramId]
    let row ← entry awg.pt paramId
    let (l, setValue) := prepare pf awg command row paramId value
    let bOk ← Dialogue.attempts (attempt pf awg channel paramId l) awg.retries.toNat setValue
    if bOk then
      return true
    else
      -- the message names the parameter
      let _ ← entry Scpi.parameters paramId
      return false

end AwgFy

end EspBode
