import EspBode.Foundations.CString
import EspBode.Foundations.Scanf

/-!
# The tables of SCPI decoding

An SCPI line of the oscilloscope is decoded in three levels, each with a table of the strings that
can start its part and a separator behind it: the **initiator**, up to a colon; the **commands** of
a channel, separated by semicolons, each with a space behind its name; and the **parameters** of a
command, separated by commas. `C1:BSWV WVTP,SINE;BSWV FRQ,1000` is one such line.

A table is tried from its first entry on, and an entry matches if the text starts with it. So two
things are part of the meaning and not only of the layout:

* **the order**: `BSWV?` stands before `BSWV`, of which it is an extension; in the other order no
  request for the parameters would ever be recognized;
* **a name is a prefix**: what follows the entry in the text is not looked at, and `FRQX` is taken
  for `FRQ`.

The enumerators name the indices. They are natural numbers and not an inductive type, since the
source calculates with them: a parameter that is `OFF` or `ON` has its own index for its value, and
the driver takes the index of a parameter as a position in its own tables. `parameterCount` is the
number of entries, so it is itself no index of one.
-/

namespace EspBode

namespace Scpi

/-- Character strings that initiate the SCPI command line. -/
def initiators : List (List UInt8) :=
  [ascii "IDN-SGLT-PRI?", ascii "C"]

/-- The SCPI line is a request for the AWG identifier. -/
abbrev idRequest : ℕ := 0

/-- The SCPI line is a channel-based set of commands. -/
abbrev channel : ℕ := 1

/-- Commands that can follow a channel initiator. -/
def commands : List (List UInt8) :=
  [ascii "OUTP", ascii "BSWV?", ascii "BSWV"]

/-- Turn channel output on or off. -/
abbrev setOutput : ℕ := 0

/-- Return the current channel wave parameters. -/
abbrev getParameters : ℕ := 1

/-- Set wave parameters on the current channel. -/
abbrev setParameters : ℕ := 2

/-- Parameters that can follow the "channel commands." -/
def parameters : List (List UInt8) :=
  [ascii "OFF", ascii "ON", ascii "WVTP", ascii "FRQ", ascii "AMP", ascii "OFST", ascii "PHSE"]

/-- Value following OUTP will be OFF. -/
abbrev outputOff : ℕ := 0

/-- Value following OUTP will be ON. -/
abbrev outputOn : ℕ := 1

/-- Value following WVTP will be SINE (only SINE for Bode plot). -/
abbrev wave : ℕ := 2

/-- Value following FRQ will be Hz as floating point number. -/
abbrev frequency : ℕ := 3

/-- Value following AMP will be voltage as floating point number. -/
abbrev amplitude : ℕ := 4

/-- Value following OFST will be voltage as floating point number. -/
abbrev offset : ℕ := 5

/-- Value following PHSE will be degrees as floating point number. -/
abbrev phase : ℕ := 6

/-- The number of parameter ids. -/
abbrev parameterCount : ℕ := 7

/-! ### Delimiters -/

/-- A colon separates the initiator from the remainder of the SCPI line. -/
def initiatorDelimiter : UInt8 := chr ':'

/-- A semicolon separates each channel command from the next. -/
def commandDelimiter : UInt8 := chr ';'

/-- A space follows the channel command before the parameter. -/
def preParametersDelimiter : UInt8 := chr ' '

/-- A comma separates each parameter and value. -/
def parametersDelimiter : UInt8 := chr ','

end Scpi

/-- The id of the sine wave among the Siglent wave forms. -/
def Siglent.sine : ℕ := 0

/-- The translation is from the Siglent to the discount AWG. -/
def Siglent.fromSig : Bool := true

end EspBode
