import EspBode.Firmware.AwgFy

/-!
# The full translation of wave forms

The "full" implementation of `translate_wave`, which is compiled in place of the simple one if
`USE_ALTERNATIVE_TRANSLATE_WAVE` is defined. The driver is built with the simple one, which knows
the sine wave alone; this module has the other, with the table it reads.

The table is indexed by the wave forms of Siglent and holds those of the FY series, or -1 where
there is none to match. So one direction is an access to the table and the other is a search:

* **from Siglent**: the entry at the index, and the sine wave where the entry is -1 or the index is
  not one of the table;
* **to Siglent**: the first index that holds the wave form, and the sine wave if there is none. The
  search compares every entry with the wave form, those that are -1 included.

**The entries are signed bytes and the wave forms are words.** An entry is converted to 32 bits
without a sign when it is compared with a wave form or returned (`entryWord`), so -1 becomes the
largest word. It is an ordinary argument of the search, and the search finds it.

An access to the table is checked; that no call leaves it is a result and not a convention.
-/

namespace EspBode

namespace Fy

/-- The wave forms of the FY series that have an equivalent among those of Siglent. -/
inductive WaveType
  | sine
  | rectangle
  | trapezoid
  | adjPulse
  | trgl
  | ramp
  | negRamp
  | stairTrgl
  | stairstep
  | negStair
  | posExponen
  | negExponen
  | posLogarit
  | negLogarit
  | lorenztPu
  | multitone
  | randomNoi
  | ecg
  | sincPulse
  | chirp
  deriving DecidableEq, Repr

def WaveType.code : WaveType → Int8
  | sine => 0
  | rectangle => 2
  | trapezoid => 3
  | adjPulse => 5
  | trgl => 7
  | ramp => 8
  | negRamp => 9
  | stairTrgl => 10
  | stairstep => 11
  | negStair => 12
  | posExponen => 13
  | negExponen => 14
  | posLogarit => 17
  | negLogarit => 18
  | lorenztPu => 25
  | multitone => 26
  | randomNoi => 27
  | ecg => 28
  | sincPulse => 30
  | chirp => 35

/-- The number of wave forms of the FY series. -/
def waveCount : ℕ := 37

end Fy

/-- The number of Siglent wave form ids. -/
def Siglent.waveCount : ℕ := 48

open Fy.WaveType in
/-- The FeelTech wave types indexed according to the matching Siglent wave types. -/
def waveTable : List Int8 :=
  [sine.code, -- 0 = Sine
    randomNoi.code, -- 1 = Noise
    stairstep.code, -- 2 = StairUp
    negStair.code, -- 3 = StairDn
    stairTrgl.code, -- 4 = Stairud
    adjPulse.code, -- 5 = Ppulse
    -1, -- 6 = Npulse
    trapezoid.code, -- 7 = Trapezia
    ramp.code, -- 8 = Upramp
    negRamp.code, -- 9 = Dnramp
    negExponen.code, -- 10 = Exp_fall
    posExponen.code, -- 11 = Exp_rise
    negLogarit.code, -- 12 = Logfall
    posLogarit.code, -- 13 = Logrise
    -1, -- 14 = Sqrt
    -1, -- 15 = Root3
    -1, -- 16 = X_2
    -1, -- 17 = X_3
    sincPulse.code, -- 18 = Sinc
    -1, -- 19 = Gaussian
    -1, -- 20 = Dlorentz
    -1, -- 21 = Haversine
    lorenztPu.code, -- 22 = Lorentz
    -1, -- 23 = Gauspuls
    -1, -- 24 = Gmonopuls
    -1, -- 25 = Tripuls
    ecg.code, -- 26 = Cardiac
    -1, -- 27 = Quake
    chirp.code, -- 28 = Chirp
    multitone.code, -- 29 = Twotone
    -1, -- 30 = Snr
    -1, -- 31 = Hamming
    -1, -- 32 = Hanning
    -1, -- 33 = Kaiser
    -1, -- 34 = Blackman
    -1, -- 35 = Gausswin
    trgl.code, -- 36 = Triang
    -1, -- 37 = Harris
    -1, -- 38 = Bartlett
    -1, -- 39 = Tan
    -1, -- 40 = Cot
    -1, -- 41 = Sec
    -1, -- 42 = Csc
    -1, -- 43 = Asin
    -1, -- 44 = Acos
    -1, -- 45 = Atan
    -1, -- 46 = Acot
    rectangle.code] -- 47 = Square

namespace AwgFy

/-- Conversion of an entry of the table to 32 bits. -/
def entryWord (e : Int8) : UInt32 :=
  UInt32.ofInt e.toInt

/-- The loop over the table: the index of the first entry from `i` on that is the wave form. The
first argument is the number of entries that are left. -/
def searchTable (wave : UInt32) : ℕ → ℕ → Except Fault (Option ℕ)
  | 0, _ => .ok none
  | left + 1, i => do
    if entryWord (← entry waveTable i) = wave then return some i
    else searchTable wave left (i + 1)

/-- `translate_wave(wave, direction)`, the full implementation. -/
def translateWaveFull (wave : UInt32) (direction : Bool) : Except Fault UInt32 := do
  if direction = Siglent.fromSig then
    if wave.toNat < Siglent.waveCount then
      let e ← entry waveTable wave.toNat
      return if e = -1 then UInt32.ofNat Fy.sine else entryWord e
    else
      return UInt32.ofNat Fy.sine
  else
    match ← searchTable wave Siglent.waveCount 0 with
    | some i => return UInt32.ofNat i
    | none => return UInt32.ofNat Siglent.sine

end AwgFy

end EspBode
