import PhotonCount.Machine.Stream
import PhotonCount.Rtl.Shift

/-! `altera_edge_detector.v` as `ghrd.v` has it three times, for the resets that the processor is
asked for: `EDGE_TYPE` and `IGNORE_RST_WHILE_BUSY` are 1. -/

namespace PhotonCount.Reset

open Machine Rtl

/-- `unused` is the fourth value of the two bits. -/
inductive Phase
  | idle
  | arm
  | capt
  | unused
  deriving DecidableEq

def Phase.next (signalIn : Bool) : Phase → Phase
  | .idle => if signalIn then .idle else .arm
  | .arm => if signalIn then .capt else .arm
  | .capt => if signalIn then .idle else .arm
  | .unused => .idle

/-- `PULSE_EXT` is `w + 1`, and more than 1. -/
structure EdgeDetector (w : Nat) where
  state : Phase
  extendPulse : BitVec (w + 1)
  deriving DecidableEq

namespace EdgeDetector

variable {w : Nat}

def pulseDetect (d : EdgeDetector w) : Bool := decide (d.state = .capt)

def pulseOut (d : EdgeDetector w) : Bool := d.extendPulse != 0

def resetQualN (rstN : Bool) (d : EdgeDetector w) : Bool := rstN || d.pulseOut

/-- The asynchronous reset of `extend_pulse` comes only where it is 0. -/
def clk (rstN signalIn : Bool) (d : EdgeDetector w) : EdgeDetector w where
  state := if rstN then d.state.next signalIn else .idle
  extendPulse := if d.resetQualN rstN then shiftIn d.pulseDetect d.extendPulse else 0

end EdgeDetector

def edgeDetector (w : Nat) : Mealy (EdgeDetector w) (Bool × Bool) Unit where
  step d i := d.clk i.1 i.2
  out _ _ := none

def pulseColdReset : Mealy (EdgeDetector 5) (Bool × Bool) Unit := edgeDetector 5

def pulseWarmReset : Mealy (EdgeDetector 1) (Bool × Bool) Unit := edgeDetector 1

def pulseDebugReset : Mealy (EdgeDetector 31) (Bool × Bool) Unit := edgeDetector 31

section Waveform

variable {w n : Nat} (d : EdgeDetector w) (is : Nat → Bool × Bool)

def rises (is : Nat → Bool × Bool) (n : Nat) : Prop :=
  is n = (true, false) ∧ is (n + 1) = (true, true)

end Waveform

end PhotonCount.Reset
