import PhotonCount.Machine.Mealy
import Mathlib.Data.BitVec

/-! `TRI_gen.v`: the pulse generator behind `trigger` and `trigger_sim`. -/

namespace PhotonCount.TriGen

open Machine

structure Regs where
  ready : Bool
  taoCnt : BitVec 32
  tmpCnt : BitVec 32
  ready2 : Bool
  deriving DecidableEq

structure Inputs where
  rst : Bool
  write : Bool
  taoQ : BitVec 32
  deriving DecidableEq

/-- The initialisers of the source; `ready2` has none. -/
def powerUp (ready2 : Bool) : Regs where
  ready := false
  taoCnt := 0xff#32
  tmpCnt := 0#32
  ready2 := ready2

/-- `always @(posedge CLK)`: every assignment is nonblocking. -/
def clk (i : Inputs) (g : Regs) : Regs :=
  if i.rst then { g with tmpCnt := 0#32, ready := false, ready2 := false }
  else if i.write then { taoCnt := i.taoQ, tmpCnt := 0#32, ready := false, ready2 := false }
  else if g.tmpCnt ≠ g.taoCnt ∧ g.ready2 = false then
    { g with tmpCnt := g.tmpCnt + 1#32, ready := false }
  else if g.tmpCnt = g.taoCnt ∧ g.ready2 = false then
    { g with ready := true, ready2 := true, tmpCnt := 0#32 }
  else if g.tmpCnt ≠ g.taoCnt ∧ g.ready2 = true then
    { g with tmpCnt := g.tmpCnt + 1#32, ready := true, ready2 := false }
  else g

def rises (i : Inputs) (g : Regs) : Bool := !g.ready && (clk i g).ready

def triGen : Mealy Regs Inputs Unit where
  step g i := clk i g
  out g i := if rises i g then some () else none

namespace Inputs

def Quiet (i : Inputs) : Prop := i.rst = false ∧ i.write = false

instance : DecidablePred Quiet := fun i =>
  inferInstanceAs (Decidable (i.rst = false ∧ i.write = false))

def idle : Inputs := ⟨false, false, 0#32⟩

def reset : Inputs := ⟨true, false, 0#32⟩

def program (tao : BitVec 32) : Inputs := ⟨false, true, tao⟩

end Inputs

def AfterReset (g : Regs) : Prop := ∃ i g', i.rst = true ∧ g = clk i g'

def period (g : Regs) : Nat := g.taoCnt.toNat + 1

/-- The clocks since the last pulse, or since the write or RST that came after it. -/
def phase (g : Regs) : Nat := g.tmpCnt.toNat

/-- What holds in every state after RST: the counter does not pass the interval, and
both cycles of a pulse are told by it. -/
structure Sound (g : Regs) : Prop where
  le : g.tmpCnt.toNat ≤ g.taoCnt.toNat
  first : g.ready2 = true → g.tmpCnt = 0#32 ∧ g.ready = true
  second : g.ready = true → g.ready2 = false → g.tmpCnt = 1#32

structure Steady (P : Nat) (g : Regs) : Prop extends Sound g where
  period : period g = P
  three : 3 ≤ P

end PhotonCount.TriGen
