import PhotonCount.Machine.Mealy
import PhotonCount.PlsCnt.Record
import PhotonCount.Rtl.Block

/-! `Pulse_cnt.v`: three processes over one set of registers. -/

namespace PhotonCount.PlsCnt

open Rtl Rtl.PartSelect Machine

structure Regs where
  cntStream : Word
  rdy : Bool
  tao : BitVec 32
  phoCnt : BitVec 32
  tri1 : BitVec 2
  tmp : Bool
  clkCnt : BitVec 32
  cntTmp1 : BitVec 32
  cntTmp2 : BitVec 32
  deriving DecidableEq

structure Inputs where
  reset : Bool
  triIn : Bool
  write : Bool
  taoQ : BitVec 32
  deriving DecidableEq

/-- The initialisers of the source; `Tao` has none. -/
def powerUp (tao : BitVec 32) : Regs where
  cntStream := 0#64
  rdy := false
  tao := tao
  phoCnt := 0#32
  tri1 := 0#2
  tmp := false
  clkCnt := 1#32
  cntTmp1 := 0#32
  cntTmp2 := 0#32

/-- `always @(posedge CLK)` at line 9. -/
def triBlock : Block Inputs Regs := fun i s =>
  if i.triIn = true ∧ s.tri1 = 0#2 then ⟨s, fun r => { r with tri1 := s.tri1 + 1#2 }⟩
  else if i.triIn = true ∧ s.tri1 ≠ 0#2 then ⟨s, fun r => { r with tri1 := s.tri1 + 1#2 }⟩
  else ⟨{ s with tri1 := 0#2 }, id⟩

/-- `always @(posedge PHO)` at line 20. -/
def phoBlock : Block Unit Regs := fun _ s =>
  ⟨s, fun r => { r with phoCnt := s.phoCnt + 1#32 }⟩

/-- `a % b != 0`; a remainder by zero is unknown and passes neither test. -/
def modNonzero (a b : BitVec 32) : Bool := b != 0#32 && a % b != 0#32

def modZero (a b : BitVec 32) : Bool := b != 0#32 && a % b == 0#32

/-- The branches of the process at line 27, in the order of the source. -/
inductive Branch
  | reset
  | write
  | trigInside
  | trigBoundary
  | inside
  | boundary
  | boundaryPending
  | none
  deriving DecidableEq

def branch (i : Inputs) (s : Regs) : Branch :=
  if i.reset then .reset
  else if i.write then .write
  else if s.tri1 = 1#2 ∧ modNonzero s.clkCnt s.tao then .trigInside
  else if s.tri1 = 1#2 ∧ modZero s.clkCnt s.tao then .trigBoundary
  else if s.tri1 ≠ 1#2 ∧ modNonzero s.clkCnt s.tao then .inside
  else if s.tri1 ≠ 1#2 ∧ modZero s.clkCnt s.tao ∧ s.tmp = false then .boundary
  else if s.tri1 ≠ 1#2 ∧ modZero s.clkCnt s.tao ∧ s.tmp = true then .boundaryPending
  else .none

def resetBranch : Block Inputs Regs := fun _ s =>
  ⟨s, fun r => { r with
    rdy := false
    cntStream := 0#64
    clkCnt := 1#32
    cntTmp1 := 0#32
    cntTmp2 := 0#32
    tmp := false
    tao := 0xffff#32 }⟩

def writeBranch : Block Inputs Regs := fun i s =>
  ⟨s, fun r => { r with tao := i.taoQ }⟩

def trigInsideBranch : Block Inputs Regs := fun _ s =>
  ⟨s, fun r => { r with
    clkCnt := s.clkCnt + 1#32
    rdy := false
    cntStream := assign r.cntStream 63 1#1
    tmp := true }⟩

def trigBoundaryBranch : Block Inputs Regs := fun _ s =>
  let s := { s with cntTmp2 := s.phoCnt - s.cntTmp1 }
  let s := { s with cntTmp1 := s.phoCnt }
  let s := { s with cntStream := assign s.cntStream 32 s.cntTmp2 }
  let s := { s with cntStream := assign s.cntStream 0 s.clkCnt }
  let s := { s with clkCnt := s.clkCnt + 1#32 }
  let s := { s with cntStream := assign s.cntStream 63 1#1 }
  let s := { s with clkCnt := 1#32 }
  let s := { s with rdy := true }
  ⟨s, id⟩

def insideBranch : Block Inputs Regs := fun _ s =>
  ⟨s, fun r => { r with clkCnt := s.clkCnt + 1#32, rdy := false }⟩

def boundaryBranch : Block Inputs Regs := fun _ s =>
  let s := { s with cntTmp2 := s.phoCnt - s.cntTmp1 }
  let s := { s with cntTmp1 := s.phoCnt }
  let s := { s with cntStream := assign s.cntStream 32 s.cntTmp2 }
  let s := { s with cntStream := assign s.cntStream 0 s.clkCnt }
  let s := { s with cntStream := assign s.cntStream 63 0#1 }
  let s := { s with rdy := true }
  let s := { s with clkCnt := s.clkCnt + 1#32 }
  ⟨s, id⟩

def boundaryPendingBranch : Block Inputs Regs := fun _ s =>
  let s := { s with tmp := false }
  let s := { s with cntTmp2 := s.phoCnt - s.cntTmp1 }
  let s := { s with cntTmp1 := s.phoCnt }
  let s := { s with rdy := true }
  let s := { s with cntStream := assign s.cntStream 32 s.cntTmp2 }
  let s := { s with cntStream := assign s.cntStream 0 s.clkCnt }
  let s := { s with cntStream := assign s.cntStream 63 1#1 }
  let s := { s with clkCnt := 1#32 }
  ⟨s, id⟩

def Branch.block : Branch → Block Inputs Regs
  | .reset => resetBranch
  | .write => writeBranch
  | .trigInside => trigInsideBranch
  | .trigBoundary => trigBoundaryBranch
  | .inside => insideBranch
  | .boundary => boundaryBranch
  | .boundaryPending => boundaryPendingBranch
  | .none => fun _ s => ⟨s, id⟩

/-- `always @(posedge CLK)` at line 27. -/
def counterBlock : Block Inputs Regs := fun i s => (branch i s).block i s

def Branch.emits : Branch → Bool
  | .trigBoundary | .boundary | .boundaryPending => true
  | _ => false

/-- A CLK edge with every register read as it was before the edge: the counter
process looks at `tri_1` before the other process has cleared it. -/
def clk (i : Inputs) (s : Regs) : Regs := Block.edge [counterBlock, triBlock] i s

def pho (s : Regs) : Regs := Block.edge [phoBlock] () s

inductive Event
  | pho
  | clk (i : Inputs)
  deriving DecidableEq

def plsCnt : Mealy Regs Event Word where
  step
    | s, .pho => pho s
    | s, .clk i => clk i s
  out
    | _, .pho => none
    | s, .clk i => if (branch i s).emits then some (clk i s).cntStream else none

namespace Event

/-- RESET low, and a written integration time not zero. -/
def Running : Event → Prop
  | .pho => True
  | .clk i => i.reset = false ∧ (i.write = true → i.taoQ ≠ 0#32)

instance : DecidablePred Running
  | .pho => isTrue trivial
  | .clk i => inferInstanceAs (Decidable (i.reset = false ∧ (i.write = true → i.taoQ ≠ 0#32)))

def idle : Event := .clk ⟨false, false, false, 0#32⟩

def trigger : Event := .clk ⟨false, true, false, 0#32⟩

def program (tao : BitVec 32) : Event := .clk ⟨false, false, true, tao⟩

def resetEdge : Event := .clk ⟨true, false, false, 0#32⟩

def isClk : Event → Bool
  | .pho => false
  | .clk _ => true

def isWrite : Event → Bool
  | .pho => false
  | .clk i => i.write

end Event

/-- Power-up and whatever CLK edges come, the last one with RESET high; no PHO edge. -/
def Boots (boot : List Event) : Prop :=
  (∀ e ∈ boot, e.isClk = true) ∧ ∃ b i, boot = b ++ [.clk i] ∧ i.reset = true

def AfterReset (s : Regs) : Prop := ∃ i s', i.reset = true ∧ s = clk i s'

def phoEdges (es : List Event) : Nat := es.countP fun e => !e.isClk

def clkEdges (es : List Event) : Nat := es.countP Event.isClk

/-- The trigger is detected: the counter process sees `tri_1 = 1`. -/
def detects (s : Regs) : Event → Bool
  | .pho => false
  | .clk _ => decide (s.tri1 = 1#2)

def detected : Regs → List Event → Bool
  | _, [] => false
  | s, e :: es => detects s e || detected (plsCnt.step s e) es

def wraps (s : Regs) (e : Event) : Bool :=
  s.clkCnt == 0xffffffff#32 && (plsCnt.step s e).clkCnt == 0#32

def NoWrap : Regs → List Event → Prop
  | _, [] => True
  | s, e :: es => wraps s e = false ∧ NoWrap (plsCnt.step s e) es

instance decidableNoWrap : (s : Regs) → (es : List Event) → Decidable (NoWrap s es)
  | _, [] => isTrue trivial
  | s, e :: es =>
    have := decidableNoWrap (plsCnt.step s e) es
    inferInstanceAs (Decidable (wraps s e = false ∧ NoWrap (plsCnt.step s e) es))

end PhotonCount.PlsCnt
