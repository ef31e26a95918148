import PhotonCount.Dcfifo.Defs

/-! `soc_system_fifo_pls.v`: the FIFO with a control slave at each end.  Both ends run on
`clk_clk` and are reset together. -/

namespace PhotonCount.FifoPls

open Machine PlsCnt

/-- `altera_std_synchronizer` with `depth = 4`. -/
structure Synchronizer where
  dinS1 : Bool
  dreg : BitVec 3
  deriving DecidableEq

namespace Synchronizer

def reset : Synchronizer := ⟨false, 0#3⟩

def dout (s : Synchronizer) : Bool := s.dreg.getLsbD 2

def clk (din : Bool) (s : Synchronizer) : Synchronizer :=
  ⟨din, s.dreg.setWidth 2 ++ BitVec.ofBool s.dinS1⟩

end Synchronizer

structure Slave where
  address : BitVec 3
  read : Bool
  write : Bool
  writedata : BitVec 32
  deriving DecidableEq

structure Flags where
  underflow : Bool
  overflow : Bool
  almostempty : Bool
  almostfull : Bool
  empty : Bool
  full : Bool
  deriving DecidableEq

def Flags.clear : Flags := ⟨false, false, false, false, false, false⟩

def Flags.register (f : Flags) : BitVec 6 :=
  BitVec.ofBoolListBE [f.underflow, f.overflow, f.almostempty, f.almostfull, f.empty, f.full]

structure Signals where
  level : BitVec 14
  full : Bool
  empty : Bool
  overflow : Bool
  underflow : Bool
  deriving DecidableEq

structure Csr where
  emptyNReg : Bool
  fullNReg : Bool
  almostemptyNReg : Bool
  almostfullNReg : Bool
  almostemptyThreshold : BitVec 14
  almostfullThreshold : BitVec 14
  ienable : BitVec 6
  event : Flags
  status : Flags
  readdata : BitVec 32
  deriving DecidableEq

namespace Csr

def reset : Csr :=
  ⟨false, false, false, false, 1#14, 8188#14, 0#6, .clear, .clear, 0#32⟩

section Wires

variable (i : Signals) (a : Slave) (c : Csr)

def thresholdWritedata : BitVec 14 :=
  if a.writedata < 1#32 then 1#14
  else if a.writedata > 8188#32 then 8188#14
  else a.writedata.setWidth 14

def statusSignal : Flags where
  underflow := i.underflow
  overflow := i.overflow
  almostempty := decide (i.level ≤ c.almostemptyThreshold)
  almostfull := decide (i.level ≥ c.almostfullThreshold)
  empty := i.empty
  full := i.full

/-- Overflow and underflow as they are, the others in the clock in which they begin. -/
def eventSignal : Flags where
  underflow := i.underflow
  overflow := i.overflow
  almostempty := (statusSignal i c).almostempty && c.almostemptyNReg
  almostfull := (statusSignal i c).almostfull && c.almostfullNReg
  empty := i.empty && c.emptyNReg
  full := i.full && c.fullNReg

/-- An event bit: a 1 written to it clears it, and that comes before a new event. -/
def eventQ (bit : Nat) (signal q : Bool) : Bool :=
  if a.write && decide (a.address = 2#3) && a.writedata.getLsbD bit then false
  else if signal then true
  else q

def eventNext : Flags where
  underflow := eventQ a 5 (eventSignal i c).underflow c.event.underflow
  overflow := eventQ a 4 (eventSignal i c).overflow c.event.overflow
  almostempty := eventQ a 3 (eventSignal i c).almostempty c.event.almostempty
  almostfull := eventQ a 2 (eventSignal i c).almostfull c.event.almostfull
  empty := eventQ a 1 (eventSignal i c).empty c.event.empty
  full := eventQ a 0 (eventSignal i c).full c.event.full

def readMux : BitVec 32 :=
  if a.address = 1#3 then c.status.register.setWidth 32
  else if a.address = 2#3 then c.event.register.setWidth 32
  else if a.address = 3#3 then c.ienable.setWidth 32
  else if a.address = 4#3 then c.almostfullThreshold.setWidth 32
  else if a.address = 5#3 then c.almostemptyThreshold.setWidth 32
  else i.level.setWidth 32

def clk : Csr where
  emptyNReg := !i.empty
  fullNReg := !i.full
  almostemptyNReg := !(statusSignal i c).almostempty
  almostfullNReg := !(statusSignal i c).almostfull
  almostemptyThreshold :=
    if decide (a.address = 5#3) && a.write then thresholdWritedata a else c.almostemptyThreshold
  almostfullThreshold :=
    if decide (a.address = 4#3) && a.write then thresholdWritedata a else c.almostfullThreshold
  ienable :=
    if decide (a.address = 3#3) && a.write then a.writedata.setWidth 6 else c.ienable
  event := eventNext i a c
  status := statusSignal i c
  readdata := if a.read then readMux i a c else c.readdata

end Wires

end Csr

structure State where
  fifo : Dcfifo.State
  rd : Csr
  wr : Csr
  rdreqSync : Synchronizer
  wrreqSync : Synchronizer

/-- The ports in a clock: `in`, `out`, `out_csr` and `in_csr`. -/
structure Clock where
  wrreq : Bool
  data : Word
  rdreq : Bool
  rd : Slave
  wr : Slave
  dontCare : Word

def Clock.edge (c : Clock) : Dcfifo.Edge := ⟨some (c.wrreq, c.data), some c.rdreq, c.dontCare⟩

section Wires

variable (s : State) (c : Clock)

def wrfull : Bool := decide (8192 - 3 ≤ s.fifo.wr.wrusedw.toNat) || s.fifo.wr.wrfull

def rdfull : Bool := decide (8192 - 3 ≤ s.fifo.rd.rdusedw.toNat) || s.fifo.rd.rdfull

def wrSignals : Signals where
  level := s.fifo.wr.wrusedw.setWidth 14
  full := wrfull s
  empty := s.fifo.wr.wrempty
  overflow := c.wrreq && wrfull s
  underflow := s.rdreqSync.dout && s.fifo.wr.wrempty

def rdSignals : Signals where
  level := s.fifo.rd.rdusedw.setWidth 14
  full := rdfull s
  empty := s.fifo.rd.rdempty
  overflow := s.wrreqSync.dout && rdfull s
  underflow := c.rdreq && s.fifo.rd.rdempty

end Wires

/-- `rst_controller_reset_out_reset` is high: all but the memory is cleared. -/
def State.reset (s : State) : State := ⟨s.fifo.aclr, .reset, .reset, .reset, .reset⟩

def fifoPls : Mealy State Clock Word where
  step s c :=
    { fifo := Dcfifo.step s.fifo c.edge
      rd := s.rd.clk (rdSignals s c) c.rd
      wr := s.wr.clk (wrSignals s c) c.wr
      rdreqSync := s.rdreqSync.clk c.rdreq
      wrreqSync := s.wrreqSync.clk c.wrreq }
  out s c := Dcfifo.dcfifo.out s.fifo c.edge

end PhotonCount.FifoPls
