import Mathlib.Logic.Function.Basic
import PhotonCount.Dcfifo.Counter
import PhotonCount.Machine.Mealy
import PhotonCount.PlsCnt.Record

/-! `dcfifo_d982.tdf`: the FIFO of 8192 words, with a clock at each end.  Each end counts its
own words in Gray code and sees the other end's pointer through a chain of registers. -/

namespace PhotonCount.Dcfifo

open Machine PlsCnt

/-- `dffpipe` with `DELAY=2`. -/
structure Dffpipe (α : Type) where
  first : α
  q : α
  deriving DecidableEq

def Dffpipe.clk {α : Type} (d : α) (p : Dffpipe α) : Dffpipe α := ⟨d, p.first⟩

/-- The registers on `wrclk`. -/
structure Wr where
  wrptrG : BitVec 14
  wrptrG1p : Counter
  delayedWrptrG : BitVec 14
  wsDgrp : Dffpipe (BitVec 14)
  wsBrp : BitVec 14
  wsBwp : BitVec 14
  wraclr : Dffpipe Bool
  deriving DecidableEq

/-- The registers on `rdclk`. -/
structure Rd where
  rdptrG : BitVec 14
  rdptrG1p : Counter
  rsDgwp : Dffpipe (BitVec 14)
  rsBrp : BitVec 14
  rsBwp : BitVec 14
  rdaclr : Dffpipe Bool
  deriving DecidableEq

/-- `altsyncram_49d1.tdf`: the address register of port B, what the memory reads there, and
the output register. -/
structure Ram where
  mem : BitVec 13 → Word
  addressB : BitVec 13
  read : Word
  q : Word

structure State where
  wr : Wr
  rd : Rd
  ram : Ram

/-- Edges of the two clocks, at the same time or one alone: `wrreq` with `data`, and `rdreq`.
A word that is read while it is written is `dontCare`. -/
structure Edge where
  wr : Option (Bool × Word)
  rd : Option Bool
  dontCare : Word

/-- The pointer of the other end when the FIFO is full: its two top bits are inverted. -/
def gs (p : BitVec 14) : BitVec 14 := p ^^^ 0x3000#14

def ramAddress (p : BitVec 14) : BitVec 13 :=
  BitVec.cons (p.getLsbD 13 ^^ p.getLsbD 12) (p.setWidth 12)

section Wr

variable (s : Wr)

/-- While `aclr` is high, and until `wraclr` is through. -/
def Wr.cleared (wraclr : Dffpipe Bool) : Wr :=
  ⟨0#14, .start, 0#14, ⟨0#14, 0#14⟩, 0#14, 0#14, wraclr⟩

def Wr.intWrfull : Bool := decide (s.wsDgrp.q = gs s.wrptrG)

def Wr.wrfull : Bool := s.intWrfull || !s.wraclr.q

def Wr.wrempty : Bool := decide (s.wsDgrp.q = s.wrptrG)

def Wr.wrusedw : BitVec 13 := (s.wsBwp - s.wsBrp).setWidth 13

def Wr.validWrreq (wrreq : Bool) : Bool := wrreq && !(s.intWrfull || !s.wraclr.q)

def Wr.clk (wrreq : Bool) (rdptrG : BitVec 14) : Wr :=
  if s.wraclr.q then
    { wrptrG := if s.validWrreq wrreq then s.wrptrG1p.counter else s.wrptrG
      wrptrG1p := s.wrptrG1p.clk (s.validWrreq wrreq)
      delayedWrptrG := s.wrptrG
      wsDgrp := s.wsDgrp.clk rdptrG
      wsBrp := Gray.decode s.wsDgrp.q
      wsBwp := Gray.decode s.wrptrG
      wraclr := s.wraclr.clk true }
  else .cleared (s.wraclr.clk true)

end Wr

section Rd

variable (s : Rd)

def Rd.cleared (rdaclr : Dffpipe Bool) : Rd :=
  ⟨0#14, .start, ⟨0#14, 0#14⟩, 0#14, 0#14, rdaclr⟩

def Rd.rdempty : Bool := decide (s.rsDgwp.q = s.rdptrG)

def Rd.rdfull : Bool := decide (s.rsDgwp.q = gs s.rdptrG)

def Rd.rdusedw : BitVec 13 := (s.rsBwp - s.rsBrp).setWidth 13

def Rd.validRdreq (rdreq : Bool) : Bool := rdreq && !(s.rdempty || !s.rdaclr.q)

def Rd.clk (rdreq : Bool) (delayedWrptrG : BitVec 14) : Rd :=
  if s.rdaclr.q then
    { rdptrG := if s.validRdreq rdreq then s.rdptrG1p.counter else s.rdptrG
      rdptrG1p := s.rdptrG1p.clk (s.validRdreq rdreq)
      rsDgwp := s.rsDgwp.clk delayedWrptrG
      rsBrp := Gray.decode s.rdptrG
      rsBwp := Gray.decode s.rsDgwp.q
      rdaclr := s.rdaclr.clk true }
  else .cleared (s.rdaclr.clk true)

end Rd

section Ram

variable (s : State)

def written (e : Edge) : Option (BitVec 13 × Word) :=
  match e.wr with
  | some (wrreq, data) =>
    if s.wr.validWrreq wrreq then some (ramAddress s.wr.wrptrG, data) else none
  | none => none

def Ram.write (w : Option (BitVec 13 × Word)) (r : Ram) : Ram :=
  match w with
  | some (a, data) => { r with mem := Function.update r.mem a data }
  | none => r

/-- Port B: the address is held without a request, and the output register is enabled by one. -/
def Ram.clk (rd : Rd) (rdreq : Bool) (w : Option (BitVec 13 × Word)) (dontCare : Word)
    (r : Ram) : Ram :=
  let addressB :=
    if rd.rdaclr.q then
      if rd.validRdreq rdreq then ramAddress rd.rdptrG1p.counter else r.addressB
    else 0#13
  { mem := r.mem
    addressB := addressB
    read := if w.map Prod.fst = some addressB then dontCare else r.mem addressB
    q := if rd.rdaclr.q then if rd.validRdreq rdreq then r.read else r.q else 0#64 }

end Ram

def State.aclr (s : State) : State :=
  ⟨.cleared ⟨false, false⟩, .cleared ⟨false, false⟩, { s.ram with addressB := 0#13, q := 0#64 }⟩

def step (s : State) (e : Edge) : State where
  wr :=
    match e.wr with
    | some (wrreq, _) => s.wr.clk wrreq s.rd.rdptrG
    | none => s.wr
  rd :=
    match e.rd with
    | some rdreq => s.rd.clk rdreq s.wr.delayedWrptrG
    | none => s.rd
  ram :=
    match e.rd with
    | some rdreq => (s.ram.clk s.rd rdreq (written s e) e.dontCare).write (written s e)
    | none => s.ram.write (written s e)

def dcfifo : Mealy State Edge Word where
  step := step
  out s e := if e.rd.any s.rd.validRdreq then some (step s e).ram.q else none

def accepted : Mealy State Edge Word := dcfifo.observe fun s e => (written s e).map Prod.snd

end PhotonCount.Dcfifo
