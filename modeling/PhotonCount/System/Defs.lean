import PhotonCount.Ghrd.Laws
import PhotonCount.Hps.Controller
import PhotonCount.Hps.Readout
import PhotonCount.Machine.Fifo

/-! Counter, FIFO and the two servers, in any interleaving of their steps. -/

namespace PhotonCount.System

open Machine PlsCnt Ghrd Hps

structure Tagged where
  word : Word
  tao : BitVec 32
  deriving DecidableEq

/-- The two tags beside the registers of the board have no counterpart in the design:
they follow `Cnt_Stream` and `data_buffer`. -/
structure Sys where
  board : Board
  streamTao : BitVec 32
  bufferTao : BitVec 32
  fifo : Fifo 8192 Tagged
  triSim : BitVec 32
  tri : BitVec 32
  controller : Controller.State
  readout : Readout.State Tagged

def clock (c : Clock) (s : Sys) : Sys :=
  { s with
    board := ghrd.step s.board (.before, c)
    streamTao :=
      if (branch c.inputs s.board.cnt).emits then s.board.cnt.tao else s.streamTao
    bufferTao :=
      if s.board.cnt.rdy = true ∧ s.board.link.counterState = 0#8 then s.streamTao
      else s.bufferTao
    fifo :=
      match ghrd.out s.board (.before, c) with
      | some w => s.fifo.push ⟨w, s.bufferTao⟩
      | none => s.fifo }

def idle (triIn : Bool) (photons : Nat) : Clock := ⟨⟨⟨false, triIn, false, 0#32⟩, photons⟩, true⟩

def write (triIn : Bool) (photons : Nat) (tao : BitVec 32) : Clock :=
  ⟨⟨⟨false, triIn, true, tao⟩, photons⟩, true⟩

/-- One step of one party. The assignment to the counter's register takes a clock,
in which TRIIN and PHO go on as they please. -/
inductive Label
  | tick (triIn : Bool) (photons : Nat)
  | assign (triIn : Bool) (photons : Nat)
  | controller (a : Controller.Action)
  | accept
  | status
  | data
  | send
  | close
  deriving DecidableEq

inductive Output
  | done
  | batch (data : List Tagged)
  deriving DecidableEq

def assign (triIn : Bool) (photons : Nat) (s : Sys) : Sys :=
  let c := s.controller
  let s := { s with controller := Controller.assigned c }
  match c.pc with
  | .counter => clock (write triIn photons c.setting.intg) s
  | .triSim => { s with triSim := c.setting.simIntg }
  | .tri => { s with tri := c.setting.triIntg }
  | _ => s

/-- A read of the FIFO's data port; `hps_data_get` has found it not empty before. -/
def data (s : Sys) : Sys :=
  match s.readout.pc, s.fifo.pop with
  | .data, some (a, fifo) => { s with fifo := fifo, readout := Readout.store a s.readout }
  | _, _ => s

def sys : Mealy Sys Label Output where
  step
    | s, .tick triIn photons => clock (idle triIn photons) s
    | s, .assign triIn photons => assign triIn photons s
    | s, .controller a => { s with controller := Controller.step s.controller a }
    | s, .accept => { s with readout := Readout.accept s.readout }
    | s, .status => { s with readout := Readout.status (s.fifo.items.isEmpty) s.readout }
    | s, .data => data s
    | s, .send => { s with readout := Readout.send s.readout }
    | s, .close => { s with readout := Readout.close s.readout }
  out
    | s, .controller .send => if s.controller.pc = .send then some .done else none
    | s, .send => if s.readout.pc = .send then some (.batch s.readout.data) else none
    | _, _ => none

structure Start (s : Sys) : Prop where
  cnt : AfterReset s.board.cnt
  counterState : s.board.link.counterState = 0#8
  dataBufferValid : s.board.link.dataBufferValid = false
  fifo : s.fifo.items = []
  controller : s.controller = Controller.start
  readout : s.readout = Readout.start

def pipeline (s : Sys) : List Tagged :=
  s.fifo.items ++
    ((if s.board.link.dataBufferValid then [⟨s.board.link.dataBuffer, s.bufferTao⟩] else []) ++
      if s.board.cnt.rdy then [⟨s.board.cnt.cntStream, s.streamTao⟩] else [])

def Label.reads : Label → Bool
  | .controller (.read _) => true
  | _ => false

end PhotonCount.System
