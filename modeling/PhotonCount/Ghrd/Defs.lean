import PhotonCount.PlsCnt.Cycle

/-! `ghrd.v`: the transfer process between `PlsCnt` and the FIFO, on one clock with it. -/

namespace PhotonCount.Ghrd

open Machine Rtl PlsCnt

structure Link where
  counterState : BitVec 8
  dataBuffer : Word
  dataBufferValid : Bool
  deriving DecidableEq

structure Board where
  cnt : Regs
  link : Link
  deriving DecidableEq

structure Clock extends Cycle where
  hpsFpgaResetN : Bool
  deriving DecidableEq

def transfer (resetN counterReady : Bool) (counterData : Word) (s r : Link) : Link :=
  let r := if resetN = false then { r with counterState := 0#8, dataBufferValid := false } else r
  let r := if counterReady = true ∧ s.counterState = 0#8 then
      { r with counterState := 1#8, dataBuffer := counterData, dataBufferValid := true }
    else r
  if s.counterState = 1#8 then { r with counterState := 0#8, dataBufferValid := false } else r

/-- `always @(posedge FPGA_CLK1_50)`: every assignment is nonblocking. -/
def transferBlock : Block Clock Board := fun c b =>
  ⟨b, fun r => { r with
    link := transfer c.hpsFpgaResetN b.cnt.rdy b.cnt.cntStream b.link r.link }⟩

inductive Proc
  | transfer
  | counter
  | tri
  deriving DecidableEq

def onCnt (p : Block PlsCnt.Inputs Regs) : Block Clock Board :=
  p.within (fun c => c.inputs) Board.cnt fun s b => { b with cnt := s }

def Proc.block : Proc → Block Clock Board
  | .transfer => transferBlock
  | .counter => onCnt counterBlock
  | .tri => onCnt triBlock

structure Order where
  procs : List Proc
  perm : procs.Perm [.transfer, .counter, .tri]

/-- Every process reads the registers as they were before the edge. -/
def Order.before : Order := ⟨[.transfer, .counter, .tri], .refl _⟩

def Order.after : Order := ⟨[.counter, .transfer, .tri], .swap _ _ _⟩

def clk (σ : Order) (c : Clock) (b : Board) : Board := Block.edge (σ.procs.map Proc.block) c b

/-- The board as a machine that puts out what is presented to the FIFO: `data_buffer`
in the clocks in which `data_buffer_valid` is high. -/
def ghrd : Mealy Board (Order × Clock) Word where
  step b i :=
    let b := clk i.1 i.2 b
    { b with cnt := plsCnt.run b.cnt (List.replicate i.2.photons .pho) }
  out b _ := if b.link.dataBufferValid then some b.link.dataBuffer else none

def Board.Idle (b : Board) : Prop :=
  b.cnt.rdy = false ∧ b.link.counterState = 0#8 ∧ b.link.dataBufferValid = false

instance : DecidablePred Board.Idle := fun _ => inferInstanceAs (Decidable (_ ∧ _ ∧ _))

/-- RESET low, `hps_fpga_reset_n` high, and a written integration time not zero. -/
def Clock.Running (c : Clock) : Prop :=
  c.hpsFpgaResetN = true ∧ c.inputs.reset = false ∧ (c.inputs.write = true → c.inputs.taoQ ≠ 0#32)

instance : DecidablePred Clock.Running := fun _ =>
  inferInstanceAs (Decidable (_ ∧ _ ∧ _))

def Board.Coherent (b : Board) : Prop :=
  (b.link.counterState = 0#8 ∧ b.link.dataBufferValid = false) ∨
    (b.link.counterState = 1#8 ∧ b.link.dataBufferValid = true)

def inFlight (b : Board) : List Word :=
  if b.link.counterState = 1#8 then [b.link.dataBuffer]
  else if b.cnt.rdy then [b.cnt.cntStream]
  else []

end PhotonCount.Ghrd
