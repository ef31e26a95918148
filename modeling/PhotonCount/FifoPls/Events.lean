import PhotonCount.FifoPls.Level
import PhotonCount.Rtl.Latch

namespace PhotonCount.FifoPls

open Machine Rtl PlsCnt Dcfifo

inductive End
  | rd
  | wr
  deriving DecidableEq

namespace End

def csr : End → State → Csr
  | .rd, s => s.rd
  | .wr, s => s.wr

def signals : End → State → Clock → Signals
  | .rd => rdSignals
  | .wr => wrSignals

def slave : End → Clock → Slave
  | .rd, c => c.rd
  | .wr, c => c.wr

/-- `int_rdfull` and `int_wrfull`. -/
def intFull : End → State → Bool
  | .rd, s => s.fifo.rd.rdfull
  | .wr, s => s.fifo.wr.intWrfull

variable (x : End) (s : State) (c : Clock)

theorem csr_step :
    x.csr (fifoPls.step s c) = (x.csr s).clk (x.signals s c) (x.slave c) := by
  cases x <;> rfl

theorem csr_reset : x.csr s.reset = .reset := by
  cases x <;> rfl

end End

section Flags

inductive Flag
  | full
  | empty
  | almostfull
  | almostempty
  | overflow
  | underflow
  deriving DecidableEq

namespace Flag

/-- Its place in `status_register` and `event_register`. -/
def bit : Flag → Nat
  | full => 0
  | empty => 1
  | almostfull => 2
  | almostempty => 3
  | overflow => 4
  | underflow => 5

/-- The event is the clock in which the flag begins, not the flag. -/
def pulsed : Flag → Bool
  | overflow | underflow => false
  | _ => true

def get (f : Flags) : Flag → Bool
  | full => f.full
  | empty => f.empty
  | almostfull => f.almostfull
  | almostempty => f.almostempty
  | overflow => f.overflow
  | underflow => f.underflow

def nReg (c : Csr) : Flag → Bool
  | full => c.fullNReg
  | empty => c.emptyNReg
  | almostfull => c.almostfullNReg
  | almostempty => c.almostemptyNReg
  | overflow | underflow => true

end Flag

def Slave.clears (b : Flag) (a : Slave) : Bool :=
  a.write && decide (a.address = 2#3) && a.writedata.getLsbD b.bit

variable (i : Signals) (a : Slave) (c : Csr) (b : Flag)

theorem getLsbD_register (f : Flags) : f.register.getLsbD b.bit = b.get f := by
  have hbits : ∀ u o ae af e f : Bool,
      (Flags.mk u o ae af e f).register.getLsbD b.bit = b.get ⟨u, o, ae, af, e, f⟩ := by
    cases b <;> decide
  exact hbits ..

theorem get_eventSignal :
    b.get (Csr.eventSignal i c) = (b.get (Csr.statusSignal i c) && b.nReg c) := by
  cases b <;> simp [Csr.eventSignal, Csr.statusSignal, Flag.get, Flag.nReg]

theorem get_event_clk : b.get (c.clk i a).event = true ↔
    ¬ a.clears b = true ∧ (b.get (Csr.eventSignal i c) = true ∨ b.get c.event = true) := by
  have hbit : b.get (c.clk i a).event =
      if a.clears b then false else if b.get (Csr.eventSignal i c) then true
      else b.get c.event := by
    cases b <;> rfl
  rw [hbit]
  cases a.clears b <;> simp

theorem nReg_clk :
    b.nReg (c.clk i a) = !(b.pulsed && b.get (Csr.statusSignal i c)) := by
  cases b <;> rfl

theorem nReg_reset : b.nReg .reset = !b.pulsed := by
  cases b <;> rfl

end Flags

section Runs

variable (s : State) (cs : Nat → Clock) (x : End) (b : Flag)

def after (n : Nat) : State := fifoPls.states s.reset cs n

def tells (n : Nat) : Flags :=
  Csr.statusSignal (x.signals (after s cs n) (cs n)) (x.csr (after s cs n))

/-- The flag is high in clock `n`; but for overflow and underflow it was low in the clock before,
and there was one since the reset. -/
def Happens (n : Nat) : Prop :=
  b.get (tells s cs x n) = true ∧
    (b.pulsed = true → ∃ m, n = m + 1 ∧ b.get (tells s cs x m) = false)

theorem csr_after (n : Nat) : x.csr (after s cs (n + 1)) =
    (x.csr (after s cs n)).clk (x.signals (after s cs n) (cs n)) (x.slave (cs n)) :=
  x.csr_step (after s cs n) (cs n)

theorem happens_iff (n : Nat) :
    b.get (Csr.eventSignal (x.signals (after s cs n) (cs n)) (x.csr (after s cs n))) = true ↔
      Happens s cs x b n := by
  rw [get_eventSignal, Bool.and_eq_true, ← tells, Happens]
  refine and_congr_right fun _ => ?_
  cases n with
  | zero =>
    have hreset : x.csr (after s cs 0) = .reset := x.csr_reset s
    rw [hreset, nReg_reset]
    simp
  | succ m =>
    rw [csr_after, nReg_clk, ← tells]
    cases b.pulsed <;> simp

theorem events_exact (n : Nat) :
    (x.csr (after s cs n)).event.register.getLsbD b.bit = true ↔
      Since (Happens s cs x b) (fun k => (x.slave (cs k)).clears b = true) n := by
  rw [getLsbD_register]
  refine latched_iff (q := fun k => b.get (x.csr (after s cs k)).event = true) ?_ ?_ n
  · have hreset : x.csr (after s cs 0) = .reset := x.csr_reset s
    rw [hreset, Bool.not_eq_true]
    cases b <;> rfl
  · intro k
    rw [csr_after, get_event_clk, happens_iff]

end Runs

section Thresholds

structure Csr.InRange (c : Csr) : Prop where
  almostempty : 1#14 ≤ c.almostemptyThreshold ∧ c.almostemptyThreshold ≤ 8188#14
  almostfull : 1#14 ≤ c.almostfullThreshold ∧ c.almostfullThreshold ≤ 8188#14

theorem thresholdWritedata_range (a : Slave) :
    1#14 ≤ Csr.thresholdWritedata a ∧ Csr.thresholdWritedata a ≤ 8188#14 := by
  unfold Csr.thresholdWritedata
  split
  · decide
  · split <;>
      simp only [BitVec.le_def, BitVec.lt_def, BitVec.toNat_setWidth, BitVec.toNat_ofNat] at * <;>
      omega

theorem Csr.InRange.clk {c : Csr} (h : c.InRange) (i : Signals) (a : Slave) :
    (c.clk i a).InRange := by
  constructor
  · simp only [Csr.clk]
    split
    · exact thresholdWritedata_range a
    · exact h.almostempty
  · simp only [Csr.clk]
    split
    · exact thresholdWritedata_range a
    · exact h.almostfull

theorem inRange_run (x : End) (s : State) (cs : List Clock) :
    (x.csr (fifoPls.run s.reset cs)).InRange := by
  have hstep : ∀ s c, True → (x.csr s).InRange → (x.csr (fifoPls.step s c)).InRange := by
    intro s c _ h
    rw [x.csr_step]
    exact h.clk _ _
  have hreset : (x.csr s.reset).InRange := by
    rw [x.csr_reset]
    exact ⟨by decide, by decide⟩
  exact fifoPls.run_invariant (P := fun s => (x.csr s).InRange) hstep hreset fun _ _ => trivial

variable {s : State} {cs : List Clock} {n : Counts} {x : End}

theorem Stands.level (h : Stands s cs n) (hf : x.intFull (fifoPls.run s.reset cs) = true)
    (c d : Clock) : (x.signals (fifoPls.run s.reset (cs ++ [c])) d).level = 0#14 := by
  have hstep := h.step c
  have hfollow : follow (fifoPls.run s.reset cs).fifo c.edge n = _ :=
    follow_together h.tracks (synced s cs) ⟨rfl, rfl⟩
  have hzero {a b : Nat} (hab : a = b + depth) :
      ((BitVec.ofNat 14 a - BitVec.ofNat 14 b).setWidth 13).setWidth 14 = 0#14 := by
    rw [usedw_eq (by omega), hab, Nat.add_sub_cancel_left]
    rfl
  cases x with
  | wr =>
    have hfull := (intWrfull_iff h.tracks.wr h.tracks.sound).mp hf
    simp only [End.signals, wrSignals, Wr.wrusedw, hstep.tracks.wr.wsBwp, hstep.tracks.wr.wsBrp,
      hfollow]
    exact hzero hfull
  | rd =>
    have hfull := (rdfull_iff h.tracks.rd h.tracks.sound).mp hf
    simp only [End.signals, rdSignals, Rd.rdusedw, hstep.tracks.rd.rsBwp, hstep.tracks.rd.rsBrp,
      hfollow]
    exact hzero hfull

theorem full_looks_empty (x : End) (s : State) (cs : List Clock) (c d : Clock)
    (hf : x.intFull (fifoPls.run s.reset cs) = true) :
    (x.signals (fifoPls.run s.reset (cs ++ [c])) d).level = 0#14 ∧
      (Csr.statusSignal (x.signals (fifoPls.run s.reset (cs ++ [c])) d)
        (x.csr (fifoPls.run s.reset (cs ++ [c])))).almostempty = true ∧
      (Csr.statusSignal (x.signals (fifoPls.run s.reset (cs ++ [c])) d)
        (x.csr (fifoPls.run s.reset (cs ++ [c])))).almostfull = false := by
  obtain ⟨n, h⟩ := exists_stands s cs
  have hlevel := h.level hf c d
  have hrange := inRange_run x s (cs ++ [c])
  simp only [Csr.statusSignal, hlevel, decide_eq_true_eq, decide_eq_false_iff_not, ge_iff_le,
    true_and]
  refine ⟨BitVec.le_def.mpr (Nat.zero_le _), fun hle => ?_⟩
  exact absurd (BitVec.le_trans hrange.almostfull.1 hle) (by decide)

theorem filled_full : End.wr.intFull (fifoPls.run State.blank.reset filled) = true := by
  obtain ⟨n, h⟩ := exists_stands .blank filled
  have hwritten : n.wr.written = depth := h.holds.length.symm.trans (accepted_filled _)
  have hread : n.rd.read = 0 := by rw [h.read, outputs_quiet filled_quiet, List.length_nil]
  have hfreed := h.tracks.sound.freed.trans h.tracks.sound.first
  refine (intWrfull_iff h.tracks.wr h.tracks.sound).mpr ?_
  omega

theorem full_looks_empty_filled :
    (End.wr.signals (fifoPls.run State.blank.reset (filled ++ [.nop])) .nop).level = 0#14 ∧
      (Csr.statusSignal (End.wr.signals (fifoPls.run State.blank.reset (filled ++ [.nop])) .nop)
        (End.wr.csr (fifoPls.run State.blank.reset (filled ++ [.nop])))).almostempty = true ∧
      (Csr.statusSignal (End.wr.signals (fifoPls.run State.blank.reset (filled ++ [.nop])) .nop)
        (End.wr.csr (fifoPls.run State.blank.reset (filled ++ [.nop])))).almostfull = false :=
  full_looks_empty .wr .blank filled .nop .nop filled_full

end Thresholds

end PhotonCount.FifoPls
