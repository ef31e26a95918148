import PhotonCount.Machine.Stream
import PhotonCount.Rtl.Shift

/-! `altera_reset_controller.v` as `rst_controller` in `soc_system.v`: one reset input, reset
requests present but none connected, `RESET_REQ_WAIT_TIME=1`, `MIN_RST_ASSERTION_TIME=3` and
`RESET_REQ_EARLY_DSRT_TIME=1`. -/

namespace PhotonCount.Reset

open Machine Rtl

/-- `altera_reset_synchronizer.v` with `DEPTH=2`. -/
structure Synchronizer where
  intChain : BitVec 2
  intChainOut : Bool
  deriving DecidableEq

namespace Synchronizer

def shift (resetIn : Bool) (s : Synchronizer) : Synchronizer :=
  ⟨BitVec.cons resetIn (s.intChain.extractLsb' 1 1), s.intChain.getLsbD 0⟩

/-- `ASYNC_RESET=1`: `resetIn` sets the registers at once. -/
def set (resetIn : Bool) (s : Synchronizer) : Synchronizer :=
  if resetIn then ⟨3#2, true⟩ else s

def clkAsync (resetIn : Bool) (s : Synchronizer) : Synchronizer :=
  if resetIn then ⟨3#2, true⟩ else s.shift false

variable {resetIn : Bool} {s : Synchronizer}

theorem shift_out : (s.shift resetIn).intChainOut = s.intChain.getLsbD 0 := rfl

theorem shift_zero :
    (s.shift resetIn).intChain.getLsbD 0 = s.intChain.getLsbD 1 := by
  have hshift : ∀ (b : Bool) (x : BitVec 2),
      (BitVec.cons b (x.extractLsb' 1 1)).getLsbD 0 = x.getLsbD 1 := by decide
  exact hshift resetIn s.intChain

theorem shift_one : (s.shift resetIn).intChain.getLsbD 1 = resetIn := by
  have hshift : ∀ (b : Bool) (x : BitVec 2),
      (BitVec.cons b (x.extractLsb' 1 1)).getLsbD 1 = b := by decide
  exact hshift resetIn s.intChain

theorem set_out : (s.set resetIn).intChainOut = (resetIn || s.intChainOut) := by
  cases resetIn <;> rfl

theorem clkAsync_out :
    (s.clkAsync resetIn).intChainOut = (resetIn || s.intChain.getLsbD 0) := by
  cases resetIn <;> rfl

theorem clkAsync_zero :
    (s.clkAsync resetIn).intChain.getLsbD 0 = (resetIn || s.intChain.getLsbD 1) := by
  cases resetIn
  · exact shift_zero
  · simp [clkAsync]

theorem clkAsync_one : (s.clkAsync resetIn).intChain.getLsbD 1 = resetIn := by
  cases resetIn
  · exact shift_one
  · simp [clkAsync]

end Synchronizer

/-- `RSTREQ_ASRT_SYNC_TAP` is 4 and `ASSERTION_CHAIN_LENGTH` is 4. -/
structure Controller where
  rstSync : Synchronizer
  rstReqSync : Synchronizer
  intChain : BitVec 5
  rSyncRstChain : BitVec 4
  rSyncRst : Bool
  rEarlyRst : Bool
  deriving DecidableEq

namespace Controller

/-- The initialisers of the source: that of the chain of five has four bits. -/
def powerUp (rstSync rstReqSync : Synchronizer) (rSyncRst rEarlyRst : Bool) : Controller :=
  ⟨rstSync, rstReqSync, 0b01111#5, 0b1111#4, rSyncRst, rEarlyRst⟩

/-- `reset_out_pre` at an edge. -/
def resetOutPre (resetIn : Bool) (c : Controller) : Bool := (c.rstSync.set resetIn).intChainOut

def nextSyncRst (c : Controller) : Bool :=
  match c.intChain.getLsbD 4, c.rSyncRstChain.getLsbD 1, c.rSyncRst with
  | false, false, false => false
  | false, false, true => false
  | false, true, false => false
  | false, true, true => true
  | true, _, _ => true

/-- `RESET_REQ_DRST_TAP` is 2. -/
def nextEarlyRst (c : Controller) : Bool :=
  match c.rSyncRstChain.getLsbD 1, c.rSyncRstChain.getLsbD 2 || c.rstReqSync.intChainOut with
  | false, false => false
  | false, true => true
  | true, false => false
  | true, true => true

def clk (resetIn : Bool) (c : Controller) : Controller where
  rstSync := c.rstSync.clkAsync resetIn
  rstReqSync := c.rstReqSync.shift false
  intChain := shiftIn (c.resetOutPre resetIn) c.intChain
  rSyncRstChain := if c.intChain.getLsbD 2 then 0b1111#4 else c.rSyncRstChain >>> 1
  rSyncRst := c.nextSyncRst
  rEarlyRst := c.nextEarlyRst

def resetOut (c : Controller) : Bool := c.rSyncRst

def resetReq (c : Controller) : Bool := c.rEarlyRst

end Controller

def controller : Mealy Controller Bool Unit where
  step c resetIn := c.clk resetIn
  out _ _ := none

section Waveform

variable (c : Controller) (resetIn : Nat → Bool)

def state (n : Nat) : Controller := controller.states c resetIn n

variable {c resetIn} {n : Nat}

theorem state_succ : state c resetIn (n + 1) = (state c resetIn n).clk (resetIn n) := rfl

def held (resetIn : Nat → Bool) (n : Nat) : Bool :=
  resetIn n || resetIn (n + 1) || resetIn (n + 2) || resetIn (n + 3)

theorem resetOutPre_eq :
    (state c resetIn (n + 3)).resetOutPre (resetIn (n + 3)) = held resetIn n := by
  have hsync (k : Nat) : (state c resetIn (k + 1)).rstSync =
      (state c resetIn k).rstSync.clkAsync (resetIn k) := rfl
  simp only [Controller.resetOutPre, hsync, Synchronizer.set_out, Synchronizer.clkAsync_out,
    Synchronizer.clkAsync_zero, Synchronizer.clkAsync_one, held]
  cases resetIn n <;> cases resetIn (n + 1) <;> cases resetIn (n + 2) <;> simp

theorem intChain_eq {i m : Nat} (hi : i ≤ 4) (hm : m = n + 3 + i + 1) :
    (state c resetIn m).intChain.getLsbD i = held resetIn n := by
  have hchain (k : Nat) : (state c resetIn (k + 1)).intChain =
      shiftIn ((state c resetIn k).resetOutPre (resetIn k)) (state c resetIn k).intChain := rfl
  rw [hm, ← resetOutPre_eq]
  exact getLsbD_chain (fun k => (state c resetIn k).intChain) hchain hi

theorem chain_succ {i : Nat} (hi : i < 4) :
    (state c resetIn (n + 1)).rSyncRstChain.getLsbD i =
      ((state c resetIn n).intChain.getLsbD 2 ||
        (state c resetIn n).rSyncRstChain.getLsbD (i + 1)) := by
  have hones : (0b1111#4).getLsbD i = true := by
    revert i
    decide
  rw [state_succ, Controller.clk]
  cases (state c resetIn n).intChain.getLsbD 2
  · simp [Nat.add_comm]
  · simpa using hones

theorem chain_eq (c : Controller) (resetIn : Nat → Bool) (n : Nat) :
    (state c resetIn (n + 9)).rSyncRstChain.getLsbD 1 =
      (held resetIn n || held resetIn (n + 1) || held resetIn (n + 2)) := by
  have h₂ (k : Nat) : (state c resetIn (k + 6)).intChain.getLsbD 2 = held resetIn k :=
    intChain_eq (by decide) rfl
  rw [chain_succ (by decide), chain_succ (by decide), chain_succ (by decide), h₂ (n + 2),
    h₂ (n + 1), h₂ n, BitVec.getLsbD_of_ge _ 4 (by decide)]
  cases held resetIn n <;> cases held resetIn (n + 1) <;> simp

theorem nextSyncRst_eq (c : Controller) :
    c.nextSyncRst = (c.intChain.getLsbD 4 || c.rSyncRstChain.getLsbD 1 && c.rSyncRst) := by
  unfold Controller.nextSyncRst
  cases c.intChain.getLsbD 4 <;> cases c.rSyncRstChain.getLsbD 1 <;> cases c.rSyncRst <;> rfl

theorem resetOut_succ (c : Controller) (resetIn : Nat → Bool) (n : Nat) :
    (state c resetIn (n + 9)).resetOut =
      (held resetIn n || (state c resetIn (n + 8)).rSyncRstChain.getLsbD 1 &&
        (state c resetIn (n + 8)).resetOut) := by
  have h₄ : (state c resetIn (n + 8)).intChain.getLsbD 4 = held resetIn n :=
    intChain_eq (by decide) rfl
  rw [← h₄]
  exact nextSyncRst_eq _

theorem resetOut_eq (c : Controller) (resetIn : Nat → Bool) (n : Nat) :
    (state c resetIn (n + 11)).resetOut =
      (resetIn (n + 1) || resetIn (n + 2) || resetIn (n + 3) || resetIn (n + 4) ||
        resetIn (n + 5) || resetIn n && resetIn (n + 6)) := by
  have h₂ := resetOut_succ c resetIn (n + 1)
  have h₃ := resetOut_succ c resetIn (n + 2)
  rw [chain_eq c resetIn n, resetOut_succ c resetIn n] at h₂
  rw [chain_eq c resetIn (n + 1), h₂] at h₃
  rw [h₃]
  simp only [held, Nat.add_assoc, Nat.reduceAdd]
  -- what the registers held before is absorbed
  generalize ((state c resetIn (n + 8)).rSyncRstChain.getLsbD 1 &&
    (state c resetIn (n + 8)).resetOut) = x
  grind

theorem rstReqSync_out (c : Controller) (resetIn : Nat → Bool) (n : Nat) :
    (state c resetIn (n + 3)).rstReqSync.intChainOut = false := by
  have hsync (k : Nat) : (state c resetIn (k + 1)).rstReqSync =
      (state c resetIn k).rstReqSync.shift false := rfl
  rw [hsync, Synchronizer.shift_out, hsync, Synchronizer.shift_zero, hsync,
    Synchronizer.shift_one]

theorem nextEarlyRst_eq (c : Controller) :
    c.nextEarlyRst = (c.rSyncRstChain.getLsbD 2 || c.rstReqSync.intChainOut) := by
  unfold Controller.nextEarlyRst
  cases c.rSyncRstChain.getLsbD 1 <;> cases c.rSyncRstChain.getLsbD 2 <;>
    cases c.rstReqSync.intChainOut <;> rfl

theorem resetReq_eq (c : Controller) (resetIn : Nat → Bool) (n : Nat) :
    (state c resetIn (n + 9)).resetReq = (held resetIn n || held resetIn (n + 1)) := by
  have h₂ (k : Nat) : (state c resetIn (k + 6)).intChain.getLsbD 2 = held resetIn k :=
    intChain_eq (by decide) rfl
  have hnext : (state c resetIn (n + 9)).resetReq = (state c resetIn (n + 8)).nextEarlyRst := rfl
  rw [hnext, nextEarlyRst_eq, rstReqSync_out c resetIn (n + 5), chain_succ (by decide),
    chain_succ (by decide), h₂ (n + 1), h₂ n, BitVec.getLsbD_of_ge _ 4 (by decide)]
  cases held resetIn n <;> simp

theorem reset_waveforms (c : Controller) (resetIn : Nat → Bool) (n : Nat) :
    ((state c resetIn (n + 10)).resetReq = true ↔ ∃ k, n < k ∧ k ≤ n + 5 ∧ resetIn k = true) ∧
      ((state c resetIn (n + 11)).resetOut = true ↔
        (state c resetIn (n + 10)).resetReq = true ∨
          (resetIn n = true ∧ resetIn (n + 6) = true)) := by
  have hrange : (∃ k, n < k ∧ k ≤ n + 5 ∧ resetIn k = true) ↔
      (resetIn (n + 1) || resetIn (n + 2) || resetIn (n + 3) || resetIn (n + 4) ||
        resetIn (n + 5)) = true := by
    simp only [Bool.or_eq_true]
    constructor
    · rintro ⟨k, hk, hle, hr⟩
      obtain rfl | rfl | rfl | rfl | rfl : k = n + 1 ∨ k = n + 2 ∨ k = n + 3 ∨ k = n + 4 ∨
        k = n + 5 := by omega
      all_goals simp [hr]
    · rintro ((((h | h) | h) | h) | h) <;> exact ⟨_, by omega, by omega, h⟩
  have hreq : (state c resetIn (n + 10)).resetReq = true ↔
      ∃ k, n < k ∧ k ≤ n + 5 ∧ resetIn k = true := by
    rw [hrange, resetReq_eq c resetIn (n + 1)]
    simp only [held, Nat.add_assoc, Nat.reduceAdd, Bool.or_eq_true]
    tauto
  refine ⟨hreq, ?_⟩
  rw [hreq, hrange, resetOut_eq, Bool.or_eq_true, Bool.and_eq_true]

end Waveform

section PowerUp

/-- The last clock of the reset that the initialisers of the chains give: what the synchronizer
holds at power-up comes before them. -/
def lastHigh (rstSync : Synchronizer) : Nat :=
  if rstSync.intChain.getLsbD 1 then 9
  else if rstSync.intChain.getLsbD 0 then 8
  else if rstSync.intChainOut then 7
  else 6

/-- `reset_reset_n` is tied to 1. -/
def tied (rstSync rstReqSync : Synchronizer) (rSyncRst rEarlyRst : Bool) : Nat → Controller :=
  state (.powerUp rstSync rstReqSync rSyncRst rEarlyRst) fun _ => false

theorem tied_early : ∀ (x y : BitVec 2) (o p r e : Bool), ∀ n < 11,
    (tied ⟨x, o⟩ ⟨y, p⟩ r e n).resetOut = if n < 2 then r else decide (n ≤ lastHigh ⟨x, o⟩) := by
  decide +kernel

theorem lastHigh_le (s : Synchronizer) : lastHigh s ≤ 9 := by
  unfold lastHigh
  split_ifs <;> decide

theorem le_lastHigh (s : Synchronizer) : 6 ≤ lastHigh s := by
  unfold lastHigh
  split_ifs <;> decide

variable (rstSync rstReqSync : Synchronizer) (rSyncRst rEarlyRst : Bool)

theorem tied_resetOut (n : Nat) :
    (tied rstSync rstReqSync rSyncRst rEarlyRst n).resetOut =
      if n < 2 then rSyncRst else decide (n ≤ lastHigh rstSync) := by
  rcases Nat.lt_or_ge n 11 with hlt | hge
  · exact tied_early _ _ _ _ _ _ n hlt
  · have hlast := lastHigh_le rstSync
    obtain ⟨k, rfl⟩ := Nat.exists_eq_add_of_le' hge
    rw [tied, resetOut_eq, if_neg (by omega), decide_eq_false (by omega)]
    rfl

end PowerUp

end PhotonCount.Reset
