import PhotonCount.Reset.Controller
import PhotonCount.System.Delivery
import PhotonCount.TriGen.Laws

namespace PhotonCount.System

open Machine PlsCnt Ghrd FifoPls Reset

structure Parts where
  board : Board
  fifo : FifoPls.State
  trigger : TriGen.Regs
  triggerSim : TriGen.Regs

structure Ports where
  clock : Ghrd.Clock
  access : Access
  trigger : TriGen.Inputs
  triggerSim : TriGen.Inputs

def Ports.reset (r : Bool) (k : Ports) : Ghrd.Clock :=
  { k.clock with inputs := { k.clock.inputs with reset := r } }

/-- One clock with the line as it is; the FIFO is cleared as soon as it is high. -/
def parts : Mealy Parts (Bool × Ports) Word where
  step t k :=
    { board := ghrd.step t.board (.before, k.2.reset k.1)
      fifo :=
        if k.1 then t.fifo.reset
        else fifoPls.step t.fifo (link.feed t.board (k.2.reset k.1, k.2.access))
      trigger := TriGen.clk { k.2.trigger with rst := k.1 } t.trigger
      triggerSim := TriGen.clk { k.2.triggerSim with rst := k.1 } t.triggerSim }
  out t k :=
    if k.1 then none
    else fifoPls.out t.fifo (link.feed t.board (k.2.reset k.1, k.2.access))

/-- `reset_reset_n` is tied to 1. -/
def line : Driver Controller Ports Bool Unit (Bool × Ports) where
  source := controller
  pick _ := false
  feed c k := (c.resetOut, k)

def chip : Mealy (Controller × Parts) Ports Word := line.drive parts

structure Cleared (t : Parts) : Prop where
  cnt : PlsCnt.AfterReset t.board.cnt
  fifo : ∃ s : FifoPls.State, t.fifo = s.reset
  trigger : TriGen.AfterReset t.trigger
  triggerSim : TriGen.AfterReset t.triggerSim

structure Fresh (t : Parts) : Prop extends Cleared t where
  idle : t.board.Idle

section Line

variable {c : Controller} {ks : List Ports} {n : Nat} {b : Bool}

theorem feeds_constant
    (h : ∀ i < ks.length, (state c (fun _ => false) (n + i)).resetOut = b) :
    line.feeds (state c (fun _ => false) n) ks = ks.map fun k => (b, k) := by
  induction ks generalizing n with
  | nil => rfl
  | cons k ks ih =>
    have hhead := h 0 (by simp)
    rw [Driver.feeds_cons, List.map_cons]
    refine congrArg₂ _ (congrArg (·, k) hhead) (ih (n := n + 1) fun i hi => ?_)
    rw [Nat.add_right_comm]
    exact h (i + 1) (Nat.succ_lt_succ hi)

theorem run_line (c : Controller) (n : Nat) (ks : List Ports) :
    line.source.run (state c (fun _ => false) n) (ks.map line.pick) =
      state c (fun _ => false) (n + ks.length) := by
  induction ks generalizing n with
  | nil => rfl
  | cons k ks ih =>
    rw [List.map_cons, Mealy.run_cons, List.length_cons, ← Nat.add_assoc, Nat.add_right_comm]
    exact ih (n + 1)

end Line

section High

variable {t : Parts} {k : Ports} {ks : List Ports}

theorem cleared_step (t : Parts) (k : Ports) : Cleared (parts.step t (true, k)) := by
  refine ⟨⟨(k.reset true).inputs, { t.board.cnt with
    phoCnt := t.board.cnt.phoCnt + BitVec.ofNat 32 k.clock.photons }, rfl, ?_⟩, ⟨t.fifo, rfl⟩,
    ⟨{ k.trigger with rst := true }, t.trigger, rfl, rfl⟩,
    ⟨{ k.triggerSim with rst := true }, t.triggerSim, rfl, rfl⟩⟩
  have hcnt : (parts.step t (true, k)).board.cnt =
      clocked.step t.board.cnt (k.reset true).toCycle := step_cnt (.inl rfl)
  rw [hcnt, clocked_step, clk_reset rfl, clk_reset rfl]
  rfl

theorem Cleared.rdy (h : Cleared t) : t.board.cnt.rdy = false := by
  obtain ⟨i, s, hi, hs⟩ := h.cnt
  rw [hs, clk_reset hi]

theorem link_step (t : Parts) (k : Ports) : (parts.step t (true, k)).board.link =
    transfer k.clock.hpsFpgaResetN t.board.cnt.rdy t.board.cnt.cntStream t.board.link
      t.board.link := by
  change (ghrd.step t.board (.before, k.reset true)).link = _
  rw [ghrd_step, edge_before]
  rfl

/-- `hps_fpga_reset_n` is needed once, as the transfer process is not on the line. -/
theorem Cleared.fresh (h : Cleared t) (hk : k.clock.hpsFpgaResetN = false) :
    Fresh (parts.step t (true, k)) := by
  refine ⟨cleared_step t k, (cleared_step t k).rdy, ?_⟩
  rw [link_step, h.rdy, hk]
  by_cases hs : t.board.link.counterState = 1#8 <;> simp [transfer, hs]

theorem Fresh.step (h : Fresh t) (k : Ports) : Fresh (parts.step t (true, k)) := by
  obtain ⟨hrdy, hstate, hvalid⟩ := h.idle
  refine ⟨cleared_step t k, (cleared_step t k).rdy, ?_⟩
  rw [link_step, hrdy]
  cases k.clock.hpsFpgaResetN <;> simp [transfer, hstate, hvalid]

theorem Fresh.run (h : Fresh t) (ks : List Ports) :
    Fresh (parts.run t (ks.map fun k => (true, k))) := by
  induction ks generalizing t with
  | nil => exact h
  | cons k ks ih => exact ih (h.step k)

theorem cleared_run (t : Parts) (ks : List Ports) (k : Ports) :
    Cleared (parts.run t ((ks ++ [k]).map fun k => (true, k))) := by
  rw [List.map_append, Mealy.run_append]
  exact cleared_step _ k

theorem fresh_run {l : Ports} (hl : l.clock.hpsFpgaResetN = false) (hmem : l ∈ ks) (t : Parts)
    (k : Ports) : Fresh (parts.run t ((k :: ks).map fun k => (true, k))) := by
  obtain ⟨before, after, rfl⟩ := List.append_of_mem hmem
  rw [← List.cons_append, List.map_append, Mealy.run_append]
  refine Fresh.run (Cleared.fresh ?_ hl) after
  rcases List.eq_nil_or_concat (k :: before) with hnil | ⟨ks, p, h⟩
  · cases hnil
  · rw [h, List.concat_eq_append]
    exact cleared_run t ks p

end High

section Low

def Ports.low (k : Ports) : Ghrd.Clock × Access := (k.reset false, k.access)

theorem outputs_low (t : Parts) (ks : List Ports) :
    parts.outputs t (ks.map fun k => (false, k)) =
      board.outputs (t.board, t.fifo) (ks.map Ports.low) := by
  induction ks generalizing t with
  | nil => rfl
  | cons k ks ih => exact congrArg (_ ++ ·) (ih _)

def Parts.released (t : Parts) (ks : List Ports) : Parts where
  board := (System.board.run (t.board, t.fifo) (ks.map Ports.low)).1
  fifo := (System.board.run (t.board, t.fifo) (ks.map Ports.low)).2
  trigger := TriGen.triGen.run t.trigger (ks.map fun k => { k.trigger with rst := false })
  triggerSim := TriGen.triGen.run t.triggerSim (ks.map fun k => { k.triggerSim with rst := false })

theorem run_low (t : Parts) (ks : List Ports) :
    parts.run t (ks.map fun k => (false, k)) = t.released ks := by
  induction ks generalizing t with
  | nil => rfl
  | cons k ks ih => exact ih _

end Low

section PowerUp

variable (x y : Reset.Synchronizer) (r e : Bool)

theorem power_up_resets (t : Parts) (ks after : List Ports) (hks : ks.length = lastHigh x + 1) :
    (∀ ls : List Ports, (chip.run (.powerUp x y r e, t) ls).1.resetOut =
      if ls.length < 2 then r else decide (ls.length ≤ lastHigh x)) ∧
    ∃ t', (chip.run (.powerUp x y r e, t) ks).2 = t' ∧ Cleared t' ∧
      ((∃ k ∈ ks.drop 3, k.clock.hpsFpgaResetN = false) → t'.board.Idle) ∧
      chip.outputs (.powerUp x y r e, t) (ks ++ after) =
        chip.outputs (.powerUp x y r e, t) ks ++
          board.outputs (t'.board, t'.fifo) (after.map Ports.low) ∧
      (chip.run (.powerUp x y r e, t) (ks ++ after)).2 = t'.released after := by
  have hlast := le_lastHigh x
  have hout := tied_resetOut x y r e
  have hstart : Controller.powerUp x y r e = state (.powerUp x y r e) (fun _ => false) 0 := rfl
  refine ⟨fun ls => ?_, _, rfl, ?_⟩
  · rw [← hout, chip, Driver.run_drive, hstart, run_line, Nat.zero_add]
    rfl
  have hafter : line.feeds (line.source.run (.powerUp x y r e) (ks.map line.pick)) after =
      after.map fun k => (false, k) := by
    rw [hstart, run_line]
    refine feeds_constant fun i _ => (hout _).trans ?_
    rw [if_neg (by omega), decide_eq_false (by omega)]
  have hks' : line.feeds (.powerUp x y r e) ks = line.feeds (.powerUp x y r e) (ks.take 2) ++
      (ks.drop 2).map fun k => (true, k) := by
    conv_lhs => rw [← List.take_append_drop 2 ks, Driver.feeds_append, hstart, run_line]
    refine congrArg _ (feeds_constant fun i hi => (hout _).trans ?_)
    rw [List.length_drop] at hi
    rw [List.length_take, if_neg (by omega), decide_eq_true (by omega)]
  rw [chip, Driver.run_drive, Driver.run_drive, Driver.outputs_drive, Driver.outputs_drive,
    Driver.feeds_append, hafter, Mealy.outputs_append, Mealy.run_append, outputs_low, run_low]
  refine ⟨?_, fun ⟨l, hl, hlow⟩ => ?_, rfl, rfl⟩
  · rw [hks', Mealy.run_append, ← List.dropLast_append_getLast (l := ks.drop 2) (by simp; omega)]
    exact cleared_run _ _ _
  · rw [hks', Mealy.run_append, List.drop_eq_getElem_cons (by omega)]
    exact (fresh_run hlow hl _ _).idle

def Parts.unknown : Parts :=
  ⟨⟨PlsCnt.powerUp 0#32, ⟨7#8, 0#64, true⟩⟩, .blank, TriGen.powerUp true, TriGen.powerUp false⟩

def Ports.held : Ports :=
  ⟨⟨⟨⟨false, true, false, 0#32⟩, 1⟩, false⟩, ⟨false, .none, .none, 0#64⟩, .idle, .idle⟩

theorem power_up_resets_held :
    Fresh (chip.run (.powerUp ⟨1#2, false⟩ ⟨2#2, true⟩ false true, .unknown)
      (List.replicate 9 .held)).2 := by
  obtain ⟨-, _, rfl, hcleared, hidle, -⟩ := power_up_resets ⟨1#2, false⟩ ⟨2#2, true⟩ false true
    .unknown (List.replicate 9 .held) [] rfl
  exact ⟨hcleared, hidle ⟨.held, by simp, rfl⟩⟩

end PowerUp

end PhotonCount.System
