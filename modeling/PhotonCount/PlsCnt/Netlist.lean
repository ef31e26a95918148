import PhotonCount.PlsCnt.Divider
import PhotonCount.PlsCnt.Rate

/-! `Pulse_cnt.v` as it is fitted, with a divider that has a remainder by zero too. -/

namespace PhotonCount.PlsCnt

open Machine Meter Rtl Rtl.PartSelect

variable {s : Regs} {i : Inputs} {es : List Event} {e : Event}

def clkRemainder (s : Regs) : BitVec 32 := Divider.remainder s.tao s.clkCnt

def fittedBranch (i : Inputs) (s : Regs) : Branch :=
  if i.reset then .reset
  else if i.write then .write
  else if s.tri1 = 1#2 ∧ clkRemainder s ≠ 0#32 then .trigInside
  else if s.tri1 = 1#2 ∧ clkRemainder s = 0#32 then .trigBoundary
  else if s.tri1 ≠ 1#2 ∧ clkRemainder s ≠ 0#32 then .inside
  else if s.tri1 ≠ 1#2 ∧ clkRemainder s = 0#32 ∧ s.tmp = false then .boundary
  else if s.tri1 ≠ 1#2 ∧ clkRemainder s = 0#32 ∧ s.tmp = true then .boundaryPending
  else .none

def fittedBlock : Block Inputs Regs := fun i s => (fittedBranch i s).block i s

def fittedClk (i : Inputs) (s : Regs) : Regs := Block.edge [fittedBlock, triBlock] i s

def fitted : Mealy Regs Event Word where
  step
    | s, .pho => pho s
    | s, .clk i => fittedClk i s
  out
    | _, .pho => none
    | s, .clk i => if (fittedBranch i s).emits then some (fittedClk i s).cntStream else none

theorem clkRemainder_eq (s : Regs) : clkRemainder s = s.clkCnt % s.tao :=
  (Divider.divider_exact s.tao s.clkCnt).2

section Branches

theorem block_later_tri1 (b : Branch) (i : Inputs) (s r : Regs) (t : BitVec 2) :
    (b.block i s).later { r with tri1 := t } = { (b.block i s).later r with tri1 := t } := by
  cases b <;> rfl

theorem fittedClk_tri1 (i : Inputs) (s : Regs) : fittedClk i s =
    { (fittedBlock i s).later (fittedBlock i s).now with tri1 := nextTri i.triIn s.tri1 } := by
  have htri : (fittedBlock i s).now.tri1 = s.tri1 := by
    rw [fittedBlock]
    cases fittedBranch i s <;> rfl
  rw [fittedClk, Block.edge_pair]
  cases ht : i.triIn with
  | false =>
    rw [triBlock_low ht]
    exact block_later_tri1 _ i s _ _
  | true =>
    rw [triBlock_high ht, htri]
    rfl

theorem fittedClk_write (hr : i.reset = false) (hw : i.write = true) :
    fittedClk i s = { s with tao := i.taoQ, tri1 := nextTri i.triIn s.tri1 } := by
  simp [fittedClk_tri1, fittedBlock, fittedBranch, hr, hw, Branch.block, writeBranch]

theorem fittedBranch_inside (hr : i.reset = false) (hw : i.write = false)
    (hin : clkRemainder s ≠ 0#32) :
    fittedBranch i s = if s.tri1 = 1#2 then .trigInside else .inside := by
  by_cases ht : s.tri1 = 1#2 <;> simp [fittedBranch, hr, hw, hin, ht]

theorem fittedBranch_boundary (hr : i.reset = false) (hw : i.write = false)
    (hb : clkRemainder s = 0#32) : fittedBranch i s =
      if s.tri1 = 1#2 then .trigBoundary else if s.tmp then .boundaryPending else .boundary := by
  by_cases ht : s.tri1 = 1#2 <;> cases hp : s.tmp <;> simp [fittedBranch, hr, hw, hb, ht, hp]

theorem fittedClk_inside (hr : i.reset = false) (hw : i.write = false)
    (hin : clkRemainder s ≠ 0#32) :
    fittedClk i s = { s with
      clkCnt := s.clkCnt + 1#32
      rdy := false
      cntStream := if s.tri1 = 1#2 then assign s.cntStream 63 1#1 else s.cntStream
      tmp := trigFlag s
      tri1 := nextTri i.triIn s.tri1 } := by
  rw [fittedClk_tri1, fittedBlock, fittedBranch_inside hr hw hin]
  by_cases ht : s.tri1 = 1#2 <;>
    simp [ht, Branch.block, trigInsideBranch, insideBranch, trigFlag]

theorem fittedClk_boundary (hr : i.reset = false) (hw : i.write = false)
    (hb : clkRemainder s = 0#32) :
    fittedClk i s = { s with
      cntStream := Word.pack (trigFlag s) (s.phoCnt - s.cntTmp1) s.clkCnt
      rdy := true
      tmp := decide (s.tri1 = 1#2) && s.tmp
      clkCnt := if trigFlag s then 1#32 else s.clkCnt + 1#32
      cntTmp1 := s.phoCnt
      cntTmp2 := s.phoCnt - s.cntTmp1
      tri1 := nextTri i.triIn s.tri1 } := by
  rw [fittedClk_tri1, fittedBlock, fittedBranch_boundary hr hw hb]
  by_cases ht : s.tri1 = 1#2 <;> cases hp : s.tmp <;>
    simp [ht, hp, Branch.block, trigBoundaryBranch, boundaryBranch, boundaryPendingBranch,
      trigFlag, Word.assign_flagged, Word.assign_unflagged]

end Branches

section Agree

def Event.tests : Event → Bool
  | .pho => false
  | .clk i => !i.reset && !i.write

theorem fittedBranch_eq (h : (Event.clk i).tests = true → s.tao ≠ 0#32) :
    fittedBranch i s = branch i s := by
  cases hr : i.reset with
  | true => simp [fittedBranch, branch, hr]
  | false =>
    cases hw : i.write with
    | true => simp [fittedBranch, branch, hr, hw]
    | false =>
      have h0 : s.tao ≠ 0#32 := h (by simp [Event.tests, hr, hw])
      have hn : modNonzero s.clkCnt s.tao = true ↔ clkRemainder s ≠ 0#32 := by
        rw [clkRemainder_eq]
        simp [modNonzero, h0]
      have hz : modZero s.clkCnt s.tao = true ↔ clkRemainder s = 0#32 := by
        rw [clkRemainder_eq]
        simp [modZero, h0]
      simp only [fittedBranch, branch, hn, hz]

theorem fitted_agree (s : Regs) (e : Event) (h : e.tests = true → s.tao ≠ 0#32) :
    fitted.step s e = plsCnt.step s e ∧ fitted.out s e = plsCnt.out s e := by
  cases e with
  | pho => exact ⟨rfl, rfl⟩
  | clk i =>
    have hblock : fittedBlock i s = counterBlock i s := by
      rw [fittedBlock, counterBlock, fittedBranch_eq h]
    have hclk : fittedClk i s = clk i s := by
      rw [fittedClk, clk, Block.edge_pair, Block.edge_pair, hblock]
    refine ⟨hclk, ?_⟩
    simp only [fitted, plsCnt, fittedBranch_eq h, hclk]

theorem fittedClk_ne (hr : i.reset = false) (hw : i.write = false) (h0 : s.tao = 0#32) :
    fittedClk i s ≠ clk i s := by
  intro heq
  have hcnt : (fittedClk i s).clkCnt = s.clkCnt := by rw [heq, clk_stuck hr hw h0]
  by_cases hb : clkRemainder s = 0#32
  · have hzero : s.clkCnt = 0#32 := by rw [← hb, clkRemainder_eq, h0, BitVec.umod_zero]
    rw [fittedClk_boundary hr hw hb, hzero] at hcnt
    have hone : (if trigFlag s then 1#32 else 0#32 + 1#32) = 0#32 := hcnt
    split at hone <;> exact absurd hone (by decide)
  · rw [fittedClk_inside hr hw hb] at hcnt
    have hne : s.clkCnt + 1#32 ≠ s.clkCnt := by simp
    exact hne hcnt

theorem fitted_agrees_iff (s : Regs) (es : List Event) :
    (∀ p, p <+: es →
        fitted.run s p = plsCnt.run s p ∧ fitted.outputs s p = plsCnt.outputs s p) ↔
      plsCnt.Along (fun s e => e.tests = true → s.tao ≠ 0#32) s es := by
  constructor
  · intro h
    refine Mealy.along_of_prefix fun p e hp htests h0 => ?_
    have hbefore := (h p ((List.prefix_append p [e]).trans hp)).1
    have hafter := (h (p ++ [e]) hp).1
    rw [Mealy.run_append, Mealy.run_append, hbefore] at hafter
    cases e with
    | pho => cases htests
    | clk i =>
      simp only [Event.tests, Bool.and_eq_true, Bool.not_eq_true'] at htests
      exact fittedClk_ne htests.1 htests.2 h0 hafter
  · intro h p hp
    exact (h.of_prefix hp).agree fitted_agree

end Agree

section Meters

/-- The clocks of an integration time; zero stands for as many as `CLK_cnt` has values. -/
def span (tao : BitVec 32) : Nat := if tao = 0#32 then 2 ^ 32 else tao.toNat

theorem span_ne_zero (tao : BitVec 32) : span tao ≠ 0 := by
  rw [span]
  split
  next => decide
  next h => exact mt toNat_eq_zero.mp h

def fittedAbs (s : Regs) : Meter.State := { abs s with tao := span s.tao }

def fittedEvent (s : Regs) : Event → Meter.Event
  | .pho => .photon
  | .clk i => if i.write then .retune (span i.taoQ) else .tick (s.tri1 = 1#2)

@[simp] theorem fittedAbs_flag (s : Regs) : (fittedAbs s).flag (s.tri1 = 1#2) = trigFlag s := rfl

theorem clkRemainder_eq_zero : clkRemainder s = 0#32 ↔ s.clkCnt.toNat % span s.tao = 0 := by
  rw [clkRemainder_eq, span]
  split
  next h0 => rw [h0, BitVec.umod_zero, Nat.mod_eq_of_lt s.clkCnt.isLt, toNat_eq_zero]
  next => rw [← toNat_eq_zero, BitVec.toNat_umod]

theorem fittedAbs_clk (hr : i.reset = false) :
    (meter (2 ^ 32)).step (fittedAbs s) (fittedEvent s (.clk i)) = fittedAbs (fittedClk i s) := by
  cases hw : i.write with
  | true => simp [fittedEvent, hw, fittedClk_write hr hw, fittedAbs, abs]
  | false =>
    have h0 : (fittedAbs s).tao ≠ 0 := span_ne_zero s.tao
    simp only [fittedEvent, hw, Bool.false_eq_true, if_false]
    by_cases hb : clkRemainder s = 0#32
    · rw [step_tick_close h0 (clkRemainder_eq_zero.mp hb), fittedClk_boundary hr hw hb]
      by_cases hf : trigFlag s = true <;>
        simp only [close, fittedAbs_flag, hf, if_true, if_false, Bool.false_eq_true] <;>
        simp [fittedAbs, abs]
    · rw [step_tick_advance h0 (mt clkRemainder_eq_zero.mpr hb), fittedClk_inside hr hw hb]
      simp [advance, fittedAbs, abs, trigFlag]

theorem fitted_out_clk (hr : i.reset = false) : fitted.out s (.clk i) =
    ((meter (2 ^ 32)).out (fittedAbs s) (fittedEvent s (.clk i))).map encode := by
  cases hw : i.write with
  | true => simp [fittedEvent, hw, fitted, fittedBranch, hr, Branch.emits]
  | false =>
    have h0 : (fittedAbs s).tao ≠ 0 := span_ne_zero s.tao
    simp only [fittedEvent, hw, Bool.false_eq_true, if_false]
    by_cases hb : clkRemainder s = 0#32
    · have hemits : (fittedBranch i s).emits = true := by
        rw [fittedBranch_boundary hr hw hb]
        by_cases ht : s.tri1 = 1#2 <;> cases hp : s.tmp <;> simp [ht, Branch.emits]
      rw [out_tick_eq_some.mpr ⟨h0, clkRemainder_eq_zero.mp hb, rfl⟩, Option.map_some]
      simp only [fitted, hemits, if_true, fittedClk_boundary hr hw hb]
      exact congrArg some (encode_record s).symm
    · have hsilent : (fittedBranch i s).emits = false := by
        rw [fittedBranch_inside hr hw hb]
        by_cases ht : s.tri1 = 1#2 <;> simp [ht, Branch.emits]
      rw [(out_tick_eq_none h0).mpr (mt clkRemainder_eq_zero.mpr hb), Option.map_none]
      simp [fitted, hsilent]

def fittedRefines : Simulation fitted (meter (2 ^ 32)) where
  ok
    | .pho => True
    | .clk i => i.reset = false
  abs := fittedAbs
  tr := fittedEvent
  enc := encode
  step s
    | .pho, _ => congrArg (fun m : Meter.State => { m with tao := span s.tao }) (abs_pho s)
    | .clk _, hr => fittedAbs_clk hr
  out _
    | .pho, _ => rfl
    | .clk _, hr => fitted_out_clk hr

theorem fitted_meters (s : Regs) (es : List Event) (hes : ∀ e ∈ es, fittedRefines.ok e) :
    fitted.outputs s es =
        ((meter (2 ^ 32)).outputs (fittedAbs s) (fittedRefines.translate s es)).map encode ∧
      fittedAbs (fitted.run s es) =
        (meter (2 ^ 32)).run (fittedAbs s) (fittedRefines.translate s es) :=
  ⟨fittedRefines.outputs_eq hes, (fittedRefines.run_abs hes).symm⟩

theorem fitted_meters_zero :
    fitted.outputs (powerUp 1#32) [.idle, .program 0#32, .pho, .trigger] =
      ((meter (2 ^ 32)).outputs (fittedAbs (powerUp 1#32))
        [.tick false, .retune (2 ^ 32), .photon, .tick false]).map encode :=
  (fitted_meters (powerUp 1#32) [.idle, .program 0#32, .pho, .trigger] (by
    simp [fittedRefines, Event.idle, Event.program, Event.trigger])).1

theorem fittedEvent_isRetune (s : Regs) (hwr : e.isWrite = false) :
    (fittedEvent s e).isRetune = false := by
  cases e with
  | pho => rfl
  | clk i =>
    have hw : i.write = false := hwr
    simp [fittedEvent, hw, Meter.Event.isRetune]

theorem fittedEvent_isTick (s : Regs) (hwr : e.isWrite = false) :
    (fittedEvent s e).isTick = e.isClk := by
  cases e with
  | pho => rfl
  | clk i =>
    have hw : i.write = false := hwr
    simp [fittedEvent, hw, Meter.Event.isTick, Event.isClk]

theorem outputs_stuck (h0 : s.tao = 0#32) (hes : ∀ e ∈ es, e.Running ∧ e.isWrite = false) :
    plsCnt.outputs s es = [] := by
  induction es generalizing s with
  | nil => rfl
  | cons e es ih =>
    rw [List.forall_mem_cons] at hes
    cases e with
    | pho => exact ih h0 hes.2
    | clk i =>
      have hr : i.reset = false := hes.1.1.1
      have hw : i.write = false := hes.1.2
      have htao : (clk i s).tao = 0#32 := by rw [clk_stuck hr hw h0, h0]
      have hout : plsCnt.out s (.clk i) = none := by
        simp [plsCnt, branch_stuck hr hw h0, Branch.emits]
      rw [Mealy.outputs_cons, hout]
      exact ih htao hes.2

theorem fitted_zero (s : Regs) (es : List Event) (h0 : s.tao = 0#32)
    (hes : ∀ e ∈ es, e.Running ∧ e.isWrite = false) :
    plsCnt.outputs s es = [] ∧
      (fitted.outputs s es).length = ((s.clkCnt - 1#32).toNat + clkEdges es) / 2 ^ 32 ∧
      ∀ w ∈ fitted.outputs s es, w.stamp = 0#32 := by
  have hspan : (fittedAbs s).tao = 2 ^ 32 := by simp [fittedAbs, span, h0]
  have hok : ∀ e ∈ es, fittedRefines.ok e := by
    intro e he
    have hrunning := (hes e he).1
    cases e with
    | pho => trivial
    | clk i => exact hrunning.1
  have hretune : ∀ e ∈ fittedRefines.translate s es, e.isRetune = false :=
    fittedRefines.forall_translate fun s e he => fittedEvent_isRetune s (hes e he).2
  have hticks : ticks (fittedRefines.translate s es) = clkEdges es :=
    fittedRefines.countP_translate fun s e he => fittedEvent_isTick s (hes e he).2
  have hphase : Meter.phase (fittedAbs s) = (s.clkCnt - 1#32).toNat := by
    rw [Meter.phase, hspan, BitVec.toNat_sub, Nat.add_comm]
    rfl
  have hrun : fitted.outputs s es =
      ((meter (2 ^ 32)).outputs (fittedAbs s) (fittedRefines.translate s es)).map encode :=
    fittedRefines.outputs_eq hok
  refine ⟨outputs_stuck h0 hes, ?_⟩
  rw [hrun]
  constructor
  · have hsteady := along_steady_of_dvd hretune (span_ne_zero s.tao) (dvd_of_eq hspan)
    rw [List.length_map, Meter.length_outputs hretune (span_ne_zero s.tao) hsteady, hspan, hphase,
      hticks]
  · intro w hw
    obtain ⟨r, hr, rfl⟩ := List.mem_map.mp hw
    have hdvd : 2 ^ 32 ∣ r.stamp := hspan ▸ Meter.dvd_stamp hretune hr
    rw [encode, Word.stamp_pack]
    exact BitVec.eq_of_toNat_eq (Nat.mod_eq_zero_of_dvd hdvd)

theorem fitted_zero_wraps :
    (fitted.outputs { powerUp 0#32 with clkCnt := 0xffffffff#32 } [.idle, .pho, .idle]).length =
      1 := by
  have hzero := (fitted_zero { powerUp 0#32 with clkCnt := 0xffffffff#32 } [.idle, .pho, .idle]
    rfl (by decide)).2.1
  exact hzero.trans (by decide)

end Meters

end PhotonCount.PlsCnt
