import PhotonCount.Machine.Simulation
import PhotonCount.Meter.Laws
import PhotonCount.PlsCnt.Defs

namespace PhotonCount.PlsCnt

open Machine Rtl Rtl.PartSelect

variable {s : Regs} {i : Inputs}

def nextTri (triIn : Bool) (tri1 : BitVec 2) : BitVec 2 := if triIn then tri1 + 1#2 else 0#2

theorem branch_tri1 {t : BitVec 2} (h : i.write = false → (s.tri1 = 1#2 ↔ t = 1#2)) :
    branch i { s with tri1 := t } = branch i s := by
  cases hr : i.reset <;> cases hw : i.write <;> simp [branch, hr, hw]
  simp [h hw]

theorem triBlock_high (h : i.triIn = true) (s : Regs) :
    triBlock i s = ⟨s, fun r => { r with tri1 := s.tri1 + 1#2 }⟩ := by
  by_cases h0 : s.tri1 = 0#2 <;> simp [triBlock, h, h0]

theorem triBlock_low (h : i.triIn = false) (s : Regs) :
    triBlock i s = ⟨{ s with tri1 := 0#2 }, id⟩ := by
  simp [triBlock, h]

theorem counterBlock_now_tri1 (i : Inputs) (s : Regs) :
    (counterBlock i s).now.tri1 = s.tri1 := by
  unfold counterBlock
  cases branch i s <;> rfl

theorem counterBlock_later_tri1 (i : Inputs) (s r : Regs) (t : BitVec 2) :
    (counterBlock i s).later { r with tri1 := t } =
      { (counterBlock i s).later r with tri1 := t } := by
  unfold counterBlock
  cases branch i s <;> rfl

theorem independent_counter_tri (h : i.write = false → s.tri1 = 1#2 → i.triIn = true) :
    Block.Independent counterBlock triBlock i s := by
  cases ht : i.triIn with
  | true =>
    constructor
    · simp only [triBlock_high ht]
    · funext r
      simp only [triBlock_high ht, Function.comp_apply, counterBlock_now_tri1,
        counterBlock_later_tri1]
  | false =>
    have hbranch : branch i { s with tri1 := 0#2 } = branch i s := by
      apply branch_tri1
      intro hw
      -- when the counter looks at `tri_1`, the detector has nothing to clear
      have hne : s.tri1 ≠ 1#2 := fun h1 => by simp [ht] at h; exact h hw h1
      simp [hne]
    constructor <;> simp only [triBlock_low ht, counterBlock, hbranch] <;> cases branch i s <;> rfl

theorem clk_eq (i : Inputs) (s : Regs) :
    clk i s = { (counterBlock i s).later (counterBlock i s).now with
      tri1 := nextTri i.triIn s.tri1 } := by
  rw [clk, Block.edge_pair]
  cases ht : i.triIn with
  | false =>
    rw [triBlock_low ht]
    exact counterBlock_later_tri1 i s _ _
  | true =>
    rw [triBlock_high ht, counterBlock_now_tri1]
    rfl

theorem clk_tri1 (i : Inputs) (s : Regs) : (clk i s).tri1 = nextTri i.triIn s.tri1 := by
  rw [clk_eq]

theorem clk_phoCnt (i : Inputs) (s : Regs) : (clk i s).phoCnt = s.phoCnt := by
  rw [clk_eq, counterBlock]
  cases branch i s <;> rfl

@[simp] theorem pho_eq (s : Regs) : pho s = { s with phoCnt := s.phoCnt + 1#32 } := rfl

def modTao (s : Regs) : Nat := s.clkCnt.toNat % s.tao.toNat

theorem modZero_iff (h : s.tao ≠ 0#32) : modZero s.clkCnt s.tao = true ↔ modTao s = 0 := by
  simp [modZero, modTao, h, BitVec.toNat_eq]

theorem modNonzero_iff (h : s.tao ≠ 0#32) : modNonzero s.clkCnt s.tao = true ↔ modTao s ≠ 0 := by
  simp [modNonzero, modTao, h, BitVec.toNat_eq]

/-- The trigger flag of a record emitted at this edge. -/
def trigFlag (s : Regs) : Bool := decide (s.tri1 = 1#2) || s.tmp

theorem clk_reset (h : i.reset = true) :
    clk i s = { s with
      rdy := false
      cntStream := 0#64
      clkCnt := 1#32
      cntTmp1 := 0#32
      cntTmp2 := 0#32
      tmp := false
      tao := 0xffff#32
      tri1 := nextTri i.triIn s.tri1 } := by
  simp [clk_eq, counterBlock, branch, h, Branch.block, resetBranch]

theorem clk_write (hr : i.reset = false) (hw : i.write = true) :
    clk i s = { s with tao := i.taoQ, tri1 := nextTri i.triIn s.tri1 } := by
  simp [clk_eq, counterBlock, branch, hr, hw, Branch.block, writeBranch]

theorem branch_write (hr : i.reset = false) (hw : i.write = true) : branch i s = .write := by
  simp [branch, hr, hw]

theorem branch_inside (hr : i.reset = false) (hw : i.write = false) (h0 : s.tao ≠ 0#32)
    (hin : modTao s ≠ 0) : branch i s = if s.tri1 = 1#2 then .trigInside else .inside := by
  have hn := (modNonzero_iff h0).mpr hin
  by_cases ht : s.tri1 = 1#2 <;> simp [branch, hr, hw, hn, ht]

theorem branch_boundary (hr : i.reset = false) (hw : i.write = false) (h0 : s.tao ≠ 0#32)
    (hb : modTao s = 0) : branch i s =
      if s.tri1 = 1#2 then .trigBoundary else if s.tmp then .boundaryPending else .boundary := by
  have hz := (modZero_iff h0).mpr hb
  have hn : ¬ modNonzero s.clkCnt s.tao = true := fun h => (modNonzero_iff h0).mp h hb
  by_cases ht : s.tri1 = 1#2 <;> cases hp : s.tmp <;> simp [branch, hr, hw, hz, hn, ht, hp]

theorem clk_inside (hr : i.reset = false) (hw : i.write = false) (h0 : s.tao ≠ 0#32)
    (hin : modTao s ≠ 0) :
    clk i s = { s with
      clkCnt := s.clkCnt + 1#32
      rdy := false
      cntStream := if s.tri1 = 1#2 then assign s.cntStream 63 1#1 else s.cntStream
      tmp := trigFlag s
      tri1 := nextTri i.triIn s.tri1 } := by
  rw [clk_eq, counterBlock, branch_inside hr hw h0 hin]
  by_cases ht : s.tri1 = 1#2 <;>
    simp [ht, Branch.block, trigInsideBranch, insideBranch, trigFlag]

theorem clk_boundary (hr : i.reset = false) (hw : i.write = false) (h0 : s.tao ≠ 0#32)
    (hb : modTao s = 0) :
    clk i s = { s with
      cntStream := Word.pack (trigFlag s) (s.phoCnt - s.cntTmp1) s.clkCnt
      rdy := true
      tmp := decide (s.tri1 = 1#2) && s.tmp
      clkCnt := if trigFlag s then 1#32 else s.clkCnt + 1#32
      cntTmp1 := s.phoCnt
      cntTmp2 := s.phoCnt - s.cntTmp1
      tri1 := nextTri i.triIn s.tri1 } := by
  rw [clk_eq, counterBlock, branch_boundary hr hw h0 hb]
  by_cases ht : s.tri1 = 1#2 <;> cases hp : s.tmp <;>
    simp [ht, hp, Branch.block, trigBoundaryBranch, boundaryBranch, boundaryPendingBranch,
      trigFlag, Word.assign_flagged, Word.assign_unflagged]

theorem branch_stuck (hr : i.reset = false) (hw : i.write = false) (h0 : s.tao = 0#32) :
    branch i s = .none := by
  simp [branch, hr, hw, modNonzero, modZero, h0]

theorem clk_stuck (hr : i.reset = false) (hw : i.write = false) (h0 : s.tao = 0#32) :
    clk i s = { s with tri1 := nextTri i.triIn s.tri1 } := by
  rw [clk_eq, counterBlock, branch_stuck hr hw h0]
  rfl

theorem clk_clkCnt (hr : i.reset = false) (h0 : s.tao ≠ 0#32) :
    (clk i s).clkCnt =
      if i.write then s.clkCnt
      else if modTao s = 0 ∧ trigFlag s = true then 1#32 else s.clkCnt + 1#32 := by
  cases hw : i.write with
  | true => simp [clk_write hr hw]
  | false =>
    by_cases hb : modTao s = 0
    · simp [clk_boundary hr hw h0 hb, hb]
    · simp [clk_inside hr hw h0 hb, hb]

theorem clk_tao (hr : i.reset = false) (h0 : s.tao ≠ 0#32) :
    (clk i s).tao = if i.write then i.taoQ else s.tao := by
  cases hw : i.write with
  | true => simp [clk_write hr hw]
  | false =>
    by_cases hb : modTao s = 0
    · simp [clk_boundary hr hw h0 hb]
    · simp [clk_inside hr hw h0 hb]

theorem clk_tao_ne_zero (h0 : i.reset = true ∨ s.tao ≠ 0#32)
    (hw : i.write = true → i.taoQ ≠ 0#32) : (clk i s).tao ≠ 0#32 := by
  cases hr : i.reset with
  | true =>
    rw [clk_reset hr]
    exact (by decide : (0xffff#32 : BitVec 32) ≠ 0#32)
  | false =>
    have h0 := h0.resolve_left (by simp [hr])
    rw [clk_tao hr h0]
    split
    next h => exact hw h
    next => exact h0

theorem out_clk_eq_some (hr : i.reset = false) (h0 : s.tao ≠ 0#32) (w : Word) :
    plsCnt.out s (.clk i) = some w ↔
      i.write = false ∧ modTao s = 0 ∧
        w = Word.pack (trigFlag s) (s.phoCnt - s.cntTmp1) s.clkCnt := by
  cases hw : i.write with
  | true => simp [plsCnt, branch_write hr hw, Branch.emits]
  | false =>
    by_cases hb : modTao s = 0
    · have he : (branch i s).emits = true := by
        rw [branch_boundary hr hw h0 hb]
        by_cases ht : s.tri1 = 1#2 <;> cases hp : s.tmp <;> simp [ht, Branch.emits]
      simp only [plsCnt, he, if_true, clk_boundary hr hw h0 hb, Option.some.injEq, hb, true_and,
        eq_comm]
    · have he : (branch i s).emits = false := by
        rw [branch_inside hr hw h0 hb]
        by_cases ht : s.tri1 = 1#2 <;> simp [ht, Branch.emits]
      simp [plsCnt, he, hb]

theorem emits_iff (hr : i.reset = false) (h0 : s.tao ≠ 0#32) :
    (branch i s).emits = true ↔ i.write = false ∧ modTao s = 0 := by
  have h := out_clk_eq_some hr h0 (clk i s).cntStream
  cases he : (branch i s).emits with
  | true =>
    simp only [plsCnt, he, if_true, true_iff] at h
    simpa using ⟨h.1, h.2.1⟩
  | false =>
    simp only [Bool.false_eq_true, false_iff]
    rintro ⟨hw, hb⟩
    have := (out_clk_eq_some hr h0 _).mpr ⟨hw, hb, rfl⟩
    simp [plsCnt, he] at this

theorem clk_rdy (hr : i.reset = false) (h0 : s.tao ≠ 0#32) :
    (clk i s).rdy = if i.write then s.rdy else (branch i s).emits := by
  cases hw : i.write with
  | true => simp [clk_write hr hw]
  | false =>
    have he := emits_iff (i := i) hr h0
    by_cases hb : modTao s = 0
    · simp [clk_boundary hr hw h0 hb, he.mpr ⟨hw, hb⟩]
    · have : (branch i s).emits = false := by
        rw [Bool.eq_false_iff]
        exact fun h => hb (he.mp h).2
      simp [clk_inside hr hw h0 hb, this]

theorem ne_zero_of_two_le {t : BitVec 32} (h : 2 ≤ t.toNat) : t ≠ 0#32 := by
  rintro rfl
  simp at h

theorem modTao_clk_of_emits (hr : i.reset = false) (htao : 2 ≤ s.tao.toNat)
    (he : (branch i s).emits = true)
    (hadd : (clk i s).clkCnt = s.clkCnt + 1#32 →
      (s.clkCnt + 1#32).toNat % s.tao.toNat = (s.clkCnt.toNat + 1) % s.tao.toNat) :
    modTao (clk i s) ≠ 0 := by
  have h0 := ne_zero_of_two_le htao
  obtain ⟨hw, hb⟩ := (emits_iff hr h0).mp he
  have htao' : (clk i s).tao = s.tao := by simp [clk_tao hr h0, hw]
  have hcnt := clk_clkCnt (i := i) hr h0
  simp only [hw, hb, Bool.false_eq_true, if_false, true_and] at hcnt
  split at hcnt
  next => simp [modTao, htao', hcnt, Nat.mod_eq_of_lt htao]
  next =>
    rw [modTao] at hb
    rw [modTao, htao', hcnt, hadd hcnt, Nat.add_mod, hb, Nat.zero_add, Nat.mod_mod,
      Nat.mod_eq_of_lt htao]
    exact Nat.one_ne_zero

theorem counterBlock_now (i : Inputs) (s : Regs) :
    (counterBlock i s).now.rdy = (s.rdy || (branch i s).emits) ∧
      (counterBlock i s).now.cntStream =
        if (branch i s).emits then (clk i s).cntStream else s.cntStream := by
  rw [clk_eq, counterBlock]
  cases hb : branch i s <;> simp [Branch.emits, Branch.block, resetBranch, writeBranch,
    trigInsideBranch, trigBoundaryBranch, insideBranch, boundaryBranch, boundaryPendingBranch]

end PhotonCount.PlsCnt
