import PhotonCount.PlsCnt.TimeBase

namespace PhotonCount.PlsCnt

open Machine

variable {s : Regs}

/-- A window is full exactly if `CLK_cnt` can count to its end: at the wrap to 0 every
integration time divides it, and the window is cut off. -/
theorem window_full_iff (c : plsCnt.Consecutive s) (h0 : c.state.tao ≠ 0#32)
    (hr : ∀ e ∈ c.first :: c.inputs, e.Running)
    (hw : ∀ e ∈ c.first :: c.inputs, e.isWrite = false) :
    c.state.tao.toNat ≤ clkEdges c.inputs ↔
      trigFlag c.state = true ∨ c.state.clkCnt.toNat + c.state.tao.toNat ≤ 2 ^ 32 := by
  have hbody : ∀ e ∈ c.body, e.isWrite = false := fun e he =>
    hw e (List.mem_cons_of_mem _ (List.mem_append_left _ he))
  obtain ⟨-, -, -, -, hflag, hstamp⟩ :=
    emits_cases (s := c.state) (hr c.first (by simp)) h0 c.emits₁
  have htao := c.state.tao.isLt
  rw [(gap c h0 hr hbody).1, restart, hflag, hstamp]
  cases hf : trigFlag c.state with
  | true => simp [htao.le]
  | false =>
    have hstamp := c.state.clkCnt.isLt
    simp only [Bool.false_eq_true, if_false, false_or]
    omega

theorem window_full_restart :
    flaggedThenPlain.state.tao.toNat ≤ clkEdges flaggedThenPlain.inputs :=
  (window_full_iff flaggedThenPlain (by decide) (by decide) (by decide)).mpr (by decide)

theorem wraps_emits_iff {e : Event} {w : Word} (h0 : s.tao ≠ 0#32) (he : e.Running)
    (h : plsCnt.out s e = some w) :
    wraps s e = true ↔ trigFlag s = false ∧ s.clkCnt = 0xffffffff#32 := by
  obtain ⟨i, rfl, hw, hb, -⟩ := emits_cases he h0 h
  have hclk : (plsCnt.step s (.clk i)).clkCnt = _ := clk_clkCnt he.1 h0
  rw [wraps, hclk]
  cases hf : trigFlag s with
  | true => simp [hw, hb]
  | false =>
    simp only [hw, Bool.false_eq_true, if_false, and_false, true_and, Bool.and_eq_true,
      beq_iff_eq, and_iff_left_iff_imp]
    intro hmax
    simp [hmax]

def waiting (n : Nat) : Regs :=
  { powerUp 0xffffffff#32 with clkCnt := BitVec.ofNat 32 (n + 1) }

theorem clk_waiting {n : Nat} (hn : n + 2 < 2 ^ 32) :
    plsCnt.step (waiting n) .idle = waiting (n + 1) ∧ plsCnt.out (waiting n) .idle = none := by
  have hclk : (waiting n).clkCnt.toNat = n + 1 := by
    simp only [waiting, BitVec.toNat_ofNat]
    omega
  have hin : modTao (waiting n) ≠ 0 := by
    rw [modTao, hclk, Nat.mod_eq_of_lt (by simp [waiting, powerUp]; omega)]
    omega
  constructor
  · refine (clk_inside rfl rfl (by simp [waiting, powerUp]) hin).trans ?_
    simp [waiting, powerUp, trigFlag, nextTri, BitVec.ofNat_add]
  · rw [Option.eq_none_iff_forall_ne_some]
    intro w h
    exact hin ((out_clk_eq_some rfl (by simp [waiting, powerUp]) w).mp h).2.1

theorem run_waiting {n : Nat} (hn : n + 1 < 2 ^ 32) :
    plsCnt.run (waiting 0) (List.replicate n .idle) = waiting n := by
  induction n with
  | zero => rfl
  | succ n ih =>
    rw [List.replicate_succ', Mealy.run_append, ih (by omega), Mealy.run_cons,
      (clk_waiting (by omega)).1, Mealy.run_nil]

theorem waiting_zero :
    waiting 0 = plsCnt.run (powerUp 0#32) [.resetEdge, .program 0xffffffff#32] := by
  decide

def cutOff : plsCnt.Consecutive (waiting 0) where
  before := List.replicate (2 ^ 32 - 2) .idle
  first := .idle
  body := []
  last := .idle
  output₁ := Word.pack false 0#32 0xffffffff#32
  output₂ := Word.pack false 0#32 0#32
  emits₁ := by
    rw [run_waiting (by decide)]
    decide
  silent := rfl
  emits₂ := by
    rw [Mealy.run_append, run_waiting (by decide)]
    decide

/-- Nothing but idle CLK edges after power-up, RESET and one write, and yet two records
a single CLK edge apart. -/
theorem window_cut_off :
    waiting 0 = plsCnt.run (powerUp 0#32) [.resetEdge, .program 0xffffffff#32] ∧
      cutOff.state.tao = 0xffffffff#32 ∧
      (∀ e ∈ cutOff.first :: cutOff.inputs, e = .idle) ∧
      ¬ cutOff.state.tao.toNat ≤ clkEdges cutOff.inputs := by
  have htao : cutOff.state.tao = 0xffffffff#32 := by
    rw [Mealy.Consecutive.state, cutOff, run_waiting (by decide)]
    rfl
  refine ⟨waiting_zero, htao, by decide, ?_⟩
  rw [htao]
  decide

end PhotonCount.PlsCnt
