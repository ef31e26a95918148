import PhotonCount.Meter.Rate
import PhotonCount.PlsCnt.TimeBase

namespace PhotonCount.PlsCnt

open Machine

variable {s : Regs} {es : List Event} {e : Event} {i : Inputs}

/-- The clocks that a window has gone on for. -/
def phase (s : Regs) : Nat := (s.clkCnt.toNat + (s.tao.toNat - 1)) % s.tao.toNat

theorem phase_lt (h0 : s.tao ≠ 0#32) : phase s < s.tao.toNat :=
  Nat.mod_lt _ (Nat.pos_of_ne_zero (mt toNat_eq_zero.mp h0))

theorem meterEvent_isTick (s : Regs) (hwr : e.isWrite = false) :
    (meterEvent s e).isTick = e.isClk := by
  cases e with
  | pho => rfl
  | clk i =>
    have hi : i.write = false := hwr
    simp [meterEvent, hi, Meter.Event.isTick, Event.isClk]

theorem steady (he : e.Running) (hwr : e.isWrite = false) (h0 : s.tao ≠ 0#32)
    (hw : wraps s e = false) : Meter.Steady (2 ^ 32) (abs s) (meterEvent s e) := by
  rw [Meter.Steady, ← refines_abs, ← refines_tr, refines.step s e he.ok]
  cases e with
  | pho => rfl
  | clk i =>
    have hi : i.write = false := hwr
    have hcnt : (plsCnt.step s (.clk i)).clkCnt =
        if modTao s = 0 ∧ trigFlag s = true then 1#32 else s.clkCnt + 1#32 :=
      (clk_clkCnt he.1 h0).trans (by simp [hi])
    rw [refines_tr, meterEvent_isTick s hwr, Event.isClk, if_pos rfl]
    change (plsCnt.step s (.clk i)).clkCnt.toNat % s.tao.toNat =
      (s.clkCnt.toNat + 1) % s.tao.toNat
    split at hcnt
    next h =>
      have hone : (1#32 : BitVec 32).toNat = 1 := rfl
      have hmod : s.clkCnt.toNat % s.tao.toNat = 0 := h.1
      rw [hcnt, hone, Nat.add_mod, hmod, Nat.zero_add, Nat.mod_mod]
    next h => rw [hcnt, clkCnt_add_one (clkCnt_add_one_ne_zero hw hcnt)]

theorem along_steady (hes : ∀ e ∈ es, e.Running ∧ e.isWrite = false) (h0 : s.tao ≠ 0#32)
    (hw : NoWrap s es) : (Meter.meter (2 ^ 32)).Along (Meter.Steady (2 ^ 32)) (abs s)
      (refines.translate s es) := by
  induction es generalizing s with
  | nil => trivial
  | cons e es ih =>
    rw [List.forall_mem_cons] at hes
    rw [noWrap_cons] at hw
    have hstep : (Meter.meter (2 ^ 32)).step (abs s) (meterEvent s e) = abs (plsCnt.step s e) :=
      refines.step s e hes.1.1.ok
    have hlater := ih hes.2 (step_tao_ne_zero hes.1.1 h0) hw.2
    rw [← hstep] at hlater
    exact ⟨steady hes.1.1 hes.1.2 h0 hw.1, hlater⟩

theorem phase_run (hes : ∀ e ∈ es, e.Running ∧ e.isWrite = false) (h0 : s.tao ≠ 0#32)
    (hw : NoWrap s es) :
    (plsCnt.outputs s es).length * s.tao.toNat + phase (plsCnt.run s es) =
      phase s + clkEdges es := by
  have hok : ∀ e ∈ es, refines.ok e := fun e he => (hes e he).1.ok
  have hwr : ∀ e ∈ es, e.isWrite = false := fun e he => (hes e he).2
  have hmeter := Meter.phase_run (isRetune_translate hwr) (mt toNat_eq_zero.mp h0)
    (along_steady hes h0 hw)
  rw [meter_run hok, ticks_translate hwr] at hmeter
  rw [refines.outputs_eq hok, List.length_map]
  exact hmeter

theorem length_outputs_le (hes : ∀ e ∈ es, e.Running ∧ e.isWrite = false) (h0 : s.tao ≠ 0#32)
    (hw : NoWrap s es) :
    (plsCnt.outputs s es).length ≤ clkEdges es / s.tao.toNat + 1 := by
  have ht : 0 < s.tao.toNat := Nat.pos_of_ne_zero (mt toNat_eq_zero.mp h0)
  have hrun := phase_run hes h0 hw
  have hlt := phase_lt h0
  rw [← Nat.lt_succ_iff, Nat.succ_eq_add_one, Nat.add_assoc, ← Nat.add_mul_div_right _ _ ht,
    ← Nat.add_one_le_iff, Nat.le_div_iff_mul_le ht, Nat.add_mul]
  omega

theorem le_length_outputs (hes : ∀ e ∈ es, e.Running ∧ e.isWrite = false) (h0 : s.tao ≠ 0#32)
    (hw : NoWrap s es) {m : Nat} (hm : m * s.tao.toNat ≤ clkEdges es) :
    m ≤ (plsCnt.outputs s es).length := by
  have hrun := phase_run hes h0 hw
  have hlt : phase (plsCnt.run s es) < s.tao.toNat :=
    run_tao h0 hes ▸ phase_lt (run_tao_ne_zero h0 fun e he => (hes e he).1)
  refine Nat.le_of_lt_succ (Nat.lt_of_mul_lt_mul_right (a := s.tao.toNat) ?_)
  rw [Nat.succ_mul]
  omega

theorem noWrap_of_lt (hes : ∀ e ∈ es, e.Running) (h0 : s.tao ≠ 0#32)
    (hlt : s.clkCnt.toNat + clkEdges es < 2 ^ 32) : NoWrap s es := by
  induction es generalizing s with
  | nil => trivial
  | cons e es ih =>
    rw [List.forall_mem_cons] at hes
    rw [clkEdges_cons] at hlt
    have htao := step_tao_ne_zero hes.1 h0
    cases e with
    | pho =>
      have hcnt : (plsCnt.step s .pho).clkCnt = s.clkCnt := rfl
      refine ⟨?_, ih hes.2 htao (hcnt ▸ hlt)⟩
      rw [wraps, hcnt]
      grind
    | clk i =>
      simp only [Event.isClk, if_true] at hlt
      have hne : s.clkCnt ≠ 0xffffffff#32 := by
        have hmax : (0xffffffff#32).toNat = 2 ^ 32 - 1 := rfl
        rintro hcnt
        rw [hcnt] at hlt
        omega
      have hadd : (s.clkCnt + 1#32).toNat = s.clkCnt.toNat + 1 := by
        rw [BitVec.toNat_add]
        exact Nat.mod_eq_of_lt (by change s.clkCnt.toNat + 1 < 2 ^ 32; omega)
      refine ⟨by simp [wraps, hne], ih hes.2 htao ?_⟩
      have hcnt : (plsCnt.step s (.clk i)).clkCnt = _ := clk_clkCnt hes.1.1 h0
      rw [hcnt]
      split
      · omega
      · split
        · have hone : (1#32 : BitVec 32).toNat = 1 := rfl
          omega
        · omega

end PhotonCount.PlsCnt
