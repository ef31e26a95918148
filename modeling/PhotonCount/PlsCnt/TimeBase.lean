import PhotonCount.PlsCnt.Refines

namespace PhotonCount.PlsCnt

open Machine Meter

variable {s : Regs} {es fs : List Event} {e : Event}

@[simp] theorem clkEdges_nil : clkEdges [] = 0 := rfl
@[simp] theorem clkEdges_cons (e : Event) :
    clkEdges (e :: es) = clkEdges es + if e.isClk then 1 else 0 := List.countP_cons
@[simp] theorem clkEdges_append (es fs : List Event) :
    clkEdges (es ++ fs) = clkEdges es + clkEdges fs := List.countP_append

theorem step_tao_ne_zero (he : e.Running) (h0 : s.tao ≠ 0#32) :
    (plsCnt.step s e).tao ≠ 0#32 := by
  cases e with
  | pho => exact h0
  | clk i => exact clk_tao_ne_zero (.inr h0) he.2

theorem run_tao_ne_zero (h0 : s.tao ≠ 0#32) (hes : ∀ e ∈ es, e.Running) :
    (plsCnt.run s es).tao ≠ 0#32 :=
  plsCnt.run_invariant (P := fun s => s.tao ≠ 0#32) (fun _ _ => step_tao_ne_zero) h0 hes

theorem step_tao (he : e.Running) (hw : e.isWrite = false) (h0 : s.tao ≠ 0#32) :
    (plsCnt.step s e).tao = s.tao := by
  cases e with
  | pho => rfl
  | clk i =>
    have hw : i.write = false := hw
    change (clk i s).tao = s.tao
    simp [clk_tao he.1 h0, hw]

theorem run_tao (h0 : s.tao ≠ 0#32) (hes : ∀ e ∈ es, e.Running ∧ e.isWrite = false) :
    (plsCnt.run s es).tao = s.tao :=
  plsCnt.run_invariant (P := fun s' => s'.tao = s.tao)
    (fun _ _ he hs => (step_tao he.1 he.2 (hs ▸ h0)).trans hs) rfl hes

section NoWrap

theorem noWrap_cons : NoWrap s (e :: es) ↔ wraps s e = false ∧ NoWrap (plsCnt.step s e) es :=
  Iff.rfl

theorem noWrap_append : NoWrap s (es ++ fs) ↔ NoWrap s es ∧ NoWrap (plsCnt.run s es) fs := by
  induction es generalizing s with
  | nil => simp [NoWrap]
  | cons e es ih => simp [noWrap_cons, ih, and_assoc]

theorem clkCnt_add_one (h : s.clkCnt + 1#32 ≠ 0#32) :
    (s.clkCnt + 1#32).toNat = s.clkCnt.toNat + 1 := by
  have hne : s.clkCnt.toNat ≠ 2 ^ 32 - 1 := by
    intro heq
    exact h (BitVec.eq_of_toNat_eq (by simp [heq]))
  have := s.clkCnt.isLt
  rw [BitVec.toNat_add]
  exact Nat.mod_eq_of_lt (by simp; omega)

theorem clkCnt_add_one_ne_zero (hw : wraps s e = false)
    (h : (plsCnt.step s e).clkCnt = s.clkCnt + 1#32) : s.clkCnt + 1#32 ≠ 0#32 := by
  intro hz
  have hmax : s.clkCnt = 0xffffffff#32 := by grind
  simp [wraps, h, hmax] at hw

theorem step_clkCnt_ne_zero (h0 : s.tao ≠ 0#32) (he : e.Running) (hw : wraps s e = false)
    (hc : s.clkCnt ≠ 0#32) : (plsCnt.step s e).clkCnt ≠ 0#32 := by
  cases e with
  | pho => exact hc
  | clk i =>
    have hclk := clk_clkCnt he.1 h0
    change (clk i s).clkCnt ≠ 0#32
    split at hclk
    next =>
      rw [hclk]
      exact hc
    next =>
      split at hclk
      next => simp [hclk]
      next =>
        rw [hclk]
        exact clkCnt_add_one_ne_zero hw hclk

theorem run_clkCnt_ne_zero (h0 : s.tao ≠ 0#32) (hes : ∀ e ∈ es, e.Running)
    (hw : NoWrap s es) (hc : s.clkCnt ≠ 0#32) : (plsCnt.run s es).clkCnt ≠ 0#32 := by
  induction es generalizing s with
  | nil => exact hc
  | cons e es ih =>
    rw [List.forall_mem_cons] at hes
    rw [noWrap_cons] at hw
    exact ih (step_tao_ne_zero hes.1 h0) hes.2 hw.2 (step_clkCnt_ne_zero h0 hes.1 hw.1 hc)

theorem run_clkCnt_mono (h0 : s.tao ≠ 0#32) (hes : ∀ e ∈ es, e.Running)
    (hw : NoWrap s es) (hc : s.clkCnt ≠ 0#32) (h : plsCnt.outputs s es = []) :
    s.clkCnt.toNat ≤ (plsCnt.run s es).clkCnt.toNat := by
  induction es generalizing s with
  | nil => exact le_refl _
  | cons e es ih =>
    obtain ⟨ho, h⟩ := Mealy.out_of_silent _ h
    rw [List.forall_mem_cons] at hes
    rw [noWrap_cons] at hw
    have hne := step_clkCnt_ne_zero h0 hes.1 hw.1 hc
    refine le_trans ?_ (ih (step_tao_ne_zero hes.1 h0) hes.2 hw.2 hne h)
    cases e with
    | pho => exact le_refl _
    | clk i =>
      change (clk i s).clkCnt ≠ 0#32 at hne
      change _ ≤ (clk i s).clkCnt.toNat
      rw [clk_clkCnt hes.1.1 h0] at hne ⊢
      split
      · exact le_refl _
      next hwr =>
        -- a restart at 1 comes with a record
        have hb : modTao s ≠ 0 := by
          intro hb
          rw [(out_clk_eq_some hes.1.1 h0 _).mpr ⟨by simpa using hwr, hb, rfl⟩] at ho
          cases ho
        simp only [hwr, hb, false_and, if_false] at hne ⊢
        rw [clkCnt_add_one hne]
        omega

end NoWrap

section Gap

theorem ticks_translate (h : ∀ e ∈ es, e.isWrite = false) :
    ticks (refines.translate s es) = clkEdges es := by
  induction es generalizing s with
  | nil => rfl
  | cons e es ih =>
    rw [List.forall_mem_cons] at h
    cases e with
    | pho => simp [ih h.2, meterEvent, Meter.Event.isTick, Event.isClk]
    | clk i =>
      have hw : i.write = false := h.1
      simp [ih h.2, meterEvent, hw, Meter.Event.isTick, Event.isClk]

theorem isRetune_translate (h : ∀ e ∈ es, e.isWrite = false) :
    ∀ e ∈ refines.translate s es, e.isRetune = false := by
  induction es generalizing s with
  | nil => simp
  | cons e es ih =>
    rw [List.forall_mem_cons] at h
    rw [Simulation.translate_cons, List.forall_mem_cons]
    refine ⟨?_, ih h.2⟩
    cases e with
    | pho => rfl
    | clk i =>
      have hw : i.write = false := h.1
      simp [meterEvent, hw, Meter.Event.isRetune]

theorem emits_cases {w : Word} (he : e.Running) (h0 : s.tao ≠ 0#32)
    (h : plsCnt.out s e = some w) :
    ∃ i, e = .clk i ∧ i.write = false ∧ modTao s = 0 ∧ w.flag = trigFlag s ∧
      w.stamp = s.clkCnt := by
  cases e with
  | pho => cases h
  | clk i =>
    obtain ⟨hw, hb, rfl⟩ := (out_clk_eq_some he.1 h0 w).mp h
    exact ⟨i, rfl, hw, hb, by simp, by simp⟩

def restart (w : Word) : Nat := if w.flag then 0 else w.stamp.toNat

theorem gap_of_silent {e' : Event} {w w' : Word} (h0 : s.tao ≠ 0#32) (he : e.Running)
    (hes : ∀ e ∈ es, e.Running) (he' : e'.Running) (hw : ∀ e ∈ es, e.isWrite = false)
    (h₁ : plsCnt.out s e = some w) (h : plsCnt.outputs (plsCnt.step s e) es = [])
    (h₂ : plsCnt.out (plsCnt.run (plsCnt.step s e) es) e' = some w') :
    clkEdges es + 1 = min s.tao.toNat (2 ^ 32 - restart w) ∧
      w'.stamp.toNat = (restart w + (clkEdges es + 1)) % 2 ^ 32 := by
  have hok : ∀ e ∈ es, refines.ok e := fun e he => (hes e he).ok
  obtain ⟨i, rfl, hi, -, hflag, hstamp⟩ := emits_cases he h0 h₁
  obtain ⟨r, hr, -⟩ := refines.emits he.ok h₁
  obtain ⟨b, hb, hm, hmb, -, hclose⟩ := Meter.emits_cases hr
  obtain rfl : decide (s.tri1 = 1#2) = b := by simpa [meterEvent, hi] using hb
  rw [refines.step _ _ he.ok] at hclose
  obtain ⟨r', hr', rfl⟩ := refines.emits he'.ok h₂
  obtain ⟨b', hb', -⟩ := Meter.emits_cases hr'
  rw [hb', refines_abs, ← meter_run hok, ← refines_abs, hclose] at hr'
  have hsilent := meter_silent hok h
  rw [← refines_abs, hclose] at hsilent
  have hbase : base (abs s) (decide (s.tri1 = 1#2)) = restart w := by
    rw [base, abs_flag, restart, hflag, hstamp]
    rfl
  have key := Meter.gap (by decide) hm hmb s.clkCnt.isLt (isRetune_translate hw) hsilent hr'
  rw [ticks_translate hw, refines_abs, hbase] at key
  refine ⟨key.1, ?_⟩
  rw [refines_enc, encode, Word.stamp_pack, BitVec.toNat_ofNat, key.2, Nat.mod_mod]

theorem gap (c : plsCnt.Consecutive s) (h0 : c.state.tao ≠ 0#32)
    (hr : ∀ e ∈ c.first :: c.inputs, e.Running) (hw : ∀ e ∈ c.body, e.isWrite = false) :
    clkEdges c.inputs = min c.state.tao.toNat (2 ^ 32 - restart c.output₁) ∧
      c.output₂.stamp.toNat = (restart c.output₁ + clkEdges c.inputs) % 2 ^ 32 := by
  simp only [Mealy.Consecutive.inputs, List.forall_mem_cons, List.forall_mem_append] at hr
  obtain ⟨hfirst, hbody, hlast, -⟩ := hr
  have hafter : plsCnt.run s (c.before ++ [c.first]) = plsCnt.step c.state c.first := by
    simp [Mealy.Consecutive.state]
  have hsilent := c.silent
  have hemits := c.emits₂
  rw [show c.before ++ c.first :: c.body = c.before ++ [c.first] ++ c.body by simp,
    Mealy.run_append] at hemits
  rw [hafter] at hsilent hemits
  have hclk : clkEdges c.inputs = clkEdges c.body + 1 := by
    cases hl : c.last with
    | pho => simp [hl, plsCnt] at hemits
    | clk i => simp [Mealy.Consecutive.inputs, hl, Event.isClk]
  rw [hclk]
  exact gap_of_silent h0 hfirst hbody hlast hw c.emits₁ hsilent hemits

end Gap

theorem AfterReset.clkCnt (h : AfterReset s) : s.clkCnt = 1#32 := by
  obtain ⟨i, s', hi, rfl⟩ := h
  rw [clk_reset hi]

theorem AfterReset.tao_ne_zero (h : AfterReset s) : s.tao ≠ 0#32 := by
  obtain ⟨i, s', hi, rfl⟩ := h
  rw [clk_reset hi]
  exact (by decide : (0xffff#32 : BitVec 32) ≠ 0#32)

section Stamps

theorem stamp_of_window (h0 : s.tao ≠ 0#32) (hc : s.clkCnt ≠ 0#32) (w : plsCnt.Window s)
    (hr : ∀ e ∈ w.trace, e.Running)
    (hw : NoWrap s (w.before ++ w.body)) :
    0 < w.output.stamp.toNat ∧
      (plsCnt.run s (w.before ++ w.body)).tao.toNat ∣ w.output.stamp.toNat := by
  simp only [Mealy.Window.trace, Mealy.Window.inputs, ← List.append_assoc,
    List.forall_mem_append] at hr
  have hr' : ∀ e ∈ w.before ++ w.body, e.Running := List.forall_mem_append.mpr hr.1
  obtain ⟨i, -, -, hb, -, hstamp⟩ :=
    emits_cases (hr.2 w.last (by simp)) (run_tao_ne_zero h0 hr') w.emits
  rw [hstamp]
  refine ⟨?_, Nat.dvd_of_mod_eq_zero hb⟩
  have := run_clkCnt_ne_zero h0 hr' hw hc
  exact Nat.pos_of_ne_zero fun hz => this (BitVec.eq_of_toNat_eq hz)

theorem step_clkCnt_ne_zero_of_emits {w : Word} (h0 : s.tao ≠ 0#32) (he : e.Running)
    (hw : wraps s e = false) (h : plsCnt.out s e = some w) :
    (plsCnt.step s e).clkCnt ≠ 0#32 := by
  obtain ⟨i, rfl, hwr, hb, -⟩ := emits_cases he h0 h
  have hclk := clk_clkCnt he.1 h0
  simp only [hwr, hb, Bool.false_eq_true, if_false, true_and] at hclk
  change (clk i s).clkCnt ≠ 0#32
  split at hclk
  next => simp [hclk]
  next =>
    rw [hclk]
    exact clkCnt_add_one_ne_zero hw hclk

section Pairs

variable (c : plsCnt.Consecutive s)

theorem stamp_of_consecutive (h0 : c.state.tao ≠ 0#32)
    (hr : ∀ e ∈ c.first :: c.inputs, e.Running) (hw : NoWrap c.state (c.first :: c.body)) :
    c.output₂.stamp = (plsCnt.run (plsCnt.step c.state c.first) c.body).clkCnt ∧
      (plsCnt.step c.state c.first).clkCnt ≠ 0#32 ∧
      (plsCnt.step c.state c.first).clkCnt.toNat ≤ c.output₂.stamp.toNat := by
  simp only [Mealy.Consecutive.inputs, List.forall_mem_cons, List.forall_mem_append] at hr
  obtain ⟨hfirst, hbody, hlast, -⟩ := hr
  have hsilent := c.silent
  have hemits := c.emits₂
  simp only [Mealy.run_append, Mealy.run_cons, Mealy.run_nil] at hsilent hemits
  have h0' := step_tao_ne_zero hfirst h0
  have hc := step_clkCnt_ne_zero_of_emits h0 hfirst hw.1 c.emits₁
  obtain ⟨-, -, -, -, -, hstamp⟩ := emits_cases hlast (run_tao_ne_zero h0' hbody) hemits
  refine ⟨hstamp, hc, ?_⟩
  rw [hstamp]
  exact run_clkCnt_mono h0' hbody hw.2 hc hsilent

theorem stamp_lt_of_unflagged (h0 : c.state.tao ≠ 0#32)
    (hr : ∀ e ∈ c.first :: c.inputs, e.Running) (hw : NoWrap c.state (c.first :: c.body))
    (hf : c.output₁.flag = false) :
    c.output₁.stamp.toNat < c.output₂.stamp.toNat := by
  obtain ⟨-, hne, hle⟩ := stamp_of_consecutive c h0 hr hw
  have hfirst := hr c.first (by simp)
  obtain ⟨i, hi, hwr, -, hflag, hstamp⟩ := emits_cases hfirst h0 c.emits₁
  rw [hi] at hne hle hfirst
  have hstep : (plsCnt.step c.state (.clk i)).clkCnt = c.state.clkCnt + 1#32 := by
    rw [hf] at hflag
    exact (clk_clkCnt hfirst.1 h0).trans (by simp [hwr, ← hflag])
  rw [hstep] at hne hle
  rw [clkCnt_add_one hne] at hle
  rw [hstamp]
  exact hle

theorem gap_of_noWrap (h0 : c.state.tao ≠ 0#32)
    (hr : ∀ e ∈ c.first :: c.inputs, e.Running) (hw : NoWrap c.state (c.first :: c.body))
    (hq : ∀ e ∈ c.body, e.isWrite = false) :
    clkEdges c.inputs = c.state.tao.toNat ∧
      c.output₂.stamp.toNat = restart c.output₁ + c.state.tao.toNat := by
  obtain ⟨hgap, hstamp⟩ := gap c h0 hr hq
  obtain ⟨-, hne, hle⟩ := stamp_of_consecutive c h0 hr hw
  have hpos : 0 < (plsCnt.step c.state c.first).clkCnt.toNat :=
    Nat.pos_of_ne_zero (mt toNat_eq_zero.mp hne)
  have hne' : restart c.output₁ + clkEdges c.inputs ≠ 2 ^ 32 := by
    intro heq
    rw [heq, Nat.mod_self] at hstamp
    omega
  have hlt : restart c.output₁ + clkEdges c.inputs < 2 ^ 32 := by
    have : restart c.output₁ < 2 ^ 32 := by
      unfold restart
      split
      · decide
      · exact c.output₁.stamp.isLt
    omega
  rw [Nat.mod_eq_of_lt hlt] at hstamp
  omega

end Pairs

theorem stamps_isChain (h0 : s.tao ≠ 0#32) (hr : ∀ e ∈ es, e.Running)
    (hq : ∀ e ∈ es, e.isWrite = false) (hw : NoWrap s es) :
    (plsCnt.outputs s es).IsChain fun a b => restart a < b.stamp.toNat := by
  refine Mealy.outputs_isChain fun c hc => ?_
  obtain ⟨rest, rfl⟩ := hc
  simp only [Mealy.Consecutive.trace, List.forall_mem_append] at hr hq
  obtain ⟨hw, -⟩ := noWrap_append.mp hw
  have h0' := run_tao_ne_zero h0 hr.1.1
  have hw' : NoWrap c.state (c.first :: c.body ++ [c.last]) := (noWrap_append.mp hw).2
  have hbody : ∀ e ∈ c.body, e.isWrite = false := fun e he =>
    hq.1.2 e (List.mem_cons_of_mem _ (List.mem_append_left _ he))
  have hpos : 0 < c.state.tao.toNat := Nat.pos_of_ne_zero (mt toNat_eq_zero.mp h0')
  rw [(gap_of_noWrap c h0' hr.1.2 (noWrap_append.mp hw').1 hbody).2]
  omega

end Stamps

theorem time_stamps_right (hs : AfterReset s) :
    (∀ w : plsCnt.Window s, (∀ e ∈ w.trace, e.Running) → NoWrap s (w.before ++ w.body) →
      0 < w.output.stamp.toNat ∧
        (plsCnt.run s (w.before ++ w.body)).tao.toNat ∣ w.output.stamp.toNat) ∧
    ∀ c : plsCnt.Consecutive s, (∀ e ∈ c.trace, e.Running) →
      NoWrap s (c.before ++ c.first :: c.body) →
      (c.output₁.flag = false → c.output₁.stamp.toNat < c.output₂.stamp.toNat) ∧
        ((∀ e ∈ c.body, e.isWrite = false) →
          clkEdges c.inputs = c.state.tao.toNat ∧
            c.output₂.stamp.toNat =
              if c.output₁.flag then c.state.tao.toNat
              else c.output₁.stamp.toNat + c.state.tao.toNat) := by
  have h0 := hs.tao_ne_zero
  have hc : s.clkCnt ≠ 0#32 := by
    rw [hs.clkCnt]
    decide
  refine ⟨fun w hr hw => stamp_of_window h0 hc w hr hw, fun c hr hw => ?_⟩
  simp only [Mealy.Consecutive.trace, List.forall_mem_append] at hr
  have h0' := run_tao_ne_zero h0 hr.1
  have hw' := (noWrap_append.mp hw).2
  refine ⟨stamp_lt_of_unflagged c h0' hr.2 hw', fun hq => ?_⟩
  obtain ⟨hgap, hstamp⟩ := gap_of_noWrap c h0' hr.2 hw' hq
  refine ⟨hgap, ?_⟩
  rw [hstamp, restart]
  split <;> simp

def flaggedThenPlain : plsCnt.Consecutive (plsCnt.run (powerUp 0#32) [.resetEdge]) where
  before := [.program 2#32, .trigger]
  first := .idle
  body := [.idle]
  last := .idle
  output₁ := Word.pack true 0#32 2#32
  output₂ := Word.pack false 0#32 2#32
  emits₁ := by decide
  silent := by decide
  emits₂ := by decide

theorem time_stamps_right_restart :
    clkEdges flaggedThenPlain.inputs = 2 ∧ flaggedThenPlain.output₂.stamp.toNat = 2 :=
  ((time_stamps_right ⟨_, powerUp 0#32, rfl, rfl⟩).2 flaggedThenPlain (by decide)
    (by decide)).2 (by decide)

end PhotonCount.PlsCnt
