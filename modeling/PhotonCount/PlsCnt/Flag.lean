import PhotonCount.PlsCnt.TimeBase

namespace PhotonCount.PlsCnt

open Machine Meter

variable {s : Regs} {es : List Event}

theorem detected_append (es fs : List Event) :
    detected s (es ++ fs) = (detected s es || detected (plsCnt.run s es) fs) := by
  induction es generalizing s with
  | nil => rfl
  | cons e es ih => simp [detected, ih, Bool.or_assoc]

theorem triggered_translate (h : ∀ e ∈ es, e.isWrite = false) :
    triggered (refines.translate s es) = detected s es := by
  induction es generalizing s with
  | nil => rfl
  | cons e es ih =>
    rw [List.forall_mem_cons] at h
    cases e with
    | pho => simp [ih h.2, meterEvent, detected, detects, Meter.Event.isTrigger]
    | clk i =>
      have hw : i.write = false := h.1
      simp [ih h.2, meterEvent, hw, detected, detects, Meter.Event.isTrigger]

theorem live_translate (h : ∀ e ∈ es, e.Running) :
    ∀ e ∈ refines.translate s es, e.Live := by
  induction es generalizing s with
  | nil => simp
  | cons e es ih =>
    rw [List.forall_mem_cons] at h
    rw [Simulation.translate_cons, List.forall_mem_cons]
    refine ⟨?_, ih h.2⟩
    cases e with
    | pho => trivial
    | clk i =>
      cases hw : i.write with
      | false => simp [meterEvent, hw, Meter.Event.Live]
      | true =>
        simp only [refines_tr, meterEvent, hw, if_true, Meter.Event.Live]
        exact mt toNat_eq_zero.mp (h.1.2 hw)

theorem run_tmp_of_silent (h0 : s.tao ≠ 0#32) (hr : ∀ e ∈ es, e.Running)
    (hw : ∀ e ∈ es, e.isWrite = false) (h : plsCnt.outputs s es = []) :
    (plsCnt.run s es).tmp = (s.tmp || detected s es) := by
  have hok : ∀ e ∈ es, refines.ok e := fun e he => (hr e he).ok
  have := run_pending_of_silent (m := abs s) (mt toNat_eq_zero.mp h0)
    (live_translate hr) (meter_silent hok h)
  rwa [meter_run hok, triggered_translate hw] at this

section Window

variable (w : plsCnt.Window s)

theorem flag_of_window (h0 : s.tao ≠ 0#32) (hr : ∀ e ∈ w.trace, e.Running)
    (hw : ∀ e ∈ w.inputs, e.isWrite = false) :
    w.output.flag =
      ((plsCnt.run s w.before).tmp || detected (plsCnt.run s w.before) w.inputs) := by
  simp only [Mealy.Window.trace, Mealy.Window.inputs, List.forall_mem_append] at hr hw
  obtain ⟨hbefore, hbody, hlast⟩ := hr
  have h0' := run_tao_ne_zero h0 hbefore
  have hemits := w.emits
  rw [Mealy.run_append] at hemits
  obtain ⟨i, hi, -, -, hflag, -⟩ :=
    emits_cases (hlast w.last (by simp)) (run_tao_ne_zero h0' hbody) hemits
  rw [hflag, trigFlag, run_tmp_of_silent h0' hbody hw.1 w.silent, Mealy.Window.inputs,
    detected_append, hi]
  simp only [detected, detects, Bool.or_false]
  cases (plsCnt.run s w.before).tmp <;> simp [Bool.or_comm]

/-- The run ends at lines 53-62 with `tmp` set: a trigger on the window boundary while
another one of the same window is pending. -/
def EndsStale (s : Regs) (es : List Event) : Prop :=
  ∃ p i, es = p ++ [.clk i] ∧ branch i (plsCnt.run s p) = .trigBoundary ∧
    (plsCnt.run s p).tmp = true

theorem tmp_of_opens (hs : s.tmp = false) (h0 : s.tao ≠ 0#32) (hr : ∀ e ∈ es, e.Running)
    (h : plsCnt.Opens s es) : (plsCnt.run s es).tmp = true ↔ EndsStale s es := by
  rcases h with rfl | ⟨p, e, rfl, he⟩
  · simp [hs, EndsStale]
  · rw [List.forall_mem_append] at hr
    have h0' := run_tao_ne_zero h0 hr.1
    have hrun := hr.2 e (by simp)
    obtain ⟨o, ho⟩ := Option.isSome_iff_exists.mp he
    obtain ⟨i, rfl, hi, hb, -⟩ := emits_cases hrun h0' ho
    -- only lines 53-62 leave `tmp` as it was
    have hstep : (plsCnt.run s (p ++ [.clk i])).tmp =
        (decide ((plsCnt.run s p).tri1 = 1#2) && (plsCnt.run s p).tmp) := by
      rw [Mealy.run_append, Mealy.run_cons, Mealy.run_nil]
      exact congrArg Regs.tmp (clk_boundary hrun.1 hi h0' hb)
    rw [hstep]
    constructor
    · intro h
      simp only [Bool.and_eq_true, decide_eq_true_eq] at h
      refine ⟨p, i, rfl, ?_, h.2⟩
      rw [branch_boundary hrun.1 hi h0' hb, if_pos h.1]
    · rintro ⟨p', i', hp, hbr, htmp⟩
      obtain ⟨rfl, hi'⟩ := List.append_inj' hp rfl
      obtain rfl : i = i' := by simpa using hi'
      rw [branch_boundary hrun.1 hi h0' hb] at hbr
      have htri : (plsCnt.run s p).tri1 = 1#2 := by
        by_contra hne
        rw [if_neg hne] at hbr
        split at hbr <;> cases hbr
      simp [htri, htmp]

end Window

theorem AfterReset.tmp (h : AfterReset s) : s.tmp = false := by
  obtain ⟨i, s', hi, rfl⟩ := h
  rw [clk_reset hi]

theorem flag_exact_iff (hs : AfterReset s) (w : plsCnt.Window s)
    (hr : ∀ e ∈ w.trace, e.Running) (hw : ∀ e ∈ w.inputs, e.isWrite = false) :
    (w.output.flag = true ↔ detected (plsCnt.run s w.before) w.inputs = true) ↔
      (EndsStale s w.before → detected (plsCnt.run s w.before) w.inputs = true) := by
  have hbefore : ∀ e ∈ w.before, e.Running := fun e he => hr e (List.mem_append_left _ he)
  rw [flag_of_window w hs.tao_ne_zero hr hw,
    ← tmp_of_opens hs.tmp hs.tao_ne_zero hbefore w.opens]
  cases (plsCnt.run s w.before).tmp <;>
    cases detected (plsCnt.run s w.before) w.inputs <;> simp

def boundaryTrigger : plsCnt.Window (plsCnt.run (powerUp 0#32) [.resetEdge]) where
  before := [.program 2#32, .idle, .idle]
  body := [.trigger]
  last := .idle
  output := Word.pack true 0#32 4#32
  opens := .inr ⟨[.program 2#32, .idle], .idle, rfl, by decide⟩
  silent := by decide
  emits := by decide

theorem flag_exact_boundary_trigger : boundaryTrigger.output.flag = true ↔
    detected (plsCnt.run (plsCnt.run (powerUp 0#32) [.resetEdge]) boundaryTrigger.before)
      boundaryTrigger.inputs = true :=
  (flag_exact_iff ⟨_, powerUp 0#32, rfl, rfl⟩ boundaryTrigger (by decide) (by decide)).mpr
    fun _ => by decide

def afterStale : plsCnt.Window (plsCnt.run (powerUp 0#32) [.resetEdge]) where
  before := [.program 4#32, .trigger, .idle, .trigger, .idle]
  body := [.idle, .idle, .idle]
  last := .idle
  output := Word.pack true 0#32 4#32
  opens := .inr ⟨[.program 4#32, .trigger, .idle, .trigger], .idle, rfl, by decide⟩
  silent := by decide
  emits := by decide

theorem flag_not_exact :
    (∀ e ∈ afterStale.trace, e.Running) ∧ (∀ e ∈ afterStale.inputs, e.isWrite = false) ∧
      ¬ (afterStale.output.flag = true ↔
        detected (plsCnt.run (plsCnt.run (powerUp 0#32) [.resetEdge]) afterStale.before)
          afterStale.inputs = true) := by
  decide

end PhotonCount.PlsCnt
