import PhotonCount.Machine.Stutter
import PhotonCount.PlsCnt.Refines

namespace PhotonCount.PlsCnt

open Machine Meter

variable {s : Regs} {i : Inputs} {es fs : List Event}

def Repeats (s : Regs) : Event → Prop
  | .pho => False
  | .clk i =>
    i.reset = false ∧ i.write = true ∧ i.taoQ = s.tao ∧ i.triIn = false ∧ s.tri1 = 0#2

theorem clk_repeat (hr : i.reset = false) (hw : i.write = true) (htao : i.taoQ = s.tao) :
    clk i s = { s with tri1 := (clk { i with write := false } s).tri1 } := by
  rw [clk_write hr hw, htao, clk_tri1]

theorem step_repeats {e : Event} (h : Repeats s e) : plsCnt.step s e = s := by
  cases e with
  | pho => exact h.elim
  | clk i =>
    obtain ⟨hr, hw, htao, htri, hs⟩ := h
    change clk i s = s
    rw [clk_write hr hw, htao, htri]
    simp [nextTri, ← hs]

theorem out_repeats {e : Event} (h : Repeats s e) : plsCnt.out s e = none := by
  cases e with
  | pho => rfl
  | clk i => simp [plsCnt, branch_write h.1 h.2.1, Branch.emits]

def rewrites (s : Regs) : Event → Bool
  | .pho => false
  | .clk i => i.write && i.taoQ = s.tao

/-- What the meter is told of a run if it is told nothing of the repeated writes. -/
def told : Regs → List Event → List Meter.Event
  | _, [] => []
  | s, e :: es =>
    if rewrites s e then told (plsCnt.step s e) es
    else meterEvent s e :: told (plsCnt.step s e) es

theorem meterEvent_of_rewrites {e : Event} (h : rewrites s e = true) :
    meterEvent s e = .retune (abs s).tao := by
  cases e with
  | pho => cases h
  | clk i =>
    simp only [rewrites, Bool.and_eq_true, decide_eq_true_eq] at h
    simp [meterEvent, h.1, h.2, abs]

theorem stutter_told (h : ∀ e ∈ es, refines.ok e) :
    (meter (2 ^ 32)).Stutter (fun m e => e = .retune m.tao) (abs s) (refines.translate s es)
      (told s es) := by
  induction es generalizing s with
  | nil => exact .nil _
  | cons e es ih =>
    rw [List.forall_mem_cons] at h
    have hstep := refines.step s e h.1
    have htold := ih (s := plsCnt.step s e) h.2
    rw [← refines_abs, ← hstep] at htold
    rw [Simulation.translate_cons, told]
    split
    next hs =>
      have hevent := meterEvent_of_rewrites hs
      refine .skip hevent ?_
      rwa [refines_abs, refines_tr, hevent, step_retune] at htold
    next => exact .keep htold

theorem outputs_told (h : ∀ e ∈ es, refines.ok e) :
    plsCnt.outputs s es = ((meter (2 ^ 32)).outputs (abs s) (told s es)).map encode ∧
      abs (plsCnt.run s es) = (meter (2 ^ 32)).run (abs s) (told s es) := by
  have hretune : ∀ (m : Meter.State) e, e = .retune m.tao →
      (meter (2 ^ 32)).step m e = m ∧ (meter (2 ^ 32)).out m e = none := by
    rintro m e rfl
    exact ⟨rfl, rfl⟩
  obtain ⟨hout, hrun⟩ := (stutter_told h).unnoticed (fun m e he => (hretune m e he).1)
    fun m e he => (hretune m e he).2
  rw [← hout, ← hrun, meter_run h]
  exact ⟨refines.outputs_eq h, rfl⟩

theorem repeat_takes_clock :
    (∀ s i, i.reset = false → i.write = true → i.taoQ = s.tao →
      clk i s = { s with tri1 := (clk { i with write := false } s).tri1 }) ∧
    (∀ s es, (∀ e ∈ es, refines.ok e) →
      plsCnt.outputs s es = ((meter (2 ^ 32)).outputs (abs s) (told s es)).map encode ∧
        abs (plsCnt.run s es) = (meter (2 ^ 32)).run (abs s) (told s es)) ∧
    ∀ s es fs, plsCnt.Stutter Repeats s es fs →
      plsCnt.outputs s es = plsCnt.outputs s fs ∧ plsCnt.run s es = plsCnt.run s fs :=
  ⟨fun _ _ => clk_repeat, fun _ _ => outputs_told, fun _ _ _ h =>
    h.unnoticed (fun _ _ => step_repeats) fun _ _ => out_repeats⟩

theorem repeat_takes_clock_at_rest :
    clk ⟨false, true, true, 2#32⟩ (powerUp 2#32) = { powerUp 2#32 with tri1 := 1#2 } ∧
      plsCnt.outputs (powerUp 2#32) [.trigger, .program 2#32, .idle] =
        ((meter (2 ^ 32)).outputs (abs (powerUp 2#32)) [.tick false, .tick false]).map encode ∧
      plsCnt.outputs (powerUp 2#32) [.idle, .program 2#32, .idle] =
        plsCnt.outputs (powerUp 2#32) [.idle, .idle] := by
  have hrepeats : Repeats (plsCnt.step (powerUp 2#32) .idle) (.program 2#32) := by
    refine ⟨rfl, rfl, ?_, rfl, ?_⟩ <;> decide
  refine ⟨repeat_takes_clock.1 _ ⟨false, true, true, 2#32⟩ rfl rfl rfl, ?_, ?_⟩
  · have hrunning : ∀ e ∈ [.trigger, .program 2#32, .idle], Event.Running e := by decide
    exact (repeat_takes_clock.2.1 _ _ fun e he => (hrunning e he).ok).1
  · exact (repeat_takes_clock.2.2 _ _ _ (.keep (.skip hrepeats (.keep (.nil _))))).1

theorem repeat_loses_trigger :
    clk ⟨false, false, true, 2#32⟩
        (plsCnt.run (powerUp 0#32) [.resetEdge, .program 2#32, .trigger]) ≠
      clk ⟨false, false, false, 2#32⟩
        (plsCnt.run (powerUp 0#32) [.resetEdge, .program 2#32, .trigger]) ∧
    plsCnt.outputs (plsCnt.run (powerUp 0#32) [.resetEdge, .program 2#32])
        [.trigger, .program 2#32, .idle, .idle, .idle] ≠
      plsCnt.outputs (plsCnt.run (powerUp 0#32) [.resetEdge, .program 2#32])
        [.trigger, .idle, .idle, .idle, .idle] := by
  decide

end PhotonCount.PlsCnt
