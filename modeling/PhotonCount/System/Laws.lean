import PhotonCount.System.Defs

namespace PhotonCount.System

open Machine PlsCnt Ghrd Hps

variable {s : Sys} {c : Clock} {l : Label} {ls : List Label} {tao : BitVec 32}

section Clock

def emission (c : Clock) (s : Sys) : List Tagged :=
  if (branch c.inputs s.board.cnt).emits then
    [⟨(PlsCnt.clk c.inputs s.board.cnt).cntStream, s.board.cnt.tao⟩]
  else []

theorem clock_eq (hn : c.hpsFpgaResetN = true) (s : Sys) : clock c s =
    { s with
      board := ⟨clocked.step s.board.cnt c.toCycle,
        transfer true s.board.cnt.rdy s.board.cnt.cntStream s.board.link s.board.link⟩
      streamTao :=
        if (branch c.inputs s.board.cnt).emits then s.board.cnt.tao else s.streamTao
      bufferTao :=
        if s.board.cnt.rdy = true ∧ s.board.link.counterState = 0#8 then s.streamTao
        else s.bufferTao
      fifo :=
        if s.board.link.dataBufferValid then s.fifo.push ⟨s.board.link.dataBuffer, s.bufferTao⟩
        else s.fifo } := by
  rw [clock, step_before hn]
  cases hv : s.board.link.dataBufferValid <;> simp [ghrd, hv]

theorem clocked_stream (c : Clock) (s : Regs) :
    (clocked.step s c.toCycle).cntStream = (PlsCnt.clk c.inputs s).cntStream := by
  rw [clocked_step]

theorem clocked_rdy {s : Regs} (hr : c.inputs.reset = false) (h0 : s.tao ≠ 0#32) :
    (clocked.step s c.toCycle).rdy =
      if c.inputs.write then s.rdy else (branch c.inputs s).emits := by
  rw [clocked_step]
  exact clk_rdy hr h0

theorem pipeline_clock (hc : s.board.Coherent) (h0 : s.board.cnt.tao ≠ 0#32)
    (hn : c.hpsFpgaResetN = true) (hr : c.inputs.reset = false) (hw : c.inputs.write = false) :
    (pipeline (clock c s)).Sublist (pipeline s ++ emission c s) := by
  have hrdy := clocked_rdy (c := c) hr h0
  simp only [hw, Bool.false_eq_true, if_false] at hrdy
  have hstream := clocked_stream c s.board.cnt
  rw [clock_eq hn]
  rcases hc with ⟨hs, hv⟩ | ⟨hs, hv⟩
  · cases hrd : s.board.cnt.rdy <;> cases he : (branch c.inputs s.board.cnt).emits <;>
      simp [pipeline, emission, transfer_wait hs, transfer_take hs, hs, hv, hrd, hrdy, hstream, he]
  · -- a full FIFO drops the record presented
    have hpush := s.fifo.push_sublist ⟨s.board.link.dataBuffer, s.bufferTao⟩
    simp only [pipeline, emission, transfer_busy hs, hv, hrdy, hstream, if_true, if_false,
      Bool.false_eq_true, List.nil_append]
    refine List.Sublist.append (hpush.trans ?_) ?_
    · rw [← List.append_assoc]
      exact List.sublist_append_left _ _
    · cases (branch c.inputs s.board.cnt).emits <;> simp

@[simp] theorem clock_readout (c : Clock) (s : Sys) : (clock c s).readout = s.readout := rfl

theorem clock_coherent (h : s.board.Coherent) (hn : c.hpsFpgaResetN = true) :
    (clock c s).board.Coherent :=
  coherent_before h hn

theorem clock_tao (hn : c.hpsFpgaResetN = true) (hr : c.inputs.reset = false)
    (h0 : s.board.cnt.tao ≠ 0#32) :
    (clock c s).board.cnt.tao = if c.inputs.write then c.inputs.taoQ else s.board.cnt.tao := by
  rw [clock_eq hn, clocked_step]
  exact clk_tao hr h0

theorem clock_clkCnt (hn : c.hpsFpgaResetN = true) (hr : c.inputs.reset = false)
    (h0 : s.board.cnt.tao ≠ 0#32) : (clock c s).board.cnt.clkCnt =
      if c.inputs.write then s.board.cnt.clkCnt
      else if modTao s.board.cnt = 0 ∧ trigFlag s.board.cnt = true then 1#32
      else s.board.cnt.clkCnt + 1#32 := by
  rw [clock_eq hn, clocked_step]
  exact clk_clkCnt hr h0

theorem clock_rdy (hn : c.hpsFpgaResetN = true) (hr : c.inputs.reset = false)
    (h0 : s.board.cnt.tao ≠ 0#32) : (clock c s).board.cnt.rdy =
      if c.inputs.write then s.board.cnt.rdy else (branch c.inputs s.board.cnt).emits := by
  rw [clock_eq hn]
  exact clocked_rdy hr h0

theorem clock_link (hn : c.hpsFpgaResetN = true) : (clock c s).board.link =
    transfer true s.board.cnt.rdy s.board.cnt.cntStream s.board.link s.board.link := by
  rw [clock_eq hn]

theorem clock_fifo_ne_nil (hn : c.hpsFpgaResetN = true) (h : s.fifo.items ≠ []) :
    (clock c s).fifo.items ≠ [] := by
  rw [clock_eq hn]
  cases s.board.link.dataBufferValid
  · exact h
  · exact Fifo.push_ne_nil h _

theorem running_idle (triIn : Bool) (photons : Nat) : (idle triIn photons).Running :=
  ⟨rfl, rfl, by simp [idle]⟩

theorem running_write (h : tao ≠ 0#32) (triIn : Bool) (photons : Nat) :
    (write triIn photons tao).Running :=
  ⟨rfl, rfl, fun _ => h⟩

end Clock

section Sound

structure Sound (s : Sys) : Prop where
  coherent : s.board.Coherent
  tao : s.board.cnt.tao ≠ 0#32
  nonzero : Controller.Nonzero s.controller
  counted : Readout.Counted s.readout
  filled : s.readout.pc = .data → s.fifo.items ≠ []

theorem Start.sound (h : Start s) : Sound s where
  coherent := .inl ⟨h.counterState, h.dataBufferValid⟩
  tao := by
    obtain ⟨i, r, hi, hr⟩ := h.cnt
    rw [hr, clk_reset hi]
    simp
  nonzero := by
    rw [h.controller]
    exact Controller.nonzero_start
  counted := by
    rw [h.readout]
    exact Readout.counted_start
  filled := by simp [h.readout, Readout.start]

theorem Sound.clock (h : Sound s) (hc : c.Running) : Sound (clock c s) where
  coherent := clock_coherent h.coherent hc.1
  tao := by
    rw [clock_tao hc.1 hc.2.1 h.tao]
    split
    next hw => exact hc.2.2 hw
    next => exact h.tao
  nonzero := h.nonzero
  counted := h.counted
  filled hd := clock_fifo_ne_nil hc.1 (h.filled hd)

theorem Sound.assign (h : Sound s) (triIn : Bool) (photons : Nat) :
    Sound (assign triIn photons s) := by
  have hs : Sound { s with controller := Controller.assigned s.controller } :=
    ⟨h.coherent, h.tao, Controller.nonzero_assigned _, h.counted, h.filled⟩
  simp only [System.assign]
  split
  next hpc => exact hs.clock (running_write (h.nonzero hpc) _ _)
  next => exact ⟨hs.coherent, hs.tao, hs.nonzero, hs.counted, hs.filled⟩
  next => exact ⟨hs.coherent, hs.tao, hs.nonzero, hs.counted, hs.filled⟩
  next => exact hs

theorem Sound.readout {r : Readout.State Tagged} (h : Sound s) (hc : Readout.Counted r)
    (hr : r.pc = .data → s.fifo.items ≠ []) : Sound { s with readout := r } :=
  ⟨h.coherent, h.tao, h.nonzero, hc, hr⟩

theorem Sound.data (h : Sound s) : Sound (data s) := by
  unfold System.data
  split
  next a fifo hpc hpop =>
    exact ⟨h.coherent, h.tao, h.nonzero, h.counted.store hpc a,
      fun hd => absurd hd (Readout.store_pc a _)⟩
  next => exact h

theorem Sound.step (h : Sound s) (l : Label) : Sound (sys.step s l) := by
  cases l with
  | tick triIn photons => exact h.clock (running_idle _ _)
  | assign triIn photons => exact h.assign _ _
  | controller a =>
    exact ⟨h.coherent, h.tao, Controller.nonzero_step h.nonzero a, h.counted, h.filled⟩
  | accept => exact h.readout h.counted.accept fun hd => h.filled (Readout.accept_pc hd)
  | status =>
    refine h.readout (h.counted.status _) fun hd => ?_
    rcases Readout.status_pc hd with he | hpc
    · simpa using he
    · exact h.filled hpc
  | data => exact h.data
  | send => exact h.readout h.counted.send fun hd => h.filled (Readout.send_pc hd)
  | close => exact h.readout h.counted.close fun hd => h.filled (Readout.close_pc hd)

theorem reachable_sound (h : sys.Reachable Start s) : Sound s :=
  h.invariant (fun _ => Start.sound) fun _ l hs => hs.step l

theorem data_pops (h : sys.Reachable Start s) (hd : s.readout.pc = .data) : s.fifo.pop ≠ none :=
  fun hp => (reachable_sound h).filled hd (Fifo.pop_eq_none.mp hp)

end Sound

section Programmed

def pending (s : Sys) : List Tagged := s.readout.data ++ pipeline s

structure Carries (tao : BitVec 32) (s t : Sys) : Prop where
  pipeline : Refilled (·.tao = tao) (pipeline s) (pipeline t)
  pending : Refilled (·.tao = tao) (pending s) (pending t)

theorem Carries.of_sublist {t : Sys} (h₁ : (System.pipeline t).Sublist (System.pipeline s))
    (h₂ : (System.pending t).Sublist (System.pending s)) : Carries tao s t :=
  ⟨.of_sublist h₁, .of_sublist h₂⟩

theorem Carries.refl (s : Sys) : Carries tao s s := .of_sublist (.refl _) (.refl _)

theorem Carries.trans {t u : Sys} (h₁ : Carries tao s t) (h₂ : Carries tao t u) :
    Carries tao s u :=
  ⟨h₁.pipeline.trans h₂.pipeline, h₁.pending.trans h₂.pending⟩

/-- The counter's register holds `tao`, and no assignment to it is under way. -/
structure Programmed (tao : BitVec 32) (s : Sys) : Prop where
  coherent : s.board.Coherent
  tao : s.board.cnt.tao = tao
  pc : s.controller.pc ≠ .counter

theorem Sound.programmed (h : Sound s) (hpc : s.controller.pc = .counter) (triIn : Bool)
    (photons : Nat) : Programmed s.controller.setting.intg (System.assign triIn photons s) := by
  simp only [System.assign, hpc]
  exact ⟨clock_coherent h.coherent rfl, clock_tao rfl rfl h.tao, Controller.assigned_pc _⟩

theorem Programmed.clock (h0 : tao ≠ 0#32) (h : Programmed tao s) (triIn : Bool) (photons : Nat) :
    Programmed tao (clock (idle triIn photons) s) ∧
      Carries tao s (System.clock (idle triIn photons) s) := by
  have htao : s.board.cnt.tao ≠ 0#32 := by rwa [h.tao]
  have hnew : ∀ r ∈ emission (idle triIn photons) s, r.tao = tao := by
    intro r hr
    unfold emission at hr
    split at hr
    · rw [List.mem_singleton.mp hr]
      exact h.tao
    · cases hr
  have hpipe : Refilled (·.tao = tao) (pipeline s)
      (pipeline (System.clock (idle triIn photons) s)) :=
    ⟨_, hnew, pipeline_clock h.coherent htao rfl rfl rfl⟩
  refine ⟨⟨clock_coherent h.coherent rfl, ?_, h.pc⟩, hpipe, hpipe.append_left _⟩
  rw [clock_tao rfl rfl htao]
  exact h.tao

theorem Programmed.assign (h : Programmed tao s) (triIn : Bool) (photons : Nat) :
    Programmed tao (assign triIn photons s) ∧ Carries tao s (System.assign triIn photons s) := by
  have hpc := Controller.assigned_pc s.controller
  simp only [System.assign]
  split
  next hc => exact absurd hc h.pc
  next => exact ⟨⟨h.coherent, h.tao, hpc⟩, .of_sublist (.refl _) (.refl _)⟩
  next => exact ⟨⟨h.coherent, h.tao, hpc⟩, .of_sublist (.refl _) (.refl _)⟩
  next => exact ⟨⟨h.coherent, h.tao, hpc⟩, .of_sublist (.refl _) (.refl _)⟩

theorem Programmed.readout {r : Readout.State Tagged} (h : Programmed tao s)
    (hr : r.data.Sublist s.readout.data) :
    Programmed tao { s with readout := r } ∧ Carries tao s { s with readout := r } :=
  ⟨⟨h.coherent, h.tao, h.pc⟩, .of_sublist (.refl _) (hr.append (.refl _))⟩

theorem Programmed.data (h : Programmed tao s) :
    Programmed tao (data s) ∧ Carries tao s (System.data s) := by
  unfold System.data
  split
  next a fifo hpc hpop =>
    have hitems := Fifo.items_of_pop hpop
    refine ⟨⟨h.coherent, h.tao, h.pc⟩, .of_sublist ?_ ?_⟩
    · simp only [System.pipeline, hitems, List.cons_append]
      exact List.sublist_cons_self _ _
    · simp [System.pending, System.pipeline, hitems, Readout.store]
  next => exact ⟨h, .refl s⟩

theorem Programmed.step (h0 : tao ≠ 0#32) (h : Programmed tao s) (hl : l.reads = false) :
    Programmed tao (sys.step s l) ∧ Carries tao s (sys.step s l) := by
  cases l with
  | tick triIn photons => exact h.clock h0 _ _
  | assign triIn photons => exact h.assign _ _
  | controller a =>
    refine ⟨⟨h.coherent, h.tao, Controller.step_pc h.pc ?_⟩, .of_sublist (.refl _) (.refl _)⟩
    rintro received rfl
    cases hl
  | accept => exact h.readout (Readout.accept_data _)
  | status => exact h.readout (by simp)
  | data => exact h.data
  | send => exact h.readout (by simp)
  | close => exact h.readout (by simp)

theorem Programmed.run (h0 : tao ≠ 0#32) (h : Programmed tao s) (hls : ∀ l ∈ ls, l.reads = false) :
    Programmed tao (sys.run s ls) ∧ Carries tao s (sys.run s ls) := by
  induction ls generalizing s with
  | nil => exact ⟨h, .refl s⟩
  | cons l ls ih =>
    rw [List.forall_mem_cons] at hls
    obtain ⟨hstep, hcarries⟩ := h.step h0 hls.1
    obtain ⟨hrun, hcarries'⟩ := ih hstep hls.2
    exact ⟨hrun, hcarries.trans hcarries'⟩

end Programmed

end PhotonCount.System
