import PhotonCount.Ghrd.Laws

namespace PhotonCount.Ghrd

open Machine PlsCnt

variable {b : Board} {c : Clock} {cs : List Clock}

theorem modTao_of_emits {s : Regs} {i : PlsCnt.Inputs} (hr : i.reset = false)
    (htao : 2 ≤ s.tao.toNat) (hw : wraps s (.clk i) = false) (he : (branch i s).emits = true) :
    modTao (PlsCnt.clk i s) ≠ 0 :=
  modTao_clk_of_emits hr htao he fun hcnt => by
    rw [clkCnt_add_one (clkCnt_add_one_ne_zero hw hcnt)]

def Spaced (cs : List Clock) : Prop :=
  cs.IsChain fun c d => ¬ (c.inputs.write = true ∧ d.inputs.write = true)

def Clock.Slow (c : Clock) : Prop :=
  c.hpsFpgaResetN = true ∧ c.inputs.reset = false ∧
    (c.inputs.write = true → 2 ≤ c.inputs.taoQ.toNat)

instance : DecidablePred Clock.Slow := fun _ => inferInstanceAs (Decidable (_ ∧ _ ∧ _))

instance (cs : List Clock) : Decidable (Spaced cs) :=
  inferInstanceAs (Decidable (List.IsChain _ cs))

theorem Clock.Slow.running (h : c.Slow) : c.Running :=
  ⟨h.1, h.2.1, fun hw => ne_zero_of_two_le (h.2.2 hw)⟩

/-- What holds between two clocks of a run: a waiting record is taken before the next
one can be emitted, and `RDY` stays up beside a taken record only after a write. -/
structure Keeps (b : Board) (next : List Clock) : Prop where
  coherent : b.Coherent
  tao : 2 ≤ b.cnt.tao.toNat
  ready : b.cnt.rdy = true → b.link.counterState = 0#8 → modTao b.cnt ≠ 0
  busy : b.cnt.rdy = true → b.link.counterState = 1#8 → ∀ c ∈ next.head?, c.inputs.write = false

theorem counterState_before (hc : b.Coherent) (hn : c.hpsFpgaResetN = true) :
    (ghrd.step b (.before, c)).link.counterState =
      if b.link.counterState = 0#8 ∧ b.cnt.rdy = true then 1#8 else 0#8 := by
  rw [ghrd_step, edge_before, hn]
  rcases hc with ⟨hs, -⟩ | ⟨hs, -⟩
  · cases hr : b.cnt.rdy
    · simp [transfer_wait hs, hs]
    · simp [transfer_take hs, hs]
  · simp [transfer_busy hs, hs]

namespace Keeps

variable {next : List Clock}

theorem tao_ne_zero (h : Keeps b next) : b.cnt.tao ≠ 0#32 :=
  ne_zero_of_two_le h.tao

theorem silent (h : Keeps b next) (hr : c.inputs.reset = false) (hrdy : b.cnt.rdy = true)
    (hs : b.link.counterState = 0#8) : (branch c.inputs b.cnt).emits = false := by
  rw [Bool.eq_false_iff]
  exact fun he => h.ready hrdy hs ((emits_iff hr h.tao_ne_zero).mp he).2

theorem step_cnt_eq (b : Board) (c : Clock) : (ghrd.step b (.before, c)).cnt =
    { PlsCnt.clk c.inputs b.cnt with phoCnt := b.cnt.phoCnt + BitVec.ofNat 32 c.photons } :=
  (step_cnt (.inl rfl)).trans (clocked_step _ _)

theorem step_tao (h : Keeps b next) (hc : c.Slow) :
    2 ≤ (ghrd.step b (.before, c)).cnt.tao.toNat := by
  rw [step_cnt_eq]
  change 2 ≤ (PlsCnt.clk c.inputs b.cnt).tao.toNat
  rw [clk_tao hc.2.1 h.tao_ne_zero]
  split
  next hwr => exact hc.2.2 hwr
  next => exact h.tao

theorem step_rdy (h : Keeps b next) (hc : c.Slow) : (ghrd.step b (.before, c)).cnt.rdy =
    if c.inputs.write then b.cnt.rdy else (branch c.inputs b.cnt).emits := by
  rw [step_cnt_eq]
  exact clk_rdy hc.2.1 h.tao_ne_zero

theorem step_ready (h : Keeps b (c :: cs)) (hc : c.Slow) (hw : wraps b.cnt (.clk c.inputs) = false)
    (hr : (ghrd.step b (.before, c)).cnt.rdy = true)
    (hs : (ghrd.step b (.before, c)).link.counterState = 0#8) :
    modTao (ghrd.step b (.before, c)).cnt ≠ 0 := by
  rw [step_cnt_eq]
  change modTao (PlsCnt.clk c.inputs b.cnt) ≠ 0
  rw [h.step_rdy hc] at hr
  split at hr
  next hwr =>
    -- `RDY` is left up by a write: the record is taken in this very clock
    rcases h.coherent with ⟨hs', -⟩ | ⟨hs', -⟩
    · rw [counterState_before h.coherent hc.1, if_pos ⟨hs', hr⟩] at hs
      exact absurd hs (by decide)
    · simp [h.busy hr hs' c rfl] at hwr
  next => exact modTao_of_emits hc.2.1 h.tao hw hr

theorem step_busy (h : Keeps b (c :: cs)) (hc : c.Slow) (hspaced : Spaced (c :: cs))
    (hr : (ghrd.step b (.before, c)).cnt.rdy = true)
    (hs : (ghrd.step b (.before, c)).link.counterState = 1#8) :
    ∀ d ∈ cs.head?, d.inputs.write = false := by
  rw [counterState_before h.coherent hc.1] at hs
  split at hs
  next hs' =>
    rw [h.step_rdy hc, h.silent hc.2.1 hs'.2 hs'.1] at hr
    have hwr : c.inputs.write = true := by
      by_contra hwr
      rw [if_neg hwr] at hr
      cases hr
    intro d hd
    have := (List.isChain_cons.mp hspaced).1 d hd
    simpa [hwr] using this
  next => exact absurd hs (by decide)

theorem step (h : Keeps b (c :: cs)) (hc : c.Slow) (hspaced : Spaced (c :: cs))
    (hw : wraps b.cnt (.clk c.inputs) = false) :
    Keeps (ghrd.step b (.before, c)) cs ∧
      (ghrd.out b (.before, c)).toList ++ inFlight (ghrd.step b (.before, c)) =
        inFlight b ++ (clocked.out b.cnt c.toCycle).toList := by
  obtain ⟨hcoh, hcons⟩ := conserves h.coherent hc.running h.tao_ne_zero (.inl rfl)
    (h.silent hc.2.1) fun hr hs => h.busy hr hs c rfl
  exact ⟨⟨hcoh, h.step_tao hc, h.step_ready hc hw, h.step_busy hc hspaced⟩, hcons⟩

theorem run (h : Keeps b cs) (hc : ∀ c ∈ cs, c.Slow) (hs : Spaced cs)
    (hw : NoWrap b.cnt (events (cs.map Clock.toCycle))) :
    ghrd.outputs b (cs.map fun c => (.before, c)) ++
        inFlight (ghrd.run b (cs.map fun c => (.before, c))) =
      inFlight b ++ clocked.outputs b.cnt (cs.map Clock.toCycle) := by
  induction cs generalizing b with
  | nil => simp
  | cons c cs ih =>
    rw [List.forall_mem_cons] at hc
    rw [List.map_cons, events_cons, noWrap_cons, noWrap_append] at hw
    obtain ⟨hw₁, -, hw₂⟩ := hw
    obtain ⟨hkeeps, hcons⟩ := h.step hc.1 hs hw₁
    have hcnt : (ghrd.step b (.before, c)).cnt = clocked.step b.cnt c.toCycle :=
      step_cnt (.inl rfl)
    have hrun := ih hkeeps hc.2 hs.tail (by rw [hcnt]; exact hw₂)
    rw [List.map_cons, Mealy.outputs_cons, Mealy.run_cons, List.append_assoc, hrun,
      ← List.append_assoc, hcons, List.map_cons, Mealy.outputs_cons, hcnt, List.append_assoc]

end Keeps

theorem inFlight_length (b : Board) : (inFlight b).length ≤ 1 := by
  unfold inFlight
  split
  · simp
  · split <;> simp

theorem handoff_exact (hb : b.Idle) (htao : 2 ≤ b.cnt.tao.toNat) (hc : ∀ c ∈ cs, c.Slow)
    (hs : Spaced cs) (hw : NoWrap b.cnt (events (cs.map Clock.toCycle))) :
    ∃ rest, plsCnt.outputs b.cnt (events (cs.map Clock.toCycle)) =
      ghrd.outputs b (cs.map fun c => (.before, c)) ++ rest ∧ rest.length ≤ 1 := by
  have hkeeps : Keeps b cs :=
    ⟨hb.coherent, htao, fun hr => by simp [hb.1] at hr, fun hr => by simp [hb.1] at hr⟩
  refine ⟨_, ?_, inFlight_length (ghrd.run b (cs.map fun c => (.before, c)))⟩
  rw [hkeeps.run hc hs hw, hb.inFlight, outputs_clocked, List.nil_append]

def writeAfterRecord : List Clock :=
  [⟨⟨⟨false, false, true, 2#32⟩, 0⟩, true⟩, ⟨⟨⟨false, false, false, 0#32⟩, 1⟩, true⟩,
    ⟨⟨⟨false, false, false, 0#32⟩, 0⟩, true⟩, ⟨⟨⟨false, false, true, 4#32⟩, 0⟩, true⟩,
    ⟨⟨⟨false, false, false, 0#32⟩, 2⟩, true⟩, ⟨⟨⟨false, false, false, 0#32⟩, 0⟩, true⟩,
    ⟨⟨⟨false, false, false, 0#32⟩, 0⟩, true⟩]

theorem handoff_exact_write_after_record :
    ∃ rest, plsCnt.outputs (PlsCnt.powerUp 2#32) (events (writeAfterRecord.map Clock.toCycle)) =
      ghrd.outputs ⟨PlsCnt.powerUp 2#32, 0#8, 0#64, false⟩
        (writeAfterRecord.map fun c => (.before, c)) ++ rest ∧ rest.length ≤ 1 :=
  handoff_exact (b := ⟨PlsCnt.powerUp 2#32, 0#8, 0#64, false⟩) (by decide) (by decide) (by decide)
    (by decide) (by decide)

end PhotonCount.Ghrd
