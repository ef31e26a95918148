import PhotonCount.PlsCnt.Refines

namespace PhotonCount.PlsCnt

open Machine Meter

variable {s : Regs} {es : List Event}

@[simp] theorem phoEdges_nil : phoEdges [] = 0 := rfl
@[simp] theorem phoEdges_cons (e : Event) :
    phoEdges (e :: es) = phoEdges es + if e.isClk then 0 else 1 := by
  cases e <;> simp [phoEdges, Event.isClk]
@[simp] theorem phoEdges_append (es fs : List Event) :
    phoEdges (es ++ fs) = phoEdges es + phoEdges fs := List.countP_append

theorem photons_translate : photons (refines.translate s es) = phoEdges es := by
  induction es generalizing s with
  | nil => rfl
  | cons e es ih =>
    cases e with
    | pho => simp [ih, meterEvent, Meter.Event.isPhoton, Event.isClk]
    | clk i =>
      cases hw : i.write <;> simp [ih, meterEvent, Meter.Event.isPhoton, Event.isClk, hw]

theorem abs_since_eq_zero : (abs s).since = 0 ↔ s.phoCnt = s.cntTmp1 := by
  rw [show (abs s).since = (s.phoCnt - s.cntTmp1).toNat from rfl]
  constructor
  · intro h
    have : s.phoCnt - s.cntTmp1 = 0#32 := BitVec.eq_of_toNat_eq h
    grind
  · intro h
    simp [h]

theorem run_phoCnt (s : Regs) (es : List Event) :
    (plsCnt.run s es).phoCnt = s.phoCnt + BitVec.ofNat 32 (phoEdges es) := by
  induction es generalizing s with
  | nil => simp
  | cons e es ih =>
    cases e with
    | pho =>
      have hstep : plsCnt.step s .pho = pho s := rfl
      rw [Mealy.run_cons, ih, hstep, pho_eq, phoEdges_cons, BitVec.ofNat_add]
      simp only [Event.isClk, Bool.false_eq_true, if_false]
      rw [BitVec.add_assoc, BitVec.add_comm (1#32)]
    | clk i =>
      have hstep : (plsCnt.step s (.clk i)).phoCnt = s.phoCnt := clk_phoCnt i s
      rw [Mealy.run_cons, ih, hstep]
      simp [Event.isClk]

theorem phoCnt_of_clocks (s : Regs) (h : ∀ e ∈ es, e.isClk = true) :
    (plsCnt.run s es).phoCnt = s.phoCnt := by
  have hpho : phoEdges es = 0 := by
    rw [phoEdges, List.countP_eq_zero]
    intro e he
    simp [h e he]
  rw [run_phoCnt, hpho, BitVec.add_zero]

theorem phoCnt_of_boots (tao : BitVec 32) {boot : List Event} (h : Boots boot) :
    (plsCnt.run (powerUp tao) boot).phoCnt = 0#32 ∧
      (plsCnt.run (powerUp tao) boot).cntTmp1 = 0#32 := by
  obtain ⟨hclk, b, i, rfl, hi⟩ := h
  have hpho : (plsCnt.run (powerUp tao) b).phoCnt = 0#32 :=
    phoCnt_of_clocks _ fun e he => hclk e (by simp [he])
  have hstep : plsCnt.run (powerUp tao) (b ++ [.clk i]) = clk i (plsCnt.run (powerUp tao) b) := by
    simp [plsCnt]
  rw [hstep, clk_reset hi]
  exact ⟨hpho, rfl⟩

theorem count_of_silent {i : Inputs} {w : Word} (hs : s.phoCnt = s.cntTmp1)
    (hes : ∀ e ∈ es, e.Running) (hi : Event.Running (.clk i)) (h : plsCnt.outputs s es = [])
    (hw : plsCnt.out (plsCnt.run s es) (.clk i) = some w) :
    w.count.toNat = phoEdges es % 2 ^ 31 := by
  have hok : ∀ e ∈ es, refines.ok e := fun e he => (hes e he).ok
  have h0 : (abs s).since = 0 := abs_since_eq_zero.mpr hs
  have hsince : (abs (plsCnt.run s es)).since = phoEdges es % 2 ^ 32 := by
    have := run_since_of_silent (M := 2 ^ 32) (m := abs s) (by decide) (by rw [h0]; decide)
      (meter_silent hok h)
    rwa [meter_run hok, photons_translate, h0, Nat.zero_add] at this
  obtain ⟨r, hr, rfl⟩ := refines.emits hi.ok hw
  obtain ⟨b, -, -, -, rfl, -⟩ := emits_cases hr
  have hcount : ((refines.abs (plsCnt.run s es)).record b).count = phoEdges es % 2 ^ 32 := hsince
  change (encode _).count.toNat = _
  rw [encode, Word.count_pack_toNat, hcount, BitVec.toNat_ofNat, Nat.mod_mod,
    Nat.mod_mod_of_dvd _ (by decide : (2 : Nat) ^ 31 ∣ 2 ^ 32)]

theorem phoCnt_of_emits {e : Event} {w : Word} (he : e.Running) (h : plsCnt.out s e = some w) :
    (plsCnt.step s e).phoCnt = (plsCnt.step s e).cntTmp1 := by
  obtain ⟨r, hr, -⟩ := refines.emits he.ok h
  obtain ⟨b, -, -, -, -, hstep⟩ := Meter.emits_cases hr
  rw [refines.step _ _ he.ok] at hstep
  rw [← abs_since_eq_zero]
  exact congrArg Meter.State.since hstep

theorem phoCnt_of_opens (hs : s.phoCnt = s.cntTmp1) (hes : ∀ e ∈ es, e.Running)
    (h : plsCnt.Opens s es) : (plsCnt.run s es).phoCnt = (plsCnt.run s es).cntTmp1 := by
  rcases h with rfl | ⟨p, e, rfl, he⟩
  · exact hs
  · obtain ⟨w, hw⟩ := Option.isSome_iff_exists.mp he
    rw [Mealy.run_append]
    exact phoCnt_of_emits (hes e (by simp)) hw

theorem count_of_window (hs : s.phoCnt = s.cntTmp1) (w : plsCnt.Window s)
    (h : ∀ e ∈ w.trace, e.Running) : w.output.count.toNat = phoEdges w.inputs % 2 ^ 31 := by
  simp only [Mealy.Window.trace, Mealy.Window.inputs, List.mem_append, List.mem_singleton] at h
  have hopen := phoCnt_of_opens hs (fun e he => h e (.inl he)) w.opens
  have hemits := w.emits
  rw [Mealy.run_append] at hemits
  cases hlast : w.last with
  | pho => simp [hlast, plsCnt] at hemits
  | clk i =>
    rw [hlast] at hemits
    rw [count_of_silent hopen (fun e he => h e (.inr (.inl he)))
      (hlast ▸ h w.last (.inr (.inr rfl))) w.silent hemits]
    simp [Mealy.Window.inputs, hlast, Event.isClk]

theorem count_of_consecutive (c : plsCnt.Consecutive s)
    (hr : ∀ e ∈ c.first :: c.inputs, e.Running) :
    c.output₂.count.toNat = phoEdges c.inputs % 2 ^ 31 := by
  simp only [Mealy.Consecutive.inputs, List.forall_mem_cons, List.forall_mem_append] at hr
  obtain ⟨hfirst, hbody, hlast, -⟩ := hr
  have hsilent := c.silent
  have hemits := c.emits₂
  simp only [Mealy.run_append, Mealy.run_cons, Mealy.run_nil] at hsilent hemits
  cases hl : c.last with
  | pho => simp [hl, plsCnt] at hemits
  | clk i =>
    rw [hl] at hemits hlast
    rw [count_of_silent (phoCnt_of_emits hfirst c.emits₁) hbody hlast hsilent hemits]
    simp [Mealy.Consecutive.inputs, hl, Event.isClk]

def counts (ws : List Word) : List Nat := ws.map (·.count.toNat)

theorem sum_counts (hs : s.phoCnt = s.cntTmp1) (h : ∀ e ∈ es, e.Running)
    (hfew : ∀ w : plsCnt.Window s, w.trace <+: es → phoEdges w.inputs < 2 ^ 31)
    (hopen : plsCnt.Opens s es) : (counts (plsCnt.outputs s es)).sum = phoEdges es := by
  induction es, hopen using Mealy.Opens.induction with
  | nil => rfl
  | window w ih =>
    have hbefore : (counts (plsCnt.outputs s w.before)).sum = phoEdges w.before :=
      ih (fun e he => h e (List.mem_append_left _ he))
        fun v hv => hfew v (hv.trans (List.prefix_append _ _))
    have hcount := count_of_window hs w h
    rw [Nat.mod_eq_of_lt (hfew w (List.prefix_refl _))] at hcount
    rw [w.outputs_trace, counts, List.map_append, List.sum_append, ← counts, hbefore]
    simp [hcount, Mealy.Window.trace]

theorem photon_counts_exact (tao : BitVec 32) (boot : List Event) (hboot : Boots boot)
    (w : plsCnt.Window (plsCnt.run (powerUp tao) boot)) (hw : ∀ e ∈ w.trace, e.Running) :
    w.output.count.toNat = phoEdges w.inputs % 2 ^ 31 ∧
      ((∀ v : plsCnt.Window (plsCnt.run (powerUp tao) boot), v.trace <+: w.trace →
          phoEdges v.inputs < 2 ^ 31) →
        (counts (plsCnt.outputs (plsCnt.run (powerUp tao) boot) w.trace)).sum =
          phoEdges w.trace) := by
  obtain ⟨hpho, htmp⟩ := phoCnt_of_boots tao hboot
  have hs := hpho.trans htmp.symm
  exact ⟨count_of_window hs w hw, fun hfew => sum_counts hs hw hfew w.opens_trace⟩

def twoPhotons : plsCnt.Window (plsCnt.run (powerUp 0#32) [.resetEdge]) where
  before := []
  body := [.program 2#32, .pho, .idle, .pho]
  last := .idle
  output := Word.pack false 2#32 2#32
  opens := .inl rfl
  silent := by decide
  emits := by decide

theorem photon_counts_exact_two_photons :
    twoPhotons.output.count.toNat = 2 % 2 ^ 31 ∧
      (counts (plsCnt.outputs (plsCnt.run (powerUp 0#32) [.resetEdge]) twoPhotons.trace)).sum =
        phoEdges twoPhotons.trace := by
  have h := photon_counts_exact 0#32 [.resetEdge] ⟨by decide, [], _, rfl, rfl⟩ twoPhotons
    (by decide)
  refine ⟨h.1, h.2 fun v hv => ?_⟩
  have hle : phoEdges v.inputs ≤ phoEdges twoPhotons.trace :=
    ((List.suffix_append _ _).sublist.trans hv.sublist).countP_le
  exact hle.trans_lt (by decide)

end PhotonCount.PlsCnt
