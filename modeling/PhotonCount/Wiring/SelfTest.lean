import PhotonCount.Machine.Drive
import PhotonCount.PlsCnt.Cycle
import PhotonCount.PlsCnt.LongRuns
import PhotonCount.TriGen.Laws

namespace PhotonCount.Wiring.SelfTest

open Machine PlsCnt

structure Inputs where
  cnt : PlsCnt.Inputs
  sim : TriGen.Inputs
  deriving DecidableEq

def Inputs.Quiet (k : Inputs) : Prop :=
  k.cnt.reset = false ∧ k.cnt.write = false ∧ k.sim.Quiet

instance : DecidablePred Inputs.Quiet := fun k =>
  inferInstanceAs (Decidable (k.cnt.reset = false ∧ k.cnt.write = false ∧ k.sim.Quiet))

/-- A rising edge of `ready` comes after the CLK edge and before the next one. -/
def wire : Driver TriGen.Regs Inputs TriGen.Inputs Unit Cycle where
  source := TriGen.triGen
  pick k := k.sim
  feed g k := ⟨k.cnt, if TriGen.rises k.sim g then 1 else 0⟩

abbrev selfTest : Mealy (TriGen.Regs × Regs) Inputs Word := wire.drive clocked

def Start (t : TriGen.Regs × Regs) : Prop := TriGen.AfterReset t.1 ∧ PlsCnt.AfterReset t.2

variable {t : TriGen.Regs × Regs} {g : TriGen.Regs} {ks : List Inputs}

theorem reachable_sound (h : selfTest.Reachable Start t) : TriGen.Sound t.1 :=
  h.invariant (fun _ ht => ht.1.sound) fun _ _ => TriGen.clk_sound

theorem run_fst : (selfTest.run t ks).1 = TriGen.triGen.run t.1 (ks.map (·.sim)) :=
  congrArg Prod.fst (wire.run_drive clocked t ks)

theorem photons_feeds :
    ((wire.feeds g ks).map (·.photons)).sum =
      (TriGen.triGen.outputs g (ks.map (·.sim))).length := by
  induction ks generalizing g with
  | nil => rfl
  | cons k ks ih =>
    rw [Driver.feeds_cons, List.map_cons, List.sum_cons, ih, List.map_cons, Mealy.outputs_cons,
      List.length_append]
    cases hr : TriGen.rises k.sim g <;> simp [wire, TriGen.triGen, hr]

theorem length_outputs_singleton (k : TriGen.Inputs) :
    (TriGen.triGen.outputs g [k]).length = if TriGen.rises k g then 1 else 0 := by
  cases hr : TriGen.rises k g <;> simp [TriGen.triGen, hr]

def pair (c : selfTest.Consecutive t) : plsCnt.Consecutive t.2 := records (wire.driven clocked c)

variable (c : selfTest.Consecutive t)

theorem pair_quiet (hq : ∀ k ∈ c.trace, k.Quiet) :
    ∀ e ∈ (pair c).trace, e.Running ∧ e.isWrite = false := by
  intro e he
  refine events_quiet (?_ : ∀ k ∈ wire.feeds t.1 c.trace, k.Quiet) e ?_
  · exact wire.forall_mem_feeds (fun g k hk => ⟨(hq k hk).1, (hq k hk).2.1⟩) t.1
  · rw [← Driver.driven_trace]
    exact (records_trace _).subset he

theorem phoEdges_pair :
    phoEdges (pair c).inputs =
      (TriGen.triGen.outputs (TriGen.triGen.run t.1 (c.before.map (·.sim)))
        ((c.first :: c.body).map (·.sim))).length := by
  rw [pair, phoEdges_records, Driver.driven_first_body, photons_feeds]
  rfl

theorem clkEdges_pair : clkEdges (pair c).inputs = (c.first :: c.body).length := by
  rw [pair, clkEdges_records]
  simp [Mealy.Consecutive.inputs, Driver.driven, Driver.length_feeds]

theorem pair_state : (pair c).state = c.state.2 := by
  change plsCnt.run t.2 (events (wire.feeds t.1 c.before)) = (selfTest.run t c.before).2
  rw [← run_clocked, Driver.run_drive]

section Clocks

variable (hq : ∀ k ∈ c.trace, k.Quiet)
include hq

theorem pair_running : ∀ e ∈ (pair c).first :: (pair c).inputs, e.Running := fun e he =>
  (pair_quiet c hq e (List.mem_append_right _ he)).1

theorem pair_body : ∀ e ∈ (pair c).body, e.isWrite = false := fun e he =>
  (pair_quiet c hq e
    (List.mem_append_right _ (List.mem_cons_of_mem _ (List.mem_append_left _ he)))).2

theorem pair_tao (h0 : t.2.tao ≠ 0#32) : (pair c).state.tao = t.2.tao :=
  run_tao h0 fun e he => pair_quiet c hq e (List.mem_append_left _ he)

theorem clocks_of_pair (h0 : t.2.tao ≠ 0#32)
    (hw : NoWrap (pair c).state ((pair c).first :: (pair c).body)) :
    (c.first :: c.body).length = t.2.tao.toNat := by
  have htao := pair_tao c hq h0
  rw [← clkEdges_pair, ← htao]
  exact (gap_of_noWrap (pair c) (htao ▸ h0) (pair_running c hq) hw (pair_body c hq)).1

theorem body_of_wraps (h0 : t.2.tao ≠ 0#32)
    (hw : wraps (pair c).state (pair c).first = true) : c.body = [] := by
  have htao : (pair c).state.tao ≠ 0#32 := pair_tao c hq h0 ▸ h0
  have hfirst := pair_running c hq (pair c).first (by simp)
  obtain ⟨hf, hmax⟩ := (wraps_emits_iff htao hfirst (pair c).emits₁).mp hw
  obtain ⟨-, -, -, -, hflag, hstamp⟩ := emits_cases hfirst htao (pair c).emits₁
  have hgap := (gap (pair c) htao (pair_running c hq) (pair_body c hq)).1
  rw [clkEdges_pair, restart, hflag, hf, hstamp, hmax] at hgap
  have hlen : (c.first :: c.body).length ≤ 1 := hgap.trans_le (Nat.min_le_right _ _)
  exact List.length_eq_zero_iff.mp (Nat.le_zero.mp (Nat.le_of_succ_le_succ hlen))

end Clocks

theorem pulses_of_pair {P : Nat} (h : TriGen.Steady P t.1) (hq : ∀ k ∈ c.trace, k.Quiet) :
    phoEdges (pair c).inputs = (c.first :: c.body).length / P ∨
      phoEdges (pair c).inputs = (c.first :: c.body).length ⌈/⌉ P := by
  have hsim : ∀ i ∈ (c.trace.map (·.sim)), i.Quiet := by
    intro i hi
    obtain ⟨k, hk, rfl⟩ := List.mem_map.mp hi
    exact (hq k hk).2.2
  simp only [Mealy.Consecutive.trace, Mealy.Consecutive.inputs, ← List.cons_append,
    List.map_append, List.forall_mem_append] at hsim
  have hpulses := TriGen.pulses_floor_or_ceil (TriGen.run_steady h hsim.1) hsim.2.1
  rwa [List.length_map, ← phoEdges_pair] at hpulses

theorem rounded_lt {P : Nat} (hP : 3 ≤ P) (tao : BitVec 32) {n : Nat}
    (h : n = tao.toNat / P ∨ n = tao.toNat ⌈/⌉ P) : n < 2 ^ 31 := by
  have htao := tao.isLt
  have hceil : tao.toNat ⌈/⌉ P < 2 ^ 31 := by
    rw [Nat.ceilDiv_eq_add_pred_div]
    apply Nat.div_lt_of_lt_mul
    omega
  have hle : tao.toNat / P ≤ tao.toNat ⌈/⌉ P := by
    rw [Nat.ceilDiv_eq_add_pred_div]
    exact Nat.div_le_div_right (by omega)
  omega

theorem rounded_iff {P n : Nat} (hP : 0 < P) (hn : 0 < n) (b : Bool) :
    ((if b then 1 else 0) = n / P ∨ (if b then 1 else 0) = n ⌈/⌉ P) ↔
      n < P ∨ (n < 2 * P ∧ b = true) := by
  rw [Nat.ceilDiv_eq_add_pred_div]
  cases b with
  | false =>
    simp only [Bool.false_eq_true, if_false, and_false, or_false, eq_comm (a := 0),
      Nat.div_eq_zero_iff_lt hP]
    omega
  | true =>
    have hone : 1 = n / P ↔ P ≤ n ∧ n < 2 * P := by
      rw [eq_comm, Nat.div_eq_iff hP]
      omega
    have hceil : 1 = (n + P - 1) / P ↔ n ≤ P := by
      rw [eq_comm, Nat.div_eq_iff hP]
      omega
    simp only [if_true, hone, hceil, and_true]
    omega

theorem self_test_counts_iff (ht : selfTest.Reachable Start t) (hT : 2 ≤ t.1.taoCnt.toNat)
    (h0 : t.2.tao ≠ 0#32) :
    (∀ p : TriGen.triGen.Consecutive t.1, (∀ i ∈ p.trace, i.Quiet) →
      p.inputs.length = TriGen.period t.1) ∧
    ∀ c : selfTest.Consecutive t, (∀ k ∈ c.trace, k.Quiet) →
      NoWrap (plsCnt.step (pair c).state (pair c).first) (pair c).body →
        ((c.output₂.count.toNat = t.2.tao.toNat / TriGen.period t.1 ∨
            c.output₂.count.toNat = t.2.tao.toNat ⌈/⌉ TriGen.period t.1) ↔
          (trigFlag c.state.2 = true ∨ c.state.2.clkCnt ≠ 0xffffffff#32) ∨
            t.2.tao.toNat < TriGen.period t.1 ∨
              (t.2.tao.toNat < 2 * TriGen.period t.1 ∧
                TriGen.rises c.first.sim c.state.1 = true)) := by
  have hsteady := (reachable_sound ht).steady hT
  refine ⟨fun p hp => TriGen.pulses_apart hsteady p hp, fun c hq hw => ?_⟩
  have hrunning := pair_running c hq
  have hcount : c.output₂.count.toNat = phoEdges (pair c).inputs % 2 ^ 31 :=
    count_of_consecutive (pair c) hrunning
  have hwraps := wraps_emits_iff (pair_tao c hq h0 ▸ h0) (hrunning _ (by simp)) (pair c).emits₁
  rw [← Mealy.Consecutive.state, pair_state] at hwraps
  cases hfirst : wraps c.state.2 (pair c).first with
  | false =>
    -- the window is full
    have hleft : trigFlag c.state.2 = true ∨ c.state.2.clkCnt ≠ 0xffffffff#32 := by
      rw [hfirst, Bool.false_eq_true, false_iff, not_and_or] at hwraps
      simpa using hwraps
    have hpulses := pulses_of_pair c hsteady hq
    rw [clocks_of_pair c hq h0 ⟨pair_state c ▸ hfirst, hw⟩] at hpulses
    rw [Nat.mod_eq_of_lt (rounded_lt hsteady.three _ hpulses)] at hcount
    exact iff_of_true (hcount ▸ hpulses) (.inl hleft)
  | true =>
    -- the window is one clock, in which a pulse may rise
    obtain ⟨hflag, hmax⟩ := hwraps.mp hfirst
    have hbody := body_of_wraps c hq h0 (pair_state c ▸ hfirst)
    rw [phoEdges_pair, hbody] at hcount
    rw [List.map_singleton, length_outputs_singleton, Nat.mod_eq_of_lt (by split <;> decide)]
      at hcount
    have htao : 0 < t.2.tao.toNat := Nat.pos_of_ne_zero (mt toNat_eq_zero.mp h0)
    rw [hcount, ← run_fst, ← Mealy.Consecutive.state, rounded_iff (by have := hsteady.three; omega) htao, hflag, hmax]
    simp

theorem reachable_run (ks : List Inputs) :
    selfTest.Reachable Start (selfTest.run (TriGen.clk .reset (TriGen.powerUp false),
      clk ⟨true, false, false, 0#32⟩ (powerUp 0#32)) ks) :=
  (Mealy.Reachable.start ⟨⟨.reset, TriGen.powerUp false, rfl, rfl⟩,
    ⟨⟨true, false, false, 0#32⟩, powerUp 0#32, rfl, rfl⟩⟩).run ks

def programmed : TriGen.Regs × Regs :=
  selfTest.run
    (TriGen.clk .reset (TriGen.powerUp false), clk ⟨true, false, false, 0#32⟩ (powerUp 0#32))
    [⟨⟨false, false, true, 4#32⟩, .program 2#32⟩]

def twoPulses : selfTest.Consecutive programmed where
  before := List.replicate 3 ⟨⟨false, false, false, 0#32⟩, .idle⟩
  first := ⟨⟨false, false, false, 0#32⟩, .idle⟩
  body := List.replicate 3 ⟨⟨false, false, false, 0#32⟩, .idle⟩
  last := ⟨⟨false, false, false, 0#32⟩, .idle⟩
  output₁ := Word.pack false 1#32 4#32
  output₂ := Word.pack false 1#32 8#32
  emits₁ := by decide
  silent := by decide
  emits₂ := by decide

theorem self_test_counts_two_pulses :
    twoPulses.output₂.count.toNat = 4 / 3 ∨ twoPulses.output₂.count.toNat = 4 ⌈/⌉ 3 := by
  have hstart : selfTest.Reachable Start programmed := reachable_run _
  exact ((self_test_counts_iff hstart (by decide) (by decide)).2 twoPulses (by decide)
    (by decide)).mpr (.inl (.inr (by decide)))

def still : Inputs := ⟨⟨false, false, false, 0#32⟩, .idle⟩

/-- `Tao` as RESET sets it, which divides 2^32 - 1, and the interval 2. -/
def unwritten : TriGen.Regs × Regs :=
  selfTest.run
    (TriGen.clk .reset (TriGen.powerUp false), clk ⟨true, false, false, 0#32⟩ (powerUp 0#32))
    [⟨still.cnt, .program 2#32⟩]

structure Untriggered (n : Nat) (s : Regs) : Prop where
  tao : s.tao = 0xffff#32
  clkCnt : s.clkCnt = BitVec.ofNat 32 (n + 1)
  tri1 : s.tri1 = 0#2
  tmp : s.tmp = false

section Untriggered

variable {n p : Nat} {s : Regs}

theorem Untriggered.flag (h : Untriggered n s) : trigFlag s = false := by
  rw [trigFlag, h.tri1, h.tmp]
  rfl

theorem Untriggered.tao_ne_zero (h : Untriggered n s) : s.tao ≠ 0#32 := by
  rw [h.tao]
  decide

theorem Untriggered.step (h : Untriggered n s) :
    Untriggered (n + 1) (clocked.step s ⟨still.cnt, p⟩) := by
  have h0 := h.tao_ne_zero
  rw [clocked_step]
  refine ⟨?_, ?_, clk_tri1 _ _, ?_⟩
  · exact (clk_tao rfl h0).trans h.tao
  · refine (clk_clkCnt rfl h0).trans ?_
    rw [h.flag, h.clkCnt]
    simp [still, BitVec.ofNat_add]
  · by_cases hb : modTao s = 0
    · simp [clk_boundary (i := still.cnt) rfl rfl h0 hb, h.tmp]
    · simp [clk_inside (i := still.cnt) rfl rfl h0 hb, h.flag]

theorem untriggered_run (n : Nat) :
    Untriggered (n + 1) (selfTest.run unwritten (List.replicate n still)).2 := by
  induction n with
  | zero => constructor <;> rfl
  | succ n ih =>
    rw [List.replicate_succ', Mealy.run_append]
    exact ih.step

theorem Untriggered.mod (h : Untriggered n s)
    (hn : BitVec.ofNat 32 (n + 1) % 0xffff#32 = 0#32) : modTao s = 0 := by
  rw [modTao, h.clkCnt, h.tao, ← BitVec.toNat_umod, hn]
  rfl

theorem Untriggered.out (h : Untriggered n s) (hn : BitVec.ofNat 32 (n + 1) % 0xffff#32 = 0#32) :
    clocked.out s ⟨still.cnt, p⟩ =
      some (Word.pack false (s.phoCnt - s.cntTmp1) (BitVec.ofNat 32 (n + 1))) := by
  refine (out_clk_eq_some rfl h.tao_ne_zero _).mpr ⟨rfl, h.mod hn, ?_⟩
  rw [h.flag, h.clkCnt]

end Untriggered

theorem steady_unwritten : TriGen.Steady 3 unwritten.1 :=
  ⟨⟨by decide, by decide, by decide⟩, rfl, le_rfl⟩

theorem sim_still (n : Nat) : ∀ i ∈ (List.replicate n still).map (·.sim), i.Quiet := by
  intro i hi
  rw [List.map_replicate] at hi
  rw [List.eq_of_mem_replicate hi]
  exact ⟨rfl, rfl⟩

theorem feed_still {n : Nat} (hn : n % 3 = 1) :
    wire.feed (selfTest.run unwritten (List.replicate n still)).1 still = ⟨still.cnt, 0⟩ := by
  have hphase := TriGen.run_phase steady_unwritten (sim_still n)
  rw [show TriGen.phase unwritten.1 = 0 from rfl, Nat.zero_add, List.length_map,
    List.length_replicate, hn] at hphase
  have hrises : TriGen.rises .idle (selfTest.run unwritten (List.replicate n still)).1 = false := by
    rw [run_fst, TriGen.rises_quiet (TriGen.run_steady steady_unwritten (sim_still n)) ⟨rfl, rfl⟩,
      hphase]
    rfl
  exact congrArg (fun b : Bool => (⟨still.cnt, if b then 1 else 0⟩ : Cycle)) hrises

section Wrap

variable {n : Nat} (hn : BitVec.ofNat 32 (n + 2) % 0xffff#32 = 0#32)
include hn

theorem out_still :
    selfTest.out (selfTest.run unwritten (List.replicate n still)) still =
      some (Word.pack false ((selfTest.run unwritten (List.replicate n still)).2.phoCnt -
        (selfTest.run unwritten (List.replicate n still)).2.cntTmp1) (BitVec.ofNat 32 (n + 2))) :=
  (untriggered_run n).out hn

theorem out_still_succ (hn' : BitVec.ofNat 32 (n + 3) % 0xffff#32 = 0#32) (h3 : n % 3 = 1) :
    selfTest.out (selfTest.run unwritten (List.replicate n still ++ [still])) still =
      some (Word.pack false 0#32 (BitVec.ofNat 32 (n + 3))) := by
  have hrun := untriggered_run n
  have hstep : (selfTest.run unwritten (List.replicate n still ++ [still])).2 =
      clocked.step (selfTest.run unwritten (List.replicate n still)).2 ⟨still.cnt, 0⟩ := by
    rw [Mealy.run_append, ← feed_still h3]
    rfl
  refine ((hstep ▸ hrun.step (p := 0)).out hn').trans ?_
  rw [hstep, clocked_step, clk_boundary (i := still.cnt) rfl rfl hrun.tao_ne_zero (hrun.mod hn)]
  simp

end Wrap

section Still

variable {n : Nat} {c : selfTest.Consecutive unwritten}
  (hbefore : c.before = List.replicate n still) (hfirst : c.first = still) (hbody : c.body = [])
  (hlast : c.last = still)

include hbefore hfirst hbody hlast in
theorem trace_still : ∀ k ∈ c.trace, k = still := by
  intro k hk
  rw [Mealy.Consecutive.trace, Mealy.Consecutive.inputs, hbefore, hfirst, hbody, hlast,
    List.mem_append] at hk
  rcases hk with hk | hk
  · exact List.eq_of_mem_replicate hk
  · simpa using hk

include hbefore in
theorem pulses_still :
    (TriGen.triGen.outputs unwritten.1 (c.before.map (·.sim))).length = n / 3 := by
  rw [hbefore, TriGen.pulses steady_unwritten (sim_still n), List.length_map,
    List.length_replicate]
  exact congrArg (· / 3) (Nat.zero_add n)

include hbefore hfirst hbody in
theorem noWrap_still (h3 : n % 3 = 1) (hmax : BitVec.ofNat 32 (n + 3) ≠ 0xffffffff#32) :
    NoWrap (plsCnt.step (pair c).state (pair c).first) (pair c).inputs := by
  have hstate : (pair c).state = (selfTest.run unwritten (List.replicate n still)).2 := by
    rw [pair_state, Mealy.Consecutive.state, hbefore]
  have hevent : (wire.driven clocked c).first = ⟨still.cnt, 0⟩ := by
    rw [← feed_still h3, Driver.run_drive, ← hbefore, ← hfirst]
    rfl
  have hclk : (pair c).first = .clk still.cnt :=
    congrArg (fun k : Cycle => Event.clk k.inputs) hevent
  have hinputs : (pair c).inputs = [.clk (wire.driven clocked c).last.inputs] := by
    change List.replicate (wire.driven clocked c).first.photons Event.pho ++
      events (wire.feeds _ c.body) ++ _ = _
    rw [hevent, hbody]
    rfl
  have hcnt := ((untriggered_run n).step (p := 0)).clkCnt
  rw [clocked_step] at hcnt
  rw [hstate, hclk, hinputs]
  refine ⟨?_, trivial⟩
  rw [wraps, Bool.and_eq_false_imp]
  intro h
  exact absurd (hcnt.symm.trans (beq_iff_eq.mp h)) hmax

include hbefore hfirst hbody hlast in
theorem still_miscounts (h3 : n % 3 = 1) (hn : 6 ≤ n)
    (hmax : BitVec.ofNat 32 (n + 3) ≠ 0xffffffff#32) (hcount : c.output₂.count.toNat = 0) :
    (∀ k ∈ c.trace, k = still) ∧
      2 ≤ (TriGen.triGen.outputs unwritten.1 (c.before.map (·.sim))).length ∧
      NoWrap (plsCnt.step (pair c).state (pair c).first) (pair c).inputs ∧
      ¬ (c.output₂.count.toNat = 0xffff / 3 ∨ c.output₂.count.toNat = 0xffff ⌈/⌉ 3) := by
  refine ⟨trace_still hbefore hfirst hbody hlast, ?_,
    noWrap_still hbefore hfirst hbody h3 hmax, ?_⟩
  · rw [pulses_still hbefore]
    omega
  · rw [hcount]
    decide

end Still

def cutShort : selfTest.Consecutive unwritten where
  before := List.replicate (2 ^ 32 - 3) still
  first := still
  body := []
  last := still
  output₁ := Word.pack false
    ((selfTest.run unwritten (List.replicate (2 ^ 32 - 3) still)).2.phoCnt -
      (selfTest.run unwritten (List.replicate (2 ^ 32 - 3) still)).2.cntTmp1) 0xffffffff#32
  output₂ := Word.pack false 0#32 0#32
  emits₁ := by
    have h := out_still (n := 2 ^ 32 - 3) (by decide)
    rw [show BitVec.ofNat 32 (2 ^ 32 - 3 + 2) = 0xffffffff#32 by decide] at h
    exact h
  silent := rfl
  emits₂ := by
    have h := out_still_succ (n := 2 ^ 32 - 3) (by decide) (by decide) (by decide)
    rw [show BitVec.ofNat 32 (2 ^ 32 - 3 + 3) = 0#32 by decide] at h
    exact h

/-- Nothing but clocks after RESET and a write of the interval 2: a record of no pulse where
65535 clocks are 21845 periods. -/
theorem self_test_miscounts :
    selfTest.Reachable Start unwritten ∧ unwritten.2.tao = 0xffff#32 ∧
      TriGen.period unwritten.1 = 3 ∧ (∀ k ∈ cutShort.trace, k = still) ∧
      2 ≤ (TriGen.triGen.outputs unwritten.1 (cutShort.before.map (·.sim))).length ∧
      NoWrap (plsCnt.step (pair cutShort).state (pair cutShort).first) (pair cutShort).inputs ∧
      ¬ (cutShort.output₂.count.toNat = 0xffff / 3 ∨
        cutShort.output₂.count.toNat = 0xffff ⌈/⌉ 3) := by
  have hstart : selfTest.Reachable Start unwritten := reachable_run _
  exact ⟨hstart, rfl, rfl, still_miscounts (n := 2 ^ 32 - 3) rfl rfl rfl rfl (by decide)
    (by decide) (by decide) (by decide)⟩

end PhotonCount.Wiring.SelfTest
