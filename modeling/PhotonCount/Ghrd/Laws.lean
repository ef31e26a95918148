import Mathlib.Data.List.Permutation
import PhotonCount.Ghrd.Defs

namespace PhotonCount.Ghrd

open Machine Rtl PlsCnt

variable {b : Board} {c : Clock} {σ : Order}

section Orders

theorem edge_before (c : Clock) (b : Board) :
    clk .before c b = {
      cnt := PlsCnt.clk c.inputs b.cnt
      link := transfer c.hpsFpgaResetN b.cnt.rdy b.cnt.cntStream b.link b.link } := by
  rfl

theorem edge_after (c : Clock) (b : Board) :
    clk .after c b = {
      cnt := PlsCnt.clk c.inputs b.cnt
      link := transfer c.hpsFpgaResetN (counterBlock c.inputs b.cnt).now.rdy
        (counterBlock c.inputs b.cnt).now.cntStream b.link b.link } := by
  rfl

theorem order_cases (σ : Order) :
    σ.procs = [.transfer, .counter, .tri] ∨ σ.procs = [.counter, .transfer, .tri] ∨
      σ.procs = [.counter, .tri, .transfer] ∨ σ.procs = [.transfer, .tri, .counter] ∨
        σ.procs = [.tri, .transfer, .counter] ∨ σ.procs = [.tri, .counter, .transfer] := by
  have h := List.mem_permutations'.mpr σ.perm
  simp at h
  tauto

theorem independent_transfer_tri (c : Clock) (b : Board) :
    Block.Independent Proc.transfer.block Proc.tri.block c b := by
  refine ⟨rfl, ?_⟩
  cases ht : c.inputs.triIn with
  | false =>
    simp only [Proc.block, onCnt, Block.within, transferBlock, triBlock_low ht]
    rfl
  | true =>
    simp only [Proc.block, onCnt, Block.within, transferBlock, triBlock_high ht]
    rfl

theorem independent_counter_tri
    (h : c.inputs.write = false → b.cnt.tri1 = 1#2 → c.inputs.triIn = true) :
    Block.Independent Proc.counter.block Proc.tri.block c b := by
  unfold Proc.block onCnt
  apply Block.Independent.within
  · exact fun _ _ => rfl
  · exact fun _ _ _ => rfl
  · exact PlsCnt.independent_counter_tri h

theorem clk_order (σ : Order)
    (h : c.inputs.write = false → b.cnt.tri1 = 1#2 → c.inputs.triIn = true) :
    clk σ c b = clk .before c b ∨ clk σ c b = clk .after c b := by
  rcases order_cases σ with hσ | hσ | hσ | hσ | hσ | hσ
  · exact .inl (by rw [clk, hσ]; rfl)
  · exact .inr (by rw [clk, hσ]; rfl)
  · refine .inr ?_
    rw [clk, hσ]
    exact (Block.edge_swap [_] [] (independent_transfer_tri _ _)).symm
  · refine .inl ?_
    rw [clk, hσ]
    exact (Block.edge_swap [_] [] (independent_counter_tri h)).symm
  · refine .inl ?_
    rw [clk, hσ]
    exact (Block.edge_swap [] [_] (independent_transfer_tri _ _)).symm.trans
      (Block.edge_swap [_] [] (independent_counter_tri h)).symm
  · refine .inr ?_
    rw [clk, hσ]
    exact (Block.edge_swap [] [_] (independent_counter_tri h)).symm.trans
      (Block.edge_swap [_] [] (independent_transfer_tri _ _)).symm

end Orders

section Handoff

theorem Board.Idle.coherent (h : b.Idle) : b.Coherent := .inl h.2

theorem Board.Idle.inFlight (h : b.Idle) : inFlight b = [] := by
  simp [Ghrd.inFlight, h.1, h.2.1]

@[simp] theorem ghrd_step (b : Board) (σ : Order) (c : Clock) :
    ghrd.step b (σ, c) = { clk σ c b with
      cnt := { (clk σ c b).cnt with
        phoCnt := (clk σ c b).cnt.phoCnt + BitVec.ofNat 32 c.photons } } := by
  simp only [ghrd, run_replicate_pho]

theorem step_cnt (hσ : clk σ c b = clk .before c b ∨ clk σ c b = clk .after c b) :
    (ghrd.step b (σ, c)).cnt = clocked.step b.cnt c.toCycle := by
  rw [clocked_step, ghrd_step]
  rcases hσ with h | h <;> rw [h]
  · simp [edge_before, clk_phoCnt]
  · simp [edge_after, clk_phoCnt]

theorem transfer_busy {s : Link} {ready : Bool} {data : Word} (h : s.counterState = 1#8) :
    transfer true ready data s s = { s with counterState := 0#8, dataBufferValid := false } := by
  simp [transfer, h]

theorem transfer_take {s : Link} {resetN : Bool} {data : Word} (h : s.counterState = 0#8) :
    transfer resetN true data s s = ⟨1#8, data, true⟩ := by
  cases resetN <;> simp [transfer, h]

theorem transfer_wait {s : Link} {data : Word} (h : s.counterState = 0#8) :
    transfer true false data s s = s := by
  simp [transfer, h]

theorem clk_link (hn : c.hpsFpgaResetN = true)
    (hσ : clk σ c b = clk .before c b ∨ clk σ c b = clk .after c b) :
    ∃ ready data, clk σ c b = ⟨PlsCnt.clk c.inputs b.cnt, transfer true ready data b.link b.link⟩ ∧
      ((ready = b.cnt.rdy ∧ data = b.cnt.cntStream) ∨
        ready = (b.cnt.rdy || (branch c.inputs b.cnt).emits) ∧
          data = if (branch c.inputs b.cnt).emits then (PlsCnt.clk c.inputs b.cnt).cntStream
            else b.cnt.cntStream) := by
  rcases hσ with h | h
  · exact ⟨_, _, by rw [h, edge_before, hn], .inl ⟨rfl, rfl⟩⟩
  · obtain ⟨hnow, hstream⟩ := counterBlock_now c.inputs b.cnt
    exact ⟨_, _, by rw [h, edge_after, hn], .inr ⟨hnow, hstream⟩⟩

theorem step_before (hn : c.hpsFpgaResetN = true) : ghrd.step b (.before, c) =
    ⟨clocked.step b.cnt c.toCycle,
      transfer true b.cnt.rdy b.cnt.cntStream b.link b.link⟩ := by
  rw [ghrd_step, edge_before, hn, clocked_step, clk_phoCnt]

theorem coherent_before (hc : b.Coherent) (hn : c.hpsFpgaResetN = true) :
    (ghrd.step b (.before, c)).Coherent := by
  rw [step_before hn]
  rcases hc with ⟨hs, hv⟩ | ⟨hs, hv⟩
  · cases hr : b.cnt.rdy <;> simp [transfer_wait hs, transfer_take hs, Board.Coherent, hs, hv]
  · simp [transfer_busy hs, Board.Coherent]

theorem clocked_out (s : Regs) (c : Cycle) :
    clocked.out s c = if (branch c.inputs s).emits then
      some (PlsCnt.clk c.inputs s).cntStream else none :=
  rfl

theorem write_of_emits (hr : c.inputs.reset = false) (h0 : b.cnt.tao ≠ 0#32)
    (he : (branch c.inputs b.cnt).emits = true) : c.inputs.write = false :=
  ((emits_iff hr h0).mp he).1

theorem conserves_waiting (hs : b.link.counterState = 0#8) (hv : b.link.dataBufferValid = false)
    (hrun : c.Running) (h0 : b.cnt.tao ≠ 0#32)
    (hσ : clk σ c b = clk .before c b ∨ clk σ c b = clk .after c b)
    (hready : b.cnt.rdy = true → (branch c.inputs b.cnt).emits = false) :
    (ghrd.step b (σ, c)).Coherent ∧
      (ghrd.out b (σ, c)).toList ++ inFlight (ghrd.step b (σ, c)) =
        inFlight b ++ (clocked.out b.cnt c.toCycle).toList := by
  have hrdy := clk_rdy (i := c.inputs) hrun.2.1 h0
  obtain ⟨ready, data, hclk, hfound⟩ := clk_link hrun.1 hσ
  rw [ghrd_step, hclk, clocked_out]
  cases he : (branch c.inputs b.cnt).emits with
  | false =>
    simp only [he, Bool.or_false, Bool.false_eq_true, if_false, or_self] at hfound
    obtain ⟨rfl, rfl⟩ := hfound
    cases hr : b.cnt.rdy with
    | false =>
      have hrdy' : (PlsCnt.clk c.inputs b.cnt).rdy = false := by simp [hrdy, hr, he]
      simp [transfer_wait hs, Board.Coherent, inFlight, ghrd, hs, hv, hr, hrdy']
    | true => simp [transfer_take hs, Board.Coherent, inFlight, ghrd, hs, hv, hr]
  | true =>
    have hr : b.cnt.rdy = false := by
      by_contra hr
      have := hready (by simpa using hr)
      simp [he] at this
    have hrdy' : (PlsCnt.clk c.inputs b.cnt).rdy = true := by
      simp [hrdy, he, write_of_emits hrun.2.1 h0 he]
    rcases hfound with ⟨rfl, rfl⟩ | ⟨rfl, rfl⟩
    · simp [hr, transfer_wait hs, Board.Coherent, inFlight, ghrd, hs, hv, hrdy']
    · simp [hr, he, transfer_take hs, Board.Coherent, inFlight, ghrd, hs, hv]

theorem conserves_presenting (hs : b.link.counterState = 1#8)
    (hv : b.link.dataBufferValid = true) (hrun : c.Running) (h0 : b.cnt.tao ≠ 0#32)
    (hσ : clk σ c b = clk .before c b ∨ clk σ c b = clk .after c b)
    (hbusy : b.cnt.rdy = true → c.inputs.write = false) :
    (ghrd.step b (σ, c)).Coherent ∧
      (ghrd.out b (σ, c)).toList ++ inFlight (ghrd.step b (σ, c)) =
        inFlight b ++ (clocked.out b.cnt c.toCycle).toList := by
  obtain ⟨ready, data, hclk, -⟩ := clk_link hrun.1 hσ
  rw [ghrd_step, hclk, clocked_out]
  have hrdy : (PlsCnt.clk c.inputs b.cnt).rdy = (branch c.inputs b.cnt).emits := by
    rw [clk_rdy hrun.2.1 h0]
    split
    next hw =>
      have hr : b.cnt.rdy = false := by
        by_contra hr
        have := hbusy (by simpa using hr)
        simp [hw] at this
      have he : (branch c.inputs b.cnt).emits = false := by
        rw [Bool.eq_false_iff]
        exact fun he => by simp [write_of_emits hrun.2.1 h0 he] at hw
      rw [hr, he]
    next => rfl
  cases he : (branch c.inputs b.cnt).emits <;>
    simp [transfer_busy hs, Board.Coherent, inFlight, ghrd, hs, hv, hrdy, he]

theorem conserves (hc : b.Coherent) (hrun : c.Running) (h0 : b.cnt.tao ≠ 0#32)
    (hσ : clk σ c b = clk .before c b ∨ clk σ c b = clk .after c b)
    (hready : b.cnt.rdy = true → b.link.counterState = 0#8 →
      (branch c.inputs b.cnt).emits = false)
    (hbusy : b.cnt.rdy = true → b.link.counterState = 1#8 → c.inputs.write = false) :
    (ghrd.step b (σ, c)).Coherent ∧
      (ghrd.out b (σ, c)).toList ++ inFlight (ghrd.step b (σ, c)) =
        inFlight b ++ (clocked.out b.cnt c.toCycle).toList := by
  rcases hc with ⟨hs, hv⟩ | ⟨hs, hv⟩
  · exact conserves_waiting hs hv hrun h0 hσ fun hr => hready hr hs
  · exact conserves_presenting hs hv hrun h0 hσ fun hr => hbusy hr hs

theorem delivers (hc : b.Coherent) (hn : c.hpsFpgaResetN = true)
    (hσ : clk σ c b = clk .before c b ∨ clk σ c b = clk .after c b)
    (hready : b.cnt.rdy = true → b.link.counterState = 0#8 →
      (branch c.inputs b.cnt).emits = false) (i : Order × Clock) :
    inFlight b <+:
      (ghrd.out b (σ, c)).toList ++ (ghrd.out (ghrd.step b (σ, c)) i).toList := by
  rcases hc with ⟨hs, hv⟩ | ⟨hs, hv⟩
  · cases hr : b.cnt.rdy with
    | false => simp [inFlight, hs, hr]
    | true =>
      obtain ⟨ready, data, hclk, hfound⟩ := clk_link hn hσ
      simp only [hready hr hs, hr, Bool.or_false, Bool.false_eq_true, if_false, or_self] at hfound
      obtain ⟨rfl, rfl⟩ := hfound
      simp [ghrd, hclk, transfer_take hs, inFlight, hs, hv, hr]
  · simp [inFlight, ghrd, hs, hv]

end Handoff

end PhotonCount.Ghrd
