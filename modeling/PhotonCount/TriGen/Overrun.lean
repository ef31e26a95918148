import PhotonCount.TriGen.Latch

namespace PhotonCount.TriGen

open Machine

variable {g : Regs} {i : Inputs} {is : List Inputs}

theorem reachable_sound (h : triGen.Reachable AfterReset g) : Sound g :=
  h.invariant (fun _ => AfterReset.sound) fun _ _ => clk_sound

def Branch.counts (b : Branch) : Prop := b = .accumulating ∨ b = .second

theorem branch_counts (h : (branch i g).counts) : g.tmpCnt ≠ g.taoCnt := by
  unfold branch at h
  split_ifs at h with _ _ h1 h2 h3
  · simp [Branch.counts] at h
  · simp [Branch.counts] at h
  · exact h1.1
  · simp [Branch.counts] at h
  · exact h3.1
  · simp [Branch.counts] at h

theorem clk_counts (h : Sound g) (hi : (branch i g).counts) :
    (clk i g).tmpCnt.toNat = g.tmpCnt.toNat + 1 := by
  have hcnt : (clk i g).tmpCnt = g.tmpCnt + 1#32 := by
    rw [clk_branch]
    rcases hi with hi | hi <;> rw [hi] <;> rfl
  rw [hcnt]
  exact (tmpCnt_add_one h (branch_counts hi)).1

theorem quiet_counts (hi : i.Quiet) (hne : g.tmpCnt ≠ g.taoCnt) :
    (branch i g).counts ∧ (clk i g).taoCnt = g.taoCnt := by
  cases h2 : g.ready2 <;> simp [branch, clk, Branch.counts, hi.1, hi.2, hne, h2]

theorem run_counts (h : Sound g) (hq : ∀ i ∈ is, i.Quiet)
    (hle : g.tmpCnt.toNat + is.length ≤ g.taoCnt.toNat) :
    (triGen.run g is).taoCnt = g.taoCnt ∧
      (triGen.run g is).tmpCnt.toNat = g.tmpCnt.toNat + is.length := by
  induction is generalizing g with
  | nil => exact ⟨rfl, rfl⟩
  | cons i is ih =>
    rw [List.forall_mem_cons] at hq
    rw [List.length_cons] at hle ⊢
    have hne : g.tmpCnt ≠ g.taoCnt := by
      rintro heq
      rw [heq] at hle
      omega
    obtain ⟨hi, htao⟩ := quiet_counts hq.1 hne
    have hcnt := clk_counts h hi
    obtain ⟨htao', hcnt'⟩ := ih (clk_sound h) hq.2 (by rw [hcnt, htao]; omega)
    refine ⟨htao'.trans htao, hcnt'.trans ?_⟩
    rw [hcnt]
    omega

theorem never_overruns (h : triGen.Reachable AfterReset g) :
    g.tmpCnt.toNat ≤ g.taoCnt.toNat ∧
      (g.ready2 = true → g.tmpCnt = 0#32 ∧ g.ready = true) ∧
      (∀ is, (∀ i ∈ is, i.Quiet) → is.length = g.taoCnt.toNat - g.tmpCnt.toNat →
        (triGen.run g is).tmpCnt = (triGen.run g is).taoCnt) ∧
      ∀ i, (branch i g).counts → (clk i g).tmpCnt.toNat = g.tmpCnt.toNat + 1 := by
  have hsound := reachable_sound h
  refine ⟨hsound.le, hsound.first, fun is hq hlen => ?_, fun i => clk_counts hsound⟩
  have hle := hsound.le
  obtain ⟨htao, hcnt⟩ := run_counts hsound hq (by omega)
  apply BitVec.eq_of_toNat_eq
  rw [htao, hcnt]
  omega

theorem never_overruns_smaller_interval :
    (triGen.run (clk .reset (powerUp true))
        [.program 5#32, .idle, .idle, .program 1#32, .idle]).tmpCnt.toNat ≤
      (triGen.run (clk .reset (powerUp true))
        [.program 5#32, .idle, .idle, .program 1#32, .idle]).taoCnt.toNat :=
  (never_overruns ((Mealy.Reachable.start ⟨.reset, powerUp true, rfl, rfl⟩).run _)).1

end PhotonCount.TriGen
