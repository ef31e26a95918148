import PhotonCount.TriGen.Laws

namespace PhotonCount.TriGen

open Machine

variable {g : Regs} {i : Inputs} {is : List Inputs}

/-- The branches of the process, in the order of the source. -/
inductive Branch
  | reset
  | write
  | accumulating
  | first
  | second
  | none
  deriving DecidableEq

def branch (i : Inputs) (g : Regs) : Branch :=
  if i.rst then .reset
  else if i.write then .write
  else if g.tmpCnt ≠ g.taoCnt ∧ g.ready2 = false then .accumulating
  else if g.tmpCnt = g.taoCnt ∧ g.ready2 = false then .first
  else if g.tmpCnt ≠ g.taoCnt ∧ g.ready2 = true then .second
  else .none

def Branch.apply (i : Inputs) (g : Regs) : Branch → Regs
  | .reset => { g with tmpCnt := 0#32, ready := false, ready2 := false }
  | .write => { taoCnt := i.taoQ, tmpCnt := 0#32, ready := false, ready2 := false }
  | .accumulating => { g with tmpCnt := g.tmpCnt + 1#32, ready := false }
  | .first => { g with ready := true, ready2 := true, tmpCnt := 0#32 }
  | .second => { g with tmpCnt := g.tmpCnt + 1#32, ready := true, ready2 := false }
  | .none => g

theorem clk_branch (i : Inputs) (g : Regs) : clk i g = (branch i g).apply i g := by
  unfold clk branch
  split_ifs <;> rfl

theorem branch_eq_none (h : branch i g = .none) : g.tmpCnt = g.taoCnt ∧ g.ready2 = true := by
  unfold branch at h
  split_ifs at h with _ _ h1 h2 h3
  cases h2' : g.ready2 with
  | false => exact absurd ⟨fun heq => h2 ⟨heq, h2'⟩, h2'⟩ h1
  | true => exact ⟨by_contra fun hne => h3 ⟨hne, h2'⟩, rfl⟩

structure Roomy (g : Regs) : Prop extends Sound g where
  two : 2 ≤ g.taoCnt.toNat

theorem Roomy.branch_ne_none (h : Roomy g) (i : Inputs) : branch i g ≠ .none := by
  intro hb
  obtain ⟨heq, h2⟩ := branch_eq_none hb
  have hT := h.two
  rw [← heq, (h.first h2).1] at hT
  simp at hT

def Writes (V : BitVec 32 → Prop) (i : Inputs) : Prop :=
  i.rst = false → i.write = true → V i.taoQ

theorem clk_taoCnt (i : Inputs) (g : Regs) : (clk i g).taoCnt =
    if i.rst = false ∧ i.write = true then i.taoQ else g.taoCnt := by
  cases hr : i.rst <;> cases hw : i.write <;> simp [clk, hr, hw]
  split_ifs <;> rfl

theorem Roomy.clk (h : Roomy g) (hi : Writes (2 ≤ ·.toNat) i) : Roomy (TriGen.clk i g) := by
  refine ⟨clk_sound h.toSound, ?_⟩
  rw [clk_taoCnt]
  split
  next hw => exact hi hw.1 hw.2
  next => exact h.two

theorem Roomy.ready_ready (h : Roomy g) (hg : g.ready = true)
    (hclk : (TriGen.clk i g).ready = true) : g.ready2 = true ∧ (TriGen.clk i g).ready2 = false := by
  have hbranch := h.branch_ne_none i
  rw [clk_branch] at hclk ⊢
  unfold branch at hclk hbranch ⊢
  split_ifs at hclk hbranch ⊢ with _ _ h1 h2 h3
  · cases hclk
  · cases hclk
  · cases hclk
  · -- after the second clock of a pulse the interval cannot be over
    have hT := h.two
    rw [← h2.1, h.second hg h2.2] at hT
    exact absurd hT (by decide)
  · exact ⟨h3.2, rfl⟩
  · exact absurd rfl hbranch

/-- A branch applies in every state, and `ready` is not high after three edges in a row. -/
def Latchless (g : Regs) (is : List Inputs) : Prop :=
  (∀ p, p <+: is → ∀ i, branch i (triGen.run g p) ≠ .none) ∧
    ∀ p a b c, p ++ [a, b, c] <+: is → ¬ ((triGen.run g (p ++ [a])).ready = true ∧
      (triGen.run g (p ++ [a, b])).ready = true ∧ (triGen.run g (p ++ [a, b, c])).ready = true)

theorem Roomy.latchless (h : Roomy g) (his : ∀ i ∈ is, Writes (2 ≤ ·.toNat) i) :
    Latchless g is := by
  have hrun : ∀ p, p <+: is → Roomy (triGen.run g p) := fun p hp =>
    triGen.run_invariant (fun _ _ hi hg => hg.clk hi) h fun i hi => his i (hp.subset hi)
  refine ⟨fun p hp i => (hrun p hp).branch_ne_none i, ?_⟩
  rintro p a b c hp ⟨h₁, h₂, h₃⟩
  have hp₁ : p ++ [a] <+: is := (List.prefix_append (p ++ [a]) [b, c]).trans (by simpa using hp)
  have hp₂ : p ++ [a, b] <+: is := (List.prefix_append (p ++ [a, b]) [c]).trans (by simpa using hp)
  have hb : triGen.run g (p ++ [a, b]) = TriGen.clk b (triGen.run g (p ++ [a])) := by
    simp [triGen]
  have hc : triGen.run g (p ++ [a, b, c]) = TriGen.clk c (triGen.run g (p ++ [a, b])) := by
    simp [triGen]
  rw [hc] at h₃
  have hlast := ((hrun _ hp₂).ready_ready h₂ h₃).1
  rw [hb] at h₂ hlast
  rw [((hrun _ hp₁).ready_ready h₁ h₂).2] at hlast
  cases hlast

theorem roomy_powerUp (ready2 : Bool) (hi : i.rst = true) : Roomy (clk i (powerUp ready2)) := by
  refine ⟨AfterReset.sound ⟨i, _, hi, rfl⟩, ?_⟩
  simp [clk_taoCnt, hi, powerUp]

theorem never_latches_iff (V : BitVec 32 → Prop) :
    (∀ ready2 i is, i.rst = true → (∀ j ∈ is, Writes V j) →
      Latchless (clk i (powerUp ready2)) is) ↔
      ∀ v, V v → 2 ≤ v.toNat := by
  constructor
  · intro h v hv
    by_contra hlt
    have hwrites : ∀ n, ∀ j ∈ .program v :: List.replicate n .idle, Writes V j := by
      intro n j hj
      rcases List.mem_cons.mp hj with rfl | hj
      · exact fun _ _ => hv
      · rw [List.eq_of_mem_replicate hj]
        exact fun _ hw => absurd hw (by decide)
    have hrun := h false .reset (.program v :: List.replicate 4 .idle) rfl (hwrites 4)
    rcases (by omega : v.toNat = 0 ∨ v.toNat = 1) with h0 | h1
    · obtain rfl : v = 0#32 := BitVec.eq_of_toNat_eq h0
      exact hrun.1 [.program 0#32, .idle] ⟨List.replicate 3 .idle, rfl⟩ .idle (by decide)
    · obtain rfl : v = 1#32 := BitVec.eq_of_toNat_eq h1
      exact hrun.2 [.program 1#32, .idle] .idle .idle .idle ⟨[], rfl⟩ (by decide)
  · intro hV ready2 i is hi his
    exact (roomy_powerUp ready2 hi).latchless fun j hj hr hw => hV _ (his j hj hr hw)

theorem interval_zero_latches :
    ¬ Latchless (clk .reset (powerUp false)) [.program 0#32, .idle, .idle, .idle] :=
  fun h => h.1 [.program 0#32, .idle] ⟨[.idle, .idle], rfl⟩ .idle (by decide)

end PhotonCount.TriGen
