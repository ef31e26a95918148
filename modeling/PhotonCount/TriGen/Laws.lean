import Mathlib.Algebra.Order.Floor.Div
import PhotonCount.TriGen.Defs

namespace PhotonCount.TriGen

open Machine

variable {P : Nat} {g : Regs} {i : Inputs} {is : List Inputs}

theorem AfterReset.sound (h : AfterReset g) : Sound g := by
  obtain ⟨i, g', hi, rfl⟩ := h
  constructor <;> simp [clk, hi]

theorem tmpCnt_add_one (h : Sound g) (hne : g.tmpCnt ≠ g.taoCnt) :
    (g.tmpCnt + 1#32).toNat = g.tmpCnt.toNat + 1 ∧ g.tmpCnt.toNat < g.taoCnt.toNat := by
  have hlt : g.tmpCnt.toNat < g.taoCnt.toNat :=
    lt_of_le_of_ne h.le fun heq => hne (BitVec.eq_of_toNat_eq heq)
  refine ⟨?_, hlt⟩
  have := g.taoCnt.isLt
  rw [BitVec.toNat_add]
  exact Nat.mod_eq_of_lt (by simp; omega)

theorem clk_sound (h : Sound g) : Sound (clk i g) := by
  unfold clk
  split
  · constructor <;> simp
  · split
    · constructor <;> simp
    · split
      next hc =>
        obtain ⟨hadd, hlt⟩ := tmpCnt_add_one h hc.1
        exact ⟨by rw [hadd]; exact hlt, by simp [hc.2], by simp⟩
      next =>
        split
        next hc => constructor <;> simp
        next =>
          split
          next hc =>
            obtain ⟨hadd, hlt⟩ := tmpCnt_add_one h hc.1
            refine ⟨by rw [hadd]; exact hlt, by simp, ?_⟩
            simp [(h.first hc.2).1]
          next => exact h

section Steady

theorem Sound.steady (h : Sound g) (hT : 2 ≤ g.taoCnt.toNat) : Steady (period g) g :=
  ⟨h, rfl, Nat.succ_le_succ hT⟩

theorem Steady.phase_lt (h : Steady P g) : phase g < P := by
  rw [← h.period]
  exact Nat.lt_succ_of_le h.le

theorem clk_quiet (h : Steady P g) (hi : i.Quiet) :
    clk i g =
      if phase g + 1 = P then { g with ready := true, ready2 := true, tmpCnt := 0#32 }
      else { g with tmpCnt := g.tmpCnt + 1#32, ready := g.ready2, ready2 := false } := by
  have hiff : g.tmpCnt = g.taoCnt ↔ phase g + 1 = P := by
    rw [← h.period, period, Nat.add_right_cancel_iff, phase, BitVec.toNat_eq]
  by_cases hp : phase g + 1 = P
  · have h2 : g.ready2 = false := by
      by_contra hr
      have hz := (h.first (by simpa using hr)).1
      have := h.three
      simp [phase, hz] at hp
      omega
    simp [clk, hi.1, hi.2, hiff, hp, h2]
  · cases h2 : g.ready2 <;> simp [clk, hi.1, hi.2, hiff, hp, h2]

theorem clk_phase (h : Steady P g) (hi : i.Quiet) : phase (clk i g) = (phase g + 1) % P := by
  have hlt := h.phase_lt
  rw [clk_quiet h hi]
  split
  next hp => simp [phase, ← hp]
  next hp =>
    have hne : g.tmpCnt ≠ g.taoCnt := by
      intro heq
      apply hp
      rw [← h.period, period, phase, heq]
    exact (tmpCnt_add_one h.toSound hne).1.trans (Nat.mod_eq_of_lt (by rw [phase] at *; omega)).symm

theorem clk_steady (h : Steady P g) (hi : i.Quiet) : Steady P (clk i g) := by
  refine ⟨clk_sound h.toSound, ?_, h.three⟩
  rw [← h.period, period, period, clk_quiet h hi]
  split <;> rfl

theorem rises_quiet (h : Steady P g) (hi : i.Quiet) : rises i g = decide (phase g + 1 = P) := by
  have h3 := h.three
  rw [rises, clk_quiet h hi]
  by_cases hp : phase g + 1 = P
  · have hr : g.ready = false := by
      by_contra hr
      have hr : g.ready = true := by simpa using hr
      cases h2 : g.ready2 with
      | true =>
        simp [phase, (h.first h2).1] at hp
        omega
      | false =>
        simp [phase, h.second hr h2] at hp
        omega
    simp [hp, hr]
  · cases h2 : g.ready2 with
    | true => simp [hp, (h.first h2).2]
    | false => simp [hp]

theorem out_eq_some (h : Steady P g) (hi : i.Quiet) :
    triGen.out g i = some () ↔ phase g + 1 = P := by
  simp [triGen, rises_quiet h hi]

theorem run_steady (h : Steady P g) (hq : ∀ i ∈ is, i.Quiet) : Steady P (triGen.run g is) :=
  triGen.run_invariant (fun _ _ hi hg => clk_steady hg hi) h hq

theorem run_phase (h : Steady P g) (hq : ∀ i ∈ is, i.Quiet) :
    phase (triGen.run g is) = (phase g + is.length) % P := by
  induction is generalizing g with
  | nil => exact (Nat.mod_eq_of_lt h.phase_lt).symm
  | cons i is ih =>
    rw [List.forall_mem_cons] at hq
    have hrun := ih (clk_steady h hq.1) hq.2
    rw [clk_phase h hq.1, Nat.mod_add_mod] at hrun
    rw [List.length_cons, ← Nat.add_assoc, Nat.add_right_comm]
    exact hrun

theorem pulses (h : Steady P g) (hq : ∀ i ∈ is, i.Quiet) :
    (triGen.outputs g is).length = (phase g + is.length) / P := by
  induction is generalizing g with
  | nil => exact (Nat.div_eq_of_lt h.phase_lt).symm
  | cons i is ih =>
    rw [List.forall_mem_cons] at hq
    have hlt := h.phase_lt
    have hrun := ih (clk_steady h hq.1) hq.2
    have hstep : triGen.step g i = clk i g := rfl
    rw [clk_phase h hq.1] at hrun
    rw [Mealy.outputs_cons, List.length_append, hstep, hrun, List.length_cons]
    by_cases hp : phase g + 1 = P
    · rw [(out_eq_some h hq.1).mpr hp, hp, Nat.mod_self, ← Nat.add_assoc, Nat.add_right_comm, hp,
        Nat.add_div_left _ (Nat.zero_lt_of_lt hlt)]
      simp [Nat.add_comm]
    · have hout : triGen.out g i = none := by
        rw [Option.eq_none_iff_forall_ne_some]
        exact fun _ ho => hp ((out_eq_some h hq.1).mp ho)
      rw [hout, Nat.mod_eq_of_lt (by omega), ← Nat.add_assoc, Nat.add_right_comm]
      simp

theorem floor_or_ceil {n k : Nat} (hP : 0 < P) (hle : n / P ≤ k) (hge : k ≤ (n + P - 1) / P) :
    k = n / P ∨ k = n ⌈/⌉ P := by
  have hsucc : (n + P - 1) / P ≤ n / P + 1 := by
    rw [← Nat.add_div_right n hP]
    exact Nat.div_le_div_right (Nat.sub_le _ _)
  rw [Nat.ceilDiv_eq_add_pred_div]
  omega

theorem pulses_floor_or_ceil (h : Steady P g) (hq : ∀ i ∈ is, i.Quiet) :
    (triGen.outputs g is).length = is.length / P ∨
      (triGen.outputs g is).length = is.length ⌈/⌉ P := by
  have hlt := h.phase_lt
  rw [pulses h hq]
  exact floor_or_ceil (Nat.zero_lt_of_lt hlt) (Nat.div_le_div_right (by omega))
    (Nat.div_le_div_right (by omega))

theorem pulses_apart (h : Steady P g) (c : triGen.Consecutive g) (hq : ∀ i ∈ c.trace, i.Quiet) :
    c.inputs.length = P := by
  have hsplit : c.before ++ c.first :: c.body = c.before ++ [c.first] ++ c.body := by simp
  simp only [Mealy.Consecutive.trace, Mealy.Consecutive.inputs, List.forall_mem_append,
    List.forall_mem_cons] at hq
  obtain ⟨hbefore, hfirst, hbody, hlast, -⟩ := hq
  have hstate := run_steady h hbefore
  have hfirst' : ∀ i ∈ [c.first], i.Quiet := by simpa using hfirst
  have hstart := run_steady hstate hfirst'
  have hphase := run_phase hstate hfirst'
  rw [List.length_singleton, (out_eq_some hstate hfirst).mp c.emits₁, Nat.mod_self] at hphase
  rw [← Mealy.run_append] at hstart hphase
  have hlen := pulses hstart hbody
  rw [c.silent, hphase, List.length_nil, Nat.zero_add, eq_comm,
    Nat.div_eq_zero_iff_lt (by have := h.three; omega)] at hlen
  have hend := (out_eq_some (run_steady hstart hbody) hlast).mp (by
    rw [← Mealy.run_append, ← hsplit]
    exact c.emits₂)
  rw [run_phase hstart hbody, hphase, Nat.zero_add, Nat.mod_eq_of_lt hlen] at hend
  simpa [Mealy.Consecutive.inputs] using hend

end Steady

end PhotonCount.TriGen
