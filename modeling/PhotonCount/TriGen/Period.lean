import PhotonCount.Machine.Stream
import PhotonCount.Rtl.Pulses
import PhotonCount.TriGen.Laws

namespace PhotonCount.TriGen

open Machine Rtl

variable {P : Nat} {g : Regs} {is : Nat → Inputs}

def readyWave (g : Regs) (is : Nat → Inputs) (n : Nat) : Bool := (triGen.states g is n).ready

structure Clock (P n : Nat) (g : Regs) : Prop extends Steady P g where
  phase : phase g = n % P
  ready : g.ready = pulseTrain P n
  ready2 : g.ready2 = decide (P ≤ n ∧ n % P = 0)

theorem Clock.step {n : Nat} {i : Inputs} (h : Clock P n g) (hi : i.Quiet) :
    Clock P (n + 1) (clk i g) := by
  have h3 := h.three
  have hlow : n < P → n % P = n := Nat.mod_eq_of_lt
  have hsucc := succ_mod (by omega : 0 < P) n
  have hclk := clk_quiet h.toSteady hi
  rw [h.phase] at hclk
  refine ⟨clk_steady h.toSteady hi, ?_, ?_, ?_⟩
  · rw [clk_phase h.toSteady hi, h.phase, Nat.mod_add_mod]
  · rw [hclk, pulseTrain, hsucc]
    split
    next hp => simp; omega
    next hp =>
      simp only [h.ready2, decide_eq_decide]
      omega
  · rw [hclk, hsucc]
    split
    next hp => simp; omega
    next hp => simp

theorem clock_states (h : Clock P 0 g) (his : ∀ n, (is n).Quiet) (n : Nat) :
    Clock P n (triGen.states g is n) := by
  induction n with
  | zero => exact h
  | succ n ih => exact ih.step (his n)

theorem clock_of_write {i : Inputs} (hr : i.rst = false) (hw : i.write = true)
    (hT : 3 ≤ i.taoQ.toNat) (g : Regs) : Clock (i.taoQ.toNat + 1) 0 (clk i g) := by
  have hclk : clk i g = ⟨false, i.taoQ, 0#32, false⟩ := by simp [clk, hr, hw]
  rw [hclk]
  have hsound : Sound ⟨false, i.taoQ, 0#32, false⟩ := by constructor <;> simp
  refine ⟨hsound.steady (show 2 ≤ i.taoQ.toNat by omega), by simp [TriGen.phase], ?_, ?_⟩ <;>
    simp [pulseTrain]

theorem period_is_one_more {i : Inputs} (hr : i.rst = false) (hw : i.write = true)
    (hT : 3 ≤ i.taoQ.toNat) (g : Regs) (his : ∀ n, (is n).Quiet) :
    ¬ PulsesEvery i.taoQ.toNat (readyWave (clk i g) is) ∧
      PulsesEvery (i.taoQ.toNat + 1) (readyWave (clk i g) is) := by
  have hwave : readyWave (clk i g) is = pulseTrain (i.taoQ.toNat + 1) :=
    funext fun n => (clock_states (clock_of_write hr hw hT g) his n).ready
  have hevery : PulsesEvery (i.taoQ.toNat + 1) (readyWave (clk i g) is) := by
    rw [hwave]
    exact pulsesEvery_pulseTrain (by omega)
  refine ⟨fun h => ?_, hevery⟩
  have := h.unique (by omega) (Nat.succ_pos _) hevery
  omega

theorem period_is_one_more_four :
    PulsesEvery 5 (readyWave (clk (.program 4#32) (powerUp false)) fun _ => .idle) :=
  (period_is_one_more (i := .program 4#32) rfl rfl (by decide) (powerUp false)
    fun _ => ⟨rfl, rfl⟩).2

theorem period_not_three :
    ¬ PulsesEvery 3 (readyWave (clk (.program 3#32) (powerUp false)) fun _ => .idle) :=
  fun h => absurd (h.apart 3 (by decide)).1 (by decide)

end PhotonCount.TriGen
