import PhotonCount.PlsCnt.Laws
import PhotonCount.Rtl.Waveform

namespace PhotonCount.PlsCnt

open Machine Rtl Waveform

variable {s : Regs} {es : List Event}

def triWave (es : List Event) : Waveform :=
  es.filterMap fun
    | .pho => none
    | .clk i => some i.triIn

@[simp] theorem triWave_pho : triWave (.pho :: es) = triWave es := rfl

@[simp] theorem triWave_clk (i : Inputs) : triWave (.clk i :: es) = i.triIn :: triWave es := rfl

@[simp] theorem triWave_append (es fs : List Event) :
    triWave (es ++ fs) = triWave es ++ triWave fs := List.filterMap_append

theorem nextTri_ofNat (b : Bool) (n : Nat) :
    nextTri b (BitVec.ofNat 2 n) = BitVec.ofNat 2 (tally n b) := by
  cases b
  · rfl
  · exact BitVec.eq_of_toNat_eq (by simp [nextTri, tally])

theorem run_tri1 {n : Nat} (h : s.tri1 = BitVec.ofNat 2 n) :
    (plsCnt.run s es).tri1 = BitVec.ofNat 2 ((triWave es).foldl tally n) := by
  induction es generalizing s n with
  | nil => exact h
  | cons e es ih =>
    cases e with
    | pho => exact ih h
    | clk i =>
      refine ih ?_
      change (clk i s).tri1 = _
      rw [clk_tri1, h, nextTri_ofNat]

theorem tri1_eq_streak (h : s.tri1 = 0#2) (es : List Event) :
    (plsCnt.run s es).tri1 = BitVec.ofNat 2 (streak (triWave es)) :=
  run_tri1 h

theorem tri1_eq_one (h : s.tri1 = 0#2) (p : List Event) (i : Inputs) :
    (plsCnt.run s (p ++ [.clk i])).tri1 = 1#2 ↔ i.triIn = true ∧ 4 ∣ streak (triWave p) := by
  rw [tri1_eq_streak h, triWave_append, triWave_clk]
  cases i.triIn with
  | false => simp [triWave]
  | true =>
    have hnil : triWave [] = [] := rfl
    rw [hnil, streak_append_high, BitVec.toNat_eq]
    simp only [BitVec.toNat_ofNat, true_and]
    omega

theorem triWave_split {w v : Waveform} {b : Bool} (h : triWave es = w ++ b :: v) :
    ∃ p i, p ++ [.clk i] <+: es ∧ triWave p = w ∧ i.triIn = b := by
  obtain ⟨p, fs, rfl, hp, hfs⟩ := List.filterMap_eq_append_iff.mp h
  obtain ⟨q, e, r, rfl, hq, he, hr⟩ := List.filterMap_eq_cons_iff.mp hfs
  cases e with
  | pho => cases he
  | clk i =>
    refine ⟨p ++ q, i, ⟨r, by simp⟩, ?_, Option.some.inj he⟩
    have hq : triWave q = [] := List.filterMap_eq_nil_iff.mpr hq
    rw [triWave_append, hq, List.append_nil]
    exact hp

theorem detected_once_iff (h : s.tri1 = 0#2) :
    (∀ p i, p ++ [.clk i] <+: es →
      ((plsCnt.run s (p ++ [.clk i])).tri1 = 1#2 ↔
        i.triIn = true ∧ last (triWave p) = false)) ↔
      ¬ List.replicate 5 true <:+: triWave es := by
  rw [← no_streak_iff (by decide : 0 < 4)]
  constructor
  · rintro hdet v ⟨u, hu⟩ hdvd
    obtain ⟨p, i, hp, rfl, hi⟩ := triWave_split (hu.symm.trans (List.append_assoc v [true] u))
    exact last_eq_false.mp (((hdet p i hp).mp ((tri1_eq_one h p i).mpr ⟨hi, hdvd⟩)).2)
  · intro hstreak p i ⟨q, hq⟩
    rw [tri1_eq_one h, last_eq_false]
    refine and_congr_right fun hi => ⟨fun hdvd => ?_, fun h0 => h0 ▸ Nat.dvd_zero 4⟩
    refine hstreak _ ⟨triWave q, ?_⟩ hdvd
    rw [← hq]
    simp [hi]

theorem detected_once_two_clocks :
    (plsCnt.run (powerUp 0#32) [.trigger, .trigger]).tri1 ≠ 1#2 := by
  have htri : (powerUp 0#32).tri1 = 0#2 := rfl
  have hshort : ¬ List.replicate 5 true <:+: triWave [.trigger, .trigger] := by decide
  have h := (detected_once_iff htri).mpr hshort [.trigger] _ (List.prefix_refl _)
  intro h1
  exact absurd (h.mp h1).2 (by decide)

theorem long_trigger_detected_twice :
    ¬ ∀ p i, p ++ [.clk i] <+: List.replicate 5 .trigger →
      ((plsCnt.run (powerUp 0#32) (p ++ [.clk i])).tri1 = 1#2 ↔
        i.triIn = true ∧ last (triWave p) = false) := by
  intro h
  have h5 := h (List.replicate 4 .trigger) ⟨false, true, false, 0#32⟩ ⟨[], rfl⟩
  exact absurd h5 (by decide)

end PhotonCount.PlsCnt
