import PhotonCount.Machine.Drive
import PhotonCount.Machine.Stream
import PhotonCount.Meter.Frames
import PhotonCount.PlsCnt.Cycle
import PhotonCount.TriGen.Laws

namespace PhotonCount.Wiring.Frames

open Machine PlsCnt

structure Inputs where
  reset : Bool
  write : Bool
  taoQ : BitVec 32
  trigger : TriGen.Inputs
  photons : Nat
  deriving DecidableEq

def Inputs.Quiet (k : Inputs) : Prop := k.reset = false ∧ k.write = false ∧ k.trigger.Quiet

instance : DecidablePred Inputs.Quiet := fun k =>
  inferInstanceAs (Decidable (k.reset = false ∧ k.write = false ∧ k.trigger.Quiet))

def wire : Driver TriGen.Regs Inputs TriGen.Inputs Unit Cycle where
  source := TriGen.triGen
  pick k := k.trigger
  feed g k := ⟨⟨k.reset, g.ready, k.write, k.taoQ⟩, k.photons⟩

abbrev frames : Mealy (TriGen.Regs × Regs) Inputs Word := wire.drive clocked

def Start (t : TriGen.Regs × Regs) : Prop := TriGen.AfterReset t.1 ∧ PlsCnt.AfterReset t.2

variable {P : Nat} {t : TriGen.Regs × Regs} {k : Inputs} {is : Nat → Inputs}

theorem reachable_sound (h : frames.Reachable Start t) : TriGen.Sound t.1 :=
  h.invariant (fun _ ht => ht.1.sound) fun _ _ => TriGen.clk_sound

def pulse (t : TriGen.Regs × Regs) (is : Nat → Inputs) (n : Nat) : Bool :=
  TriGen.rises (is n).trigger (frames.states t is n).1

def flagged (t : TriGen.Regs × Regs) (is : Nat → Inputs) (n : Nat) : Prop :=
  ∃ w, frames.emitted t is n = some w ∧ w.flag = true

section Synced

structure Synced (P : Nat) (t : TriGen.Regs × Regs) : Prop where
  steady : TriGen.Steady P t.1
  ready2 : t.1.ready2 = decide (TriGen.phase t.1 = 0)
  ready : t.1.ready = decide (TriGen.phase t.1 ≤ 1)
  tri1 : t.2.tri1 =
    if TriGen.phase t.1 = 1 then 1#2 else if TriGen.phase t.1 = 2 then 2#2 else 0#2

theorem step_tri1 (t : TriGen.Regs × Regs) (k : Inputs) :
    (frames.step t k).2.tri1 = nextTri t.1.ready t.2.tri1 := by
  simp only [Driver.drive_step]
  rw [clocked_step, clk_eq]
  rfl

theorem step_phase (h : TriGen.Steady P t.1) (hk : k.Quiet) :
    TriGen.phase (frames.step t k).1 = (TriGen.phase t.1 + 1) % P :=
  TriGen.clk_phase h hk.2.2

theorem synced_of_pulse (h : TriGen.Steady P t.1) (hk : k.Quiet)
    (hp : TriGen.rises k.trigger t.1 = true) :
    Synced P (frames.step t k) ∧ TriGen.phase (frames.step t k).1 = 0 := by
  have hready : t.1.ready = false := by
    rw [TriGen.rises, Bool.and_eq_true, Bool.not_eq_true'] at hp
    exact hp.1
  rw [TriGen.rises_quiet h hk.2.2, decide_eq_true_eq] at hp
  have hphase : TriGen.phase (frames.step t k).1 = 0 := by
    rw [step_phase h hk, hp, Nat.mod_self]
  have hclk : (frames.step t k).1 = { t.1 with ready := true, ready2 := true, tmpCnt := 0#32 } :=
    (TriGen.clk_quiet h hk.2.2).trans (if_pos hp)
  refine ⟨⟨TriGen.clk_steady h hk.2.2, ?_, ?_, ?_⟩, hphase⟩
  · rw [hphase, hclk]
    rfl
  · rw [hphase, hclk]
    rfl
  · rw [hphase, step_tri1, hready]
    rfl

theorem Synced.step (h : Synced P t) (hk : k.Quiet) : Synced P (frames.step t k) := by
  by_cases hp : TriGen.phase t.1 + 1 = P
  · exact (synced_of_pulse h.steady hk
      (by rw [TriGen.rises_quiet h.steady hk.2.2, decide_eq_true hp])).1
  · have hlt := h.steady.phase_lt
    have hphase : TriGen.phase (frames.step t k).1 = TriGen.phase t.1 + 1 := by
      rw [step_phase h.steady hk, Nat.mod_eq_of_lt (by omega)]
    have hclk : (frames.step t k).1 =
        { t.1 with tmpCnt := t.1.tmpCnt + 1#32, ready := t.1.ready2, ready2 := false } :=
      (TriGen.clk_quiet h.steady hk.2.2).trans (if_neg hp)
    refine ⟨TriGen.clk_steady h.steady hk.2.2, ?_, ?_, ?_⟩
    · rw [hphase, hclk]
      simp
    · rw [hphase, hclk]
      simp [h.ready2]
    · rw [hphase, step_tri1, h.ready, h.tri1]
      match TriGen.phase t.1 with
      | 0 => rfl
      | 1 => rfl
      | p + 2 => simp [nextTri]

end Synced

section Streams

def seen (t : TriGen.Regs × Regs) (is : Nat → Inputs) (n : Nat) : Bool :=
  (frames.states t is n).2.tri1 = 1#2

theorem steady_states (hq : ∀ n, (is n).Quiet) (h : TriGen.Steady P t.1) (n : Nat) :
    TriGen.Steady P (frames.states t is n).1 :=
  frames.states_invariant t is (P := fun t => TriGen.Steady P t.1)
    (fun n _ ht => TriGen.clk_steady ht (hq n).2.2) h n

theorem synced_states (hq : ∀ n, (is n).Quiet) (h : TriGen.Steady P t.1) {f : Nat}
    (hf : pulse t is f = true) (n : Nat) :
    Synced P (frames.states t is (f + 1 + n)) ∧
      TriGen.phase (frames.states t is (f + 1 + n)).1 = n % P := by
  induction n with
  | zero => exact synced_of_pulse (steady_states hq h f) (hq f) hf
  | succ n ih =>
    refine ⟨ih.1.step (hq _), ?_⟩
    rw [← Nat.add_assoc, Mealy.states_succ, step_phase ih.1.steady (hq _), ih.2, Nat.mod_add_mod]

theorem pulse_regular (hq : ∀ n, (is n).Quiet) (h : TriGen.Steady P t.1) {f : Nat}
    (hf : pulse t is f = true) : Meter.Ticking.Regular (pulse t is) f P := by
  intro n hn
  rcases Nat.eq_or_lt_of_le hn with rfl | hlt
  · simp [hf]
  · obtain ⟨hsync, hphase⟩ := synced_states hq h hf (n - (f + 1))
    rw [show f + 1 + (n - (f + 1)) = n by omega] at hsync hphase
    rw [pulse, TriGen.rises_quiet hsync.steady (hq n).2.2, decide_eq_true_eq, hphase]
    have hP := h.three
    have hlt := Nat.mod_lt (n - (f + 1)) (show 0 < P by omega)
    rw [Nat.dvd_iff_mod_eq_zero, show n - f = n - (f + 1) + 1 by omega, Nat.add_mod,
      Nat.mod_eq_of_lt (show 1 < P by omega)]
    constructor
    · intro heq
      rw [heq, Nat.mod_self]
    · intro hz
      by_contra hne
      rw [Nat.mod_eq_of_lt (by omega)] at hz
      omega

theorem seen_regular (hq : ∀ n, (is n).Quiet) (h : TriGen.Steady P t.1) {f : Nat}
    (hf : pulse t is f = true) : Meter.Ticking.Regular (seen t is) (f + 2) P := by
  intro n hn
  obtain ⟨hsync, hphase⟩ := synced_states hq h hf (n - (f + 1))
  rw [show f + 1 + (n - (f + 1)) = n by omega] at hsync hphase
  have hP := h.three
  have hseen : seen t is n = true ↔ (n - (f + 1)) % P = 1 := by
    rw [seen, decide_eq_true_eq, hsync.tri1, hphase]
    split
    next h1 => simp [h1]
    next h1 => split <;> simp [h1]
  rw [hseen, Nat.dvd_iff_mod_eq_zero, show n - (f + 1) = n - (f + 2) + 1 by omega, Nat.add_mod,
    Nat.mod_eq_of_lt (show 1 < P by omega)]
  have hlt := Nat.mod_lt (n - (f + 2)) (show 0 < P by omega)
  by_cases heq : (n - (f + 2)) % P + 1 = P
  · rw [heq, Nat.mod_self]
    omega
  · rw [Nat.mod_eq_of_lt (by omega)]
    omega

theorem tao_states (hq : ∀ n, (is n).Quiet) (h0 : t.2.tao ≠ 0#32) (n : Nat) :
    (frames.states t is n).2.tao = t.2.tao :=
  frames.states_invariant t is (P := fun t' => t'.2.tao = t.2.tao)
    (fun n _ ht => (clocked_tao ⟨(hq n).1, (hq n).2.1⟩ (ht ▸ h0)).trans ht) rfl n

theorem ticking (hq : ∀ n, (is n).Quiet) (h0 : t.2.tao ≠ 0#32) :
    Meter.Ticking (2 ^ 32) t.2.tao.toNat (fun n => abs (frames.states t is n).2) (seen t is) where
  pos := Nat.pos_of_ne_zero (mt toNat_eq_zero.mp h0)
  lt := t.2.tao.isLt
  tao n := congrArg BitVec.toNat (tao_states hq h0 n)
  stamp n := (abs_clocked ⟨(hq n).1, (hq n).2.1⟩).1
  pending n := (abs_clocked ⟨(hq n).1, (hq n).2.1⟩).2
  stamp_lt n := (frames.states t is n).2.clkCnt.isLt

theorem emitted_eq_some (hq : ∀ n, (is n).Quiet) (h0 : t.2.tao ≠ 0#32) (n : Nat) (w : Word) :
    frames.emitted t is n = some w ↔
      modTao (frames.states t is n).2 = 0 ∧
        w = Word.pack (trigFlag (frames.states t is n).2)
          ((frames.states t is n).2.phoCnt - (frames.states t is n).2.cntTmp1)
          (frames.states t is n).2.clkCnt := by
  have hout := out_clk_eq_some (i := (wire.feed (frames.states t is n).1 (is n)).inputs)
    (hq n).1 ((tao_states hq h0 n).trans_ne h0) w
  exact hout.trans ⟨fun h => h.2, fun h => ⟨(hq n).2.1, h⟩⟩

theorem flagged_iff (hq : ∀ n, (is n).Quiet) (h0 : t.2.tao ≠ 0#32) (n : Nat) :
    flagged t is n ↔
      Meter.Flagged (fun n => abs (frames.states t is n).2) (seen t is) n := by
  simp only [flagged, emitted_eq_some hq h0]
  constructor
  · rintro ⟨w, ⟨hb, rfl⟩, hf⟩
    rw [Word.flag_pack] at hf
    exact ⟨hb, hf⟩
  · rintro ⟨hb, hf⟩
    exact ⟨_, ⟨hb, rfl⟩, (Word.flag_pack _ _ _).trans hf⟩

theorem emitted_stamp (hq : ∀ n, (is n).Quiet) (h0 : t.2.tao ≠ 0#32) (n : Nat) :
    (frames.emitted t is n).map (·.stamp.toNat) =
      Meter.recordStamp (abs (frames.states t is n).2) := by
  by_cases hb : Meter.Boundary (abs (frames.states t is n).2)
  · rw [(emitted_eq_some hq h0 n _).mpr ⟨hb, rfl⟩, Option.map_some, Word.stamp_pack,
      Meter.recordStamp, if_pos hb]
    rfl
  · have hnone : frames.emitted t is n = none := by
      rw [Option.eq_none_iff_forall_ne_some]
      exact fun w hw => hb ((emitted_eq_some hq h0 n w).mp hw).1
    rw [hnone, Meter.recordStamp, if_neg hb, Option.map_none]

end Streams

section Pulses

variable {f₁ f n n' : Nat}

theorem pulse_gap (hq : ∀ n, (is n).Quiet) (h : TriGen.Steady P t.1) {f f' : Nat}
    (hf : pulse t is f = true) (hf' : pulse t is f' = true) (hlt : f < f')
    (hno : ∀ n, f < n → n < f' → pulse t is n = false) : f' - f = P := by
  have hreg := pulse_regular hq h hf
  have hge := Nat.le_of_dvd (by omega) ((hreg f' hlt.le).mp hf')
  by_contra hne
  have hP := h.three
  have hmid := hno (f + P) (by omega) (by omega)
  rw [(hreg _ (Nat.le_add_right _ _)).mpr (by simp)] at hmid
  cases hmid

theorem pulse_shift (hq : ∀ n, (is n).Quiet) (h : TriGen.Steady P t.1)
    (hf₁ : pulse t is f₁ = true) (hf : pulse t is f = true) (hlt : f₁ < f) :
    ∃ i, 0 < i ∧ f + 2 = f₁ + 2 + i * P := by
  obtain ⟨i, hi⟩ := (pulse_regular hq h hf₁ f hlt.le).mp hf
  refine ⟨i, ?_, ?_⟩
  · rcases Nat.eq_zero_or_pos i with rfl | hpos
    · omega
    · exact hpos
  · rw [Nat.mul_comm]
    omega

theorem one_flagged (hq : ∀ n, (is n).Quiet) (h : TriGen.Steady P t.1) (h0 : t.2.tao ≠ 0#32)
    (hle : t.2.tao.toNat ≤ P) (hf₁ : pulse t is f₁ = true) {i : Nat} (hi : 0 < i) :
    ∃! n, f₁ + 2 + i * P ≤ n ∧ n < f₁ + 2 + i * P + P ∧ flagged t is n := by
  simp only [flagged_iff hq h0]
  obtain ⟨k, hk, hfk, huniq⟩ :=
    (ticking hq h0).one_flag_of_shift (seen_regular hq h hf₁) hle hi
  refine ⟨f₁ + 2 + i * P + k, ⟨by omega, by omega, hfk⟩, fun n hn => ?_⟩
  have := huniq (n - (f₁ + 2 + i * P)) (by omega) (by
    rw [show f₁ + 2 + i * P + (n - (f₁ + 2 + i * P)) = n by omega]
    exact hn.2.2)
  omega

theorem frame_of_pulse (hq : ∀ n, (is n).Quiet) (h : TriGen.Steady P t.1) (h0 : t.2.tao ≠ 0#32)
    (hle : t.2.tao.toNat ≤ P) (hlt : P + t.2.tao.toNat < 2 ^ 32) (hf₁ : pulse t is f₁ = true)
    (hfirst : f₁ + 2 + P ≤ n) (hn : flagged t is n) (hn' : flagged t is n') (hnn : n < n')
    (hno : ∀ l, n < l → l < n' → ¬ flagged t is l) :
    ∃ k, (k = P / t.2.tao.toNat ∨ k = P ⌈/⌉ t.2.tao.toNat) ∧
      (frames.emissions t is (n + 1) (n' - n)).map (·.stamp.toNat) =
        (List.range k).map fun j => (j + 1) * t.2.tao.toNat := by
  simp only [flagged_iff hq h0] at hn hn' hno
  have htick := ticking hq h0
  obtain ⟨hlow, hhigh⟩ :=
    htick.frame_length (seen_regular hq h hf₁) hle hfirst hn hn' hnn hno
  obtain ⟨hdiv, hceil⟩ := htick.frame_records hn hn' hnn hno (by omega) hlow hhigh
  refine ⟨(n' - n) / t.2.tao.toNat, TriGen.floor_or_ceil htick.pos hdiv hceil, ?_⟩
  rw [Mealy.emissions, List.map_filterMap]
  simp only [emitted_stamp hq h0]
  exact htick.frame_stamps hn (by omega) fun j hj => hno _ (by omega) (by omega)

end Pulses

theorem trigger_frames_regular (ht : frames.Reachable Start t) (hq : ∀ n, (is n).Quiet)
    (hT : 2 ≤ t.1.taoCnt.toNat) (h0 : t.2.tao ≠ 0#32) (hle : t.2.tao.toNat ≤ TriGen.period t.1)
    (hlt : TriGen.period t.1 + t.2.tao.toNat < 2 ^ 32) :
    (∀ f f', pulse t is f = true → pulse t is f' = true → f < f' →
      (∀ n, f < n → n < f' → pulse t is n = false) → f' - f = TriGen.period t.1) ∧
    ∀ f₁ f, pulse t is f₁ = true → pulse t is f = true → f₁ < f →
      (∃! n, f + 2 ≤ n ∧ n < f + 2 + TriGen.period t.1 ∧ flagged t is n) ∧
      ∀ n n', f + 2 ≤ n → flagged t is n → flagged t is n' → n < n' →
        (∀ l, n < l → l < n' → ¬ flagged t is l) →
          ∃ k, (k = TriGen.period t.1 / t.2.tao.toNat ∨ k = TriGen.period t.1 ⌈/⌉ t.2.tao.toNat) ∧
            (frames.emissions t is (n + 1) (n' - n)).map (·.stamp.toNat) =
              (List.range k).map fun j => (j + 1) * t.2.tao.toNat := by
  have hsteady := (reachable_sound ht).steady hT
  refine ⟨fun f f' hf hf' hff hno => pulse_gap hq hsteady hf hf' hff hno, fun f₁ f hf₁ hf hff => ?_⟩
  obtain ⟨i, hi, hfi⟩ := pulse_shift hq hsteady hf₁ hf hff
  have hone := one_flagged hq hsteady h0 hle hf₁ hi
  rw [← hfi] at hone
  refine ⟨hone, fun n n' hfn hn hn' hnn hno => ?_⟩
  have hfirst : f₁ + 2 + TriGen.period t.1 ≤ n := by
    have := Nat.le_mul_of_pos_left (TriGen.period t.1) hi
    omega
  exact frame_of_pulse hq hsteady h0 hle hlt hf₁ hfirst hn hn' hnn hno

def programmed : TriGen.Regs × Regs :=
  frames.run
    (TriGen.clk .reset (TriGen.powerUp false), clk ⟨true, false, false, 0#32⟩ (powerUp 0#32))
    [⟨false, true, 2#32, .program 2#32, 0⟩]

theorem trigger_frames_regular_programmed :
    ∃! n, 7 ≤ n ∧ n < 10 ∧ flagged programmed (fun _ => ⟨false, false, 0#32, .idle, 1⟩) n := by
  have ht : frames.Reachable Start programmed :=
    (Mealy.Reachable.start ⟨⟨.reset, TriGen.powerUp false, rfl, rfl⟩,
      ⟨⟨true, false, false, 0#32⟩, powerUp 0#32, rfl, rfl⟩⟩).run _
  exact ((trigger_frames_regular ht (fun _ => by decide) (by decide) (by decide) (by decide)
    (by decide)).2 2 5 (by decide) (by decide) (by decide)).1

end PhotonCount.Wiring.Frames
