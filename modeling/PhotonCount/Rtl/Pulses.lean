import Mathlib.Data.Nat.ModEq

namespace PhotonCount.Rtl

variable {P Q n : Nat} {r : Nat → Bool}

def Rises (r : Nat → Bool) (n : Nat) : Prop := r n = false ∧ r (n + 1) = true

instance (r : Nat → Bool) (n : Nat) : Decidable (Rises r n) :=
  inferInstanceAs (Decidable (_ ∧ _))

structure PulsesEvery (P : Nat) (r : Nat → Bool) : Prop where
  starts : ∃ n, Rises r n
  two : ∀ n, Rises r n → r (n + 2) = true ∧ r (n + 3) = false
  apart : ∀ n, Rises r n → Rises r (n + P) ∧ ∀ k, 0 < k → k < P → ¬ Rises r (n + k)

theorem PulsesEvery.unique (hP : 0 < P) (hQ : 0 < Q) (h : PulsesEvery P r)
    (h' : PulsesEvery Q r) : P = Q := by
  obtain ⟨n, hn⟩ := h.starts
  rcases Nat.lt_trichotomy P Q with hlt | heq | hlt
  · exact absurd (h.apart n hn).1 ((h'.apart n hn).2 P hP hlt)
  · exact heq
  · exact absurd (h'.apart n hn).1 ((h.apart n hn).2 Q hQ hlt)

def pulseTrain (P n : Nat) : Bool := decide (P ≤ n ∧ n % P < 2)

theorem succ_mod (hP : 0 < P) (n : Nat) :
    (n + 1) % P = if n % P + 1 = P then 0 else n % P + 1 := by
  have hlt := Nat.mod_lt n hP
  rw [← Nat.mod_add_mod]
  split
  next h => rw [h, Nat.mod_self]
  next h => exact Nat.mod_eq_of_lt (by omega)

theorem rises_pulseTrain (hP : 3 ≤ P) : Rises (pulseTrain P) n ↔ P ∣ n + 1 := by
  have hpos : 0 < P := by omega
  have hsucc := succ_mod hpos n
  have hlow : n < P → n % P = n := Nat.mod_eq_of_lt
  rw [Nat.dvd_iff_mod_eq_zero, Rises, pulseTrain, pulseTrain, decide_eq_false_iff_not,
    decide_eq_true_iff]
  split at hsucc
  next h => omega
  next h => omega

theorem pulsesEvery_pulseTrain (hP : 3 ≤ P) : PulsesEvery P (pulseTrain P) := by
  constructor
  · exact ⟨P - 1, (rises_pulseTrain hP).mpr (by rw [Nat.sub_add_cancel (by omega)])⟩
  · intro n hn
    obtain ⟨q, hq⟩ := (rises_pulseTrain hP).mp hn
    have hle : P ≤ n + 1 := Nat.le_of_dvd (Nat.succ_pos n) ⟨q, hq⟩
    have h1 : (n + 2) % P = 1 := by
      rw [show n + 2 = P * q + 1 by omega, Nat.mul_add_mod, Nat.mod_eq_of_lt (by omega)]
    have h2 : (n + 3) % P = 2 := by
      rw [show n + 3 = P * q + 2 by omega, Nat.mul_add_mod, Nat.mod_eq_of_lt (by omega)]
    simp only [pulseTrain, h1, h2]
    constructor
    · simp; omega
    · simp
  · intro n hn
    simp only [rises_pulseTrain hP] at hn ⊢
    refine ⟨?_, fun k hk hlt hdvd => ?_⟩
    · rw [Nat.add_right_comm]
      exact Nat.dvd_add_self_right.mpr hn
    · rw [Nat.add_right_comm, Nat.dvd_add_right hn] at hdvd
      exact absurd (Nat.le_of_dvd hk hdvd) (Nat.not_le.mpr hlt)

end PhotonCount.Rtl
