import Mathlib.Data.List.Infix

namespace PhotonCount.Rtl

abbrev Waveform := List Bool

namespace Waveform

variable {w v : Waveform} {b : Bool} {n : Nat}

def tally (n : Nat) (b : Bool) : Nat := if b then n + 1 else 0

def streak (w : Waveform) : Nat := w.foldl tally 0

@[simp] theorem streak_append_high : streak (w ++ [true]) = streak w + 1 := by
  simp [streak, tally]

@[simp] theorem streak_append_low : streak (w ++ [false]) = 0 := by
  simp [streak, tally]

theorem streak_append_replicate (w : Waveform) (n : Nat) :
    streak (w ++ List.replicate n true) = streak w + n := by
  induction n with
  | zero => simp
  | succ n ih => rw [List.replicate_succ', ← List.append_assoc, streak_append_high, ih]; rfl

theorem replicate_streak (w : Waveform) : List.replicate (streak w) true <:+ w := by
  induction w using List.reverseRecOn with
  | nil => exact List.nil_suffix
  | append_singleton w b ih =>
    cases b with
    | false => simp
    | true =>
      obtain ⟨v, hv⟩ := ih
      refine ⟨v, ?_⟩
      rw [streak_append_high, List.replicate_succ', ← List.append_assoc, hv]

/-- The last sample; before the first one the signal is low. -/
def last (w : Waveform) : Bool := w.getLast?.getD false

theorem last_eq_false : last w = false ↔ streak w = 0 := by
  induction w using List.reverseRecOn with
  | nil => simp [last, streak]
  | append_singleton w b _ => cases b <;> simp [last]

theorem no_streak_iff (hn : 0 < n) :
    (∀ v, v ++ [true] <+: w → n ∣ streak v → streak v = 0) ↔
      ¬ List.replicate (n + 1) true <:+: w := by
  constructor
  · rintro h ⟨u, v, rfl⟩
    -- within `n` high samples the streak gets to a multiple of `n`
    have hlt := Nat.mod_lt (streak u) hn
    have hsplit : List.replicate (n + 1) true = List.replicate (n - streak u % n) true ++
        ([true] ++ List.replicate (streak u % n) true) := by
      rw [← List.replicate_one, List.replicate_append_replicate, List.replicate_append_replicate]
      congr 1
      omega
    have hdvd : n ∣ streak u + (n - streak u % n) := by
      rw [← Nat.add_sub_assoc hlt.le, Nat.add_comm, Nat.add_sub_assoc (Nat.mod_le _ _)]
      exact Nat.dvd_add (Nat.dvd_refl n) (Nat.dvd_sub_mod _)
    have hzero := h (u ++ List.replicate (n - streak u % n) true)
      ⟨List.replicate (streak u % n) true ++ v, by simp [hsplit]⟩
      (by rwa [streak_append_replicate])
    rw [streak_append_replicate] at hzero
    omega
  · intro h v hv hdvd
    by_contra hne
    have hle : n + 1 ≤ streak (v ++ [true]) := by
      rw [streak_append_high]
      exact Nat.succ_le_succ (Nat.le_of_dvd (Nat.pos_of_ne_zero hne) hdvd)
    have hrep : List.replicate (n + 1) true <:+ List.replicate (streak (v ++ [true])) true := by
      obtain ⟨k, hk⟩ := Nat.exists_eq_add_of_le' hle
      exact ⟨List.replicate k true, by rw [List.replicate_append_replicate, hk]⟩
    exact h ((hrep.trans (replicate_streak _)).isInfix.trans hv.isInfix)

end Waveform

end PhotonCount.Rtl
