import Mathlib.Data.Nat.Basic

namespace PhotonCount.Rtl

def Since (set clear : Nat → Prop) (n : Nat) : Prop :=
  ∃ k < n, set k ∧ ∀ j, k ≤ j → j < n → ¬ clear j

variable {set clear q : Nat → Prop} {n : Nat}

theorem not_since_zero : ¬ Since set clear 0 := fun ⟨_, hk, _⟩ => Nat.not_lt_zero _ hk

theorem since_succ : Since set clear (n + 1) ↔ ¬ clear n ∧ (set n ∨ Since set clear n) := by
  constructor
  · rintro ⟨k, hk, hset, hclear⟩
    refine ⟨hclear n (Nat.le_of_lt_succ hk) n.lt_succ_self, ?_⟩
    obtain rfl | hlt := Nat.eq_or_lt_of_le (Nat.le_of_lt_succ hk)
    · exact .inl hset
    · exact .inr ⟨k, hlt, hset, fun j hj hjn => hclear j hj (Nat.lt_succ_of_lt hjn)⟩
  · rintro ⟨hn, hset | ⟨k, hk, hset, hclear⟩⟩
    · refine ⟨n, n.lt_succ_self, hset, fun j hj hjn => ?_⟩
      exact Nat.le_antisymm hj (Nat.le_of_lt_succ hjn) ▸ hn
    · refine ⟨k, Nat.lt_succ_of_lt hk, hset, fun j hj hjn => ?_⟩
      obtain rfl | hlt := Nat.eq_or_lt_of_le (Nat.le_of_lt_succ hjn)
      · exact hn
      · exact hclear j hj hlt

theorem latched_iff (h0 : ¬ q 0) (hq : ∀ n, q (n + 1) ↔ ¬ clear n ∧ (set n ∨ q n)) (n : Nat) :
    q n ↔ Since set clear n := by
  induction n with
  | zero => exact iff_of_false h0 not_since_zero
  | succ n ih => rw [hq, since_succ, ih]

end PhotonCount.Rtl
