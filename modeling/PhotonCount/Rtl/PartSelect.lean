import Mathlib.Data.Nat.Basic
import Mathlib.Data.BitVec

namespace PhotonCount.Rtl.PartSelect

variable {n k : Nat}

def assign (w : BitVec n) (lo : Nat) (v : BitVec k) : BitVec n :=
  (w &&& ~~~((BitVec.allOnes k).setWidth n <<< lo)) ||| (v.setWidth n <<< lo)

theorem getLsbD_assign (w : BitVec n) (lo : Nat) (v : BitVec k) {j : Nat} (hj : j < n) :
    (assign w lo v).getLsbD j =
      if lo ≤ j ∧ j < lo + k then v.getLsbD (j - lo) else w.getLsbD j := by
  by_cases hlo : lo ≤ j
  · by_cases hk : j < lo + k
    · have h₁ : j - lo < k := by omega
      have h₂ : j - lo < n := by omega
      simp [assign, *, show ¬ j < lo by omega]
    · have h₁ : ¬ j - lo < k := by omega
      have h₂ : v.getLsbD (j - lo) = false := BitVec.getLsbD_of_ge _ _ (by omega)
      simp [assign, *]
  · have h : j < lo := by omega
    simp [assign, *]

end PhotonCount.Rtl.PartSelect
