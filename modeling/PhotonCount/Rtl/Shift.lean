import Mathlib.Data.BitVec

namespace PhotonCount.Rtl

variable {w i n : Nat} {b : Bool}

/-- `{chain[w-1:0], b}`. -/
def shiftIn (b : Bool) (chain : BitVec (w + 1)) : BitVec (w + 1) := (chain.setWidth w).concat b

@[simp] theorem getLsbD_shiftIn_zero (chain : BitVec (w + 1)) :
    (shiftIn b chain).getLsbD 0 = b := by
  simp [shiftIn]

theorem getLsbD_shiftIn_succ (chain : BitVec (w + 1)) (hi : i < w) :
    (shiftIn b chain).getLsbD (i + 1) = chain.getLsbD i := by
  simp [shiftIn, hi]

theorem getLsbD_chain (chain : Nat → BitVec (w + 1)) {d : Nat → Bool}
    (h : ∀ n, chain (n + 1) = shiftIn (d n) (chain n)) (hi : i ≤ w) :
    (chain (n + i + 1)).getLsbD i = d n := by
  induction i with
  | zero => rw [h, getLsbD_shiftIn_zero]
  | succ i ih => rw [h, getLsbD_shiftIn_succ _ (by omega), ← Nat.add_assoc, ih (by omega)]

end PhotonCount.Rtl
