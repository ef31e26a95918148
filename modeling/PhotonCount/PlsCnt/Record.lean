import PhotonCount.Rtl.PartSelect

namespace PhotonCount.PlsCnt

open Rtl.PartSelect

abbrev Word := BitVec 64

namespace Word

def stamp (w : Word) : BitVec 32 := w.extractLsb' 0 32

def count (w : Word) : BitVec 31 := w.extractLsb' 32 31

def flag (w : Word) : Bool := w.getLsbD 63

def pack (flag : Bool) (cnt stamp : BitVec 32) : Word :=
  BitVec.ofBool flag ++ (cnt.extractLsb' 0 31 ++ stamp)

theorem getLsbD_pack (f : Bool) (c t : BitVec 32) (j : Nat) :
    (pack f c t).getLsbD j =
      if j < 32 then t.getLsbD j
      else if j < 63 then c.getLsbD (j - 32) else decide (j = 63) && f := by
  change BitVec.getLsbD (w := 1 + (31 + 32)) (BitVec.ofBool f ++ (c.extractLsb' 0 31 ++ t)) j = _
  simp only [BitVec.getLsbD_append, BitVec.getLsbD_extractLsb', Nat.zero_add]
  by_cases h₁ : j < 32
  · simp [h₁, show j < 63 by omega]
  · by_cases h₂ : j < 63
    · simp [h₁, h₂, show j - 32 < 31 by omega]
    · by_cases h₃ : j = 63
      · simp [h₃]
      · simp [h₁, h₂, h₃, show ¬ j - 63 = 0 by omega]

@[simp] theorem stamp_pack (f : Bool) (c t : BitVec 32) : (pack f c t).stamp = t := by
  apply BitVec.eq_of_getLsbD_eq
  intro j hj
  simp [stamp, getLsbD_pack, hj]

@[simp] theorem count_pack (f : Bool) (c t : BitVec 32) :
    (pack f c t).count = c.extractLsb' 0 31 := by
  apply BitVec.eq_of_getLsbD_eq
  intro j hj
  simp [count, getLsbD_pack, hj, show 32 + j < 63 by omega]

@[simp] theorem flag_pack (f : Bool) (c t : BitVec 32) : (pack f c t).flag = f := by
  rw [flag, getLsbD_pack]
  simp

theorem count_pack_toNat (f : Bool) (c t : BitVec 32) :
    (pack f c t).count.toNat = c.toNat % 2 ^ 31 := by
  simp [BitVec.extractLsb'_toNat]

theorem assign_pack (w : Word) (f : Bool) (c t : BitVec 32) :
    assign (assign (assign w 32 c) 0 t) 63 (BitVec.ofBool f) = pack f c t := by
  apply BitVec.eq_of_getLsbD_eq
  intro j hj
  simp only [getLsbD_assign _ _ _ hj, getLsbD_pack]
  by_cases h₁ : j < 32
  · simp [h₁, show ¬ 63 ≤ j by omega]
  · by_cases h₂ : j < 63
    · simp [h₁, h₂, show ¬ 63 ≤ j by omega, show 32 ≤ j by omega]
      omega
    · obtain rfl : j = 63 := by omega
      simp

theorem assign_flagged (w : Word) (c t : BitVec 32) :
    assign (assign (assign w 32 c) 0 t) 63 1#1 = pack true c t := assign_pack w true c t

theorem assign_unflagged (w : Word) (c t : BitVec 32) :
    assign (assign (assign w 32 c) 0 t) 63 0#1 = pack false c t := assign_pack w false c t

end Word

end PhotonCount.PlsCnt
