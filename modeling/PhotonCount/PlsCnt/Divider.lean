import Mathlib.Data.BitVec
import Mathlib.Data.Nat.Bits

/-! `alt_u_div_o2f.tdf`, the divider that is made of `CLK_cnt % Tao`: 32 stages, each of which
takes in one bit of the numerator and subtracts the denominator if it can. -/

namespace PhotonCount.PlsCnt.Divider

section Wires

variable (denominator numerator : BitVec 32)

/-- `NumeratorIn[32*k+31-k]`. -/
def numeratorIn (k : Nat) : Bool := numerator.getLsbD (31 - k)

/-- `sel[32*k+31-i]`, which is the same in each row `k`. -/
def sel : Nat → Bool
  | 0 => false
  | i + 1 => sel i || denominator.getLsbD (31 - i)

section Stage

variable (k : Nat) (stageIn : BitVec 32)

def addSubDataa : BitVec (k + 1) := (stageIn.setWidth k).concat (numeratorIn numerator k)

def addSubDatab : BitVec (k + 1) := denominator.setWidth (k + 1)

def addSubResultInt : BitVec (k + 2) :=
  (addSubDataa numerator k stageIn).setWidth (k + 2) -
    (addSubDatab denominator k).setWidth (k + 2)

def addSubCout : Bool := !(addSubResultInt denominator numerator k stageIn).getLsbD (k + 1)

/-- `prestg[32*k+31..32*k]`. -/
def prestg : BitVec 32 :=
  ((addSubResultInt denominator numerator k stageIn).setWidth (k + 1)).setWidth 32

/-- `selnose[33*k]`. -/
def selnose : Bool := !addSubCout denominator numerator k stageIn || sel denominator (31 - k)

def stageOut : BitVec 32 :=
  if selnose denominator numerator k stageIn then
    (stageIn.setWidth 31).concat (numeratorIn numerator k)
  else prestg denominator numerator k stageIn

end Stage

/-- `StageIn[32*k+31..32*k]`. -/
def stageIn : Nat → BitVec 32
  | 0 => 0#32
  | k + 1 => stageOut denominator numerator k (stageIn k)

def remainder : BitVec 32 := stageIn denominator numerator 32

def quotient : BitVec 32 :=
  (BitVec.ofBoolListBE ((List.range 32).map fun k =>
    !selnose denominator numerator k (stageIn denominator numerator k))).setWidth 32

end Wires

section Stage

variable {denominator numerator stageIn : BitVec 32} {k : Nat}

def upTo (numerator : BitVec 32) (k : Nat) : Nat := numerator.toNat / 2 ^ (32 - k)

theorem upTo_succ (hk : k < 32) :
    upTo numerator (k + 1) = 2 * upTo numerator k + (numeratorIn numerator k).toNat := by
  have hpow : 32 - k = 31 - k + 1 := by omega
  have hpow' : 32 - (k + 1) = 31 - k := by omega
  have hbit : (numeratorIn numerator k).toNat = numerator.toNat / 2 ^ (31 - k) % 2 := by
    rw [numeratorIn, BitVec.getLsbD, Nat.toNat_testBit]
  rw [upTo, upTo, hbit, hpow, hpow', Nat.pow_succ, ← Nat.div_div_eq_div_mul]
  exact (Nat.div_add_mod _ 2).symm

theorem testBit_top {x j : Nat} (hx : x < 2 ^ (j + 1)) : x.testBit j = decide (2 ^ j ≤ x) := by
  rw [Nat.testBit_eq_decide_div_mod_eq, decide_eq_decide]
  have hlt : x / 2 ^ j < 2 := Nat.div_lt_of_lt_mul (by rwa [← Nat.pow_succ])
  rw [Nat.mod_eq_of_lt hlt, ← Nat.one_le_div_iff (Nat.two_pow_pos j)]
  omega

theorem sel_iff {i : Nat} (hi : i ≤ 32) :
    sel denominator i = true ↔ 2 ^ (32 - i) ≤ denominator.toNat := by
  induction i with
  | zero =>
    have hlt := denominator.isLt
    simpa [sel] using hlt
  | succ i ih =>
    have hpow : 32 - i = 31 - i + 1 := by omega
    have hpow' : 32 - (i + 1) = 31 - i := by omega
    rw [sel, Bool.or_eq_true, ih (by omega), hpow, hpow']
    rcases Nat.lt_or_ge denominator.toNat (2 ^ (31 - i + 1)) with hlt | hge
    · rw [BitVec.getLsbD, testBit_top hlt, decide_eq_true_iff, or_iff_right (Nat.not_le.mpr hlt)]
    · refine iff_of_true (.inl hge) (le_trans ?_ hge)
      exact Nat.pow_le_pow_right (by decide) (by omega)

theorem dataa_toNat (hs : stageIn.toNat < 2 ^ k) :
    (addSubDataa numerator k stageIn).toNat =
      2 * stageIn.toNat + (numeratorIn numerator k).toNat := by
  rw [addSubDataa, BitVec.toNat_concat, BitVec.toNat_setWidth, Nat.mod_eq_of_lt hs, Nat.mul_comm]

theorem cout_iff : addSubCout denominator numerator k stageIn = true ↔
    denominator.toNat % 2 ^ (k + 1) ≤ (addSubDataa numerator k stageIn).toNat := by
  have ha := (addSubDataa numerator k stageIn).isLt
  have hb : denominator.toNat % 2 ^ (k + 1) < 2 ^ (k + 1) := Nat.mod_lt _ (Nat.two_pow_pos _)
  have hint := (addSubResultInt denominator numerator k stageIn).isLt
  rw [addSubCout, Bool.not_eq_true', BitVec.getLsbD, testBit_top hint, decide_eq_false_iff_not,
    addSubResultInt, BitVec.toNat_sub, BitVec.toNat_setWidth, BitVec.toNat_setWidth, addSubDatab,
    BitVec.toNat_setWidth]
  rw [Nat.pow_succ 2 (k + 1)]
  generalize (addSubDataa numerator k stageIn).toNat = a at *
  generalize denominator.toNat % 2 ^ (k + 1) = d at *
  generalize 2 ^ (k + 1) = p at *
  rw [Nat.mod_eq_of_lt (show a < p * 2 by omega), Nat.mod_eq_of_lt (show d < p * 2 by omega)]
  rcases Nat.lt_or_ge a d with hlt | hge
  · rw [Nat.mod_eq_of_lt (show p * 2 - d + a < p * 2 by omega)]
    omega
  · rw [show p * 2 - d + a = a - d + p * 2 by omega, Nat.add_mod_right,
      Nat.mod_eq_of_lt (show a - d < p * 2 by omega)]
    omega

theorem selnose_iff (denominator numerator : BitVec 32) (hk : k < 32)
    (hs : stageIn.toNat < 2 ^ k) :
    selnose denominator numerator k stageIn = true ↔
      2 * stageIn.toNat + (numeratorIn numerator k).toNat < denominator.toNat := by
  have hpow : 32 - (31 - k) = k + 1 := by omega
  have ha := (addSubDataa numerator k stageIn).isLt
  rw [← dataa_toNat hs, selnose, Bool.or_eq_true, Bool.not_eq_true', ← Bool.not_eq_true, cout_iff,
    Nat.not_le, sel_iff (by omega), hpow]
  rcases Nat.lt_or_ge denominator.toNat (2 ^ (k + 1)) with hlt | hge
  · rw [Nat.mod_eq_of_lt hlt, or_iff_left (Nat.not_le.mpr hlt)]
  · exact iff_of_true (.inr hge) (ha.trans_le hge)

theorem stageOut_toNat (hk : k < 32) (hs : stageIn.toNat < 2 ^ k) :
    (stageOut denominator numerator k stageIn).toNat =
      if 2 * stageIn.toNat + (numeratorIn numerator k).toNat < denominator.toNat then
        2 * stageIn.toNat + (numeratorIn numerator k).toNat
      else 2 * stageIn.toNat + (numeratorIn numerator k).toNat - denominator.toNat := by
  have hpow : 2 ^ (k + 1) ≤ 2 ^ 32 := Nat.pow_le_pow_right (by decide) hk
  have hpow' : 2 ^ k ≤ 2 ^ 31 := Nat.pow_le_pow_right (by decide) (Nat.le_of_lt_succ hk)
  have ha := (addSubDataa numerator k stageIn).isLt
  have hsel := selnose_iff denominator numerator hk hs
  rw [stageOut]
  cases hse : selnose denominator numerator k stageIn with
  | true =>
    rw [if_pos rfl, if_pos (hsel.mp hse), BitVec.toNat_concat, BitVec.toNat_setWidth,
      Nat.mod_eq_of_lt (hs.trans_le hpow'), Nat.mul_comm]
  | false =>
    rw [hse] at hsel
    have hle := Nat.not_lt.mp (mt hsel.mpr Bool.false_ne_true)
    rw [if_neg Bool.false_ne_true, if_neg (Nat.not_lt.mpr hle)]
    rw [← dataa_toNat hs] at hle ⊢
    have hb : denominator.toNat % 2 ^ (k + 1) = denominator.toNat :=
      Nat.mod_eq_of_lt (hle.trans_lt ha)
    rw [prestg, addSubResultInt, addSubDatab, BitVec.toNat_setWidth, BitVec.toNat_setWidth,
      BitVec.toNat_sub, BitVec.toNat_setWidth, BitVec.toNat_setWidth, BitVec.toNat_setWidth, hb]
    rw [Nat.pow_succ 2 (k + 1)]
    generalize (addSubDataa numerator k stageIn).toNat = a at *
    generalize 2 ^ (k + 1) = p at *
    rw [Nat.mod_eq_of_lt (show a < p * 2 by omega),
      Nat.mod_eq_of_lt (show denominator.toNat < p * 2 by omega),
      show p * 2 - denominator.toNat + a = a - denominator.toNat + p * 2 by omega,
      Nat.add_mod_right, Nat.mod_eq_of_lt (show a - denominator.toNat < p * 2 by omega),
      Nat.mod_eq_of_lt (show a - denominator.toNat < p by omega),
      Nat.mod_eq_of_lt (show a - denominator.toNat < 2 ^ 32 by omega)]

theorem upTo_lt (hk : k ≤ 32) : upTo numerator k < 2 ^ k := by
  rw [upTo, Nat.div_lt_iff_lt_mul (Nat.two_pow_pos _), ← Nat.pow_add, Nat.add_sub_cancel' hk]
  exact numerator.isLt

theorem double_mod (x b d : Nat) : (2 * x + b) % d = (2 * (x % d) + b) % d := by
  conv_lhs => rw [Nat.add_mod, Nat.mul_mod]
  conv_rhs => rw [Nat.add_mod, Nat.mul_mod, Nat.mod_mod]

theorem stageIn_toNat (denominator numerator : BitVec 32) (hk : k ≤ 32) :
    (Divider.stageIn denominator numerator k).toNat = upTo numerator k % denominator.toNat := by
  induction k with
  | zero =>
    have hzero : upTo numerator 0 = 0 := Nat.div_eq_of_lt numerator.isLt
    rw [hzero, Nat.zero_mod]
    rfl
  | succ k ih =>
    have hs := ih (Nat.le_of_succ_le hk)
    have hlt : upTo numerator k < 2 ^ k := upTo_lt (Nat.le_of_succ_le hk)
    have hbit := (numeratorIn numerator k).toNat_le
    rw [Divider.stageIn, stageOut_toNat hk (hs ▸ (Nat.mod_le _ _).trans_lt hlt), upTo_succ hk, hs,
      double_mod]
    rcases Nat.eq_zero_or_pos denominator.toNat with hd | hd
    · simp [hd]
    · have hmod := Nat.mod_lt (upTo numerator k) hd
      generalize upTo numerator k % denominator.toNat = r at *
      split
      next h => rw [Nat.mod_eq_of_lt h]
      next h =>
        conv_rhs => rw [Nat.mod_eq_sub_mod (Nat.le_of_not_lt h)]
        rw [Nat.mod_eq_of_lt (by omega)]

theorem selnose_stageIn (denominator numerator : BitVec 32) (hk : k < 32) :
    selnose denominator numerator k (Divider.stageIn denominator numerator k) = true ↔
      2 * (upTo numerator k % denominator.toNat) + (numeratorIn numerator k).toNat <
        denominator.toNat := by
  have hs := stageIn_toNat denominator numerator (Nat.le_of_lt hk)
  have hlt : upTo numerator k < 2 ^ k := upTo_lt (Nat.le_of_lt hk)
  rw [selnose_iff _ _ hk (hs ▸ (Nat.mod_le _ _).trans_lt hlt), hs]

theorem upTo_succ_div (numerator : BitVec 32) (hk : k < 32) (hd : 0 < denominator.toNat) :
    upTo numerator (k + 1) / denominator.toNat = 2 * (upTo numerator k / denominator.toNat) +
      (!selnose denominator numerator k (Divider.stageIn denominator numerator k)).toNat := by
  have hsel := selnose_stageIn denominator numerator hk
  have hbit := (numeratorIn numerator k).toNat_le
  have hmod := Nat.mod_lt (upTo numerator k) hd
  have hdiv := Nat.div_add_mod (upTo numerator k) denominator.toNat
  have hsum : 2 * upTo numerator k + (numeratorIn numerator k).toNat =
      2 * (upTo numerator k % denominator.toNat) + (numeratorIn numerator k).toNat +
        denominator.toNat * (2 * (upTo numerator k / denominator.toNat)) := by
    rw [Nat.mul_left_comm]
    omega
  rw [upTo_succ hk, hsum, Nat.add_mul_div_left _ _ hd, Nat.add_comm, Nat.add_left_cancel_iff]
  cases hse : selnose denominator numerator k (Divider.stageIn denominator numerator k) with
  | true => exact Nat.div_eq_of_lt (hsel.mp hse)
  | false =>
    rw [hse] at hsel
    have hle := Nat.not_lt.mp (mt hsel.mpr Bool.false_ne_true)
    refine Nat.div_eq_of_lt_le ?_ ?_
    · change 1 * denominator.toNat ≤ _
      omega
    · change _ < 2 * denominator.toNat
      omega

end Stage

theorem quotient_getLsbD (denominator numerator : BitVec 32) {i : Nat} (hi : i < 32) :
    (quotient denominator numerator).getLsbD i =
      !selnose denominator numerator (31 - i) (stageIn denominator numerator (31 - i)) := by
  simp [quotient, hi]

theorem divider_exact (denominator numerator : BitVec 32) :
    quotient denominator numerator = numerator.smtUDiv denominator ∧
      remainder denominator numerator = numerator % denominator := by
  constructor
  · refine BitVec.eq_of_getLsbD_eq fun i hi => ?_
    rw [quotient_getLsbD denominator numerator hi, BitVec.smtUDiv_eq]
    rcases Nat.eq_zero_or_pos denominator.toNat with hd | hd
    · have hsel : ¬selnose denominator numerator (31 - i)
          (stageIn denominator numerator (31 - i)) = true := by
        rw [selnose_stageIn _ _ (by omega), hd]
        exact Nat.not_lt_zero _
      have hzero : denominator = 0#32 := BitVec.eq_of_toNat_eq hd
      rw [if_pos hzero, BitVec.getLsbD_allOnes, Bool.eq_false_of_not_eq_true hsel,
        decide_eq_true hi]
      rfl
    · have hne : denominator ≠ 0#32 := by
        rintro rfl
        exact Nat.lt_irrefl _ hd
      have hstep := upTo_succ_div numerator (show 31 - i < 32 by omega) hd
      have hpow : 32 - (31 - i + 1) = i := by omega
      rw [if_neg hne, BitVec.getLsbD, BitVec.toNat_udiv, Nat.testBit_eq_decide_div_mod_eq,
        Nat.div_div_eq_div_mul, Nat.mul_comm, ← Nat.div_div_eq_div_mul]
      rw [upTo, hpow] at hstep
      rw [hstep, Nat.mul_add_mod]
      cases selnose denominator numerator (31 - i) (stageIn denominator numerator (31 - i)) <;> rfl
  · refine BitVec.eq_of_toNat_eq ?_
    rw [remainder, stageIn_toNat _ _ le_rfl, BitVec.toNat_umod, upTo, Nat.sub_self, Nat.pow_zero,
      Nat.div_one]

end PhotonCount.PlsCnt.Divider
