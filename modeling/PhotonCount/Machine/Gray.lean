import Mathlib.Data.BitVec

namespace PhotonCount.Machine.Gray

variable {w : Nat} {x y : BitVec w} {i j k : Nat}

section Bits

def ofBits (f : Fin w → Bool) : BitVec w := (BitVec.iunfoldr (fun i _ => ((), f i)) ()).2

theorem getLsbD_ofBits (f : Fin w → Bool) (hi : i < w) : (ofBits f).getLsbD i = f ⟨i, hi⟩ :=
  BitVec.iunfoldr_getLsbD (fun _ => ()) ⟨i, hi⟩ fun _ => rfl

def xorBits (g : BitVec w) : Nat → Nat → Bool
  | _, 0 => false
  | i, k + 1 => g.getLsbD i ^^ xorBits g (i + 1) k

def carries (x : BitVec w) (i : Nat) : Bool := decide (∀ j < i, x.getLsbD j = true)

theorem carries_succ : carries x (i + 1) = (carries x i && x.getLsbD i) := by
  rw [Bool.eq_iff_iff, Bool.and_eq_true, carries, carries, decide_eq_true_iff, decide_eq_true_iff]
  exact Nat.forall_lt_succ_right

theorem getLsbD_add_one (hi : i < w) :
    (x + 1#w).getLsbD i = (x.getLsbD i ^^ carries x i) := by
  rw [BitVec.getLsbD_add hi]
  cases i with
  | zero => simp [carries, hi]
  | succ i =>
    have hone : (1#w).getLsbD (i + 1) = false := by simp
    rw [BitVec.carry_succ_one i x (by omega), hone, Bool.false_xor]
    simp only [carries, Nat.lt_succ_iff]

theorem getLsbD_add_half (hi : i < w) :
    (x + BitVec.twoPow w (w - 1)).getLsbD i = (x.getLsbD i ^^ decide (i + 1 = w)) := by
  have hcarry : BitVec.carry i x (BitVec.twoPow w (w - 1)) false = false := by
    have hdvd : 2 ^ i ∣ 2 ^ (w - 1) := Nat.pow_dvd_pow 2 (by omega)
    have hlt : 2 ^ (w - 1) < 2 ^ w := Nat.pow_lt_pow_right (by decide) (by omega)
    rw [BitVec.carry, BitVec.toNat_twoPow, Nat.mod_eq_of_lt hlt, Nat.mod_eq_zero_of_dvd hdvd]
    simpa using Nat.mod_lt _ (Nat.two_pow_pos i)
  have hbit : (decide (w - 1 < w) && decide (w - 1 = i)) = decide (i + 1 = w) := by
    rw [← Bool.decide_and]
    exact decide_eq_decide.mpr (by omega)
  rw [BitVec.getLsbD_add hi, hcarry, BitVec.getLsbD_twoPow, hbit, Bool.xor_false]

end Bits

section Code

def encode (x : BitVec w) : BitVec w := x ^^^ (x >>> 1)

@[simp] theorem getLsbD_encode : (encode x).getLsbD i = (x.getLsbD i ^^ x.getLsbD (i + 1)) := by
  simp [encode, Nat.add_comm 1 i]

theorem xorBits_encode : xorBits (encode x) i k = (x.getLsbD i ^^ x.getLsbD (i + k)) := by
  induction k generalizing i with
  | zero => simp [xorBits]
  | succ k ih =>
    rw [xorBits, ih, getLsbD_encode, show i + 1 + k = i + (k + 1) by omega]
    cases x.getLsbD (i + 1) <;> simp

/-- Bit `i` of a number is the exclusive or of the bits of its code from bit `i` on. -/
def decode (g : BitVec w) : BitVec w := ofBits fun i => xorBits g i (w - i)

theorem decode_encode (x : BitVec w) : decode (encode x) = x := by
  apply BitVec.eq_of_getLsbD_eq
  intro i hi
  rw [decode, getLsbD_ofBits _ hi, xorBits_encode, show i + (w - i) = w by omega,
    BitVec.getLsbD_of_ge x w (le_refl w), Bool.xor_false]

theorem encode_inj : encode x = encode y ↔ x = y := by
  refine ⟨fun h => ?_, congrArg encode⟩
  rw [← decode_encode x, h, decode_encode]

/-- The bit in which the codes of `x` and of `x + 1` differ. -/
def flips (x : BitVec w) (i : Nat) : Bool := carries x i && (!x.getLsbD i || decide (i + 1 = w))

theorem not_flips_of_lt (h : flips x i = true) (hij : i < j) (hj : j < w) : flips x j = false := by
  rw [← Bool.not_eq_true]
  intro h'
  simp only [flips, carries, Bool.and_eq_true, Bool.or_eq_true, decide_eq_true_iff] at h h'
  have hset := h'.1 i hij
  simp only [hset, Bool.not_true, Bool.false_eq_true, false_or] at h
  omega

theorem flips_unique (hi : i < w) (hj : j < w) (h : flips x i = true) (h' : flips x j = true) :
    i = j := by
  rcases Nat.lt_trichotomy i j with hlt | heq | hlt
  · rw [not_flips_of_lt h hlt hj] at h'
    cases h'
  · exact heq
  · rw [not_flips_of_lt h' hlt hi] at h
    cases h

theorem getLsbD_encode_add_one (hi : i < w) :
    (encode (x + 1#w)).getLsbD i = ((encode x).getLsbD i ^^ flips x i) := by
  rw [getLsbD_encode, getLsbD_encode, getLsbD_add_one hi, flips]
  by_cases hw : i + 1 = w
  · simp [hw, BitVec.getLsbD_of_ge]
  · rw [getLsbD_add_one (by omega : i + 1 < w), carries_succ]
    cases x.getLsbD i <;> cases x.getLsbD (i + 1) <;> cases carries x i <;> simp [hw]

theorem eq_encode_of_bits {g : BitVec w}
    (h : ∀ i < w, g.getLsbD i = (encode x).getLsbD i ∨
      g.getLsbD i = (encode (x + 1#w)).getLsbD i) :
    g = encode x ∨ g = encode (x + 1#w) := by
  have hsame i (hi : i < w) (hf : flips x i = false) : g.getLsbD i = (encode x).getLsbD i := by
    simpa [getLsbD_encode_add_one hi, hf] using h i hi
  by_cases hk : ∃ k < w, flips x k = true ∧ g.getLsbD k ≠ (encode x).getLsbD k
  · obtain ⟨k, hk, hf, hne⟩ := hk
    refine .inr (BitVec.eq_of_getLsbD_eq fun i hi => ?_)
    cases hfi : flips x i with
    | false => rw [hsame i hi hfi, getLsbD_encode_add_one hi, hfi, Bool.xor_false]
    | true =>
      obtain rfl := flips_unique hi hk hfi hf
      exact (h i hi).resolve_left hne
  · refine .inl (BitVec.eq_of_getLsbD_eq fun i hi => ?_)
    cases hfi : flips x i with
    | false => exact hsame i hi hfi
    | true =>
      by_contra hne
      exact hk ⟨i, hi, hfi, hne⟩

theorem getLsbD_encode_add_half (hi : i < w) :
    (encode (x + BitVec.twoPow w (w - 1))).getLsbD i =
      ((encode x).getLsbD i ^^ decide (w ≤ i + 2)) := by
  rw [getLsbD_encode, getLsbD_encode, getLsbD_add_half hi]
  by_cases hw : i + 1 = w
  · subst hw
    simp [BitVec.getLsbD_of_ge]
  · rw [getLsbD_add_half (by omega : i + 1 < w)]
    have h : decide (i + 1 + 1 = w) = decide (w ≤ i + 2) := decide_eq_decide.mpr (by omega)
    cases x.getLsbD i <;> simp [hw, h]

end Code

end PhotonCount.Machine.Gray
