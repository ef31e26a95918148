import Mathlib.Data.BitVec
import Mathlib.Tactic.Ring

namespace PhotonCount.Machine.LittleEndian

abbrev Byte := BitVec 8

variable {m n k : Nat}

def bytes (n : Nat) (w : BitVec m) : List Byte :=
  (List.range n).map fun k => w.extractLsb' (8 * k) 8

def value : List Byte → Nat
  | [] => 0
  | b :: bs => b.toNat + 256 * value bs

@[simp] theorem length_bytes (n : Nat) (w : BitVec m) : (bytes n w).length = n := by
  simp [bytes]

theorem bytes_append (n k : Nat) (w : BitVec m) :
    bytes (n + k) w = bytes n w ++ bytes k (w >>> (8 * n)) := by
  simp only [bytes, List.range_add, List.map_append, List.map_map]
  congr 1
  apply List.map_congr_left
  intro j _
  apply BitVec.eq_of_getLsbD_eq
  intro l hl
  simp [hl, Nat.mul_add, Nat.add_assoc]

theorem value_append (as bs : List Byte) :
    value (as ++ bs) = value as + 256 ^ as.length * value bs := by
  induction as with
  | nil => simp [value]
  | cons a as ih =>
    simp only [List.cons_append, value, ih, List.length_cons]
    ring

theorem value_bytes (n : Nat) (w : BitVec m) : value (bytes n w) = w.toNat % 256 ^ n := by
  induction n generalizing w with
  | zero => simp [bytes, value, Nat.mod_one]
  | succ n ih =>
    have hsplit := bytes_append 1 n w
    rw [Nat.add_comm 1 n] at hsplit
    rw [hsplit, value_append, ih]
    simp [bytes, value, Nat.pow_succ', Nat.mod_mul, Nat.shiftRight_eq_div_pow]

theorem bytes_injective {v w : BitVec m} (hn : m ≤ 8 * n) (h : bytes n v = bytes n w) : v = w := by
  have hpow : 2 ^ m ≤ 256 ^ n := by
    rw [show 256 = 2 ^ 8 from rfl, ← Nat.pow_mul]
    exact Nat.pow_le_pow_right (by decide) hn
  have hvalue := congrArg value h
  rw [value_bytes, value_bytes, Nat.mod_eq_of_lt (v.isLt.trans_le hpow),
    Nat.mod_eq_of_lt (w.isLt.trans_le hpow)] at hvalue
  exact BitVec.eq_of_toNat_eq hvalue

end PhotonCount.Machine.LittleEndian
