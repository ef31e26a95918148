import PhotonCount.Machine.Gray

/-! `a_graycounter_ndc.tdf` and `a_graycounter_rv6.tdf`: the two pointers of the FIFO count
in Gray code, with a parity that is worked out two steps ahead. -/

namespace PhotonCount.Dcfifo

open Machine Gray

structure Counter where
  counter : BitVec 14
  parity : Bool
  subParity0 : Bool
  subParity1 : Bool
  subParity2 : Bool
  deriving DecidableEq

namespace Counter

/-- After `aclr`, and at power-up (`PVALUE=1`). -/
def start : Counter := ⟨1#14, true, false, false, false⟩

def updown : Bool := true

section Wires

variable (cntEn : Bool) (c : Counter)

def parityCout : Bool := (!c.parity ^^ updown) && cntEn

/-- `cntr_cout[0]` to `cntr_cout[12]`. -/
def cntrCout : Nat → Bool
  | 0 => cntEn && c.parityCout cntEn
  | i + 1 => cntrCout i && !c.counter.getLsbD i

/-- The new value of bit `i`; the top bit flips with `cntr_cout[12]` alone. -/
def next : Nat → Bool
  | 0 => (cntEn && (c.counter.getLsbD 0 ^^ !c.parityCout cntEn)) || (!cntEn && c.counter.getLsbD 0)
  | i + 1 =>
    if i + 1 = 13 then c.counter.getLsbD 13 ^^ c.cntrCout cntEn 12
    else c.counter.getLsbD (i + 1) ^^ (c.counter.getLsbD i && c.cntrCout cntEn i)

def clk : Counter where
  counter := ofBits fun i => c.next cntEn i
  parity := (cntEn && (c.subParity0 ^^ c.subParity1 ^^ c.subParity2)) || (!cntEn && c.parity)
  subParity0 := (cntEn && xorBits c.counter 0 6) || (!cntEn && c.subParity0)
  subParity1 := (cntEn && xorBits c.counter 6 6) || (!cntEn && c.subParity1)
  subParity2 := (cntEn && xorBits c.counter 12 2) || (!cntEn && c.subParity2)

end Wires

structure Codes (c : Counter) (x : BitVec 14) : Prop where
  counter : c.counter = encode x
  parity : c.parity = x.getLsbD 0
  subParity : (c.subParity0 ^^ c.subParity1 ^^ c.subParity2) = !x.getLsbD 0

variable {c : Counter} {x : BitVec 14} {i : Nat}

theorem start_codes : start.Codes 1#14 := ⟨by decide, by decide, by decide⟩

theorem Codes.cntrCout (h : c.Codes x) : c.cntrCout true i = carries x (i + 1) := by
  induction i with
  | zero => simp [Counter.cntrCout, parityCout, updown, h.parity, carries]
  | succ i ih =>
    rw [Counter.cntrCout, ih, h.counter, getLsbD_encode]
    simp only [carries_succ]
    cases x.getLsbD i <;> simp

theorem Codes.next (h : c.Codes x) : c.next true i = (c.counter.getLsbD i ^^ flips x i) := by
  cases i with
  | zero => simp [Counter.next, parityCout, updown, h.parity, flips, carries]
  | succ i =>
    by_cases hi : i = 12
    · simp [Counter.next, hi, h.cntrCout, flips]
    · simp only [Counter.next, flips, h.cntrCout, carries_succ, h.counter, getLsbD_encode]
      cases x.getLsbD i <;> simp [hi, Bool.and_comm]

theorem Codes.clk (h : c.Codes x) : (c.clk true).Codes (x + 1#14) where
  counter := by
    apply BitVec.eq_of_getLsbD_eq
    intro i hi
    rw [Counter.clk, getLsbD_ofBits _ hi, h.next, h.counter, getLsbD_encode_add_one hi]
  parity := by
    rw [getLsbD_add_one (by decide)]
    simpa [Counter.clk, carries] using h.subParity
  subParity := by
    simp only [Counter.clk, h.counter, xorBits_encode, getLsbD_add_one (by decide : 0 < 14)]
    simp [carries]

theorem cntrCout_false (c : Counter) (i : Nat) : c.cntrCout false i = false := by
  induction i with
  | zero => rfl
  | succ i ih => rw [Counter.cntrCout, ih, Bool.false_and]

@[simp] theorem clk_false (c : Counter) : c.clk false = c := by
  have hnext : (ofBits fun i : Fin 14 => c.next false i) = c.counter := by
    apply BitVec.eq_of_getLsbD_eq
    intro i hi
    rw [getLsbD_ofBits _ hi]
    cases i with
    | zero => simp [Counter.next]
    | succ i => by_cases h : i = 12 <;> simp [Counter.next, cntrCout_false, h]
  simp [Counter.clk, hnext]

end Counter

end PhotonCount.Dcfifo
