import PhotonCount.Machine.LittleEndian
import PhotonCount.Machine.Stream

namespace PhotonCount.Hps.SendAll

open Machine LittleEndian

/-- An array of `uint64_t` as the bytes that `send_all` gets. -/
def memory (data : List (BitVec 64)) : List Byte := data.flatMap (bytes 8)

/-- The whole records in what a client has got. -/
def complete : List Byte → List (BitVec 64)
  | b₀ :: b₁ :: b₂ :: b₃ :: b₄ :: b₅ :: b₆ :: b₇ :: bs =>
    BitVec.ofNat 64 (value [b₀, b₁, b₂, b₃, b₄, b₅, b₆, b₇]) :: complete bs
  | _ => []

/-- `ptr` counts from the start of the buffer; `size_t` has 32 bits. -/
structure State where
  ptr : Nat
  length : BitVec 32
  returned : Option Bool
  deriving DecidableEq

/-- `while (length > 0)`. -/
def loop (ptr : Nat) (length : BitVec 32) : State :=
  ⟨ptr, length, if 0#32 < length then none else some true⟩

def start (length : Nat) : State := loop 0 (BitVec.ofNat 32 length)

/-- The rest of the loop's body once `send` has returned `i`. -/
def sent (s : State) (i : Int) : State :=
  if i < 1 then { s with returned := some false }
  else loop (s.ptr + i.toNat) (s.length - BitVec.ofInt 32 i)

def sendAll (buffer : List Byte) : Mealy State Int (List Byte) where
  step s i := if s.returned = none then sent s i else s
  out s i := if s.returned = none ∧ 1 ≤ i then some ((buffer.drop s.ptr).take i.toNat) else none

def Takes (s : State) (i : Int) : Prop := s.returned = none → i ≤ s.length.toNat

@[simp] theorem memory_cons (w : BitVec 64) (ws : List (BitVec 64)) :
    memory (w :: ws) = bytes 8 w ++ memory ws := rfl

theorem length_memory (data : List (BitVec 64)) : (memory data).length = 8 * data.length := by
  induction data with
  | nil => rfl
  | cons w ws ih =>
    simp only [memory_cons, List.length_append, length_bytes, ih, List.length_cons]
    omega

theorem memory_lt {data : List (BitVec 64)} (h : data.length < 2 ^ 29) :
    (memory data).length < 2 ^ 32 := by
  rw [length_memory]
  omega

@[simp] theorem complete_nil : complete [] = [] := rfl

theorem complete_append {bs : List Byte} (h : bs.length = 8) (cs : List Byte) :
    complete (bs ++ cs) = BitVec.ofNat 64 (value bs) :: complete cs := by
  match bs, h with
  | [_, _, _, _, _, _, _, _], _ => rfl

theorem complete_of_short {bs : List Byte} (h : bs.length < 8) : complete bs = [] := by
  unfold complete
  split
  next => simp at h; omega
  next => rfl

theorem ofNat_value_bytes (w : BitVec 64) : BitVec.ofNat 64 (value (bytes 8 w)) = w := by
  apply BitVec.eq_of_toNat_eq
  rw [value_bytes, BitVec.toNat_ofNat]
  have := w.isLt
  omega

theorem complete_take (data : List (BitVec 64)) (p : Nat) :
    complete ((memory data).take p) = data.take (p / 8) := by
  induction data generalizing p with
  | nil => simp [memory]
  | cons w ws ih =>
    rw [memory_cons]
    by_cases hp : p < 8
    · rw [complete_of_short, Nat.div_eq_of_lt hp, List.take_zero]
      simp only [List.length_take]
      omega
    · obtain ⟨q, rfl⟩ := Nat.exists_eq_add_of_le (Nat.le_of_not_lt hp)
      have htake : (bytes 8 w ++ memory ws).take (8 + q) = bytes 8 w ++ (memory ws).take q := by
        rw [List.take_append, length_bytes, Nat.add_sub_cancel_left,
          List.take_of_length_le (by simp)]
      rw [htake, complete_append (length_bytes 8 w), ofNat_value_bytes, ih,
        Nat.add_div_left q (by decide), List.take_succ_cons]

theorem complete_memory (data : List (BitVec 64)) : complete (memory data) = data := by
  have h := complete_take data (memory data).length
  rwa [List.take_length, length_memory, Nat.mul_div_cancel_left _ (by decide), List.take_length]
    at h

theorem complete_prefix {data : List (BitVec 64)} {bs : List Byte} (h : bs <+: memory data) :
    complete bs <+: data := by
  rw [List.prefix_iff_eq_take.mp h, complete_take]
  exact List.take_prefix _ _

section Loop

variable {buffer handed : List Byte} {s : State} {i : Int}

structure Handed (buffer handed : List Byte) (s : State) : Prop where
  taken : handed = buffer.take s.ptr
  rest : s.ptr + s.length.toNat = buffer.length
  complete : s.returned = some true → s.length = 0#32

theorem loop_returned (ptr : Nat) (length : BitVec 32) :
    (loop ptr length).returned = if length = 0#32 then some true else none := by
  by_cases h : length = 0#32
  · simp [loop, h]
  · have hpos : 0#32 < length := by
      rw [BitVec.lt_def]
      exact Nat.pos_of_ne_zero fun hz => h (BitVec.eq_of_toNat_eq hz)
    simp [loop, h, hpos]

theorem Handed.loop {ptr : Nat} {length : BitVec 32} (hrest : ptr + length.toNat = buffer.length) :
    Handed buffer (buffer.take ptr) (SendAll.loop ptr length) := by
  refine ⟨rfl, hrest, fun h => ?_⟩
  rw [loop_returned] at h
  split at h
  next h0 => exact h0
  next => cases h

theorem Handed.start (hlen : buffer.length < 2 ^ 32) :
    Handed buffer [] (start buffer.length) := by
  have hrest : 0 + (BitVec.ofNat 32 buffer.length).toNat = buffer.length := by
    rw [BitVec.toNat_ofNat, Nat.mod_eq_of_lt hlen, Nat.zero_add]
  exact Handed.loop hrest

theorem length_sub (h1 : 1 ≤ i) (hi : i ≤ s.length.toNat) :
    (s.length - BitVec.ofInt 32 i).toNat + i.toNat = s.length.toNat := by
  have hlt := s.length.isLt
  obtain ⟨k, rfl⟩ : ∃ k : Nat, i = k := ⟨i.toNat, by omega⟩
  rw [BitVec.ofInt_natCast, BitVec.toNat_sub, BitVec.toNat_ofNat, Int.toNat_natCast]
  omega

theorem Handed.step (h : Handed buffer handed s) (hi : Takes s i) :
    Handed buffer (handed ++ ((sendAll buffer).out s i).toList.flatten)
      ((sendAll buffer).step s i) := by
  by_cases hr : s.returned = none
  · by_cases h1 : 1 ≤ i
    · have hsub := length_sub h1 (hi hr)
      have hrest := h.rest
      simp only [sendAll, hr, h1, sent, and_self, if_true, Option.toList_some,
        List.flatten_singleton, Int.not_lt.mpr h1, if_false, h.taken]
      rw [← List.take_add]
      exact Handed.loop (by omega)
    · simp only [sendAll, hr, h1, sent, and_false, if_true, if_false, Option.toList_none,
        List.flatten_nil, List.append_nil, Int.not_le.mp h1]
      exact ⟨h.taken, h.rest, by simp⟩
  · simpa [sendAll, hr] using h

theorem Handed.all (h : Handed buffer handed s) (hr : s.returned = some true) :
    handed = buffer := by
  have hptr : buffer.length = s.ptr := by simpa [h.complete hr] using h.rest.symm
  rw [h.taken, List.take_of_length_le (Nat.le_of_eq hptr)]

end Loop

section Calls

variable {buffer : List Byte} {i : Nat → Int}

def state (buffer : List Byte) (i : Nat → Int) (n : Nat) : State :=
  (sendAll buffer).states (start buffer.length) i n

def handedOver (buffer : List Byte) (i : Nat → Int) (n : Nat) : List Byte :=
  ((sendAll buffer).emissions (start buffer.length) i 0 n).flatten

theorem handed_states (hlen : buffer.length < 2 ^ 32) (hi : ∀ n, Takes (state buffer i n) (i n))
    (n : Nat) : Handed buffer (handedOver buffer i n) (state buffer i n) := by
  induction n with
  | zero => exact Handed.start hlen
  | succ n ih =>
    rw [handedOver, Mealy.emissions_succ, List.flatten_append, ← handedOver]
    exact ih.step (hi n)

theorem handedOver_prefix (hlen : buffer.length < 2 ^ 32)
    (hi : ∀ n, Takes (state buffer i n) (i n)) (n : Nat) : handedOver buffer i n <+: buffer := by
  rw [(handed_states hlen hi n).taken]
  exact List.take_prefix _ _

theorem state_or (h1 : ∀ n, (state buffer i n).returned = none → 1 ≤ i n) (n : Nat) :
    (state buffer i n).returned = some true ∨
      (state buffer i n).returned = none ∧ n ≤ (state buffer i n).ptr := by
  induction n with
  | zero =>
    have hret := loop_returned 0 (BitVec.ofNat 32 buffer.length)
    split at hret
    next => exact .inl hret
    next => exact .inr ⟨hret, Nat.zero_le _⟩
  | succ n ih =>
    rw [state, Mealy.states_succ, ← state]
    rcases ih with hr | ⟨hr, hn⟩
    · simp [sendAll, hr]
    · have h := h1 n hr
      have hret := loop_returned ((state buffer i n).ptr + (i n).toNat)
        ((state buffer i n).length - BitVec.ofInt 32 (i n))
      simp only [sendAll, hr, if_true, sent, Int.not_lt.mpr h, if_false]
      split at hret
      next => exact .inl hret
      next => exact .inr ⟨hret, by simp only [loop]; omega⟩

theorem returns_true (hlen : buffer.length < 2 ^ 32) (hi : ∀ n, Takes (state buffer i n) (i n))
    (h1 : ∀ n, (state buffer i n).returned = none → 1 ≤ i n) :
    ∃ n, (state buffer i n).returned = some true ∧ handedOver buffer i n = buffer := by
  have h := handed_states hlen hi (buffer.length + 1)
  have hrest := h.rest
  have hret : (state buffer i (buffer.length + 1)).returned = some true := by
    rcases state_or h1 (buffer.length + 1) with hr | ⟨-, hn⟩
    · exact hr
    · omega
  exact ⟨_, hret, h.all hret⟩

theorem returns_false {n : Nat} (hr : (state buffer i n).returned = none) (h1 : i n < 1) :
    (state buffer i (n + 1)).returned = some false := by
  rw [state, Mealy.states_succ, ← state]
  simp [sendAll, hr, sent, h1]

end Calls

end PhotonCount.Hps.SendAll
