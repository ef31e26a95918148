import Mathlib.Data.BitVec

/-! `Pulse_counter_controller/main.c`: the server that programs the three intervals. -/

namespace PhotonCount.Hps.Controller

/-- Byte `k` of `buff`, cleared and then filled by one `read`; plain `char` is unsigned. -/
def buff (received : List (BitVec 8)) (k : Nat) : BitVec 32 :=
  (((received.take 12)[k]?).getD 0#8).setWidth 32

def word (received : List (BitVec 8)) (k : Nat) : BitVec 32 :=
  buff received k ||| buff received (k + 1) <<< 8 ||| buff received (k + 2) <<< 16 |||
    buff received (k + 3) <<< 24

structure Setting where
  intg : BitVec 32
  triIntg : BitVec 32
  simIntg : BitVec 32
  deriving DecidableEq

def Setting.default : Setting := ⟨5000#32, 10000000#32, 10#32⟩

def Setting.decode (received : List (BitVec 8)) : Setting :=
  ⟨word received 0, word received 4, word received 8⟩

/-- Where `main` is: at one of the three assignments of `setting`, or in its loop. -/
inductive Pc
  | counter
  | triSim
  | tri
  | accept
  | read
  | send
  | close
  deriving DecidableEq

structure State where
  pc : Pc
  setting : Setting
  connected : Bool
  deriving DecidableEq

def start : State := ⟨.counter, .default, false⟩

def assigned (s : State) : State :=
  match s.pc with
  | .counter => { s with pc := .triSim }
  | .triSim => { s with pc := .tri }
  | .tri => { s with pc := if s.connected then .send else .accept }
  | _ => s

inductive Action
  | accept
  | read (received : List (BitVec 8))
  | send
  | close
  deriving DecidableEq

def step (s : State) (a : Action) : State :=
  match s.pc, a with
  | .accept, .accept => { s with pc := .read, connected := true }
  | .read, .read received =>
    { s with
      setting := .decode received
      pc := if (Setting.decode received).intg ≠ 0#32 then .counter else .close }
  | .send, .send => { s with pc := .close }
  | .close, .close => { s with pc := .accept, connected := false }
  | _, _ => s

def Nonzero (s : State) : Prop := s.pc = .counter → s.setting.intg ≠ 0#32

section Message

variable {received sent : List (BitVec 8)} {k j : Nat}

def byte (received : List (BitVec 8)) (k : Nat) : BitVec 8 := ((received.take 12)[k]?).getD 0#8

theorem buff_byte (received : List (BitVec 8)) (k : Nat) :
    buff received k = (byte received k).setWidth 32 := rfl

theorem extract_word (received : List (BitVec 8)) (k : Nat) {j : Nat} (hj : j < 4) :
    (word received k).extractLsb' (8 * j) 8 = byte received (k + j) := by
  have hhigh : ∀ k i, 8 ≤ i → (byte received k).getLsbD i = false := fun k i hi =>
    BitVec.getLsbD_of_ge _ _ hi
  apply BitVec.eq_of_getLsbD_eq
  intro i hi
  simp only [word, buff_byte]
  obtain rfl | rfl | rfl | rfl : j = 0 ∨ j = 1 ∨ j = 2 ∨ j = 3 := by omega
  · simp [hi, show i < 32 by omega, show i < 16 by omega, show i < 24 by omega]
  · simp [hi, show 8 + i < 32 by omega, show 8 + i < 16 by omega, show 8 + i < 24 by omega]
  · simp [hi, show 16 + i < 32 by omega, show 16 + i < 24 by omega,
      show 16 + i - 8 = 8 + i by omega, hhigh k (16 + i) (by omega)]
  · simp [hi, show 24 + i < 32 by omega, show 24 + i - 8 = 16 + i by omega,
      show 24 + i - 16 = 8 + i by omega, hhigh k (24 + i) (by omega),
      hhigh (k + 1) (16 + i) (by omega)]

theorem word_eq_iff (k : Nat) :
    word received k = word sent k ↔ ∀ j < 4, byte received (k + j) = byte sent (k + j) := by
  constructor
  · intro h j hj
    rw [← extract_word received k hj, h, extract_word sent k hj]
  · intro h
    have h0 := h 0 (by decide)
    have h1 := h 1 (by decide)
    have h2 := h 2 (by decide)
    have h3 := h 3 (by decide)
    simp only [Nat.add_zero] at h0
    simp only [word, buff_byte, h0, h1, h2, h3]

theorem decode_eq_iff :
    Setting.decode received = Setting.decode sent ↔ ∀ k < 12, byte received k = byte sent k := by
  simp only [Setting.decode, Setting.mk.injEq, word_eq_iff]
  constructor
  · rintro ⟨h0, h4, h8⟩ k hk
    rcases (by omega : k < 4 ∨ (4 ≤ k ∧ k < 8) ∨ 8 ≤ k) with h | ⟨h, h'⟩ | h
    · simpa using h0 k h
    · simpa [Nat.add_sub_cancel' h] using h4 (k - 4) (by omega)
    · simpa [Nat.add_sub_cancel' h] using h8 (k - 8) (by omega)
  · intro h
    exact ⟨fun j hj => h _ (by omega), fun j hj => h _ (by omega), fun j hj => h _ (by omega)⟩

theorem decode_received (hr : received <+: sent) (hlen : sent.length = 12) :
    Setting.decode received = Setting.decode sent ↔
      ∀ b ∈ sent.drop received.length, b = 0#8 := by
  obtain ⟨rest, rfl⟩ := hr
  rw [decode_eq_iff, List.drop_left]
  rw [List.length_append] at hlen
  have hsent : ∀ k, byte (received ++ rest) k = ((received ++ rest)[k]?).getD 0#8 := by
    intro k
    rw [byte, List.take_of_length_le (by rw [List.length_append]; omega)]
  have hreceived : ∀ k, byte received k = (received[k]?).getD 0#8 := by
    intro k
    rw [byte, List.take_of_length_le (by omega)]
  simp only [hsent, hreceived]
  constructor
  · intro h b hb
    obtain ⟨j, hj, rfl⟩ := List.getElem_of_mem hb
    have hk := h (received.length + j) (by omega)
    rw [List.getElem?_append_right (by omega), List.getElem?_eq_none (by omega)] at hk
    simpa [hj] using hk.symm
  · intro h k hk
    by_cases hlt : k < received.length
    · rw [List.getElem?_append_left hlt]
    · rw [List.getElem?_append_right (by omega), List.getElem?_eq_none (by omega)]
      have hmem := h _ (List.getElem_mem (by omega : k - received.length < rest.length))
      simp [List.getElem?_eq_getElem (by omega : k - received.length < rest.length), hmem]

end Message

variable {s : State}

theorem nonzero_start : Nonzero start := fun _ => by decide

theorem assigned_pc (s : State) : (assigned s).pc ≠ .counter := by
  unfold assigned
  split
  next => simp
  next => simp
  next => split <;> simp
  next h _ _ => exact h

theorem nonzero_assigned (s : State) : Nonzero (assigned s) := fun h => absurd h (assigned_pc s)

theorem nonzero_step (h : Nonzero s) (a : Action) : Nonzero (step s a) := by
  unfold step
  split
  next => simp [Nonzero]
  next received _ =>
    by_cases h0 : (Setting.decode received).intg = 0#32 <;> simp [Nonzero, h0]
  next => simp [Nonzero]
  next => simp [Nonzero]
  next => exact h

theorem step_pc (h : s.pc ≠ .counter) {a : Action} (ha : ∀ received, a ≠ .read received) :
    (step s a).pc ≠ .counter := by
  unfold step
  split
  next => simp
  next received _ => exact absurd rfl (ha received)
  next => simp
  next => simp
  next => exact h

end PhotonCount.Hps.Controller
