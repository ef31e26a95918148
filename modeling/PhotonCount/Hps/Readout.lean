import Mathlib.Data.List.Basic

/-! `Pulse_counter_FIFO_read_out/main.c`: the server that drains the FIFO. -/

universe u

namespace PhotonCount.Hps.Readout

def max : Nat := 1024 * 8

/-- Where `main` is: in `accept`, at the two bus accesses of `hps_data_get`, or in
`send_all` and `close`. -/
inductive Pc
  | accept
  | status
  | data
  | send
  | close
  deriving DecidableEq

/-- `data` holds the records taken since `accept`; the loop's `i` is their number. -/
structure State (α : Type u) where
  pc : Pc
  data : List α
  deriving DecidableEq

variable {α : Type u}

def start : State α := ⟨.accept, []⟩

def accept (s : State α) : State α :=
  if s.pc = .accept then { pc := .status, data := [] } else s

/-- The status word has bit 1 set when the FIFO is empty; the loop then asks again. -/
def status (empty : Bool) (s : State α) : State α :=
  if s.pc = .status ∧ empty = false then { s with pc := .data } else s

def store (a : α) (s : State α) : State α :=
  { data := s.data ++ [a], pc := if s.data.length + 1 < max then .status else .send }

def send (s : State α) : State α := if s.pc = .send then { s with pc := .close } else s

def close (s : State α) : State α := if s.pc = .close then { s with pc := .accept } else s

variable {s : State α}

section Data

theorem accept_data (s : State α) : (accept s).data.Sublist s.data := by
  unfold accept
  split <;> simp

@[simp] theorem status_data (empty : Bool) (s : State α) : (status empty s).data = s.data := by
  unfold status
  split <;> rfl

@[simp] theorem send_data (s : State α) : (send s).data = s.data := by
  unfold send
  split <;> rfl

@[simp] theorem close_data (s : State α) : (close s).data = s.data := by
  unfold close
  split <;> rfl

end Data

section Polled

theorem accept_pc (h : (accept s).pc = .data) : s.pc = .data := by
  unfold accept at h
  split at h
  · cases h
  · exact h

theorem status_pc {empty : Bool} (h : (status empty s).pc = .data) :
    empty = false ∨ s.pc = .data := by
  unfold status at h
  split at h
  next hs => exact .inl hs.2
  next => exact .inr h

theorem store_pc (a : α) (s : State α) : (store a s).pc ≠ .data := by
  unfold store
  split <;> simp

theorem send_pc (h : (send s).pc = .data) : s.pc = .data := by
  unfold send at h
  split at h
  · cases h
  · exact h

theorem close_pc (h : (close s).pc = .data) : s.pc = .data := by
  unfold close at h
  split at h
  · cases h
  · exact h

end Polled

section Counted

structure Counted (s : State α) : Prop where
  filling : s.pc = .status ∨ s.pc = .data → s.data.length < max
  full : s.pc = .send → s.data.length = max

theorem counted_start : Counted (start : State α) := ⟨by simp [start], by simp [start]⟩

theorem Counted.accept (h : Counted s) : Counted (accept s) := by
  unfold Readout.accept
  split
  · exact ⟨by simp [max], by simp⟩
  · exact h

theorem Counted.status (h : Counted s) (empty : Bool) : Counted (status empty s) := by
  unfold Readout.status
  split
  next hs => exact ⟨fun _ => h.filling (.inl hs.1), by simp⟩
  next => exact h

theorem Counted.store (h : Counted s) (hs : s.pc = .data) (a : α) : Counted (store a s) := by
  have hlt := h.filling (.inr hs)
  unfold Readout.store
  split
  next hf => exact ⟨by simpa using hf, by simp⟩
  next hf => exact ⟨by simp, by simp; omega⟩

theorem Counted.send (h : Counted s) : Counted (send s) := by
  unfold Readout.send
  split
  · exact ⟨by simp, by simp⟩
  · exact h

theorem Counted.close (h : Counted s) : Counted (close s) := by
  unfold Readout.close
  split
  · exact ⟨by simp, by simp⟩
  · exact h

end Counted

end PhotonCount.Hps.Readout
