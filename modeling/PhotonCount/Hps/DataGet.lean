import Mathlib.Data.BitVec
import Mathlib.Logic.Function.Basic
import PhotonCount.Hps.Readout
import PhotonCount.Machine.Stream

universe u

namespace PhotonCount.Hps.DataGet

open Machine

/-- Where the loop is: at the read of the status word, at the read of the data port, or over. -/
inductive Pc
  | status
  | data
  | done
  deriving DecidableEq

structure State (α : Type u) where
  pc : Pc
  i : Int
  data : Int → α
  fifo : List α

/-- The records that come in before a bus access, the word at CSR offset 4, and what the
data port reads when the FIFO is empty. -/
structure Bus (α : Type u) where
  arrivals : List α
  csr : BitVec 32
  stale : α

inductive Access (α : Type u)
  | status (empty : Bool)
  | store (i : Int) (a : α)
  | underflow

variable {α : Type u}

def status (b : Bus α) : BitVec 32 := b.csr &&& 0x3F#32

/-- `i++` and `i < MAX`. -/
def next (s : State α) : State α :=
  { s with i := s.i + 1, pc := if s.i + 1 < Readout.max then .status else .done }

def start (data : Int → α) (fifo : List α) : State α := ⟨.status, 0, data, fifo⟩

def arrive (b : Bus α) (s : State α) : State α := { s with fifo := s.fifo ++ b.arrivals }

def access (b : Bus α) (s : State α) : State α :=
  match s.pc with
  | .status =>
    if status b &&& 0x2#32 = 0#32 then { s with pc := .data } else next { s with i := s.i - 1 }
  | .data =>
    next { s with
      data := Function.update s.data s.i (s.fifo.headD b.stale)
      fifo := s.fifo.tail }
  | .done => s

def accessed (s : State α) : Option (Access α) :=
  match s.pc, s.fifo with
  | .status, fifo => some (.status fifo.isEmpty)
  | .data, a :: _ => some (.store s.i a)
  | .data, [] => some .underflow
  | .done, _ => none

def dataGet : Mealy (State α) (Bus α) (Access α) where
  step s b := access b (arrive b s)
  out s b := accessed (arrive b s)

/-- Bit 1 of the status word is set exactly if the FIFO is empty. -/
def Tells (s : State α) (b : Bus α) : Prop :=
  s.pc = .status → (b.csr.getLsbD 1 = true ↔ (arrive b s).fifo = [])

def Access.found : Access α → Bool
  | .status empty => !empty
  | _ => false

def Access.index : Access α → Option Int
  | .store i _ => some i
  | _ => none

section Loop

variable {s : State α} {b : Bus α} {seq : List α} {accesses : List (Access α)} {k : Nat}

theorem status_bit (b : Bus α) : status b &&& 0x2#32 = 0#32 ↔ b.csr.getLsbD 1 = false := by
  have htwo : 0x2#32 = BitVec.twoPow 32 1 := rfl
  have hbit : (status b).getLsbD 1 = b.csr.getLsbD 1 := by simp [status]
  rw [htwo, BitVec.and_twoPow, hbit]
  cases b.csr.getLsbD 1 <;> decide

theorem access_empty (hpc : s.pc = .status) (hi : s.i < (Readout.max : Int))
    (hb : b.csr.getLsbD 1 = true) : access b s = s := by
  have hbit : ¬ status b &&& 0x2#32 = 0#32 := by simp [status_bit, hb]
  cases s
  simp_all [access, next]

theorem access_found (hpc : s.pc = .status) (hb : b.csr.getLsbD 1 = false) :
    access b s = { s with pc := .data } := by
  simp [access, hpc, (status_bit b).mpr hb]

theorem access_store {a : α} {as : List α} (hpc : s.pc = .data) (hf : s.fifo = a :: as) :
    access b s = next { s with data := Function.update s.data s.i a, fifo := as } := by
  simp [access, hpc, hf]

theorem access_done (hpc : s.pc = .done) : access b s = s := by simp [access, hpc]

theorem accessed_done (hpc : s.pc = .done) : accessed s = none := by simp [accessed, hpc]

theorem next_pc (hi : s.i = k) :
    (next s).pc = if k + 1 < Readout.max then .status else .done := by
  simp only [next, hi]
  norm_cast

/-- The first `k` records of `seq` are in `data`, the others in the FIFO. -/
structure Drained (seq : List α) (accesses : List (Access α)) (s : State α) (k : Nat) :
    Prop where
  index : s.i = k
  fifo : s.fifo = seq.drop k
  le : k ≤ seq.length
  data : ∀ j < k, seq[j]? = some (s.data j)
  stores : accesses.filterMap Access.index = (List.range k).map Int.ofNat
  sound : Access.underflow ∉ accesses
  running : s.pc ≠ .done → k < Readout.max
  full : s.pc = .done → k = Readout.max
  found : accesses.countP Access.found = k + if s.pc = .data then 1 else 0
  filled : s.pc = .data → s.fifo ≠ []

theorem drained_start (data : Int → α) (seq : List α) : Drained seq [] (start data seq) 0 := by
  constructor <;> simp [start, Readout.max]

theorem Drained.arrived (h : Drained seq accesses s k) (b : Bus α) :
    Drained (seq ++ b.arrivals) accesses (arrive b s) k where
  index := h.index
  fifo := by rw [List.drop_append_of_le_length h.le, ← h.fifo, arrive]
  le := by
    rw [List.length_append]
    exact Nat.le_add_right_of_le h.le
  data j hj := by rw [List.getElem?_append_left (Nat.lt_of_lt_of_le hj h.le), h.data j hj]; rfl
  stores := h.stores
  sound := h.sound
  running := h.running
  full := h.full
  found := h.found
  filled hpc := by simp [arrive, h.filled hpc]

theorem Drained.lt (h : Drained seq accesses s k) (hpc : s.pc ≠ .done) :
    s.i < (Readout.max : Int) := by
  rw [h.index]
  exact_mod_cast h.running hpc

theorem Drained.empty (h : Drained seq accesses s k) (hpc : s.pc = .status) (hf : s.fifo = [])
    (hb : b.csr.getLsbD 1 = true) :
    Drained seq (accesses ++ (accessed s).toList) (access b s) k := by
  have hout : (accessed s).toList = [.status true] := by simp [accessed, hpc, hf]
  rw [access_empty hpc (h.lt (by simp [hpc])) hb, hout]
  exact { h with
    stores := by simpa [List.filterMap_cons, Access.index] using h.stores
    sound := by simpa using h.sound
    found := by simpa [Access.found] using h.found }

theorem Drained.poll (h : Drained seq accesses s k) (hpc : s.pc = .status)
    (hf : s.fifo ≠ []) (hb : b.csr.getLsbD 1 = false) :
    Drained seq (accesses ++ (accessed s).toList) (access b s) k := by
  have hrun := h.running (by simp [hpc])
  have hfound := h.found
  have hout : (accessed s).toList = [.status false] := by simp [accessed, hpc, hf]
  rw [access_found hpc hb, hout]
  exact { h with
    stores := by simpa [List.filterMap_cons, Access.index] using h.stores
    sound := by simpa using h.sound
    running := fun _ => hrun
    full := by simp
    found := by simpa [Access.found, hpc] using hfound
    filled := fun _ => hf }

theorem Drained.store (h : Drained seq accesses s k) (hpc : s.pc = .data) (b : Bus α) :
    Drained seq (accesses ++ (accessed s).toList) (access b s) (k + 1) := by
  obtain ⟨a, as, hf⟩ := List.exists_cons_of_ne_nil (h.filled hpc)
  have hout : (accessed s).toList = [.store k a] := by simp [accessed, hpc, hf, h.index]
  have hdrop := h.fifo
  rw [hf] at hdrop
  have hget : seq[k]? = some a := by
    rw [← List.head?_drop, ← hdrop, List.head?_cons]
  have hpc' : (access b s).pc = if k + 1 < Readout.max then .status else .done := by
    rw [access_store hpc hf]
    exact next_pc h.index
  have hrun := h.running (by simp [hpc])
  have hfound := h.found
  rw [hout]
  refine ⟨?_, ?_, ?_, ?_, ?_, ?_, ?_, ?_, ?_, ?_⟩
  · simp [access_store hpc hf, next, h.index]
  · rw [access_store hpc hf, ← List.tail_drop, ← hdrop]
    rfl
  · exact (List.getElem?_eq_some_iff.mp hget).1
  · intro j hj
    rw [access_store hpc hf]
    simp only [next, h.index]
    rcases Nat.lt_succ_iff_lt_or_eq.mp hj with hlt | rfl
    · rw [Function.update_of_ne (by exact_mod_cast Nat.ne_of_lt hlt)]
      exact h.data j hlt
    · rw [Function.update_self, hget]
  · simp [Access.index, h.stores, List.range_succ]
  · simpa using h.sound
  all_goals
    rw [hpc']
    split
    next hlt => simp [hlt, Access.found, hfound, hpc, Nat.ne_of_lt hlt]
    next hlt => simp [show k + 1 = Readout.max by omega, Access.found, hfound, hpc]

theorem Drained.step (h : Drained seq accesses s k) (hb : Tells s b) :
    ∃ k', Drained (seq ++ b.arrivals) (accesses ++ (dataGet.out s b).toList)
      (dataGet.step s b) k' := by
  have h := h.arrived b
  cases hpc : s.pc with
  | status =>
    have htells := hb hpc
    cases hbit : b.csr.getLsbD 1 with
    | true => exact ⟨k, h.empty hpc (htells.mp hbit) hbit⟩
    | false =>
      have hf : (arrive b s).fifo ≠ [] := fun hf =>
        Bool.false_ne_true (hbit.symm.trans (htells.mpr hf))
      exact ⟨k, h.poll hpc hf hbit⟩
  | data => exact ⟨k + 1, h.store hpc b⟩
  | done =>
    refine ⟨k, ?_⟩
    have hstep : dataGet.step s b = arrive b s := access_done hpc
    have hout : dataGet.out s b = none := accessed_done hpc
    rw [hstep, hout]
    simpa using h

def view (s : State α) : Readout.State α where
  pc := match s.pc with
    | .status => .status
    | .data => .data
    | .done => .send
  data := (List.range s.i.toNat).map fun j : Nat => s.data j

theorem view_start (data : Int → α) (fifo : List α) :
    view (start data fifo) = Readout.accept Readout.start := rfl

theorem Drained.view_data (h : Drained seq accesses s k) : (view s).data = seq.take k := by
  apply List.ext_getElem?
  intro j
  rw [List.getElem?_take, view, h.index, Int.toNat_natCast]
  by_cases hj : j < k
  · simp [hj, h.data j hj]
  · simp [hj]

theorem Drained.conserved (h : Drained seq accesses s k) : (view s).data ++ s.fifo = seq := by
  rw [h.view_data, h.fifo, List.take_append_drop]

def Access.read : Access α → Readout.State α → Readout.State α
  | .status empty => Readout.status empty
  | .store _ a => Readout.store a
  | .underflow => id

theorem Drained.view_status (h : Drained seq accesses s k) (hpc : s.pc = .status)
    (hb : b.csr.getLsbD 1 = true ↔ s.fifo = []) :
    view (access b s) = Readout.status s.fifo.isEmpty (view s) := by
  cases hbit : b.csr.getLsbD 1 with
  | true =>
    rw [access_empty hpc (h.lt (by simp [hpc])) hbit]
    simp [Readout.status, view, hb.mp hbit]
  | false =>
    have hf : s.fifo.isEmpty = false := by
      rw [List.isEmpty_eq_false_iff]
      exact fun hf => Bool.false_ne_true (hbit.symm.trans (hb.mpr hf))
    rw [access_found hpc hbit, hf]
    simp [Readout.status, view, hpc]

theorem Drained.view_store {a : α} {as : List α} (h : Drained seq accesses s k)
    (hpc : s.pc = .data) (hf : s.fifo = a :: as) :
    view (access b s) = Readout.store a (view s) := by
  have hlist : (List.range (k + 1)).map (fun j : Nat => Function.update s.data k a j) =
      (List.range k).map (fun j : Nat => s.data j) ++ [a] := by
    rw [List.range_succ, List.map_append]
    congr 1
    · exact List.map_congr_left fun j hj => Function.update_of_ne
        (by exact_mod_cast Nat.ne_of_lt (List.mem_range.mp hj)) _ _
    · simp
  have hpc' := next_pc (s := { s with data := Function.update s.data s.i a, fifo := as }) h.index
  rw [access_store hpc hf]
  simp only [view, Readout.store, hpc']
  by_cases hlt : k + 1 < Readout.max <;> simp [next, h.index, hlt, hlist]

theorem Drained.view_access (h : Drained seq accesses s k)
    (hb : s.pc = .status → (b.csr.getLsbD 1 = true ↔ s.fifo = [])) :
    view (access b s) = (accessed s).toList.foldl (fun r a => a.read r) (view s) := by
  cases hpc : s.pc with
  | status =>
    have hout : (accessed s).toList = [.status s.fifo.isEmpty] := by simp [accessed, hpc]
    rw [hout]
    exact h.view_status hpc (hb hpc)
  | data =>
    obtain ⟨a, as, hf⟩ := List.exists_cons_of_ne_nil (h.filled hpc)
    have hout : (accessed s).toList = [.store s.i a] := by simp [accessed, hpc, hf]
    rw [hout]
    exact h.view_store hpc hf
  | done => rw [access_done hpc, accessed_done hpc]; rfl

/-- The bus accesses of a loop that never waits. -/
def turn (s : State α) : Int := 2 * s.i + if s.pc = .data then 1 else 0

theorem turn_access (hpc : s.pc ≠ .done) (hb : b.csr.getLsbD 1 = false) :
    turn (access b s) = turn s + 1 := by
  cases hpc' : s.pc with
  | status =>
    rw [access_found hpc' hb]
    simp [turn, hpc']
  | data =>
    have hnext : (access b s).pc ≠ .data := by
      simp only [access, hpc', next]
      split <;> simp
    have hi : (access b s).i = s.i + 1 := by simp [access, hpc', next]
    simp only [turn, hnext, hi, hpc', if_true, if_false]
    omega
  | done => exact absurd hpc' hpc

end Loop

section Run

variable (data : Int → α) (fifo : List α) (bus : Nat → Bus α)

def state (n : Nat) : State α := dataGet.states (start data fifo) bus n

def accesses (n : Nat) : List (Access α) := dataGet.emissions (start data fifo) bus 0 n

def stream (n : Nat) : List α := fifo ++ (List.range n).flatMap fun k => (bus k).arrivals

variable {data fifo bus}

theorem drained_states (hb : ∀ n, Tells (state data fifo bus n) (bus n)) (n : Nat) :
    ∃ k, Drained (stream fifo bus n) (accesses data fifo bus n) (state data fifo bus n) k := by
  induction n with
  | zero =>
    rw [stream, List.range_zero, List.flatMap_nil, List.append_nil]
    exact ⟨0, drained_start data fifo⟩
  | succ n ih =>
    obtain ⟨k, h⟩ := ih
    have hstream : stream fifo bus (n + 1) = stream fifo bus n ++ (bus n).arrivals := by
      simp [stream, List.range_succ]
    rw [hstream, accesses, Mealy.emissions_succ, ← accesses]
    exact h.step (hb n)

theorem view_states (hb : ∀ n, Tells (state data fifo bus n) (bus n)) (n : Nat) :
    view (state data fifo bus n) = (accesses data fifo bus n).foldl (fun r a => a.read r)
      (Readout.accept Readout.start) := by
  induction n with
  | zero => exact view_start data fifo
  | succ n ih =>
    obtain ⟨k, h⟩ := drained_states hb n
    rw [accesses, Mealy.emissions_succ, List.foldl_append, ← accesses, ← ih]
    exact (h.arrived (bus n)).view_access (hb n)

theorem done_of_found (hb : ∀ n, Tells (state data fifo bus n) (bus n)) {n : Nat}
    (hn : Readout.max ≤ (accesses data fifo bus n).countP Access.found) :
    ∃ n, (state data fifo bus n).pc = .done := by
  by_cases hpc : (state data fifo bus n).pc = .done
  · exact ⟨n, hpc⟩
  · obtain ⟨k, h⟩ := drained_states hb n
    have hfound := h.found
    have hrun := h.running hpc
    have hdata : (state data fifo bus n).pc = .data := by
      by_contra hne
      simp only [hne, if_false] at hfound
      omega
    simp only [hdata, if_true] at hfound
    refine ⟨n + 1, ?_⟩
    have hnext := (h.arrived (bus n)).store hdata (bus n)
    by_contra hne
    have := hnext.running hne
    omega

theorem takes_next_records (hb : ∀ n, Tells (state data fifo bus n) (bus n))
    (hfound : ∃ n, Readout.max ≤ (accesses data fifo bus n).countP Access.found) :
    ∃ n, (state data fifo bus n).pc = .done ∧
      Access.underflow ∉ accesses data fifo bus n ∧
      (accesses data fifo bus n).filterMap Access.index = (List.range Readout.max).map Int.ofNat ∧
      (∀ j < Readout.max, (stream fifo bus n)[j]? = some ((state data fifo bus n).data j)) ∧
      (state data fifo bus n).fifo = (stream fifo bus n).drop Readout.max := by
  obtain ⟨m, hm⟩ := hfound
  obtain ⟨n, hpc⟩ := done_of_found hb hm
  obtain ⟨k, h⟩ := drained_states hb n
  obtain rfl := h.full hpc
  exact ⟨n, hpc, h.sound, h.stores, h.data, h.fifo⟩

theorem turn_states (hcsr : ∀ n, (bus n).csr.getLsbD 1 = false) {n : Nat}
    (hpc : (state data fifo bus n).pc ≠ .done) : turn (state data fifo bus n) = n := by
  induction n with
  | zero => rfl
  | succ n ih =>
    have hstep : state data fifo bus (n + 1) =
        access (bus n) (arrive (bus n) (state data fifo bus n)) := rfl
    rw [hstep] at hpc ⊢
    have hpc' : (arrive (bus n) (state data fifo bus n)).pc ≠ .done := fun hd => by
      rw [access_done hd] at hpc
      exact hpc hd
    rw [turn_access hpc' (hcsr n)]
    exact congrArg (· + 1) (ih hpc')

theorem done_of_flowing (hb : ∀ n, Tells (state data fifo bus n) (bus n))
    (hcsr : ∀ n, (bus n).csr.getLsbD 1 = false) :
    (state data fifo bus (2 * Readout.max)).pc = .done := by
  obtain ⟨k, h⟩ := drained_states hb (2 * Readout.max)
  by_contra hpc
  have hturn := turn_states hcsr hpc
  have hrun := h.running hpc
  rw [turn, h.index] at hturn
  split at hturn <;> omega

theorem found_of_flowing (hb : ∀ n, Tells (state data fifo bus n) (bus n))
    (hcsr : ∀ n, (bus n).csr.getLsbD 1 = false) :
    ∃ n, Readout.max ≤ (accesses data fifo bus n).countP Access.found := by
  obtain ⟨k, h⟩ := drained_states hb (2 * Readout.max)
  refine ⟨2 * Readout.max, ?_⟩
  rw [h.found, h.full (done_of_flowing hb hcsr)]
  exact Nat.le_add_right _ _

def steadyBus (n : Nat) : Bus Nat := ⟨[n], 0#32, 0⟩

theorem takes_next_records_steady :
    ∃ n, (state (fun _ => 0) [] steadyBus n).pc = .done ∧
      Access.underflow ∉ accesses (fun _ => 0) [] steadyBus n := by
  have hb : ∀ n, Tells (state (fun _ => 0) [] steadyBus n) (steadyBus n) := by
    intro n _
    simp [steadyBus, arrive]
  have hcsr : ∀ n, (steadyBus n).csr.getLsbD 1 = false := fun _ => by simp [steadyBus]
  obtain ⟨n, hpc, hsound, -⟩ := takes_next_records hb (found_of_flowing hb hcsr)
  exact ⟨n, hpc, hsound⟩

end Run

end PhotonCount.Hps.DataGet
