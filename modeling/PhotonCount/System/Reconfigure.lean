import PhotonCount.System.Laws

namespace PhotonCount.System

open Machine PlsCnt Ghrd Hps

theorem out_send {s : Sys} {batch : List Tagged} :
    sys.out s .send = some (.batch batch) ↔ s.readout.pc = .send ∧ s.readout.data = batch := by
  simp [sys]

theorem pending_accept {s : Sys} (h : s.readout.pc = .accept) :
    pending (sys.step s .accept) = pipeline s := by
  simp only [pending, sys, Readout.accept, h, if_true, List.nil_append]
  rfl

/-- The controller writes the counter's register, takes no message afterwards, and the
readout server sends a batch to a connection it accepts after the write. -/
structure Measurement where
  state : Sys
  reachable : sys.Reachable Start state
  programs : state.controller.pc = .counter
  triIn : Bool
  photons : Nat
  before : List Label
  after : List Label
  unread : ∀ l ∈ before ++ after, l.reads = false
  accepts : (sys.run (sys.step state (.assign triIn photons)) before).readout.pc = .accept
  batch : List Tagged
  sends : sys.out (sys.run (sys.step state (.assign triIn photons)) (before ++ .accept :: after))
    .send = some (.batch batch)

namespace Measurement

variable (m : Measurement)

def intg : BitVec 32 := m.state.controller.setting.intg

def written : Sys := sys.step m.state (.assign m.triIn m.photons)

/-- The client has got its `done` before it connects to the readout server. -/
def Answered : Prop := .done ∈ sys.outputs m.written m.before

theorem intg_ne_zero : m.intg ≠ 0#32 := (reachable_sound m.reachable).nonzero m.programs

theorem programmed : Programmed m.intg m.written :=
  (reachable_sound m.reachable).programmed m.programs _ _

theorem batch_of_setting : m.batch.length = Readout.max ∧
    ∃ old new, m.batch = old ++ new ∧ old.Sublist (pipeline m.written) ∧
      ∀ r ∈ new, r.tao = m.intg := by
  have hunread := List.forall_mem_append.mp m.unread
  have haccepts : (sys.run m.written m.before).readout.pc = .accept := m.accepts
  have hsends : sys.out (sys.run m.written (m.before ++ .accept :: m.after)) .send =
      some (.batch m.batch) := m.sends
  rw [Mealy.run_append, Mealy.run_cons] at hsends
  obtain ⟨hpc, hbatch⟩ := out_send.mp hsends
  obtain ⟨hbefore, hcarries⟩ := m.programmed.run m.intg_ne_zero hunread.1
  obtain ⟨haccept, -⟩ := hbefore.step m.intg_ne_zero (l := .accept) rfl
  obtain ⟨-, hcarries'⟩ := haccept.run m.intg_ne_zero hunread.2
  constructor
  · rw [← hbatch]
    have hreach : sys.Reachable Start m.written := m.reachable.step _
    exact (reachable_sound (((hreach.run m.before).step .accept).run m.after)).counted.full hpc
  · have hpending := hcarries'.pending
    rw [pending_accept haccepts] at hpending
    refine ((hcarries.pipeline.trans hpending).trans (.of_sublist ?_)).split
    rw [← hbatch]
    exact List.sublist_append_left _ _

end Measurement

def boot : Sys where
  board := ⟨PlsCnt.clk ⟨true, false, false, 0#32⟩ (PlsCnt.powerUp 0#32), 0#8, 0#64, false⟩
  streamTao := 0#32
  bufferTao := 0#32
  fifo := .empty
  triSim := 0#32
  tri := 0#32
  controller := Controller.start
  readout := Readout.start

theorem boot_start : Start boot where
  cnt := ⟨_, _, rfl, rfl⟩
  counterState := rfl
  dataBufferValid := rfl
  fifo := rfl
  controller := rfl
  readout := rfl

def message (intg : BitVec 8) : List Label :=
  [.controller .accept, .controller (.read [intg, 0, 0, 0, 100, 0, 0, 0, 10, 0, 0, 0])]

def history : List Label :=
  List.replicate 3 (.assign false 0) ++ message 3 ++ List.replicate 3 (.assign false 0) ++
    [.controller .send, .controller .close] ++ List.replicate 5 (.tick false 0) ++ message 2

def answer : List Label :=
  [.assign false 0, .assign false 0, .controller .send, .controller .close, .tick false 0]

def turn : List Label := [.tick false 0, .tick false 0, .status, .data]

def turns (n : Nat) : List Label := (List.replicate n turn).flatten

structure Steady (s : Sys) : Prop where
  tao : s.board.cnt.tao = 2#32
  odd : s.board.cnt.clkCnt.toNat % 2 = 1
  rdy : s.board.cnt.rdy = true
  counterState : s.board.link.counterState = 0#8
  dataBufferValid : s.board.link.dataBufferValid = false
  fifo : s.fifo.items = []

variable {s : Sys}

theorem Steady.first (h : Steady s) : (clock (idle false 0) s).board.cnt.tao = 2#32 ∧
    (clock (idle false 0) s).board.cnt.clkCnt = s.board.cnt.clkCnt + 1#32 ∧
    (clock (idle false 0) s).board.link = ⟨1#8, s.board.cnt.cntStream, true⟩ ∧
    (clock (idle false 0) s).fifo = s.fifo := by
  have h0 : s.board.cnt.tao ≠ 0#32 := by
    rw [h.tao]
    decide
  have hin : modTao s.board.cnt ≠ 0 := by simp [modTao, h.tao, h.odd]
  refine ⟨?_, ?_, ?_, ?_⟩
  · rw [clock_tao rfl rfl h0]
    exact h.tao
  · rw [clock_clkCnt rfl rfl h0]
    simp [hin, idle]
  · rw [clock_link rfl, h.rdy, transfer_take h.counterState]
  · rw [clock_eq rfl]
    simp [h.dataBufferValid]

theorem Steady.second (h : Steady s) :
    (∃ r, (clock (idle false 0) (clock (idle false 0) s)).fifo.items = [r]) ∧
      Steady { clock (idle false 0) (clock (idle false 0) s) with fifo := .empty } := by
  obtain ⟨htao, hcnt, hlink, hfifo⟩ := h.first
  have hodd := h.odd
  have hitems := h.fifo
  generalize clock (idle false 0) s = t at *
  have h0 : t.board.cnt.tao ≠ 0#32 := by
    rw [htao]
    decide
  have hb : modTao t.board.cnt = 0 := by
    rw [modTao, htao, hcnt, BitVec.toNat_add]
    simp
    omega
  refine ⟨⟨⟨s.board.cnt.cntStream, t.bufferTao⟩, ?_⟩, ?_, ?_, ?_, ?_, ?_, rfl⟩
  · rw [clock_eq rfl]
    simp [hlink, hfifo, Fifo.push, hitems]
  · exact (clock_tao rfl rfl h0).trans htao
  · change (clock (idle false 0) t).board.cnt.clkCnt.toNat % 2 = 1
    rw [clock_clkCnt rfl rfl h0, hcnt]
    split
    next hw => cases hw
    split
    · rfl
    · simp only [BitVec.toNat_add]
      omega
  · change (clock (idle false 0) t).board.cnt.rdy = true
    rw [clock_rdy rfl rfl h0]
    exact (emits_iff rfl h0).mpr ⟨rfl, hb⟩
  · change (clock (idle false 0) t).board.link.counterState = 0#8
    rw [clock_link rfl, transfer_busy (by rw [hlink])]
  · change (clock (idle false 0) t).board.link.dataBufferValid = false
    rw [clock_link rfl, transfer_busy (by rw [hlink])]

theorem Steady.turn (h : Steady s) (hpc : s.readout.pc = .status) :
    Steady (sys.run s turn) ∧ ∃ r, (sys.run s turn).readout = Readout.store r s.readout := by
  obtain ⟨⟨r, hr⟩, hsteady⟩ := h.second
  obtain ⟨f, hpop, hf⟩ := Fifo.pop_of_items hr
  have hrun : sys.run s System.turn =
      { clock (idle false 0) (clock (idle false 0) s) with
        fifo := f, readout := Readout.store r s.readout } := by
    simp only [System.turn, sys, Mealy.run_cons, Mealy.run_nil, hr, Readout.status, clock_readout,
      hpc, List.isEmpty_cons, and_self, if_true, data, hpop]
    rfl
  rw [hrun]
  exact ⟨⟨hsteady.tao, hsteady.odd, hsteady.rdy, hsteady.counterState, hsteady.dataBufferValid, hf⟩,
    r, rfl⟩

theorem Steady.turns {n : Nat} (h : Steady s) (hn : s.readout.data.length + n = Readout.max)
    (hpc : s.readout.pc = if n = 0 then .send else .status) :
    s.readout.data <+: (sys.run s (turns n)).readout.data ∧
      (sys.run s (System.turns n)).readout.pc = .send := by
  induction n generalizing s with
  | zero => exact ⟨List.prefix_refl _, hpc⟩
  | succ n ih =>
    obtain ⟨hsteady, r, hr⟩ := h.turn hpc
    have hlen : (sys.run s System.turn).readout.data.length = s.readout.data.length + 1 := by
      simp [hr, Readout.store]
    obtain ⟨hpre, hsend⟩ := ih hsteady (by omega) (by
      rw [hr, Readout.store]
      by_cases h0 : n = 0
      · rw [if_neg (by omega), if_pos h0]
      · rw [if_pos (by omega), if_neg h0])
    have hturns : System.turns (n + 1) = System.turn ++ System.turns n := by
      simp [System.turns, List.replicate_succ]
    rw [hturns, Mealy.run_append]
    refine ⟨List.IsPrefix.trans ?_ hpre, hsend⟩
    simp [hr, Readout.store]

def opened : Sys :=
  sys.run (sys.step (sys.run boot history) (.assign false 0)) (answer ++ [.accept, .status, .data])

theorem opened_readout : opened.readout = ⟨.status, [⟨3#64, 3#32⟩]⟩ := by decide

theorem opened_steady : Steady opened where
  tao := by decide
  odd := by decide
  rdy := by decide
  counterState := by decide
  dataBufferValid := by decide
  fifo := by decide

theorem turn_unread : ∀ l ∈ turn, l.reads = false := by decide

theorem turns_unread (n : Nat) : ∀ l ∈ turns n, l.reads = false := by
  intro l hl
  obtain ⟨t, ht, hlt⟩ := List.mem_flatten.mp hl
  rw [List.eq_of_mem_replicate ht] at hlt
  exact turn_unread l hlt

section Remeasured

variable {n : Nat}

theorem opened_turns (hn : 1 + n = Readout.max) :
    opened.readout.data <+: (sys.run opened (turns n)).readout.data ∧
      (sys.run opened (turns n)).readout.pc = .send := by
  apply opened_steady.turns
  · rw [opened_readout]
    exact hn
  · rw [opened_readout, if_neg]
    rintro rfl
    cases hn

def remeasured (hn : 1 + n = Readout.max) : Measurement where
  state := sys.run boot history
  reachable := (Mealy.Reachable.start boot_start).run history
  programs := by decide
  triIn := false
  photons := 0
  before := answer
  after := .status :: .data :: turns n
  unread := by
    rw [List.forall_mem_append, List.forall_mem_cons, List.forall_mem_cons]
    exact ⟨by decide, rfl, rfl, turns_unread _⟩
  accepts := by decide
  batch := (sys.run opened (turns n)).readout.data
  sends := by
    have hrun : sys.run (sys.step (sys.run boot history) (.assign false 0))
        (answer ++ .accept :: .status :: .data :: turns n) = sys.run opened (turns n) := by
      simp only [opened, Mealy.run_append, Mealy.run_cons, Mealy.run_nil]
    rw [hrun]
    exact out_send.mpr ⟨(opened_turns hn).2, rfl⟩

theorem remeasured_answered (hn : 1 + n = Readout.max) : (remeasured hn).Answered := by
  change Output.done ∈ sys.outputs (sys.step (sys.run boot history) (.assign false 0)) answer
  decide

theorem remeasured_intg (hn : 1 + n = Readout.max) : (remeasured hn).intg = 2#32 := by
  change (sys.run boot history).controller.setting.intg = 2#32
  decide

theorem mem_remeasured (hn : 1 + n = Readout.max) : ⟨3#64, 3#32⟩ ∈ (remeasured hn).batch :=
  (opened_turns hn).1.subset (by rw [opened_readout]; exact List.mem_singleton_self _)

end Remeasured

/-- A record emitted before the change of `Intg` is sent to the client that has made it. -/
theorem stale_record : ¬ ∀ m : Measurement, m.Answered → ∀ r ∈ m.batch, r.tao = m.intg := by
  intro h
  have hn : 1 + 8191 = Readout.max := rfl
  have := h (remeasured hn) (remeasured_answered hn) _ (mem_remeasured hn)
  rw [remeasured_intg] at this
  cases this

end PhotonCount.System
