import PhotonCount.PlsCnt.Counts
import PhotonCount.PlsCnt.TimeBase

namespace PhotonCount.PlsCnt

open Machine

structure Cycle where
  inputs : Inputs
  photons : Nat
  deriving DecidableEq

def Cycle.events (c : Cycle) : List Event := .clk c.inputs :: List.replicate c.photons .pho

def Cycle.Quiet (c : Cycle) : Prop := c.inputs.reset = false ∧ c.inputs.write = false

def clocked : Mealy Regs Cycle Word where
  step s c := plsCnt.run s c.events
  out s c := plsCnt.out s (.clk c.inputs)

def events (cs : List Cycle) : List Event := cs.flatMap Cycle.events

variable {s : Regs} {cs : List Cycle}

@[simp] theorem events_nil : events [] = [] := rfl
@[simp] theorem events_cons (c : Cycle) (cs : List Cycle) :
    events (c :: cs) = .clk c.inputs :: (List.replicate c.photons .pho ++ events cs) := rfl
@[simp] theorem events_append (cs ds : List Cycle) : events (cs ++ ds) = events cs ++ events ds :=
  List.flatMap_append

theorem outputs_replicate_pho (s : Regs) (n : Nat) :
    plsCnt.outputs s (List.replicate n .pho) = [] := by
  induction n generalizing s with
  | zero => rfl
  | succ n ih =>
    rw [List.replicate_succ, Mealy.outputs_cons, ih]
    rfl

theorem run_replicate_pho (s : Regs) (n : Nat) :
    plsCnt.run s (List.replicate n .pho) = { s with phoCnt := s.phoCnt + BitVec.ofNat 32 n } := by
  induction n generalizing s with
  | zero => simp
  | succ n ih =>
    rw [List.replicate_succ, Mealy.run_cons, ih]
    change ({ s with phoCnt := s.phoCnt + 1#32 + BitVec.ofNat 32 n } : Regs) = _
    congr 1
    rw [BitVec.add_assoc, BitVec.add_comm 1#32, ← BitVec.ofNat_add]

theorem clocked_step (s : Regs) (c : Cycle) :
    clocked.step s c =
      { clk c.inputs s with phoCnt := s.phoCnt + BitVec.ofNat 32 c.photons } := by
  have h : clocked.step s c = plsCnt.run (clk c.inputs s) (List.replicate c.photons .pho) := rfl
  rw [h, run_replicate_pho, clk_phoCnt]

theorem abs_clocked {c : Cycle} (hc : c.Quiet) :
    (abs (clocked.step s c)).stamp = (Meter.tick (2 ^ 32) (s.tri1 = 1#2) (abs s)).stamp ∧
      (abs (clocked.step s c)).pending =
        (Meter.tick (2 ^ 32) (s.tri1 = 1#2) (abs s)).pending := by
  have h : Meter.tick (2 ^ 32) (s.tri1 = 1#2) (abs s) = abs (clk c.inputs s) := by
    rw [← abs_clk hc.1]
    simp only [meterEvent, hc.2, Bool.false_eq_true, if_false]
    rfl
  rw [h, clocked_step]
  exact ⟨rfl, rfl⟩

theorem clocked_tao {c : Cycle} (hc : c.Quiet) (h0 : s.tao ≠ 0#32) :
    (clocked.step s c).tao = s.tao := by
  have h := step_tao (e := .clk c.inputs) ⟨hc.1, by simp [hc.2]⟩ hc.2 h0
  rw [clocked_step]
  exact h

theorem run_clocked (s : Regs) (cs : List Cycle) : clocked.run s cs = plsCnt.run s (events cs) := by
  induction cs generalizing s with
  | nil => rfl
  | cons c cs ih =>
    rw [Mealy.run_cons, ih]
    simp [clocked, Cycle.events]

theorem outputs_clocked (s : Regs) (cs : List Cycle) :
    clocked.outputs s cs = plsCnt.outputs s (events cs) := by
  induction cs generalizing s with
  | nil => rfl
  | cons c cs ih =>
    rw [Mealy.outputs_cons, ih]
    simp [clocked, Cycle.events, outputs_replicate_pho]

def records (c : clocked.Consecutive s) : plsCnt.Consecutive s where
  before := events c.before
  first := .clk c.first.inputs
  body := List.replicate c.first.photons .pho ++ events c.body
  last := .clk c.last.inputs
  output₁ := c.output₁
  output₂ := c.output₂
  emits₁ := by
    have h := c.emits₁
    rwa [run_clocked] at h
  silent := by
    have h := c.silent
    rw [outputs_clocked, run_clocked] at h
    simpa [outputs_replicate_pho] using h
  emits₂ := by
    have h := c.emits₂
    rw [run_clocked, events_append, events_cons] at h
    exact h

theorem records_trace (c : clocked.Consecutive s) : (records c).trace <+: events c.trace := by
  simp [Mealy.Consecutive.trace, Mealy.Consecutive.inputs, records]

theorem events_quiet (h : ∀ c ∈ cs, c.Quiet) :
    ∀ e ∈ events cs, e.Running ∧ e.isWrite = false := by
  induction cs with
  | nil => simp
  | cons c cs ih =>
    rw [List.forall_mem_cons] at h
    obtain ⟨hr, hw⟩ := h.1
    simp only [events_cons, List.forall_mem_cons, List.forall_mem_append]
    refine ⟨⟨⟨hr, by simp [hw]⟩, hw⟩, fun e he => ?_, ih h.2⟩
    rw [List.eq_of_mem_replicate he]
    exact ⟨trivial, rfl⟩

theorem phoEdges_replicate_pho (n : Nat) : phoEdges (List.replicate n .pho) = n := by
  simp [phoEdges, List.countP_replicate, Event.isClk]

theorem clkEdges_replicate_pho (n : Nat) : clkEdges (List.replicate n .pho) = 0 := by
  simp [clkEdges, List.countP_replicate, Event.isClk]

theorem phoEdges_events (cs : List Cycle) : phoEdges (events cs) = (cs.map (·.photons)).sum := by
  induction cs with
  | nil => rfl
  | cons c cs ih => simp [ih, phoEdges_replicate_pho, Event.isClk]

theorem clkEdges_events (cs : List Cycle) : clkEdges (events cs) = cs.length := by
  induction cs with
  | nil => rfl
  | cons c cs ih => simp [ih, clkEdges_replicate_pho, Event.isClk]

theorem phoEdges_records (c : clocked.Consecutive s) :
    phoEdges (records c).inputs = ((c.first :: c.body).map (·.photons)).sum := by
  simp [Mealy.Consecutive.inputs, records, phoEdges_replicate_pho, phoEdges_events, Event.isClk]

theorem clkEdges_records (c : clocked.Consecutive s) :
    clkEdges (records c).inputs = c.inputs.length := by
  simp [Mealy.Consecutive.inputs, records, clkEdges_replicate_pho, clkEdges_events, Event.isClk]

end PhotonCount.PlsCnt
