import PhotonCount.Dcfifo.Laws
import PhotonCount.FifoPls.Defs

namespace PhotonCount.FifoPls

open Machine PlsCnt Dcfifo

section Runs

variable (s : State) (cs : List Clock)

def accepted : Mealy State Clock Word :=
  fifoPls.observe fun s c => (written s.fifo c.edge).map Prod.snd

theorem accepted_append (cs ds : List Clock) :
    accepted.outputs s (cs ++ ds) =
      accepted.outputs s cs ++ accepted.outputs (fifoPls.run s cs) ds := by
  rw [Mealy.outputs_append, accepted, Mealy.run_observe]

theorem accepted_cons (c : Clock) (cs : List Clock) :
    accepted.outputs s (c :: cs) =
      (accepted.out s c).toList ++ accepted.outputs (fifoPls.step s c) cs := rfl

theorem accepted_concat (cs : List Clock) (c : Clock) :
    accepted.outputs s (cs ++ [c]) =
      accepted.outputs s cs ++ (accepted.out (fifoPls.run s cs) c).toList := by
  rw [accepted_append, accepted_cons]
  exact congrArg _ (List.append_nil _)

def offered (cs : List Clock) : List Word :=
  cs.filterMap fun c => if c.wrreq then some c.data else none

/-- Writes a 1 to the overflow bit of `event_register`. -/
def Slave.ClearsOverflow (a : Slave) : Prop :=
  a.write = true ∧ a.address = 2#3 ∧ a.writedata.getLsbD 4 = true

end Runs

structure Stands (s : State) (cs : List Clock) (n : Counts) : Prop where
  tracks : Tracks (fifoPls.run s.reset cs).fifo n
  holds : Holds (fifoPls.run s.reset cs).fifo n (accepted.outputs s.reset cs)
  put : fifoPls.outputs s.reset cs = (accepted.outputs s.reset cs).take n.rd.read

section Stands

variable {s : State} {cs : List Clock} {n : Counts}

theorem Stands.step (h : Stands s cs n) (c : Clock) :
    Stands s (cs ++ [c]) (follow (fifoPls.run s.reset cs).fifo c.edge n) := by
  refine ⟨?_, ?_, ?_⟩
  · rw [Mealy.run_append]
    exact h.tracks.step c.edge
  · rw [Mealy.run_append, accepted_concat]
    exact h.holds.step h.tracks c.edge
  · rw [Mealy.outputs_append, Mealy.outputs_cons, Mealy.outputs_nil, List.append_nil, h.put,
      accepted_concat]
    exact h.holds.take_step h.tracks c.edge

theorem exists_stands (s : State) (cs : List Clock) : ∃ n, Stands s cs n := by
  induction cs using List.reverseRecOn with
  | nil => exact ⟨.zero, aclr_tracks s.fifo, aclr_holds s.fifo, rfl⟩
  | append_singleton cs c ih =>
    obtain ⟨n, h⟩ := ih
    exact ⟨_, h.step c⟩

theorem Stands.read (h : Stands s cs n) : n.rd.read = (fifoPls.outputs s.reset cs).length := by
  rw [h.put, List.length_take, Nat.min_eq_left (h.holds.read_le h.tracks)]

theorem synced (s : State) (cs : List Clock) :
    (fifoPls.run s.reset cs).fifo.wr.wraclr = (fifoPls.run s.reset cs).fifo.rd.rdaclr := by
  induction cs using List.reverseRecOn with
  | nil => rfl
  | append_singleton cs c ih =>
    rw [Mealy.run_append]
    exact step_together ih ⟨rfl, rfl⟩

theorem out_accepted {c : Clock} (h : s.fifo.wr.validWrreq c.wrreq = true) :
    accepted.out s c = some c.data := by
  simp [accepted, Mealy.observe, written, Clock.edge, h]

theorem Stands.accepts (h : Stands s cs n) {c : Clock} (hc : c.wrreq = true)
    (hq : (fifoPls.run s.reset cs).fifo.wr.wraclr.q = true)
    (hroom : (accepted.outputs s.reset cs).length < depth) :
    (accepted.outputs s.reset (cs ++ [c])).length = (accepted.outputs s.reset cs).length + 1 := by
  have hvalid : (fifoPls.run s.reset cs).fifo.wr.validWrreq c.wrreq = true := by
    rw [validWrreq_iff h.tracks.wr h.tracks.sound, ← h.holds.length]
    exact ⟨hc, by omega, hq⟩
  rw [accepted_concat, List.length_append, out_accepted hvalid]
  rfl

theorem outputs_quiet {s : State} (h : ∀ c ∈ cs, c.rdreq = false) : fifoPls.outputs s cs = [] := by
  induction cs generalizing s with
  | nil => rfl
  | cons c cs ih =>
    have hout : fifoPls.out s c = none := by
      simp [fifoPls, dcfifo, Clock.edge, h c (by simp), Rd.validRdreq]
    rw [Mealy.outputs_cons, hout, ih fun c hc => h c (by simp [hc])]
    rfl

def State.blank : State := ⟨.blank, .reset, .reset, .reset, .reset⟩

def Slave.none : Slave := ⟨0#3, false, false, 0#32⟩

def Clock.nop : Clock := ⟨false, 0#64, false, .none, .none, 0#64⟩

def Clock.put (w : Word) : Clock := { Clock.nop with wrreq := true, data := w }

theorem wraclr_step (s : State) (c : Clock) :
    (fifoPls.step s c).fifo.wr.wraclr = s.fifo.wr.wraclr.clk true := by
  simp only [fifoPls, Dcfifo.step, Clock.edge, Wr.clk]
  split <;> rfl

theorem wraclr_run (s : State) (c d : Clock) (cs : List Clock) :
    (fifoPls.run s.reset ([c, d] ++ cs)).fifo.wr.wraclr = ⟨true, true⟩ := by
  induction cs using List.reverseRecOn with
  | nil => simp only [List.append_nil, Mealy.run_cons, Mealy.run_nil, wraclr_step]; rfl
  | append_singleton cs e ih =>
    rw [← List.append_assoc, Mealy.run_append, Mealy.run_cons, Mealy.run_nil, wraclr_step, ih]
    rfl

theorem accepted_puts (s : State) {k : Nat} (hk : k ≤ depth) :
    (accepted.outputs s.reset ([.nop, .nop] ++ List.replicate k (.put 0#64))).length = k := by
  induction k with
  | zero => rfl
  | succ k ih =>
    obtain ⟨n, h⟩ := exists_stands s ([.nop, .nop] ++ List.replicate k (.put 0#64))
    have hlen := ih (by omega)
    rw [List.replicate_succ', ← List.append_assoc,
      h.accepts rfl (by rw [wraclr_run]) (by omega), hlen]

def filled : List Clock := [.nop, .nop] ++ List.replicate depth (.put 0#64)

theorem accepted_filled (s : State) : (accepted.outputs s.reset filled).length = depth :=
  accepted_puts s le_rfl

theorem filled_quiet : ∀ c ∈ filled, c.rdreq = false := by
  simp [filled, Clock.nop, Clock.put]

end Stands

section Overflow

variable {s : State} {c : Clock} {cs : List Clock}

theorem overflow_step (hc : ¬ c.wr.ClearsOverflow) :
    (fifoPls.step s c).wr.event.overflow = (s.wr.event.overflow || (wrSignals s c).overflow) := by
  have hclear :
      (c.wr.write && decide (c.wr.address = 2#3) && c.wr.writedata.getLsbD 4) = false := by
    rw [← Bool.not_eq_true]
    simpa [Slave.ClearsOverflow, and_assoc] using hc
  change Csr.eventQ c.wr 4 (wrSignals s c).overflow s.wr.event.overflow = _
  rw [Csr.eventQ, hclear, if_neg Bool.false_ne_true]
  cases (wrSignals s c).overflow <;> simp

theorem accepts_of_not_overflow (h : (wrSignals s c).overflow = false) :
    (accepted.out s c).toList = offered [c] := by
  cases hw : c.wrreq with
  | false => simp [accepted, Mealy.observe, written, Clock.edge, offered, hw, Wr.validWrreq]
  | true =>
    have hfull : s.fifo.wr.wrfull = false := by
      simp only [wrSignals, wrfull, hw, Bool.true_and, Bool.or_eq_false_iff] at h
      exact h.2
    have hvalid : s.fifo.wr.validWrreq true = true := by
      rw [Wr.validWrreq, ← Wr.wrfull, hfull]
      rfl
    simp [accepted, Mealy.observe, written, Clock.edge, offered, hw, hvalid]

theorem accepts_of_no_event (hcs : ∀ c ∈ cs, ¬ c.wr.ClearsOverflow)
    (h : (fifoPls.run s cs).wr.event.overflow = false) : accepted.outputs s cs = offered cs := by
  induction cs using List.reverseRecOn with
  | nil => rfl
  | append_singleton cs c ih =>
    rw [Mealy.run_append, Mealy.run_cons, Mealy.run_nil, overflow_step (hcs c (by simp)),
      Bool.or_eq_false_iff] at h
    have hlast : accepted.out (accepted.run s cs) c = accepted.out (fifoPls.run s cs) c := by
      rw [accepted, Mealy.run_observe]
    rw [Mealy.outputs_append, ih (fun c hc => hcs c (by simp [hc])) h.1, Mealy.outputs_cons,
      Mealy.outputs_nil, List.append_nil, hlast, accepts_of_not_overflow h.2, offered, offered,
      offered, List.filterMap_append]

theorem outputs_prefix_offered (hcs : ∀ c ∈ cs, ¬ c.wr.ClearsOverflow)
    (h : (fifoPls.run s.reset cs).wr.event.overflow = false) :
    fifoPls.outputs s.reset cs <+: offered cs := by
  obtain ⟨n, hn⟩ := exists_stands s cs
  rw [hn.put, accepts_of_no_event hcs h]
  exact List.take_prefix _ _

theorem no_overflow_no_loss (s : State) (before after : List Clock)
    (hcs : ∀ c ∈ after, ¬ c.wr.ClearsOverflow)
    (h : (fifoPls.run s (before ++ after)).wr.event.overflow = false) :
    accepted.outputs s (before ++ after) = accepted.outputs s before ++ offered after := by
  rw [Mealy.run_append] at h
  rw [accepted_append, accepts_of_no_event hcs h]

theorem no_overflow_no_loss_blank :
    accepted.outputs State.blank.reset ([.nop, .nop, .nop] ++ [.put 7#64]) =
      accepted.outputs State.blank.reset [.nop, .nop, .nop] ++ offered [.put 7#64] :=
  no_overflow_no_loss State.blank.reset [.nop, .nop, .nop] [.put 7#64]
    (by simp [Clock.put, Clock.nop, Slave.none, Slave.ClearsOverflow]) (by decide +kernel)

end Overflow

end PhotonCount.FifoPls
