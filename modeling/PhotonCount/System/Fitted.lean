import PhotonCount.PlsCnt.Netlist
import PhotonCount.System.Divisor

namespace PhotonCount.System.Divisor

open Machine PlsCnt Hps

def cntEvent (c : Controller.State) : Label → Option Event
  | .pho => some .pho
  | .edge reset triIn => some (.clk ⟨reset, triIn, false, 0#32⟩)
  | .assign reset triIn => some (.clk ⟨reset, triIn, c.pc = .counter, c.setting.intg⟩)
  | .controller _ => none

def records : Mealy State Label Word :=
  programmed.observe fun s l => (cntEvent s.controller l).bind (plsCnt.out s.cnt)

def fittedRecords : Mealy State Label Word where
  step s l :=
    { cnt := (cntEvent s.controller l).elim s.cnt (fitted.step s.cnt)
      controller := (programmed.step s l).controller }
  out s l := (cntEvent s.controller l).bind (fitted.out s.cnt)

variable {s : State} {l : Label} {ls p : List Label}

theorem records_step (s : State) (l : Label) : records.step s l =
    { cnt := (cntEvent s.controller l).elim s.cnt (plsCnt.step s.cnt)
      controller := (programmed.step s l).controller } := by
  cases l <;> rfl

theorem cntEvent_tests {c : Controller.State} {e : Event} (h : cntEvent c l = some e) :
    e.tests = l.tests c := by
  cases l with
  | pho =>
    cases h
    rfl
  | edge reset triIn =>
    cases h
    simp [Event.tests, Label.tests, Label.clocks, Label.reset, Label.writes]
  | assign reset triIn =>
    cases h
    simp [Event.tests, Label.tests, Label.clocks, Label.reset, Label.writes]
  | controller a => cases h

theorem fittedRecords_agree (s : State) (l : Label)
    (h : l.tests s.controller = true → s.cnt.tao ≠ 0#32) :
    fittedRecords.step s l = records.step s l ∧ fittedRecords.out s l = records.out s l := by
  rw [records_step]
  simp only [fittedRecords, records, Mealy.observe]
  cases he : cntEvent s.controller l with
  | none => exact ⟨rfl, rfl⟩
  | some e =>
    obtain ⟨hstep, hout⟩ := fitted_agree s.cnt e (by rwa [cntEvent_tests he])
    exact ⟨by rw [Option.elim_some, hstep, Option.elim_some], hout⟩

theorem fitted_programmed (hfirst : FirstReset ls) (tao : BitVec 32) :
    fittedRecords.run (start tao) ls = records.run (start tao) ls ∧
      fittedRecords.outputs (start tao) ls = records.outputs (start tao) ls := by
  have halong : records.Along (fun s l => l.tests s.controller = true → s.cnt.tao ≠ 0#32)
      (start tao) ls := by
    refine Mealy.along_of_prefix fun p l hp htests => ?_
    rw [records, Mealy.run_observe] at htests ⊢
    have hguard := (run_guarded hfirst ((List.prefix_append p [l]).trans hp) tao).2
    simp only [Label.tests, Bool.and_eq_true, Bool.not_eq_true'] at htests
    -- the first clock is no test
    refine hguard.resolve_left fun hquiet => ?_
    rw [hfirst.reset hp hquiet htests.1.1] at htests
    exact absurd htests.1.2 (by decide)
  exact halong.agree fittedRecords_agree

theorem fitted_programmed_short_reads :
    fittedRecords.outputs (start 0#32) shortReads = records.outputs (start 0#32) shortReads :=
  (fitted_programmed (by decide) 0#32).2

end PhotonCount.System.Divisor
