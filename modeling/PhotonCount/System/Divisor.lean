import PhotonCount.Hps.Controller
import PhotonCount.PlsCnt.Laws

namespace PhotonCount.System.Divisor

open Machine PlsCnt Hps

structure State where
  cnt : Regs
  controller : Controller.State

/-- Each assignment of `setting` takes a CLK edge; only the first one is a write to the counter. -/
inductive Label
  | pho
  | edge (reset triIn : Bool)
  | assign (reset triIn : Bool)
  | controller (a : Controller.Action)
  deriving DecidableEq

namespace Label

def clocks : Label → Bool
  | .edge _ _ | .assign _ _ => true
  | _ => false

def reset : Label → Bool
  | .edge reset _ | .assign reset _ => reset
  | _ => false

def writes (c : Controller.State) : Label → Bool
  | .assign _ _ => c.pc = .counter
  | _ => false

def tests (c : Controller.State) (l : Label) : Bool := l.clocks && !l.reset && !l.writes c

end Label

def start (tao : BitVec 32) : State := ⟨powerUp tao, Controller.start⟩

def programmed : Mealy State Label Unit where
  step
    | s, .pho => { s with cnt := pho s.cnt }
    | s, .edge reset triIn => { s with cnt := clk ⟨reset, triIn, false, 0#32⟩ s.cnt }
    | s, .assign reset triIn =>
      { cnt := clk ⟨reset, triIn, s.controller.pc = .counter, s.controller.setting.intg⟩ s.cnt
        controller := Controller.assigned s.controller }
    | s, .controller a => { s with controller := Controller.step s.controller a }
  out _ _ := none

variable {s : State} {l : Label} {ls p : List Label}

def FirstReset (ls : List Label) : Prop := ∀ l ∈ ls.find? Label.clocks, l.reset = true

instance (ls : List Label) : Decidable (FirstReset ls) :=
  inferInstanceAs (Decidable (∀ l ∈ ls.find? Label.clocks, l.reset = true))

theorem FirstReset.reset (h : FirstReset ls) (hp : p ++ [l] <+: ls)
    (hquiet : ∀ k ∈ p, k.clocks = false) (hl : l.clocks = true) : l.reset = true := by
  obtain ⟨q, rfl⟩ := hp
  have hnone : p.find? Label.clocks = none := by simpa using hquiet
  exact h l (by simp [hnone, hl])

theorem step_nonzero (h : Controller.Nonzero s.controller) (l : Label) :
    Controller.Nonzero (programmed.step s l).controller := by
  cases l with
  | pho => exact h
  | edge reset triIn => exact h
  | assign reset triIn => exact Controller.nonzero_assigned _
  | controller a => exact Controller.nonzero_step h a

theorem step_tao (h : Controller.Nonzero s.controller)
    (h0 : s.cnt.tao ≠ 0#32 ∨ l.clocks = true ∧ l.reset = true) :
    (programmed.step s l).cnt.tao ≠ 0#32 := by
  cases l with
  | pho => exact h0.resolve_right (by simp [Label.clocks])
  | edge reset triIn => exact clk_tao_ne_zero (h0.symm.imp And.right id) (by simp)
  | assign reset triIn =>
    exact clk_tao_ne_zero (h0.symm.imp And.right id) fun hpc => h (by simpa using hpc)
  | controller a => exact h0.resolve_right (by simp [Label.clocks])

theorem run_guarded (hfirst : FirstReset ls) (hp : p <+: ls) (tao : BitVec 32) :
    Controller.Nonzero (programmed.run (start tao) p).controller ∧
      ((∀ k ∈ p, k.clocks = false) ∨ (programmed.run (start tao) p).cnt.tao ≠ 0#32) := by
  induction p using List.reverseRecOn with
  | nil => exact ⟨Controller.nonzero_start, .inl (by simp)⟩
  | append_singleton p l ih =>
    obtain ⟨hnonzero, hguard⟩ := ih ((List.prefix_append p [l]).trans hp)
    rw [Mealy.run_append]
    refine ⟨step_nonzero hnonzero l, ?_⟩
    cases hl : l.clocks with
    | false =>
      refine hguard.imp (fun hquiet => ?_) fun h0 => step_tao hnonzero (.inl h0)
      rw [List.forall_mem_append]
      exact ⟨hquiet, by simpa using hl⟩
    | true =>
      refine .inr (step_tao hnonzero ?_)
      exact hguard.symm.imp id fun hquiet => ⟨hl, hfirst.reset hp hquiet hl⟩

theorem divisor_ne_zero (hfirst : FirstReset ls) (hp : p ++ [l] <+: ls) (tao : BitVec 32)
    (hl : l.tests (programmed.run (start tao) p).controller = true) :
    (programmed.run (start tao) p).cnt.tao ≠ 0#32 := by
  have hguard := (run_guarded hfirst ((List.prefix_append p [l]).trans hp) tao).2
  simp only [Label.tests, Bool.and_eq_true, Bool.not_eq_true'] at hl
  refine hguard.resolve_left fun hquiet => ?_
  rw [hfirst.reset hp hquiet hl.1.1] at hl
  exact absurd hl.1.2 (by decide)

def shortReads : List Label :=
  [.edge true false, .assign false false, .assign false false, .assign false false,
    .controller .accept, .controller (.read []), .controller .close, .controller .accept,
    .controller (.read [1#8]), .assign false false]

theorem divisor_ne_zero_short_reads :
    (programmed.run (start 0#32) shortReads).cnt.tao ≠ 0#32 :=
  divisor_ne_zero (p := shortReads) (l := .edge false true) (by decide) (List.prefix_refl _) 0#32
    (by decide)

end PhotonCount.System.Divisor
