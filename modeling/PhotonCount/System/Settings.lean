import PhotonCount.Client.Control
import PhotonCount.System.Reconfigure

namespace PhotonCount.System

open Machine PlsCnt Ghrd Hps

variable {s : Sys} {l : Label} {ls : List Label} {received sent : List (BitVec 8)}

def registers (s : Sys) : Controller.Setting := ⟨s.board.cnt.tao, s.tri, s.triSim⟩

structure Device where
  controller : Controller.State
  registers : Controller.Setting
  deriving DecidableEq

def device (s : Sys) : Device := ⟨s.controller, registers s⟩

inductive Act
  | assign
  | controller (a : Controller.Action)
  deriving DecidableEq

def Label.act : Label → Option Act
  | .assign _ _ => some .assign
  | .controller a => some (.controller a)
  | _ => none

def Device.assign (d : Device) : Device where
  controller := Controller.assigned d.controller
  registers :=
    match d.controller.pc with
    | .counter => { d.registers with intg := d.controller.setting.intg }
    | .triSim => { d.registers with simIntg := d.controller.setting.simIntg }
    | .tri => { d.registers with triIntg := d.controller.setting.triIntg }
    | _ => d.registers

def devices : Mealy Device Act Unit where
  step
    | d, .assign => d.assign
    | d, .controller a => { d with controller := Controller.step d.controller a }
  out
    | d, .controller .send => if d.controller.pc = .send then some () else none
    | _, _ => none

def connection (received : List (BitVec 8)) : List Act :=
  [.controller .accept, .controller (.read received)] ++
    (if Controller.word received 0 = 0#32 then []
      else [.assign, .assign, .assign, .controller .send]) ++
    [.controller .close]

section Device

theorem device_clock {c : Clock} (hn : c.hpsFpgaResetN = true) (hr : c.inputs.reset = false)
    (h0 : s.board.cnt.tao ≠ 0#32) : device (clock c s) = ⟨s.controller,
      { registers s with intg := if c.inputs.write then c.inputs.taoQ else s.board.cnt.tao }⟩ := by
  have htao := clock_tao hn hr h0
  simp only [device, registers, htao]
  rfl

theorem device_assign (h : Sound s) (triIn : Bool) (photons : Nat) :
    device (assign triIn photons s) = (device s).assign := by
  have hclock := device_clock (s := { s with controller := Controller.assigned s.controller })
    (c := write triIn photons s.controller.setting.intg) rfl rfl h.tao
  simp only [assign, Device.assign]
  cases hpc : s.controller.pc with
  | counter =>
    have hctrl : (device s).controller.pc = .counter := hpc
    simp only [hctrl]
    exact hclock
  | _ =>
    have hctrl : (device s).controller.pc = s.controller.pc := rfl
    simp only [hctrl, hpc]
    rfl

theorem device_step (h : Sound s) (l : Label) :
    device (sys.step s l) = match l.act with
      | none => device s
      | some a => devices.step (device s) a := by
  cases l with
  | tick triIn photons =>
    have hclock := device_clock (c := idle triIn photons) rfl rfl h.tao
    exact hclock
  | assign triIn photons => exact device_assign h _ _
  | controller a => rfl
  | accept => rfl
  | status => rfl
  | data =>
    simp only [Label.act, sys, System.data]
    split <;> rfl
  | send => rfl
  | close => rfl

theorem out_done : sys.out s l = some .done ↔
    ∃ a, l.act = some a ∧ devices.out (device s) a = some () := by
  cases l with
  | controller a => cases a <;> simp [sys, Label.act, devices, device]
  | send => simp [sys, Label.act]
  | assign triIn photons => simp [sys, Label.act, devices]
  | _ => simp [sys, Label.act]

theorem device_run (h : Sound s) (ls : List Label) :
    device (sys.run s ls) = devices.run (device s) (ls.filterMap Label.act) ∧
      (.done ∈ sys.outputs s ls ↔ devices.outputs (device s) (ls.filterMap Label.act) ≠ []) := by
  induction ls generalizing s with
  | nil => simp
  | cons l ls ih =>
    obtain ⟨hrun, hout⟩ := ih (h.step l)
    have hstep := device_step h l
    have hdone := out_done (s := s) (l := l)
    rw [Mealy.run_cons, Mealy.outputs_cons, List.mem_append, Option.mem_toList, hrun, hout, hstep]
    cases hact : l.act with
    | none =>
      simp only [hact, reduceCtorEq, false_and, exists_false, iff_false] at hdone
      simp [hact, hdone]
    | some a =>
      simp only [hact, Option.some.injEq, exists_eq_left'] at hdone
      cases ho : devices.out (device s) a <;> simp [hact, hdone, ho]

end Device

section Connection

theorem run_connection {d : Device} (hpc : d.controller.pc = .accept)
    (received : List (BitVec 8)) :
    (devices.run d (connection received)).registers =
        (if Controller.word received 0 = 0#32 then d.registers else .decode received) ∧
      devices.outputs d (connection received) =
        if Controller.word received 0 = 0#32 then [] else [()] := by
  obtain ⟨⟨pc, setting, connected⟩, regs⟩ := d
  obtain rfl : pc = .accept := hpc
  by_cases h0 : Controller.word received 0 = 0#32 <;>
    simp [connection, h0, devices, Controller.step, Controller.Setting.decode, Device.assign,
      Controller.assigned]

theorem registers_connection (h : sys.Reachable Start s) (hpc : s.controller.pc = .accept)
    (hls : ls.filterMap Label.act = connection received) :
    registers (sys.run s ls) =
        (if Controller.word received 0 = 0#32 then registers s else .decode received) ∧
      (.done ∈ sys.outputs s ls ↔ Controller.word received 0 ≠ 0#32) := by
  obtain ⟨hrun, hdone⟩ := device_run (reachable_sound h) ls
  have hctrl : (device s).controller.pc = .accept := hpc
  obtain ⟨hregs, hout⟩ := run_connection hctrl received
  rw [hls] at hrun hdone
  rw [← hrun] at hregs
  refine ⟨hregs, ?_⟩
  rw [hdone, hout]
  split
  next h0 => simp [h0]
  next h0 => simp [h0]

def AllOrNothing (s : Sys) (ls : List Label) (sent : List (BitVec 8)) : Prop :=
  (sent.length = 12 ∧ registers (sys.run s ls) = .decode sent ∧ .done ∈ sys.outputs s ls) ∨
    (registers (sys.run s ls) = registers s ∧ .done ∉ sys.outputs s ls)

instance (s : Sys) (ls : List Label) (sent : List (BitVec 8)) :
    Decidable (AllOrNothing s ls sent) :=
  inferInstanceAs (Decidable (_ ∨ _))

theorem all_or_nothing_iff (h : sys.Reachable Start s) (hpc : s.controller.pc = .accept)
    (hls : ls.filterMap Label.act = connection received) (hsent : received <+: sent) :
    AllOrNothing s ls sent ↔ Controller.word received 0 = 0#32 ∨
      sent.length = 12 ∧ ∀ b ∈ sent.drop received.length, b = 0#8 := by
  obtain ⟨hregs, hdone⟩ := registers_connection h hpc hls
  rw [AllOrNothing, hregs, hdone]
  by_cases h0 : Controller.word received 0 = 0#32
  · simp [h0]
  · simp only [h0, if_false, false_or, ne_eq, not_false_eq_true, not_true, and_true, and_false,
      or_false]
    exact and_congr_right fun hlen => Controller.decode_received hsent hlen

theorem all_or_nothing_whole_message :
    AllOrNothing (sys.run boot (List.replicate 3 (.assign false 0)))
      (message 2 ++ .assign false 0 :: answer) [2, 0, 0, 0, 100, 0, 0, 0, 10, 0, 0, 0] :=
  (all_or_nothing_iff ((Mealy.Reachable.start boot_start).run _) (by decide) (by decide)
    (List.prefix_refl _)).mpr (by decide)

theorem short_read_applied :
    ¬ AllOrNothing (sys.run boot (List.replicate 3 (.assign false 0)))
      ([.controller .accept, .controller (.read [2, 0, 0, 0])] ++
        List.replicate 3 (.assign false 0) ++ [.controller .send, .controller .close])
      [2, 0, 0, 0, 100, 0, 0, 0, 10, 0, 0, 0] := by
  decide

theorem control_round_trips (int intTri intTriSim : BitVec 32) :
    ∃ raw, Client.tranRaw int.toNat intTri.toNat intTriSim.toNat = some raw ∧
      Controller.Setting.decode raw = ⟨int, intTri, intTriSim⟩ ∧
      (int ≠ 0#32 → ∀ s ls, sys.Reachable Start s → s.controller.pc = .accept →
        ls.filterMap Label.act = connection raw →
          (sys.run s ls).board.cnt.tao = int ∧ (sys.run s ls).tri = intTri ∧
            (sys.run s ls).triSim = intTriSim) := by
  obtain ⟨raw, hraw, -, hdecode⟩ := Client.decode_tranRaw int intTri intTriSim
  refine ⟨raw, hraw, hdecode, fun h0 s ls h hpc hls => ?_⟩
  have hword : Controller.word raw 0 = int := congrArg Controller.Setting.intg hdecode
  have hregs := (registers_connection h hpc hls).1
  rw [hword, if_neg h0, hdecode] at hregs
  exact Controller.Setting.mk.inj hregs

theorem control_round_trips_top_bits :
    ∃ raw, Client.tranRaw 0x80000001 0xff000000 0xdeadbeef = some raw ∧
      (sys.run (sys.run boot (List.replicate 3 (.assign false 0)))
        ([.controller .accept, .controller (.read raw)] ++ List.replicate 3 (.assign false 0) ++
          [.controller .send, .controller .close])).triSim = 0xdeadbeef#32 := by
  obtain ⟨raw, hraw, hdecode, h⟩ := control_round_trips 0x80000001#32 0xff000000#32 0xdeadbeef#32
  refine ⟨raw, hraw, (h (by decide) _ _ ((Mealy.Reachable.start boot_start).run _)
    (by decide) ?_).2.2⟩
  have hword : Controller.word raw 0 = 0x80000001#32 :=
    congrArg Controller.Setting.intg hdecode
  simp [connection, hword, Label.act]

end Connection

end PhotonCount.System
