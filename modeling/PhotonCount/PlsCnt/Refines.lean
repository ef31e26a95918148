import PhotonCount.PlsCnt.Laws

namespace PhotonCount.PlsCnt

open Machine Meter

def abs (s : Regs) : Meter.State where
  tao := s.tao.toNat
  stamp := s.clkCnt.toNat
  since := (s.phoCnt - s.cntTmp1).toNat
  pending := s.tmp

def meterEvent (s : Regs) : Event → Meter.Event
  | .pho => .photon
  | .clk i => if i.write then .retune i.taoQ.toNat else .tick (s.tri1 = 1#2)

def encode (r : Meter.Record) : Word :=
  Word.pack r.flag (BitVec.ofNat 32 r.count) (BitVec.ofNat 32 r.stamp)

theorem toNat_eq_zero {t : BitVec 32} : t.toNat = 0 ↔ t = 0#32 := by
  simp [BitVec.toNat_eq]

@[simp] theorem abs_flag (s : Regs) : (abs s).flag (s.tri1 = 1#2) = trigFlag s := rfl

theorem abs_pho (s : Regs) : (meter (2 ^ 32)).step (abs s) .photon = abs (pho s) := by
  have hsince : (s.phoCnt + 1#32 - s.cntTmp1).toNat =
      ((s.phoCnt - s.cntTmp1).toNat + 1) % 2 ^ 32 := by
    rw [show s.phoCnt + 1#32 - s.cntTmp1 = s.phoCnt - s.cntTmp1 + 1#32 by grind,
      BitVec.toNat_add]
    rfl
  rw [step_photon, pho_eq]
  simp [abs, hsince]

theorem abs_clk {s : Regs} {i : Inputs} (hr : i.reset = false) :
    (meter (2 ^ 32)).step (abs s) (meterEvent s (.clk i)) = abs (clk i s) := by
  cases hw : i.write with
  | true => simp [meterEvent, hw, clk_write hr hw, abs]
  | false =>
    simp only [meterEvent, hw, Bool.false_eq_true, if_false]
    by_cases h0 : s.tao = 0#32
    · have h0' : (abs s).tao = 0 := toNat_eq_zero.mpr h0
      rw [clk_stuck hr hw h0]
      simp only [meter, tick, h0', if_true]
      rfl
    · have h0' : (abs s).tao ≠ 0 := mt toNat_eq_zero.mp h0
      by_cases hb : modTao s = 0
      · rw [step_tick_close h0' hb, clk_boundary hr hw h0 hb]
        by_cases hf : trigFlag s = true <;>
          simp only [close, abs_flag, hf, if_true, if_false, Bool.false_eq_true] <;> simp [abs]
      · rw [step_tick_advance h0' hb, clk_inside hr hw h0 hb]
        simp [advance, abs, trigFlag]

theorem encode_record (s : Regs) :
    encode ((abs s).record (s.tri1 = 1#2)) =
      Word.pack (trigFlag s) (s.phoCnt - s.cntTmp1) s.clkCnt := by
  rw [encode, State.record, abs_flag]
  simp only [abs, BitVec.ofNat_toNat, BitVec.setWidth_eq]

theorem out_clk {s : Regs} {i : Inputs} (hr : i.reset = false) :
    plsCnt.out s (.clk i) =
      ((meter (2 ^ 32)).out (abs s) (meterEvent s (.clk i))).map encode := by
  cases hw : i.write with
  | true => simp [meterEvent, hw, plsCnt, branch_write hr hw, Branch.emits]
  | false =>
    simp only [meterEvent, hw, Bool.false_eq_true, if_false]
    by_cases h0 : s.tao = 0#32
    · have h0' : (abs s).tao = 0 := toNat_eq_zero.mpr h0
      simp [plsCnt, branch_stuck hr hw h0, Branch.emits, meter, h0']
    · have h0' : (abs s).tao ≠ 0 := mt toNat_eq_zero.mp h0
      by_cases hb : modTao s = 0
      · rw [out_tick_eq_some.mpr ⟨h0', hb, rfl⟩, Option.map_some, encode_record]
        exact (out_clk_eq_some hr h0 _).mpr ⟨hw, hb, rfl⟩
      · rw [(out_tick_eq_none h0').mpr hb, Option.map_none, Option.eq_none_iff_forall_ne_some]
        intro w hout
        exact hb ((out_clk_eq_some hr h0 w).mp hout).2.1

def refines : Simulation plsCnt (meter (2 ^ 32)) where
  ok
    | .pho => True
    | .clk i => i.reset = false
  abs := abs
  tr := meterEvent
  enc := encode
  step s
    | .pho, _ => abs_pho s
    | .clk _, hr => abs_clk hr
  out _
    | .pho, _ => rfl
    | .clk _, hr => out_clk hr

@[simp] theorem refines_abs (s : Regs) : refines.abs s = abs s := rfl
@[simp] theorem refines_tr (s : Regs) (e : Event) : refines.tr s e = meterEvent s e := rfl
@[simp] theorem refines_enc (r : Meter.Record) : refines.enc r = encode r := rfl

theorem meter_run {s : Regs} {es : List Event} (h : ∀ e ∈ es, refines.ok e) :
    (meter (2 ^ 32)).run (abs s) (refines.translate s es) = abs (plsCnt.run s es) :=
  refines.run_abs h

theorem meter_silent {s : Regs} {es : List Event} (h : ∀ e ∈ es, refines.ok e)
    (hs : plsCnt.outputs s es = []) :
    (meter (2 ^ 32)).outputs (abs s) (refines.translate s es) = [] :=
  refines.silent h hs

theorem Event.Running.ok {e : Event} (h : e.Running) : refines.ok e := by
  cases e with
  | pho => trivial
  | clk i => exact h.1

end PhotonCount.PlsCnt
