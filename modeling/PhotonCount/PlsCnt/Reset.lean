import PhotonCount.PlsCnt.TimeBase
import PhotonCount.PlsCnt.Counts

namespace PhotonCount.PlsCnt

open Machine Meter

variable {s : Regs} {es rs : List Event}

/-- RESET is held for some CLK edges, with TRIIN low and no PHO edge. -/
def Resets (rs : List Event) : Prop :=
  rs ≠ [] ∧ ∀ e ∈ rs, ∃ i, e = .clk i ∧ i.reset = true ∧ i.triIn = false

/-- A window ends in the run: at a CLK edge without a write `CLK_cnt` is a multiple of `Tao`. -/
def WindowEnds (s : Regs) (es : List Event) : Prop :=
  ∃ p i, p ++ [.clk i] <+: es ∧ i.write = false ∧
    modZero (plsCnt.run s p).clkCnt (plsCnt.run s p).tao = true

def cleared (phoCnt : BitVec 32) : Regs where
  cntStream := 0#64
  rdy := false
  tao := 0xffff#32
  phoCnt := phoCnt
  tri1 := 0#2
  tmp := false
  clkCnt := 1#32
  cntTmp1 := 0#32
  cntTmp2 := 0#32

theorem run_resets (s : Regs) (h : Resets rs) : plsCnt.run s rs = cleared s.phoCnt := by
  obtain ⟨hne, hrs⟩ := h
  have hcnt : (plsCnt.run s rs).phoCnt = s.phoCnt := phoCnt_of_clocks s fun e he => by
    obtain ⟨i, rfl, -⟩ := hrs e he
    rfl
  rcases List.eq_nil_or_concat rs with hnil | ⟨b, e, hrs'⟩
  · exact absurd hnil hne
  · obtain ⟨i, rfl, hi, htri⟩ := hrs e (by simp [hrs'])
    have hlast : plsCnt.run s rs = clk i (plsCnt.run s b) := by
      rw [hrs', List.concat_eq_append, Mealy.run_append]
      rfl
    rw [hlast, clk_phoCnt] at hcnt
    rw [hlast, clk_reset hi, htri, ← hcnt]
    rfl

theorem out_eq_none_iff {i : Inputs} (hr : i.reset = false) (h0 : s.tao ≠ 0#32) :
    plsCnt.out s (.clk i) = none ↔ ¬ (i.write = false ∧ modZero s.clkCnt s.tao = true) := by
  rw [modZero_iff h0, ← emits_iff hr h0]
  simp [plsCnt]

theorem windowEnds_cons (e : Event) :
    WindowEnds s (e :: es) ↔
      (∃ i, e = .clk i ∧ i.write = false ∧ modZero s.clkCnt s.tao = true) ∨
        WindowEnds (plsCnt.step s e) es := by
  constructor
  · rintro ⟨p, i, ⟨q, hp⟩, hw, hb⟩
    cases p with
    | nil =>
      obtain ⟨rfl, -⟩ := List.cons.inj hp
      exact .inl ⟨i, rfl, hw, hb⟩
    | cons e' p =>
      obtain ⟨rfl, htail⟩ := List.cons.inj hp
      exact .inr ⟨p, i, ⟨q, htail⟩, hw, hb⟩
  · rintro (⟨i, rfl, hw, hb⟩ | ⟨p, i, ⟨q, hp⟩, hw, hb⟩)
    · exact ⟨[], i, ⟨es, rfl⟩, hw, hb⟩
    · exact ⟨e :: p, i, ⟨q, congrArg (e :: ·) hp⟩, hw, hb⟩

theorem outputs_eq_nil_iff (h0 : s.tao ≠ 0#32) (hes : ∀ e ∈ es, e.Running) :
    plsCnt.outputs s es = [] ↔ ¬ WindowEnds s es := by
  induction es generalizing s with
  | nil => simp [WindowEnds]
  | cons e es ih =>
    rw [List.forall_mem_cons] at hes
    rw [Mealy.outputs_cons, List.append_eq_nil_iff, ih (step_tao_ne_zero hes.1 h0) hes.2,
      windowEnds_cons, not_or]
    refine and_congr_left' ?_
    cases e with
    | pho => simp [plsCnt]
    | clk i => simpa using out_eq_none_iff hes.1.1 h0

theorem encode_since (stamp : Nat) (flag : Bool) (a b : Nat) :
    encode ⟨stamp, a, flag⟩ = encode ⟨stamp, b, flag⟩ ↔ a % 2 ^ 31 = b % 2 ^ 31 := by
  have hcount : ∀ n, (BitVec.ofNat 32 n).extractLsb' 0 31 = BitVec.ofNat 31 n := by
    intro n
    apply BitVec.eq_of_toNat_eq
    rw [BitVec.extractLsb'_toNat, BitVec.toNat_ofNat, BitVec.toNat_ofNat, Nat.shiftRight_zero]
    omega
  constructor
  · intro h
    have hw := congrArg Word.count h
    simp only [encode, Word.count_pack, hcount] at hw
    simpa using congrArg BitVec.toNat hw
  · intro h
    have hw : BitVec.ofNat 31 a = BitVec.ofNat 31 b := BitVec.eq_of_toNat_eq (by simpa using h)
    simp only [encode, Word.pack, hcount, hw]

theorem mod_succ (a b : Nat) :
    (a + 1) % 2 ^ 32 % 2 ^ 31 = (b + 1) % 2 ^ 32 % 2 ^ 31 ↔ a % 2 ^ 31 = b % 2 ^ 31 := by
  omega

theorem translate_tri1 {s' : Regs} (h : s.tri1 = s'.tri1) :
    refines.translate s es = refines.translate s' es := by
  induction es generalizing s s' with
  | nil => rfl
  | cons e es ih =>
    cases e with
    | pho => exact congrArg (_ :: ·) (ih h)
    | clk i =>
      have hstep : (plsCnt.step s (.clk i)).tri1 = (plsCnt.step s' (.clk i)).tri1 := by
        change (clk i s).tri1 = (clk i s').tri1
        rw [clk_tri1, clk_tri1, h]
      simp [ih hstep, meterEvent, h]

theorem abs_cleared (c : BitVec 32) : abs (cleared c) = ⟨65535, 1, c.toNat, false⟩ := by
  simp [abs, cleared]

theorem reset_forgets_iff {t₁ t₂ : BitVec 32} {h₁ h₂ rs₁ rs₂ : List Event} (hrs₁ : Resets rs₁)
    (hrs₂ : Resets rs₂) (hes : ∀ e ∈ es, e.Running) :
    plsCnt.outputs (plsCnt.run (powerUp t₁) (h₁ ++ rs₁)) es =
        plsCnt.outputs (plsCnt.run (powerUp t₂) (h₂ ++ rs₂)) es ↔
      (WindowEnds (plsCnt.run (powerUp t₁) (h₁ ++ rs₁)) es →
        phoEdges h₁ % 2 ^ 31 = phoEdges h₂ % 2 ^ 31) := by
  have hok : ∀ e ∈ es, refines.ok e := fun e he => (hes e he).ok
  have htao : ∀ c, (cleared c).tao ≠ 0#32 := fun c => (by decide : (0xffff#32 : BitVec 32) ≠ 0#32)
  have hpho : ∀ h, (0#32 + BitVec.ofNat 32 (phoEdges h)).toNat % 2 ^ 31 = phoEdges h % 2 ^ 31 := by
    intro h
    rw [BitVec.zero_add, BitVec.toNat_ofNat]
    exact Nat.mod_mod_of_dvd _ (by decide)
  rw [Mealy.run_append, Mealy.run_append, run_resets _ hrs₁, run_resets _ hrs₂, run_phoCnt,
    run_phoCnt, ← hpho h₁, ← hpho h₂]
  change plsCnt.outputs (cleared (0#32 + _)) es = plsCnt.outputs (cleared (0#32 + _)) es ↔
    (WindowEnds (cleared (0#32 + _)) es → _)
  generalize 0#32 + BitVec.ofNat 32 (phoEdges h₁) = c₁
  generalize 0#32 + BitVec.ofNat 32 (phoEdges h₂) = c₂
  have hnil := outputs_eq_nil_iff (htao c₁) hes
  have htr : refines.translate (cleared c₂) es = refines.translate (cleared c₁) es :=
    translate_tri1 rfl
  rw [refines.outputs_eq hok, List.map_eq_nil_iff] at hnil
  rw [refines.outputs_eq hok, refines.outputs_eq hok, htr]
  simp only [refines_abs, abs_cleared] at hnil ⊢
  rw [imp_iff_not_or, ← hnil]
  exact outputs_since_iff encode_since mod_succ ⟨65535, 1, 0, false⟩ c₁.toNat c₂.toNat

theorem reset_forgets_one_photon_each :
    plsCnt.outputs (plsCnt.run (powerUp 0#32) ([.program 4#32, .pho, .trigger] ++ [.resetEdge]))
        [.program 1#32, .idle] =
      plsCnt.outputs (plsCnt.run (powerUp 7#32) ([.pho] ++ [.resetEdge])) [.program 1#32, .idle] :=
  (reset_forgets_iff ⟨by decide, by simp [Event.resetEdge]⟩ ⟨by decide, by simp [Event.resetEdge]⟩
    (by decide)).mpr fun _ => by decide

theorem reset_remembers_photon :
    Resets [.resetEdge] ∧
      plsCnt.outputs (plsCnt.run (powerUp 0#32) ([.pho] ++ [.resetEdge])) [.program 1#32, .idle] ≠
        plsCnt.outputs (plsCnt.run (powerUp 0#32) ([] ++ [.resetEdge])) [.program 1#32, .idle] :=
  ⟨⟨by decide, by simp [Event.resetEdge]⟩, by decide⟩

end PhotonCount.PlsCnt
