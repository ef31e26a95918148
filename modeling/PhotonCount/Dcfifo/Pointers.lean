import PhotonCount.Dcfifo.Defs

namespace PhotonCount.Dcfifo

open Machine Gray PlsCnt

def depth : Nat := 8192

section Pointer

def ptr (n : Nat) : BitVec 14 := encode (BitVec.ofNat 14 n)

def address (n : Nat) : BitVec 13 := encode (BitVec.ofNat 13 n)

theorem ptr_eq_iff {a b : Nat} : ptr a = ptr b ↔ a % 2 ^ 14 = b % 2 ^ 14 := by
  rw [ptr, ptr, encode_inj, ← BitVec.toNat_inj, BitVec.toNat_ofNat, BitVec.toNat_ofNat]

theorem address_inj {a b : Nat} (hab : a ≤ b) (hb : b < a + depth) :
    address a = address b ↔ a = b := by
  rw [address, address, encode_inj, ← BitVec.toNat_inj, BitVec.toNat_ofNat, BitVec.toNat_ofNat]
  rw [depth] at hb
  omega

theorem decode_ptr (n : Nat) : decode (ptr n) = BitVec.ofNat 14 n := decode_encode _

theorem gs_ptr (n : Nat) : gs (ptr n) = ptr (n + depth) := by
  have hhalf : BitVec.ofNat 14 (n + depth) = BitVec.ofNat 14 n + BitVec.twoPow 14 (14 - 1) := by
    rw [BitVec.ofNat_add]
    rfl
  apply BitVec.eq_of_getLsbD_eq
  intro i hi
  have hmask : (0x3000#14).getLsbD i = decide (14 ≤ i + 2) := by
    revert i
    decide
  rw [ptr, ptr, hhalf, getLsbD_encode_add_half hi, gs, BitVec.getLsbD_xor, hmask]

theorem ramAddress_ptr (n : Nat) : ramAddress (ptr n) = address n := by
  apply BitVec.eq_of_getLsbD_eq
  intro i hi
  rw [ramAddress, BitVec.getLsbD_cons, address, ptr]
  simp only [BitVec.getLsbD_setWidth, getLsbD_encode, BitVec.getLsbD_ofNat]
  by_cases h : i = 12
  · subst h
    cases n.testBit 12 <;> simp
  · have hlt : i < 12 := by omega
    simp [h, hlt, hi, show i < 14 by omega, show i + 1 < 14 by omega, show i + 1 < 13 by omega]

theorem ptr_empty {a b : Nat} (hab : a ≤ b) (hb : b ≤ a + depth) : ptr b = ptr a ↔ b = a := by
  rw [ptr_eq_iff]
  rw [depth] at hb
  omega

theorem ptr_full {a b : Nat} (hab : a ≤ b) (hb : b ≤ a + depth) :
    ptr a = gs (ptr b) ↔ b = a + depth := by
  rw [gs_ptr, ptr_eq_iff]
  rw [depth] at hb ⊢
  omega

end Pointer

/-- The words written, and the numbers that stand in the registers on `wrclk`. -/
structure WrCounts where
  written : Nat
  delayed : Nat
  first : Nat
  freed : Nat
  brp : Nat
  bwp : Nat

structure RdCounts where
  read : Nat
  first : Nat
  seen : Nat
  brp : Nat
  bwp : Nat

structure Counts where
  wr : WrCounts
  rd : RdCounts

def Counts.zero : Counts := ⟨⟨0, 0, 0, 0, 0, 0⟩, ⟨0, 0, 0, 0, 0⟩⟩

def WrCounts.clk (new read : Nat) (c : WrCounts) : WrCounts :=
  ⟨c.written + new, c.written, read, c.first, c.freed, c.written⟩

def RdCounts.clk (new delayed : Nat) (c : RdCounts) : RdCounts :=
  ⟨c.read + new, delayed, c.first, c.read, c.seen⟩

def follow (s : State) (e : Edge) (c : Counts) : Counts where
  wr :=
    match e.wr with
    | some (wrreq, _) =>
      if s.wr.wraclr.q then c.wr.clk (s.wr.validWrreq wrreq).toNat c.rd.read else c.wr
    | none => c.wr
  rd :=
    match e.rd with
    | some rdreq =>
      if s.rd.rdaclr.q then c.rd.clk (s.rd.validRdreq rdreq).toNat c.wr.delayed else c.rd
    | none => c.rd

structure Wr.Shows (s : Wr) (c : WrCounts) : Prop where
  wrptrG : s.wrptrG = ptr c.written
  wrptrG1p : s.wrptrG1p.Codes (BitVec.ofNat 14 (c.written + 1))
  delayedWrptrG : s.delayedWrptrG = ptr c.delayed
  wsDgrp : s.wsDgrp = ⟨ptr c.first, ptr c.freed⟩
  wsBrp : s.wsBrp = BitVec.ofNat 14 c.brp
  wsBwp : s.wsBwp = BitVec.ofNat 14 c.bwp
  idle : s.wraclr.q = false → c = Counts.zero.wr
  settled : s.wraclr.q = true → s.wraclr.first = true

structure Rd.Shows (s : Rd) (c : RdCounts) : Prop where
  rdptrG : s.rdptrG = ptr c.read
  rdptrG1p : s.rdptrG1p.Codes (BitVec.ofNat 14 (c.read + 1))
  rsDgwp : s.rsDgwp = ⟨ptr c.first, ptr c.seen⟩
  rsBrp : s.rsBrp = BitVec.ofNat 14 c.brp
  rsBwp : s.rsBwp = BitVec.ofNat 14 c.bwp
  idle : s.rdaclr.q = false → c = Counts.zero.rd
  settled : s.rdaclr.q = true → s.rdaclr.first = true

/-- What an end knows of the other one is never ahead of it, and the end that writes never
gets further than 8192 words ahead of what it knows to be read. -/
structure Sound (c : Counts) : Prop where
  freed : c.wr.freed ≤ c.wr.first
  first : c.wr.first ≤ c.rd.read
  read : c.rd.read ≤ c.rd.seen
  seen : c.rd.seen ≤ c.rd.first
  rsFirst : c.rd.first ≤ c.wr.delayed
  delayed : c.wr.delayed ≤ c.wr.written
  written : c.wr.written ≤ c.wr.freed + depth

section Flags

variable {s : State} {c : Counts}

theorem Sound.freed_le (hc : Sound c) : c.wr.freed ≤ c.wr.written := by
  have := hc.freed.trans (hc.first.trans (hc.read.trans (hc.seen.trans hc.rsFirst)))
  exact this.trans hc.delayed

theorem Sound.seen_le (hc : Sound c) : c.rd.seen ≤ c.rd.read + depth := by
  have hseen := hc.seen.trans (hc.rsFirst.trans hc.delayed)
  have hfreed := hc.freed.trans hc.first
  exact hseen.trans (hc.written.trans (Nat.add_le_add_right hfreed depth))

theorem intWrfull_iff (hw : s.wr.Shows c.wr) (hc : Sound c) :
    s.wr.intWrfull = true ↔ c.wr.written = c.wr.freed + depth := by
  rw [Wr.intWrfull, decide_eq_true_iff, hw.wsDgrp, hw.wrptrG]
  exact ptr_full hc.freed_le hc.written

theorem wrempty_iff (hw : s.wr.Shows c.wr) (hc : Sound c) :
    s.wr.wrempty = true ↔ c.wr.written = c.wr.freed := by
  rw [Wr.wrempty, decide_eq_true_iff, hw.wsDgrp, hw.wrptrG, eq_comm]
  exact ptr_empty hc.freed_le hc.written

theorem rdempty_iff (hr : s.rd.Shows c.rd) (hc : Sound c) :
    s.rd.rdempty = true ↔ c.rd.seen = c.rd.read := by
  rw [Rd.rdempty, decide_eq_true_iff, hr.rsDgwp, hr.rdptrG]
  exact ptr_empty hc.read hc.seen_le

theorem rdfull_iff (hr : s.rd.Shows c.rd) (hc : Sound c) :
    s.rd.rdfull = true ↔ c.rd.seen = c.rd.read + depth := by
  rw [Rd.rdfull, decide_eq_true_iff, hr.rsDgwp, hr.rdptrG, gs_ptr, ptr_eq_iff]
  have := hc.read
  have hle := hc.seen_le
  rw [depth] at hle ⊢
  omega

theorem validWrreq_iff (hw : s.wr.Shows c.wr) (hc : Sound c) {wrreq : Bool} :
    s.wr.validWrreq wrreq = true ↔
      wrreq = true ∧ c.wr.written < c.wr.freed + depth ∧ s.wr.wraclr.q = true := by
  have hroom : s.wr.intWrfull = false ↔ c.wr.written < c.wr.freed + depth := by
    rw [← Bool.not_eq_true, intWrfull_iff hw hc]
    have := hc.written
    omega
  simp [Wr.validWrreq, hroom]

theorem validRdreq_iff (hr : s.rd.Shows c.rd) (hc : Sound c) {rdreq : Bool} :
    s.rd.validRdreq rdreq = true ↔
      rdreq = true ∧ c.rd.read < c.rd.seen ∧ s.rd.rdaclr.q = true := by
  have hword : s.rd.rdempty = false ↔ c.rd.read < c.rd.seen := by
    rw [← Bool.not_eq_true, rdempty_iff hr hc]
    have := hc.read
    omega
  simp [Rd.validRdreq, hword]

end Flags

section Step

variable {s : State} {e : Edge} {c : Counts}

theorem ptr_zero : ptr 0 = 0#14 := by decide

theorem Wr.cleared_shows {p : Dffpipe Bool} (hp : p.q = true → p.first = true) :
    (Wr.cleared p).Shows Counts.zero.wr :=
  ⟨ptr_zero.symm, Counter.start_codes, ptr_zero.symm, by simp [Wr.cleared, Counts.zero, ptr_zero],
    rfl, rfl, fun _ => rfl, hp⟩

theorem Rd.cleared_shows {p : Dffpipe Bool} (hp : p.q = true → p.first = true) :
    (Rd.cleared p).Shows Counts.zero.rd :=
  ⟨ptr_zero.symm, Counter.start_codes, by simp [Rd.cleared, Counts.zero, ptr_zero], rfl, rfl,
    fun _ => rfl, hp⟩

theorem codes_clk {g : Counter} {n : Nat} (h : g.Codes (BitVec.ofNat 14 (n + 1))) (valid : Bool) :
    (g.clk valid).Codes (BitVec.ofNat 14 (n + valid.toNat + 1)) := by
  cases valid with
  | false => simpa using h
  | true =>
    have := h.clk
    rwa [← BitVec.ofNat_add] at this

theorem Wr.Shows.clk (h : s.wr.Shows c.wr) (hr : s.rd.rdptrG = ptr c.rd.read) (wrreq : Bool) :
    (s.wr.clk wrreq s.rd.rdptrG).Shows
      (if s.wr.wraclr.q then c.wr.clk (s.wr.validWrreq wrreq).toNat c.rd.read else c.wr) := by
  unfold Wr.clk
  cases hq : s.wr.wraclr.q with
  | false =>
    rw [if_neg (by simp), if_neg (by simp), h.idle hq]
    exact Wr.cleared_shows fun _ => rfl
  | true =>
    rw [if_pos rfl, if_pos rfl]
    exact {
      wrptrG := by
        cases s.wr.validWrreq wrreq
        · exact h.wrptrG
        · exact h.wrptrG1p.counter
      wrptrG1p := codes_clk h.wrptrG1p _
      delayedWrptrG := h.wrptrG
      wsDgrp := by simp [Dffpipe.clk, hr, h.wsDgrp, WrCounts.clk]
      wsBrp := by simp [h.wsDgrp, decode_ptr, WrCounts.clk]
      wsBwp := by simp [h.wrptrG, decode_ptr, WrCounts.clk]
      idle hi := absurd ((h.settled hq).symm.trans hi) (by decide)
      settled _ := rfl }

theorem Rd.Shows.clk (h : s.rd.Shows c.rd) (hw : s.wr.delayedWrptrG = ptr c.wr.delayed)
    (rdreq : Bool) :
    (s.rd.clk rdreq s.wr.delayedWrptrG).Shows
      (if s.rd.rdaclr.q then c.rd.clk (s.rd.validRdreq rdreq).toNat c.wr.delayed else c.rd) := by
  unfold Rd.clk
  cases hq : s.rd.rdaclr.q with
  | false =>
    rw [if_neg (by simp), if_neg (by simp), h.idle hq]
    exact Rd.cleared_shows fun _ => rfl
  | true =>
    rw [if_pos rfl, if_pos rfl]
    exact {
      rdptrG := by
        cases s.rd.validRdreq rdreq
        · exact h.rdptrG
        · exact h.rdptrG1p.counter
      rdptrG1p := codes_clk h.rdptrG1p _
      rsDgwp := by simp [Dffpipe.clk, hw, h.rsDgwp, RdCounts.clk]
      rsBrp := by simp [h.rdptrG, decode_ptr, RdCounts.clk]
      rsBwp := by simp [h.rsDgwp, decode_ptr, RdCounts.clk]
      idle hi := absurd ((h.settled hq).symm.trans hi) (by decide)
      settled _ := rfl }

theorem Sound.follow (h : Sound c) (hw : s.wr.Shows c.wr) (hr : s.rd.Shows c.rd) (e : Edge) :
    Sound (follow s e c) := by
  have hnew wrreq : c.wr.written + (s.wr.validWrreq wrreq).toNat ≤ c.wr.freed + depth := by
    have hiff : s.wr.validWrreq wrreq = true ↔ _ := validWrreq_iff hw h
    have := h.written
    cases hv : s.wr.validWrreq wrreq with
    | false => simpa using this
    | true => exact (hiff.mp hv).2.1
  have hread rdreq : c.rd.read + (s.rd.validRdreq rdreq).toNat ≤ c.rd.seen := by
    have hiff : s.rd.validRdreq rdreq = true ↔ _ := validRdreq_iff hr h
    have := h.read
    cases hv : s.rd.validRdreq rdreq with
    | false => simpa using this
    | true => exact (hiff.mp hv).2.1
  obtain ⟨hfreed, hfirst, hseen, hrs, hdel, hwritten, hroom⟩ := h
  obtain ⟨wr, rd, dontCare⟩ := e
  cases wr with
  | none =>
    cases rd with
    | none => exact ⟨hfreed, hfirst, hseen, hrs, hdel, hwritten, hroom⟩
    | some rdreq =>
      have := hread rdreq
      simp only [Dcfifo.follow]
      split <;> constructor <;> simp only [RdCounts.clk] <;> omega
  | some w =>
    have := hnew w.1
    cases rd with
    | none =>
      simp only [Dcfifo.follow]
      split <;> constructor <;> simp only [WrCounts.clk] <;> omega
    | some rdreq =>
      have := hread rdreq
      simp only [Dcfifo.follow]
      split <;> split <;> constructor <;> simp only [WrCounts.clk, RdCounts.clk] <;> omega

structure Tracks (s : State) (c : Counts) : Prop where
  wr : s.wr.Shows c.wr
  rd : s.rd.Shows c.rd
  sound : Sound c

theorem Tracks.step (h : Tracks s c) (e : Edge) : Tracks (step s e) (follow s e c) := by
  obtain ⟨wr, rd, dontCare⟩ := e
  refine ⟨?_, ?_, h.sound.follow h.wr h.rd _⟩
  · cases wr with
    | none => exact h.wr
    | some w => exact h.wr.clk h.rd.rdptrG w.1
  · cases rd with
    | none => exact h.rd
    | some rdreq => exact h.rd.clk h.wr.delayedWrptrG rdreq

end Step

end PhotonCount.Dcfifo
