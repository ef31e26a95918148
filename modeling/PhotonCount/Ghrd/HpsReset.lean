import PhotonCount.Ghrd.Order
import PhotonCount.Ghrd.Transfer

namespace PhotonCount.Ghrd

open Machine PlsCnt

def Clock.released (c : Clock) : Clock := { c with hpsFpgaResetN := true }

section Step

variable {b : Board} {c : Clock} {cs : List Clock}

theorem Board.Coherent.transfer (h : b.Coherent) (resetN ready : Bool) (data : Word) :
    Ghrd.transfer resetN ready data b.link b.link =
      Ghrd.transfer true ready data b.link b.link := by
  obtain ⟨cnt, state, buffer, valid⟩ := b
  cases resetN with
  | true => rfl
  | false =>
    rcases h with ⟨hs, hv⟩ | ⟨hs, hv⟩
    · cases ready <;> simp_all [Ghrd.transfer]
    · simp_all [Ghrd.transfer]

theorem step_released (h : b.Coherent) :
    ghrd.step b (.before, c) = ghrd.step b (.before, c.released) := by
  rw [ghrd_step, ghrd_step, edge_before, edge_before, h.transfer c.hpsFpgaResetN]
  rfl

theorem coherent_step (h : b.Coherent) : (ghrd.step b (.before, c)).Coherent := by
  rw [step_released h]
  exact coherent_before h rfl

theorem run_released (h : b.Coherent) :
    ghrd.outputs b (cs.map fun c => (.before, c)) =
        ghrd.outputs b (cs.map fun c => (.before, c.released)) ∧
      ghrd.run b (cs.map fun c => (.before, c)) =
        ghrd.run b (cs.map fun c => (.before, c.released)) := by
  induction cs generalizing b with
  | nil => exact ⟨rfl, rfl⟩
  | cons c cs ih =>
    obtain ⟨hout, hrun⟩ := ih (coherent_step (c := c) h)
    simp only [List.map_cons, Mealy.outputs_cons, Mealy.run_cons]
    rw [hout, hrun, step_released h]
    exact ⟨rfl, rfl⟩

theorem Board.Coherent.valid_iff (h : b.Coherent) :
    b.link.dataBufferValid = true ↔ b.link.counterState = 1#8 := by
  rcases h with ⟨hs, hv⟩ | ⟨hs, hv⟩ <;> simp [hs, hv]

theorem valid_step (h : b.Coherent) : (ghrd.step b (.before, c)).link.dataBufferValid = true ↔
    b.link.counterState = 0#8 ∧ b.cnt.rdy = true := by
  rw [(coherent_step h).valid_iff, step_released h, counterState_before h rfl]
  split
  next hk => simp [hk]
  next hk => simp [hk]

theorem cleared_iff (hn : c.hpsFpgaResetN = false) :
    ((ghrd.step b (.before, c)).link.counterState = 0#8 ∧
        (ghrd.step b (.before, c)).link.dataBufferValid = false) ↔
      ¬ (b.link.counterState = 0#8 ∧ b.cnt.rdy = true) := by
  rw [ghrd_step, edge_before, hn]
  by_cases hk : b.link.counterState = 0#8 ∧ b.cnt.rdy = true
  · simp [Ghrd.transfer, hk]
  · simp only [Ghrd.transfer, and_comm (a := b.cnt.rdy = true), hk]
    split <;> simp

end Step

section Run

variable (b : Board) (c : Nat → Clock)

def boards (n : Nat) : Board := ghrd.states b (fun n => (.before, c n)) n

def Emits (n : Nat) : Prop := (branch (c n).inputs (boards b c n).cnt).emits = true

def Takes (n : Nat) : Prop :=
  (boards b c n).link.counterState = 0#8 ∧ (boards b c n).cnt.rdy = true

/-- The write to the FIFO in clock `n` is of the record emitted in clock `m`: when the process
looked at `Cnt_Stream`, one clock before, no other record had been emitted since. -/
def Writes (m n : Nat) : Prop :=
  Emits b c m ∧ m + 1 < n ∧ (∀ j, m < j → j + 1 < n → ¬ Emits b c j) ∧
    (boards b c n).link.dataBufferValid = true

instance (n : Nat) : Decidable (Emits b c n) := inferInstanceAs (Decidable (_ = _))

instance (n : Nat) : Decidable (Takes b c n) := inferInstanceAs (Decidable (_ ∧ _))

/-- The reset stops the transfer: it clears the process, a record that becomes ready while it
is low is not written, and the first one after it is written once. A record becomes ready in
the clock that emits it if `d` is 0, or, if `d` is 1, in the next one, in which `RDY` is high. -/
structure Stops (d : Nat) : Prop where
  cleared : ∀ n, (c n).hpsFpgaResetN = false →
    (boards b c (n + 1)).link.counterState = 0#8 ∧
      (boards b c (n + 1)).link.dataBufferValid = false
  unwritten : ∀ m, (c (m + d)).hpsFpgaResetN = false → ∀ n, ¬ Writes b c m n
  once : ∀ k m, (c k).hpsFpgaResetN = false → k < m + d →
    (∀ j, k < j → j ≤ m + d → (c j).hpsFpgaResetN = true) →
      (∀ j, k < j + d → j < m → ¬ Emits b c j) → Emits b c m →
        ∃ n, (∀ n', Writes b c m n' ↔ n' = n) ∧
          ghrd.out (boards b c n) (.before, c n) = clocked.out (boards b c m).cnt (c m).toCycle

def Undisturbed : Prop := ∀ n, (c n).inputs.reset = false ∧
  ((c n).inputs.write = true → (c n).inputs.taoQ ≠ 0#32 ∧ (boards b c n).cnt.rdy = false)

variable {b c} {n : Nat}

theorem boards_link (n : Nat) : (boards b c (n + 1)).link =
    transfer (c n).hpsFpgaResetN (boards b c n).cnt.rdy (boards b c n).cnt.cntStream
      (boards b c n).link (boards b c n).link := by
  rw [boards, Mealy.states_succ, ← boards, ghrd_step, edge_before]

theorem boards_cnt (n : Nat) : (boards b c (n + 1)).cnt =
    clocked.step (boards b c n).cnt (c n).toCycle :=
  step_cnt (.inl rfl)

theorem boards_tao (h0 : b.cnt.tao ≠ 0#32) (hc : Undisturbed b c) (n : Nat) :
    (boards b c n).cnt.tao ≠ 0#32 := by
  induction n with
  | zero => exact h0
  | succ n ih =>
    rw [boards_cnt, clocked_step]
    exact clk_tao_ne_zero (.inr ih) fun hw => ((hc n).2 hw).1

theorem boards_rdy (h0 : b.cnt.tao ≠ 0#32) (hc : Undisturbed b c) (n : Nat) :
    (boards b c (n + 1)).cnt.rdy = true ↔ Emits b c n := by
  have htao := boards_tao h0 hc n
  rw [boards_cnt, clocked_step]
  change (PlsCnt.clk (c n).inputs (boards b c n).cnt).rdy = true ↔ _
  rw [clk_rdy (hc n).1 htao, Emits]
  split
  next hw =>
    have he := (emits_iff (i := (c n).inputs) (hc n).1 htao).not.mpr (by simp [hw])
    simp [((hc n).2 hw).2, he]
  next => rfl

theorem takes_word (h : Takes b c n) : (boards b c (n + 1)).link =
    ⟨1#8, (boards b c n).cnt.cntStream, true⟩ := by
  rw [boards_link, h.2]
  exact transfer_take h.1

theorem boards_stream (h : Emits b c n) :
    some (boards b c (n + 1)).cnt.cntStream = clocked.out (boards b c n).cnt (c n).toCycle := by
  have he : (branch (c n).inputs (boards b c n).cnt).emits = true := h
  rw [boards_cnt, clocked_step, clocked_out, if_pos he]

theorem writes_of_takes (he : Emits b c n) (h : Takes b c (n + 1)) : Writes b c n (n + 2) := by
  refine ⟨he, Nat.lt_succ_self _, fun j hj hj' => by omega, ?_⟩
  rw [takes_word h]

theorem boards_coherent {k : Nat} (hk : (boards b c (k + 1)).Coherent) (hn : k < n) :
    (boards b c n).Coherent := by
  induction n, hn using Nat.le_induction with
  | base => exact hk
  | succ n _ ih => exact coherent_step ih

theorem valid_iff_takes (h : (boards b c n).Coherent) :
    (boards b c (n + 1)).link.dataBufferValid = true ↔ Takes b c n :=
  valid_step h

theorem writes_eq (h0 : b.cnt.tao ≠ 0#32) (hc : Undisturbed b c) {m : Nat}
    (hcoh : ∀ n, m + 1 < n → (boards b c n).Coherent) (hw : Writes b c m n) : n = m + 2 := by
  obtain ⟨-, hlt, hsilent, hvalid⟩ := hw
  obtain ⟨p, rfl⟩ : ∃ p, n = p + 2 := ⟨n - 2, by omega⟩
  by_contra hne
  have hp : m < p := by omega
  have htakes := (valid_iff_takes (hcoh (p + 1) (Nat.succ_lt_succ hp))).mp hvalid
  exact hsilent p hp (Nat.lt_succ_self _) ((boards_rdy h0 hc p).mp htakes.2)

section Condition

variable {d : Nat}

theorem Stops.takes (h : Stops b c d) (hn : (c n).hpsFpgaResetN = false) : ¬ Takes b c n :=
  (cleared_iff hn).mp (h.cleared n hn)

theorem Stops.emits (h0 : b.cnt.tao ≠ 0#32) (hc : Undisturbed b c) (h : Stops b c 0)
    (hn : (c n).hpsFpgaResetN = false) : ¬ Emits b c n := fun he =>
  h.unwritten n hn (n + 2)
    (writes_of_takes he ⟨(h.cleared n hn).1, (boards_rdy h0 hc n).mpr he⟩)

theorem not_writes_of_cleared (h0 : b.cnt.tao ≠ 0#32) (hc : Undisturbed b c) {m : Nat}
    (hs : (boards b c (m + 2)).link.counterState = 0#8)
    (hv : (boards b c (m + 2)).link.dataBufferValid = false) : ¬ Writes b c m n := by
  intro hw
  obtain rfl := writes_eq h0 hc (fun n hn => boards_coherent (.inl ⟨hs, hv⟩) hn) hw
  exact absurd (hw.2.2.2.symm.trans hv) (by decide)

theorem takes_first (h0 : b.cnt.tao ≠ 0#32) (hc : Undisturbed b c) {k m : Nat} (hkm : k ≤ m)
    (hk : (boards b c (k + 1)).link.counterState = 0#8 ∧
      (boards b c (k + 1)).link.dataBufferValid = false)
    (hsilent : ∀ j, k ≤ j → j < m → ¬ Emits b c j) (hm : Emits b c m) : Takes b c (m + 1) := by
  refine ⟨?_, (boards_rdy h0 hc m).mpr hm⟩
  rcases Nat.eq_or_lt_of_le hkm with rfl | hlt
  · exact hk.1
  · obtain ⟨p, rfl⟩ : ∃ p, m = p + 1 := ⟨m - 1, by omega⟩
    have hready : ¬ Takes b c (p + 1) := fun htakes =>
      hsilent p (Nat.le_of_lt_succ hlt) (Nat.lt_succ_self p) ((boards_rdy h0 hc p).mp htakes.2)
    have hcoh := boards_coherent (n := p + 1) (.inl hk) hlt
    rcases coherent_step (c := c (p + 1)) hcoh with ⟨hs, -⟩ | ⟨-, hv⟩
    · exact hs
    · exact absurd ((valid_iff_takes hcoh).mp hv) hready

theorem stops_of (h0 : b.cnt.tao ≠ 0#32) (hc : Undisturbed b c) (hd : d ≤ 1)
    (h : ∀ n, (c n).hpsFpgaResetN = false → ¬ Takes b c n)
    (he : d = 0 → ∀ n, (c n).hpsFpgaResetN = false → ¬ Emits b c n) : Stops b c d := by
  have hclear n (hn : (c n).hpsFpgaResetN = false) :=
    (cleared_iff (b := boards b c n) hn).mpr (h n hn)
  refine ⟨hclear, fun m hm n hw => ?_, fun k m hk hkm _ hsilent hm => ?_⟩
  · rcases Nat.le_one_iff_eq_zero_or_eq_one.mp hd with rfl | rfl
    · exact he rfl m hm hw.1
    · exact not_writes_of_cleared h0 hc (hclear _ hm).1 (hclear _ hm).2 hw
  · have hle : k ≤ m := by omega
    have htakes : Takes b c (m + 1) := by
      refine takes_first h0 hc hle (hclear k hk) (fun j hj hjm => ?_) hm
      by_cases hlt : k < j + d
      · exact hsilent j hlt hjm
      · obtain ⟨rfl, rfl⟩ : d = 0 ∧ j = k := by omega
        exact he rfl j hk
    have hcoh : ∀ n, m + 1 < n → (boards b c n).Coherent := fun n hn =>
      boards_coherent (.inl (hclear k hk)) (by omega)
    refine ⟨m + 2, fun n => ⟨writes_eq h0 hc hcoh, ?_⟩, ?_⟩
    · rintro rfl
      exact writes_of_takes hm htakes
    · rw [← boards_stream hm]
      simp [ghrd, takes_word htakes]

end Condition

theorem stops_iff (h0 : b.cnt.tao ≠ 0#32) (hc : Undisturbed b c) :
    (Stops b c 1 ↔ ∀ n, (c n).hpsFpgaResetN = false → ¬ Takes b c n) ∧
      (Stops b c 0 ↔ ∀ n, (c n).hpsFpgaResetN = false → ¬ Takes b c n ∧ ¬ Emits b c n) := by
  refine ⟨⟨fun h n hn => h.takes hn, fun h => ?_⟩,
    ⟨fun h n hn => ⟨h.takes hn, h.emits h0 hc hn⟩, fun h => ?_⟩⟩
  · exact stops_of h0 hc (le_refl 1) h (fun hd => absurd hd (by decide))
  · exact stops_of h0 hc (by decide) (fun n hn => (h n hn).1) fun _ n hn => (h n hn).2

def resetAt (k n : Nat) : Clock := { pulse 0 n with hpsFpgaResetN := decide (n ≠ k) }

theorem undisturbed_resetAt (b : Board) (k : Nat) : Undisturbed b (resetAt k) :=
  fun _ => ⟨rfl, fun hw => absurd hw Bool.false_ne_true⟩

theorem stops_iff_early_reset :
    Stops (ready 2#32) (resetAt 0) 1 ∧ Stops (ready 2#32) (resetAt 0) 0 := by
  have h := stops_iff (b := ready 2#32) (by decide) (undisturbed_resetAt _ 0)
  have hzero : ∀ n, (resetAt 0 n).hpsFpgaResetN = false → n = 0 := fun n hn => by
    simpa [resetAt] using hn
  refine ⟨h.1.mpr fun n hn => ?_, h.2.mpr fun n hn => ?_⟩ <;>
    (obtain rfl := hzero n hn; decide)

theorem record_taken_in_reset :
    2 ≤ (ready 2#32).cnt.tao.toNat ∧ Undisturbed (ready 2#32) (resetAt 2) ∧
      ∀ d, ¬ Stops (ready 2#32) (resetAt 2) d :=
  ⟨by decide, undisturbed_resetAt _ 2, fun _ h => absurd (h.cleared 2 (by decide)) (by decide)⟩

end Run

end PhotonCount.Ghrd
