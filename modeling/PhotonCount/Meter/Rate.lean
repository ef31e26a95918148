import PhotonCount.Meter.Laws

namespace PhotonCount.Meter

variable {M : Nat} {m : State} {es : List Event} {e : Event}

theorem pred_mod {c t : Nat} (ht : 0 < t) :
    (c + (t - 1)) % t = if c % t = 0 then t - 1 else c % t - 1 := by
  have hlt := Nat.mod_lt c ht
  rw [Nat.add_mod, Nat.mod_eq_of_lt (Nat.sub_lt ht Nat.one_pos)]
  split
  next h => rw [h, Nat.zero_add, Nat.mod_eq_of_lt (by omega)]
  next h =>
    rw [show c % t + (t - 1) = c % t - 1 + t by omega, Nat.add_mod_right,
      Nat.mod_eq_of_lt (by omega)]

def phase (m : State) : Nat := (m.stamp + (m.tao - 1)) % m.tao

theorem phase_lt (hm : m.tao ≠ 0) : phase m < m.tao := Nat.mod_lt _ (Nat.pos_of_ne_zero hm)

theorem step_tao (he : e.isRetune = false) : ((meter M).step m e).tao = m.tao := by
  cases e with
  | photon => rfl
  | retune tao => cases he
  | tick b =>
    simp only [meter, tick]
    split
    · rfl
    · split <;> rfl

def Steady (M : Nat) (m : State) (e : Event) : Prop :=
  ((meter M).step m e).stamp % m.tao = (m.stamp + if e.isTick then 1 else 0) % m.tao

theorem steady_of_dvd (he : e.isRetune = false) (hm : m.tao ≠ 0) (hM : m.tao ∣ M) :
    Steady M m e := by
  cases e with
  | photon => rfl
  | retune tao => cases he
  | tick b =>
    rw [Steady]
    by_cases h : m.stamp % m.tao = 0
    · rw [step_tick_close hm h, close]
      split
      · simp [Event.isTick, Nat.add_mod, h]
      · exact Nat.mod_mod_of_dvd _ hM
    · rw [step_tick_advance hm h]
      exact Nat.mod_mod_of_dvd _ hM

theorem phase_step (he : e.isRetune = false) (hm : m.tao ≠ 0) (hs : Steady M m e) :
    ((meter M).out m e).toList.length * m.tao + phase ((meter M).step m e) =
      phase m + if e.isTick then 1 else 0 := by
  cases e with
  | photon => simp [phase, Event.isTick]
  | retune tao => cases he
  | tick b =>
    have hpos := Nat.pos_of_ne_zero hm
    have hnext : phase ((meter M).step m (.tick b)) = m.stamp % m.tao := by
      rw [phase, step_tao he, Nat.add_mod, hs, ← Nat.add_mod, Event.isTick, if_pos rfl,
        Nat.add_assoc, Nat.add_sub_cancel' hpos, Nat.add_mod_right]
    have hnow : phase m = if m.stamp % m.tao = 0 then m.tao - 1 else m.stamp % m.tao - 1 :=
      pred_mod hpos
    rw [hnext, hnow]
    by_cases h : m.stamp % m.tao = 0
    · rw [out_tick_eq_some.mpr ⟨hm, h, rfl⟩, h, if_pos rfl]
      simp only [Option.toList_some, List.length_singleton, Event.isTick, if_true]
      omega
    · rw [(out_tick_eq_none hm).mpr h, if_neg h]
      simp only [Option.toList_none, List.length_nil, Event.isTick, if_true]
      omega

theorem phase_run (hes : ∀ e ∈ es, e.isRetune = false) (hm : m.tao ≠ 0)
    (hs : (meter M).Along (Steady M) m es) :
    ((meter M).outputs m es).length * m.tao + phase ((meter M).run m es) =
      phase m + ticks es := by
  induction es generalizing m with
  | nil => simp [ticks]
  | cons e es ih =>
    rw [List.forall_mem_cons] at hes
    have htao : ((meter M).step m e).tao = m.tao := step_tao hes.1
    have hstep := phase_step hes.1 hm hs.1
    have hrun := ih hes.2 (htao.symm ▸ hm) hs.2
    rw [htao] at hrun
    rw [Machine.Mealy.outputs_cons, List.length_append, Nat.add_mul, Machine.Mealy.run_cons,
      ticks_cons, Nat.add_assoc, hrun]
    omega

theorem along_steady_of_dvd (hes : ∀ e ∈ es, e.isRetune = false) (hm : m.tao ≠ 0)
    (hM : m.tao ∣ M) : (meter M).Along (Steady M) m es := by
  induction es generalizing m with
  | nil => trivial
  | cons e es ih =>
    rw [List.forall_mem_cons] at hes
    have htao : ((meter M).step m e).tao = m.tao := step_tao hes.1
    exact ⟨steady_of_dvd hes.1 hm hM, ih hes.2 (htao.symm ▸ hm) (htao.symm ▸ hM)⟩

theorem run_tao (hes : ∀ e ∈ es, e.isRetune = false) : ((meter M).run m es).tao = m.tao :=
  (meter M).run_invariant (P := fun m' => m'.tao = m.tao)
    (fun _ _ he hm => (step_tao he).trans hm) rfl hes

theorem length_outputs (hes : ∀ e ∈ es, e.isRetune = false) (hm : m.tao ≠ 0)
    (hs : (meter M).Along (Steady M) m es) :
    ((meter M).outputs m es).length = (phase m + ticks es) / m.tao := by
  have hlt : phase ((meter M).run m es) < m.tao :=
    (run_tao (M := M) hes) ▸ phase_lt ((run_tao (M := M) hes).symm ▸ hm)
  rw [← phase_run hes hm hs, Nat.mul_comm, Nat.mul_add_div (Nat.pos_of_ne_zero hm),
    Nat.div_eq_of_lt hlt, Nat.add_zero]

theorem dvd_stamp {r : Record} (hes : ∀ e ∈ es, e.isRetune = false)
    (hr : r ∈ (meter M).outputs m es) : m.tao ∣ r.stamp := by
  induction es generalizing m with
  | nil => cases hr
  | cons e es ih =>
    rw [List.forall_mem_cons] at hes
    rw [Machine.Mealy.outputs_cons, List.mem_append, Option.mem_toList] at hr
    cases hr with
    | inl hout =>
      obtain ⟨b, -, -, hstamp, rfl, -⟩ := emits_cases hout
      exact Nat.dvd_of_mod_eq_zero hstamp
    | inr htail => exact step_tao (M := M) (m := m) hes.1 ▸ ih hes.2 htail

end PhotonCount.Meter
