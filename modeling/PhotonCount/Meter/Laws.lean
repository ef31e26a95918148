import PhotonCount.Meter.Defs

namespace PhotonCount.Meter

open Machine

variable {M : Nat} {m : State} {b : Bool} {es : List Event}

@[simp] theorem photons_cons (e : Event) :
    photons (e :: es) = photons es + if e.isPhoton then 1 else 0 := List.countP_cons

@[simp] theorem ticks_cons (e : Event) :
    ticks (e :: es) = ticks es + if e.isTick then 1 else 0 := List.countP_cons

@[simp] theorem triggered_nil : triggered [] = false := rfl
@[simp] theorem triggered_cons (e : Event) :
    triggered (e :: es) = (e.isTrigger || triggered es) := rfl

@[simp] theorem step_photon :
    (meter M).step m .photon = { m with since := (m.since + 1) % M } := rfl

@[simp] theorem step_retune (tao : Nat) :
    (meter M).step m (.retune tao) = { m with tao := tao } := rfl

@[simp] theorem out_photon : (meter M).out m .photon = none := rfl

@[simp] theorem out_retune (tao : Nat) : (meter M).out m (.retune tao) = none := rfl

theorem out_tick_eq_some {r : Record} :
    (meter M).out m (.tick b) = some r ↔
      m.tao ≠ 0 ∧ m.stamp % m.tao = 0 ∧ r = m.record b := by
  simp [meter, and_assoc, eq_comm]

theorem out_tick_eq_none (hm : m.tao ≠ 0) :
    (meter M).out m (.tick b) = none ↔ m.stamp % m.tao ≠ 0 := by
  simp [meter, hm]

theorem step_tick_close (hm : m.tao ≠ 0) (h : m.stamp % m.tao = 0) :
    (meter M).step m (.tick b) = close M b m := by
  simp [meter, tick, hm, h]

theorem step_tick_advance (hm : m.tao ≠ 0) (h : m.stamp % m.tao ≠ 0) :
    (meter M).step m (.tick b) = advance M b m := by
  simp [meter, tick, hm, h]

theorem emits_cases {e : Event} {r : Record} (h : (meter M).out m e = some r) :
    ∃ b, e = .tick b ∧ m.tao ≠ 0 ∧ m.stamp % m.tao = 0 ∧ r = m.record b ∧
      (meter M).step m e = close M b m := by
  cases e with
  | photon => simp at h
  | retune tao => simp at h
  | tick b =>
    obtain ⟨hm, hs, hr⟩ := out_tick_eq_some.mp h
    exact ⟨b, rfl, hm, hs, hr, step_tick_close hm hs⟩

theorem step_tao_ne_zero {e : Event} (he : e.Live) (hm : m.tao ≠ 0) :
    ((meter M).step m e).tao ≠ 0 := by
  cases e with
  | photon => exact hm
  | retune tao => exact he
  | tick b =>
    by_cases h : m.stamp % m.tao = 0
    · rw [step_tick_close hm h]; exact hm
    · rw [step_tick_advance hm h]; exact hm

section Count

theorem step_since_of_silent {e : Event} (hs : m.since < M) (h : (meter M).out m e = none) :
    ((meter M).step m e).since = (m.since + if e.isPhoton then 1 else 0) % M := by
  cases e with
  | photon => rfl
  | retune tao => exact (Nat.mod_eq_of_lt hs).symm
  | tick b =>
    have hsince : (tick M b m).since = m.since := by
      by_cases hm : m.tao = 0
      · simp [tick, hm]
      · simp [tick, hm, (out_tick_eq_none hm).mp h, advance]
    exact hsince.trans (Nat.mod_eq_of_lt hs).symm

theorem run_since_of_silent (hM : 0 < M) (hs : m.since < M)
    (h : (meter M).outputs m es = []) :
    ((meter M).run m es).since = (m.since + photons es) % M := by
  induction es generalizing m with
  | nil => exact (Nat.mod_eq_of_lt hs).symm
  | cons e es ih =>
    obtain ⟨ho, h⟩ := Mealy.out_of_silent _ h
    have hstep := step_since_of_silent hs ho
    rw [Mealy.run_cons, ih (hstep ▸ Nat.mod_lt _ hM) h, hstep, Nat.mod_add_mod, photons_cons]
    congr 1
    omega

theorem outputs_since_iff {γ : Type*} {f : Record → γ} {R : Nat → Nat → Prop}
    (hf : ∀ stamp flag a b, f ⟨stamp, a, flag⟩ = f ⟨stamp, b, flag⟩ ↔ R a b)
    (hR : ∀ a b, R ((a + 1) % M) ((b + 1) % M) ↔ R a b) (m : State) (a b : Nat) :
    ((meter M).outputs { m with since := a } es).map f =
        ((meter M).outputs { m with since := b } es).map f ↔
      ((meter M).outputs { m with since := a } es = [] ∨ R a b) := by
  induction es generalizing m a b with
  | nil => simp
  | cons e es ih =>
    cases e with
    | photon => simpa [hR] using ih m ((a + 1) % M) ((b + 1) % M)
    | retune tao => simpa using ih { m with tao := tao } a b
    | tick trigger =>
      by_cases hm : m.tao = 0
      · simpa [meter, tick, hm] using ih m a b
      · by_cases hb : m.stamp % m.tao = 0
        · simp [meter, tick, hm, hb, close, State.record, State.flag, hf]
        · simpa [meter, tick, hm, hb, advance] using
            ih { m with stamp := (m.stamp + 1) % M, pending := trigger || m.pending } a b

end Count

section Trigger

theorem step_pending_of_silent {e : Event} (hm : m.tao ≠ 0) (h : (meter M).out m e = none) :
    ((meter M).step m e).pending = (m.pending || e.isTrigger) := by
  cases e with
  | photon => simp [Event.isTrigger]
  | retune tao => simp [Event.isTrigger]
  | tick b =>
    rw [step_tick_advance hm ((out_tick_eq_none hm).mp h)]
    exact Bool.or_comm b m.pending

theorem run_pending_of_silent (hm : m.tao ≠ 0) (hes : ∀ e ∈ es, e.Live)
    (h : (meter M).outputs m es = []) :
    ((meter M).run m es).pending = (m.pending || triggered es) := by
  induction es generalizing m with
  | nil => simp
  | cons e es ih =>
    obtain ⟨ho, h⟩ := Mealy.out_of_silent _ h
    rw [List.forall_mem_cons] at hes
    rw [Mealy.run_cons, ih (step_tao_ne_zero hes.1 hm) hes.2 h, step_pending_of_silent hm ho,
      triggered_cons, Bool.or_assoc]

end Trigger

section Time

/-- The stamp from which the window after a record counts. -/
def base (m : State) (b : Bool) : Nat := if m.flag b then 0 else m.stamp

theorem close_stamp : (close M b m).stamp = if m.flag b then 1 else (base m b + 1) % M := by
  unfold close base
  split <;> rfl

theorem run_inside {tao c k : Nat} (hc : tao ∣ c) (hk : k < tao) (hkM : c + 1 + k ≤ M)
    (htao : m.tao = tao) (hstamp : m.stamp = (c + 1 + k) % M)
    (hes : ∀ e ∈ es, e.isRetune = false) (h : (meter M).outputs m es = []) :
    ((meter M).run m es).tao = tao ∧ k + ticks es < tao ∧ c + 1 + (k + ticks es) ≤ M ∧
      ((meter M).run m es).stamp = (c + 1 + (k + ticks es)) % M := by
  induction es generalizing m k with
  | nil => exact ⟨htao, hk, hkM, hstamp⟩
  | cons e es ih =>
    obtain ⟨ho, h⟩ := Mealy.out_of_silent _ h
    rw [List.forall_mem_cons] at hes
    cases e with
    | photon => exact ih hk hkM htao hstamp hes.2 h
    | retune t => exact absurd hes.1 (by simp [Event.isRetune])
    | tick b =>
      have hm : m.tao ≠ 0 := by omega
      have hin : m.stamp % m.tao ≠ 0 := (out_tick_eq_none hm).mp ho
      -- a tick at the wrap would have put out a record
      have hne : c + 1 + k ≠ M := by
        intro heq
        simp [hstamp, heq] at hin
      have hlt : c + 1 + k < M := by omega
      have hfull : k + 1 ≠ tao := by
        intro heq
        rw [hstamp, Nat.mod_eq_of_lt hlt, htao] at hin
        apply hin
        rw [show c + 1 + k = c + tao by omega]
        exact Nat.mod_eq_zero_of_dvd (Nat.dvd_add hc (Nat.dvd_refl tao))
      have hstep : ((meter M).step m (.tick b)).stamp = (c + 1 + (k + 1)) % M := by
        rw [step_tick_advance hm hin]
        simp only [advance]
        rw [hstamp, Nat.mod_add_mod]
        rfl
      have htao' : ((meter M).step m (.tick b)).tao = tao := by
        rw [step_tick_advance hm hin]
        exact htao
      have key := ih (k := k + 1) (by omega) (by omega) htao' hstep hes.2 h
      simp only [Mealy.run_cons, ticks_cons, Event.isTick, if_true]
      rwa [show k + (ticks es + 1) = k + 1 + ticks es by omega]

theorem gap {b b' : Bool} {r : Record} (hM : 1 < M) (hm : m.tao ≠ 0)
    (hb : m.stamp % m.tao = 0) (hstamp : m.stamp < M)
    (hes : ∀ e ∈ es, e.isRetune = false) (h : (meter M).outputs (close M b m) es = [])
    (hr : (meter M).out ((meter M).run (close M b m) es) (.tick b') = some r) :
    ticks es + 1 = min m.tao (M - base m b) ∧ r.stamp = (base m b + (ticks es + 1)) % M := by
  have hc : m.tao ∣ base m b := by
    unfold base
    split
    · exact Nat.dvd_zero _
    · exact Nat.dvd_of_mod_eq_zero hb
  have hbase : base m b < M := by
    unfold base
    split <;> omega
  have hstart : (close M b m).stamp = (base m b + 1 + 0) % M := by
    rw [close_stamp]
    split
    next hf => simp [base, hf, Nat.mod_eq_of_lt hM]
    next => rfl
  obtain ⟨htao', hlt, hle, hstamp'⟩ :=
    run_inside hc (Nat.pos_of_ne_zero hm) (by omega) (rfl : (close M b m).tao = m.tao) hstart hes h
  obtain ⟨-, hbd, rfl⟩ := out_tick_eq_some.mp hr
  simp only [Nat.zero_add] at hlt hle hstamp'
  have hadd : base m b + 1 + ticks es = base m b + (ticks es + 1) := by omega
  rw [hadd] at hle hstamp'
  refine ⟨?_, hstamp'⟩
  rw [htao', hstamp'] at hbd
  by_cases hwrap : base m b + (ticks es + 1) = M
  · omega
  · have hfull : m.tao ∣ ticks es + 1 := by
      rw [Nat.mod_eq_of_lt (by omega : base m b + (ticks es + 1) < M)] at hbd
      exact (Nat.dvd_add_right hc).mp (Nat.dvd_of_mod_eq_zero hbd)
    have := Nat.le_of_dvd (by omega) hfull
    omega

end Time

end PhotonCount.Meter
