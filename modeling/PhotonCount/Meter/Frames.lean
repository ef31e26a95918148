import Mathlib.Data.Nat.Find
import PhotonCount.Meter.Laws

namespace PhotonCount.Meter

def Boundary (m : State) : Prop := m.stamp % m.tao = 0

instance : DecidablePred Boundary := fun m => inferInstanceAs (Decidable (m.stamp % m.tao = 0))

def recordStamp (m : State) : Option Nat := if Boundary m then some m.stamp else none

/-- The states of a meter with windows of `tao` ticks before each clock's tick, photons
in between left out of account. -/
structure Ticking (M tao : Nat) (m : Nat → State) (b : Nat → Bool) : Prop where
  pos : 0 < tao
  lt : tao < M
  tao : ∀ n, (m n).tao = tao
  stamp : ∀ n, (m (n + 1)).stamp = (tick M (b n) (m n)).stamp
  pending : ∀ n, (m (n + 1)).pending = (tick M (b n) (m n)).pending
  stamp_lt : ∀ n, (m n).stamp < M

def Flagged (m : Nat → State) (b : Nat → Bool) (n : Nat) : Prop :=
  Boundary (m n) ∧ (m n).flag (b n) = true

namespace Ticking

variable {M tao : Nat} {m : Nat → State} {b : Nat → Bool} {n a d k : Nat}

theorem tick_eq (h : Ticking M tao m b) (n : Nat) :
    tick M (b n) (m n) = if Boundary (m n) then close M (b n) (m n) else advance M (b n) (m n) := by
  have h0 : (m n).tao ≠ 0 := by
    rw [h.tao]
    exact h.pos.ne'
  rw [tick, if_neg h0]
  rfl

theorem stamp_of_flagged (h : Ticking M tao m b) (hf : Flagged m b n) : (m (n + 1)).stamp = 1 := by
  rw [h.stamp, h.tick_eq, if_pos hf.1, close_stamp, if_pos hf.2]

theorem stamp_of_unflagged (h : Ticking M tao m b) (hf : ¬ Flagged m b n) :
    (m (n + 1)).stamp = ((m n).stamp + 1) % M := by
  rw [h.stamp, h.tick_eq]
  split
  next hb =>
    have hf : ¬ (m n).flag (b n) = true := fun hf' => hf ⟨hb, hf'⟩
    rw [close_stamp, if_neg hf, base, if_neg hf]
  next => rfl

theorem pending_of_boundary (h : Ticking M tao m b) (hb : Boundary (m n)) :
    (m (n + 1)).pending = (b n && (m n).pending) := by
  rw [h.pending, h.tick_eq, if_pos hb, close]

theorem pending_of_inside (h : Ticking M tao m b) (hb : ¬ Boundary (m n)) :
    (m (n + 1)).pending = (b n || (m n).pending) := by
  rw [h.pending, h.tick_eq, if_neg hb, advance]

theorem stamp_add (h : Ticking M tao m b) (hf : ∀ j < k, ¬ Flagged m b (a + j)) :
    (m (a + k)).stamp = ((m a).stamp + k) % M := by
  induction k with
  | zero => exact (Nat.mod_eq_of_lt (h.stamp_lt a)).symm
  | succ k ih =>
    rw [← Nat.add_assoc, h.stamp_of_unflagged (hf k (Nat.lt_succ_self k)),
      ih fun j hj => hf j (Nat.lt_succ_of_lt hj), Nat.mod_add_mod, Nat.add_assoc]

theorem boundary_within (h : Ticking M tao m b) (a : Nat) : ∃ k < tao, Boundary (m (a + k)) := by
  by_contra hno
  have hno : ∀ k < tao, ¬ Boundary (m (a + k)) := fun k hk hb => hno ⟨k, hk, hb⟩
  have hstamp : ∀ k < tao, (m (a + k)).stamp = ((m a).stamp + k) % M := fun k hk =>
    h.stamp_add fun j hj hf => hno j (hj.trans hk) hf.1
  have hlt := h.stamp_lt a
  have hmod := Nat.mod_lt (m a).stamp h.pos
  by_cases hz : (m a).stamp % tao = 0
  · exact hno 0 h.pos (by rwa [Nat.add_zero, Boundary, h.tao])
  · by_cases hM : (m a).stamp + (tao - (m a).stamp % tao) < M
    · apply hno (tao - (m a).stamp % tao) (by omega)
      have hdvd : (m a).stamp + (tao - (m a).stamp % tao) =
          tao * ((m a).stamp / tao + 1) := by
        have := Nat.div_add_mod (m a).stamp tao
        rw [Nat.mul_add, Nat.mul_one]
        omega
      rw [Boundary, h.tao, hstamp _ (by omega), Nat.mod_eq_of_lt hM, hdvd, Nat.mul_mod_right]
    · apply hno (M - (m a).stamp) (by omega)
      rw [Boundary, hstamp _ (by omega), show (m a).stamp + (M - (m a).stamp) = M by omega,
        Nat.mod_self, Nat.zero_mod]

theorem flagged_of_trigger (h : Ticking M tao m b) (hb : b d = true) :
    ∃ k < tao, Flagged m b (d + k) ∧ ∀ j < k, ¬ Boundary (m (d + j)) := by
  classical
  have hex := h.boundary_within d
  obtain ⟨hk, hbd⟩ := Nat.find_spec hex
  have hmin : ∀ j < Nat.find hex, ¬ Boundary (m (d + j)) := fun j hj hbj =>
    Nat.find_min hex hj ⟨hj.trans hk, hbj⟩
  refine ⟨Nat.find hex, hk, ⟨hbd, ?_⟩, hmin⟩
  have hpending : ∀ j, 0 < j → j ≤ Nat.find hex → (m (d + j)).pending = true := by
    intro j hj hle
    induction j with
    | zero => exact absurd hj (lt_irrefl 0)
    | succ j ih =>
      rw [← Nat.add_assoc, h.pending_of_inside (hmin j hle)]
      rcases Nat.eq_zero_or_pos j with rfl | hpos
      · rw [Nat.add_zero, hb, Bool.true_or]
      · rw [ih hpos (Nat.le_of_succ_le hle), Bool.or_true]
  rcases Nat.eq_zero_or_pos (Nat.find hex) with hz | hpos
  · rw [hz, Nat.add_zero, State.flag, hb, Bool.true_or]
  · rw [State.flag, hpending _ hpos (le_refl _), Bool.or_true]

theorem unflagged_of_no_trigger (h : Ticking M tao m b) (hp : (m a).pending = false)
    (hb : ∀ j < k, b (a + j) = false) :
    (m (a + k)).pending = false ∧ ∀ j < k, ¬ Flagged m b (a + j) := by
  induction k with
  | zero => exact ⟨hp, by simp⟩
  | succ k ih =>
    obtain ⟨hpk, hf⟩ := ih fun j hj => hb j (Nat.lt_succ_of_lt hj)
    have hbk := hb k (Nat.lt_succ_self k)
    constructor
    · rw [← Nat.add_assoc]
      by_cases hbd : Boundary (m (a + k))
      · rw [h.pending_of_boundary hbd, hbk, Bool.false_and]
      · rw [h.pending_of_inside hbd, hbk, hpk, Bool.false_or]
    · intro j hj
      rcases Nat.lt_succ_iff_lt_or_eq.mp hj with hj | rfl
      · exact hf j hj
      · rintro ⟨-, hflag⟩
        simp [State.flag, hbk, hpk] at hflag

theorem stamp_of_frame (h : Ticking M tao m b) (hf : Flagged m b a) (hk : k + 1 < M)
    (hno : ∀ j < k, ¬ Flagged m b (a + 1 + j)) : (m (a + 1 + k)).stamp = k + 1 := by
  rw [h.stamp_add hno, h.stamp_of_flagged hf, Nat.add_comm 1, Nat.mod_eq_of_lt hk]

theorem first_window (h : Ticking M tao m b) (hf : Flagged m b a) (hk : k < tao) :
    (m (a + 1 + k)).stamp = k + 1 := by
  have hlt := h.lt
  induction k using Nat.strong_induction_on with
  | _ k ih =>
    refine h.stamp_of_frame hf (by omega) fun j hj hfj => ?_
    have hbd := hfj.1
    rw [Boundary, h.tao, ih j hj (by omega), Nat.mod_eq_of_lt (by omega)] at hbd
    omega

section Regular

variable {P i : Nat}

def Regular (b : Nat → Bool) (d P : Nat) : Prop := ∀ n, d ≤ n → (b n = true ↔ P ∣ n - d)

theorem Regular.shift (hb : Regular b d P) (i : Nat) : Regular b (d + i * P) P := by
  intro n hn
  rw [hb n (by omega), show n - d = n - (d + i * P) + i * P by omega]
  exact Nat.dvd_add_left (Nat.dvd_mul_left P i)

theorem Regular.trigger (hb : Regular b d P) : b d = true := by
  rw [hb d (le_refl d), Nat.sub_self]
  exact Nat.dvd_zero P

theorem Regular.silent (hb : Regular b d P) {j : Nat} (hj : 0 < j) (hP : j < P) :
    b (d + j) = false := by
  rw [Bool.eq_false_iff]
  intro h
  rw [hb (d + j) (by omega), Nat.add_sub_cancel_left] at h
  exact absurd (Nat.le_of_dvd hj h) (by omega)

/-- No trigger of an earlier window is left over at clock `d`, unless every window
ends with a trigger. -/
def Clean (P tao : Nat) (m : Nat → State) (d : Nat) : Prop :=
  (m d).pending = true → tao = P ∧ Boundary (m d)

theorem pending_of_shift (h : Ticking M tao m b) (hb : Regular b d P) (hk : 0 < k) (hP : k < P)
    (hbd : Boundary (m (d + k))) : (m (d + P)).pending = false := by
  have hp : (m (d + k + 1)).pending = false := by
    rw [h.pending_of_boundary hbd, hb.silent hk hP, Bool.false_and]
  have := (h.unflagged_of_no_trigger (k := P - (k + 1)) hp fun j hj => by
    rw [Nat.add_assoc, Nat.add_assoc]
    exact hb.silent (by omega) (by omega)).1
  rwa [show d + k + 1 + (P - (k + 1)) = d + P by omega] at this

theorem clean_shift (h : Ticking M tao m b) (hb : Regular b d P) (hle : tao ≤ P) :
    Clean P tao m (d + P) := by
  obtain ⟨k, hk, hf, -⟩ := h.flagged_of_trigger hb.trigger
  rcases Nat.eq_zero_or_pos k with rfl | hpos
  · -- flagged at once, so that the next boundary is one full window on
    have hpos := h.pos
    have hbd : Boundary (m (d + tao)) := by
      have := h.first_window hf (k := tao - 1) (by omega)
      rw [Nat.add_zero, show d + 1 + (tao - 1) = d + tao by omega] at this
      rw [Boundary, h.tao, this, Nat.sub_add_cancel hpos, Nat.mod_self]
    rcases Nat.lt_or_eq_of_le hle with hlt | rfl
    · intro hp
      rw [h.pending_of_shift hb hpos hlt hbd] at hp
      cases hp
    · exact fun _ => ⟨rfl, hbd⟩
  · intro hp
    rw [h.pending_of_shift hb hpos (by omega) hf.1] at hp
    cases hp

theorem one_flag (h : Ticking M tao m b) (hb : Regular b d P) (hle : tao ≤ P)
    (hc : Clean P tao m d) :
    ∃ k < tao, Flagged m b (d + k) ∧ ∀ j < P, Flagged m b (d + j) → j = k := by
  obtain ⟨k, hk, hf, hmin⟩ := h.flagged_of_trigger hb.trigger
  refine ⟨k, hk, hf, fun j hj hfj => ?_⟩
  by_contra hne
  have hge : k ≤ j := Nat.le_of_not_lt fun hjk => hmin j hjk hfj.1
  have hlt : k < j := lt_of_le_of_ne hge (Ne.symm hne)
  cases hp : (m (d + k + 1)).pending with
  | false =>
    refine (h.unflagged_of_no_trigger (k := j - k) hp fun i hi => ?_).2 (j - (k + 1)) (by omega) ?_
    · rw [Nat.add_assoc, Nat.add_assoc]
      exact hb.silent (by omega) (by omega)
    · rwa [show d + k + 1 + (j - (k + 1)) = d + j by omega]
  | true =>
    -- a trigger survives its record only if the record's tick has a trigger, and `Clean`
    -- then leaves room for no second window in the period
    rw [h.pending_of_boundary hf.1, Bool.and_eq_true] at hp
    obtain rfl : k = 0 := by
      by_contra hk0
      rw [hb.silent (Nat.pos_of_ne_zero hk0) (by omega)] at hp
      exact absurd hp.1 (by decide)
    obtain ⟨rfl, -⟩ := hc hp.2
    have := h.first_window hf (k := j - 1) (by omega)
    rw [Nat.add_zero, show d + 1 + (j - 1) = d + j by omega] at this
    have hbd := hfj.1
    rw [Boundary, h.tao, this, Nat.mod_eq_of_lt (by omega)] at hbd
    omega

end Regular

section Frame

theorem frame_stamps (h : Ticking M tao m b) (hf : Flagged m b a) (hk : k < M)
    (hno : ∀ j, j + 1 < k → ¬ Flagged m b (a + 1 + j)) :
    (List.range' (a + 1) k).filterMap (fun n => recordStamp (m n)) =
      (List.range (k / tao)).map fun j => (j + 1) * tao := by
  induction k with
  | zero => simp
  | succ k ih =>
    have hstamp := h.stamp_of_frame hf hk fun j hj => hno j (by omega)
    have hrec : recordStamp (m (a + 1 + k)) = if tao ∣ k + 1 then some (k + 1) else none := by
      simp only [recordStamp, Boundary, h.tao, hstamp, Nat.dvd_iff_mod_eq_zero]
    rw [List.range'_1_concat, List.filterMap_append, ih (by omega) fun j hj => hno j (by omega),
      Nat.succ_div]
    split
    next hd =>
      have hdiv : (k / tao + 1) * tao = k + 1 := by
        have := Nat.div_mul_cancel hd
        rwa [Nat.succ_div, if_pos hd] at this
      simp [hrec, hd, List.range_succ, hdiv]
    next hd => simp [hrec, hd]

variable {a' P i : Nat}

theorem one_flag_of_shift (h : Ticking M tao m b) (hb : Regular b d P) (hle : tao ≤ P)
    (hi : 0 < i) : ∃ k < tao, Flagged m b (d + i * P + k) ∧
      ∀ j < P, Flagged m b (d + i * P + j) → j = k := by
  refine h.one_flag (hb.shift i) hle ?_
  have := h.clean_shift (hb.shift (i - 1)) hle
  rwa [Nat.add_assoc, ← Nat.succ_mul, Nat.succ_eq_add_one, Nat.sub_add_cancel hi] at this

theorem frame_length (h : Ticking M tao m b) (hb : Regular b d P) (hle : tao ≤ P)
    (hfirst : d + P ≤ a) (hf : Flagged m b a) (hf' : Flagged m b a') (hlt : a < a')
    (hno : ∀ n, a < n → n < a' → ¬ Flagged m b n) :
    P < a' - a + tao ∧ a' - a < P + tao := by
  have hP : 0 < P := h.pos.trans_le hle
  obtain ⟨i, hi, r, hr, rfl⟩ : ∃ i, 0 < i ∧ ∃ r < P, a = d + i * P + r := by
    refine ⟨(a - d) / P, Nat.div_pos (by omega) hP, (a - d) % P, Nat.mod_lt _ hP, ?_⟩
    have := Nat.div_add_mod (a - d) P
    rw [Nat.mul_comm] at this
    omega
  have hnext : d + (i + 1) * P = d + i * P + P := by rw [Nat.succ_mul, Nat.add_assoc]
  obtain ⟨k, hk, -, huniq⟩ := h.one_flag_of_shift hb hle hi
  obtain rfl := huniq r hr hf
  obtain ⟨k', hk', hfk', huniq'⟩ := h.one_flag_of_shift hb hle (Nat.succ_pos i)
  rw [hnext] at hfk' huniq'
  have hge : d + i * P + P ≤ a' := by
    by_contra hlt'
    have := huniq (a' - (d + i * P)) (by omega)
      (by rwa [show d + i * P + (a' - (d + i * P)) = a' by omega])
    omega
  have hle' : a' ≤ d + i * P + P + k' := by
    by_contra hlt'
    exact hno (d + i * P + P + k') (by omega) (by omega) hfk'
  omega

theorem frame_records (h : Ticking M tao m b) (hf : Flagged m b a) (hf' : Flagged m b a')
    (hlt : a < a') (hno : ∀ n, a < n → n < a' → ¬ Flagged m b n) (hM : a' - a < M)
    (hlow : P < a' - a + tao) (hhigh : a' - a < P + tao) :
    P / tao ≤ (a' - a) / tao ∧ (a' - a) / tao ≤ (P + tao - 1) / tao := by
  refine ⟨?_, Nat.div_le_div_right (by omega)⟩
  have hstamp := h.stamp_of_frame (k := a' - a - 1) hf (by omega)
    fun j hj => hno _ (by omega) (by omega)
  rw [show a + 1 + (a' - a - 1) = a' by omega, Nat.sub_add_cancel (by omega)] at hstamp
  have hd : tao ∣ a' - a := by
    have hbd := hf'.1
    rw [Boundary, h.tao, hstamp] at hbd
    exact Nat.dvd_of_mod_eq_zero hbd
  have hmul := Nat.div_mul_cancel hd
  rw [← Nat.lt_succ_iff, Nat.div_lt_iff_lt_mul h.pos, Nat.succ_mul]
  omega

end Frame

end Ticking

end PhotonCount.Meter
