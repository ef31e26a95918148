import PhotonCount.Machine.Mealy

universe u v w z

namespace PhotonCount.Machine.Mealy

variable {σ : Type u} {ι : Type v} {ω : Type w} (m : Mealy σ ι ω) (s : σ) (is : Nat → ι)

def states : Nat → σ
  | 0 => s
  | n + 1 => m.step (states n) (is n)

@[simp] theorem states_zero : m.states s is 0 = s := rfl

@[simp] theorem states_succ (n : Nat) :
    m.states s is (n + 1) = m.step (m.states s is n) (is n) := rfl

@[simp] theorem states_observe {ρ : Type z} (out : σ → ι → Option ρ) (n : Nat) :
    (m.observe out).states s is n = m.states s is n := by
  induction n with
  | zero => rfl
  | succ n ih => exact congrArg (m.step · (is n)) ih

def emitted (n : Nat) : Option ω := m.out (m.states s is n) (is n)

def emissions (n k : Nat) : List ω := (List.range' n k).filterMap (m.emitted s is)

theorem emissions_succ (n : Nat) :
    m.emissions s is 0 (n + 1) = m.emissions s is 0 n ++ (m.emitted s is n).toList := by
  rw [emissions, List.range'_1_concat, List.filterMap_append, Nat.zero_add, ← emissions]
  cases h : m.emitted s is n <;> simp [h]

theorem emissions_prefix {n k : Nat} (h : n ≤ k) :
    m.emissions s is 0 n <+: m.emissions s is 0 k := by
  induction k, h using Nat.le_induction with
  | base => exact List.prefix_refl _
  | succ k _ ih =>
    rw [emissions_succ]
    exact ih.trans (List.prefix_append _ _)

theorem states_invariant {P : σ → Prop} (hstep : ∀ n s, P s → P (m.step s (is n))) (hs : P s)
    (n : Nat) : P (m.states s is n) := by
  induction n with
  | zero => exact hs
  | succ n ih => exact hstep n _ ih

end PhotonCount.Machine.Mealy
