import PhotonCount.Machine.Mealy

universe u v w u' v' w'

namespace PhotonCount.Machine

variable {σ : Type u} {ι : Type v} {ω : Type w} {τ : Type u'} {κ : Type v'} {ρ : Type w'}

/-- `m` does what `n` does on the inputs that satisfy `ok`. -/
structure Simulation (m : Mealy σ ι ω) (n : Mealy τ κ ρ) where
  ok : ι → Prop
  abs : σ → τ
  tr : σ → ι → κ
  enc : ρ → ω
  step : ∀ s i, ok i → n.step (abs s) (tr s i) = abs (m.step s i)
  out : ∀ s i, ok i → m.out s i = (n.out (abs s) (tr s i)).map enc

namespace Simulation

variable {m : Mealy σ ι ω} {n : Mealy τ κ ρ} (S : Simulation m n)

def translate : σ → List ι → List κ
  | _, [] => []
  | s, i :: is => S.tr s i :: translate (m.step s i) is

@[simp] theorem translate_nil (s : σ) : S.translate s [] = [] := rfl

@[simp] theorem translate_cons (s : σ) (i : ι) (is : List ι) :
    S.translate s (i :: is) = S.tr s i :: S.translate (m.step s i) is := rfl

theorem forall_translate {P : κ → Prop} {s : σ} {is : List ι}
    (h : ∀ s, ∀ i ∈ is, P (S.tr s i)) : ∀ k ∈ S.translate s is, P k := by
  induction is generalizing s with
  | nil => exact List.forall_mem_nil _
  | cons i is ih =>
    rw [translate_cons, List.forall_mem_cons]
    exact ⟨h s i List.mem_cons_self, ih fun s j hj => h s j (List.mem_cons_of_mem _ hj)⟩

theorem countP_translate {p : κ → Bool} {q : ι → Bool} {s : σ} {is : List ι}
    (h : ∀ s, ∀ i ∈ is, p (S.tr s i) = q i) : (S.translate s is).countP p = is.countP q := by
  induction is generalizing s with
  | nil => rfl
  | cons i is ih =>
    rw [translate_cons, List.countP_cons, List.countP_cons, h s i List.mem_cons_self,
      ih fun s j hj => h s j (List.mem_cons_of_mem _ hj)]

theorem run_abs {s : σ} {is : List ι} (h : ∀ i ∈ is, S.ok i) :
    n.run (S.abs s) (S.translate s is) = S.abs (m.run s is) := by
  induction is generalizing s with
  | nil => rfl
  | cons i is ih =>
    rw [List.forall_mem_cons] at h
    simp only [translate_cons, Mealy.run_cons]
    rw [S.step s i h.1, ih h.2]

theorem outputs_eq {s : σ} {is : List ι} (h : ∀ i ∈ is, S.ok i) :
    m.outputs s is = (n.outputs (S.abs s) (S.translate s is)).map S.enc := by
  induction is generalizing s with
  | nil => rfl
  | cons i is ih =>
    rw [List.forall_mem_cons] at h
    simp only [translate_cons, Mealy.outputs_cons, List.map_append]
    rw [S.out s i h.1, S.step s i h.1, ih h.2, Option.toList_map]

theorem silent {s : σ} {is : List ι} (h : ∀ i ∈ is, S.ok i) (hs : m.outputs s is = []) :
    n.outputs (S.abs s) (S.translate s is) = [] := by
  rw [S.outputs_eq h] at hs
  exact List.map_eq_nil_iff.mp hs

theorem emits {s : σ} {i : ι} {o : ω} (h : S.ok i) (ho : m.out s i = some o) :
    ∃ r, n.out (S.abs s) (S.tr s i) = some r ∧ S.enc r = o := by
  rw [S.out s i h] at ho
  exact Option.map_eq_some_iff.mp ho

end Simulation

end PhotonCount.Machine
