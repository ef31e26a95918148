import PhotonCount.Machine.Mealy

universe u v w

namespace PhotonCount.Machine.Mealy

variable {σ : Type u} {ι : Type v} {ω : Type w}

/-- The first run is the second with some inputs put in that are `idle` where they come. -/
inductive Stutter (m : Mealy σ ι ω) (idle : σ → ι → Prop) : σ → List ι → List ι → Prop
  | nil (s : σ) : Stutter m idle s [] []
  | keep {s : σ} {i : ι} {is js : List ι} :
    Stutter m idle (m.step s i) is js → Stutter m idle s (i :: is) (i :: js)
  | skip {s : σ} {i : ι} {is js : List ι} :
    idle s i → Stutter m idle s is js → Stutter m idle s (i :: is) js

theorem Stutter.unnoticed {m : Mealy σ ι ω} {idle : σ → ι → Prop}
    (hstep : ∀ s i, idle s i → m.step s i = s) (hout : ∀ s i, idle s i → m.out s i = none)
    {s : σ} {is js : List ι} (h : m.Stutter idle s is js) :
    m.outputs s is = m.outputs s js ∧ m.run s is = m.run s js := by
  induction h with
  | nil => exact ⟨rfl, rfl⟩
  | keep _ ih => simpa using ih
  | skip hidle _ ih =>
    rw [outputs_cons, run_cons, hstep _ _ hidle, hout _ _ hidle]
    exact ih

end PhotonCount.Machine.Mealy
