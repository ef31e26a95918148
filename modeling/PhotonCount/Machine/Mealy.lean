import Mathlib.Data.List.Basic
import Mathlib.Data.List.Chain
import Mathlib.Data.List.Infix

universe u v w z

namespace PhotonCount.Machine

structure Mealy (σ : Type u) (ι : Type v) (ω : Type w) where
  step : σ → ι → σ
  out : σ → ι → Option ω

variable {σ : Type u} {ι : Type v} {ω : Type w}

namespace Mealy

def run (m : Mealy σ ι ω) : σ → List ι → σ
  | s, [] => s
  | s, i :: is => m.run (m.step s i) is

def outputs (m : Mealy σ ι ω) : σ → List ι → List ω
  | _, [] => []
  | s, i :: is => (m.out s i).toList ++ m.outputs (m.step s i) is

def observe {ρ : Type z} (m : Mealy σ ι ω) (out : σ → ι → Option ρ) : Mealy σ ι ρ := ⟨m.step, out⟩

section Runs

variable (m : Mealy σ ι ω)

@[simp] theorem run_nil (s : σ) : m.run s [] = s := rfl

@[simp] theorem run_cons (s : σ) (i : ι) (is : List ι) :
    m.run s (i :: is) = m.run (m.step s i) is := rfl

@[simp] theorem outputs_nil (s : σ) : m.outputs s [] = [] := rfl

@[simp] theorem outputs_cons (s : σ) (i : ι) (is : List ι) :
    m.outputs s (i :: is) = (m.out s i).toList ++ m.outputs (m.step s i) is := rfl

@[simp] theorem run_append (s : σ) (is js : List ι) :
    m.run s (is ++ js) = m.run (m.run s is) js := by
  induction is generalizing s with
  | nil => rfl
  | cons i is ih => exact ih (m.step s i)

@[simp] theorem outputs_append (s : σ) (is js : List ι) :
    m.outputs s (is ++ js) = m.outputs s is ++ m.outputs (m.run s is) js := by
  induction is generalizing s with
  | nil => rfl
  | cons i is ih => simp [ih]

@[simp] theorem run_observe {ρ : Type z} (out : σ → ι → Option ρ) (s : σ) (is : List ι) :
    (m.observe out).run s is = m.run s is := by
  induction is generalizing s with
  | nil => rfl
  | cons i is ih => exact ih (m.step s i)

theorem out_of_silent {s : σ} {i : ι} {is : List ι} (h : m.outputs s (i :: is) = []) :
    m.out s i = none ∧ m.outputs (m.step s i) is = [] := by
  simpa using h

theorem run_invariant {P : σ → Prop} {ok : ι → Prop}
    (hstep : ∀ s i, ok i → P s → P (m.step s i)) {s : σ} {is : List ι}
    (hs : P s) (his : ∀ i ∈ is, ok i) : P (m.run s is) := by
  induction is generalizing s with
  | nil => exact hs
  | cons i is ih =>
    apply ih
    · exact hstep s i (his i (by simp)) hs
    · intro j hj
      exact his j (by simp [hj])

end Runs

section Along

def Along (m : Mealy σ ι ω) (P : σ → ι → Prop) : σ → List ι → Prop
  | _, [] => True
  | s, i :: is => P s i ∧ m.Along P (m.step s i) is

variable {m : Mealy σ ι ω} {P Q : σ → ι → Prop} {s : σ} {i : ι} {is js : List ι}

@[simp] theorem along_nil : m.Along P s [] := trivial

@[simp] theorem along_cons : m.Along P s (i :: is) ↔ P s i ∧ m.Along P (m.step s i) is := Iff.rfl

@[simp] theorem along_append :
    m.Along P s (is ++ js) ↔ m.Along P s is ∧ m.Along P (m.run s is) js := by
  induction is generalizing s with
  | nil => simp
  | cons i is ih => simp [ih, and_assoc]

theorem Along.imp (h : m.Along P s is) (hPQ : ∀ s i, P s i → Q s i) : m.Along Q s is := by
  induction is generalizing s with
  | nil => trivial
  | cons i is ih => exact ⟨hPQ _ _ h.1, ih h.2⟩

theorem Along.agree {n : Mealy σ ι ω}
    (hagree : ∀ s i, P s i → n.step s i = m.step s i ∧ n.out s i = m.out s i)
    (h : m.Along P s is) : n.run s is = m.run s is ∧ n.outputs s is = m.outputs s is := by
  induction is generalizing s with
  | nil => exact ⟨rfl, rfl⟩
  | cons i is ih =>
    have hnow := hagree s i h.1
    have hlater := ih h.2
    simp only [run_cons, outputs_cons, hnow.1, hnow.2, hlater.1, hlater.2, and_self]

theorem along_of_prefix (h : ∀ p i, p ++ [i] <+: is → P (m.run s p) i) : m.Along P s is := by
  induction is generalizing s with
  | nil => trivial
  | cons i is ih =>
    refine ⟨h [] i (by simp), ih fun p j hp => ?_⟩
    exact h (i :: p) j (by simpa using hp)

theorem Along.of_prefix {p : List ι} (h : m.Along P s is) (hp : p <+: is) : m.Along P s p := by
  obtain ⟨q, rfl⟩ := hp
  exact (along_append.mp h).1

end Along

inductive Reachable (m : Mealy σ ι ω) (start : σ → Prop) : σ → Prop
  | start {s} : start s → Reachable m start s
  | step {s} (i : ι) : Reachable m start s → Reachable m start (m.step s i)

theorem Reachable.invariant {m : Mealy σ ι ω} {start P : σ → Prop}
    (hstart : ∀ s, start s → P s) (hstep : ∀ s i, P s → P (m.step s i))
    {s : σ} (h : m.Reachable start s) : P s := by
  induction h with
  | start h => exact hstart _ h
  | step i _ ih => exact hstep _ i ih

theorem Reachable.run {m : Mealy σ ι ω} {start : σ → Prop} {s : σ}
    (h : m.Reachable start s) (is : List ι) : m.Reachable start (m.run s is) := by
  induction is generalizing s with
  | nil => exact h
  | cons i is ih => exact ih (h.step i)

/-- A window opens at the start of the run and right after each output. -/
def Opens (m : Mealy σ ι ω) (s : σ) (before : List ι) : Prop :=
  before = [] ∨ ∃ p i, before = p ++ [i] ∧ (m.out (m.run s p) i).isSome

/-- One output of the runs from `s`, with the inputs since the output before it. -/
structure Window (m : Mealy σ ι ω) (s : σ) where
  before : List ι
  body : List ι
  last : ι
  output : ω
  opens : m.Opens s before
  silent : m.outputs (m.run s before) body = []
  emits : m.out (m.run s (before ++ body)) last = some output

namespace Window

variable {m : Mealy σ ι ω} {s : σ}

def inputs (w : m.Window s) : List ι := w.body ++ [w.last]

def trace (w : m.Window s) : List ι := w.before ++ w.inputs

theorem outputs_trace (w : m.Window s) :
    m.outputs s w.trace = m.outputs s w.before ++ [w.output] := by
  have h := w.emits
  rw [run_append] at h
  simp [trace, inputs, w.silent, h]

theorem opens_trace (w : m.Window s) : m.Opens s w.trace := by
  refine .inr ⟨w.before ++ w.body, w.last, by simp [trace, inputs], ?_⟩
  rw [w.emits]
  rfl

end Window

theorem silent_or_window (m : Mealy σ ι ω) (s : σ) (is : List ι) :
    m.outputs s is = [] ∨
      ∃ (w : m.Window s) (rest : List ι),
        is = w.trace ++ rest ∧ m.outputs (m.run s w.trace) rest = [] := by
  induction is using List.reverseRecOn with
  | nil => exact .inl rfl
  | append_singleton is i ih =>
    cases ho : m.out (m.run s is) i with
    | none =>
      rcases ih with h | ⟨w, rest, rfl, h⟩
      · exact .inl (by simp [h, ho])
      · rw [run_append] at ho
        exact .inr ⟨w, rest ++ [i], by simp, by simp [h, ho]⟩
    | some o =>
      rcases ih with h | ⟨w, rest, rfl, h⟩
      · exact .inr ⟨⟨[], is, i, o, .inl rfl, h, ho⟩, [], by simp [Window.trace, Window.inputs],
          rfl⟩
      · exact .inr ⟨⟨w.trace, rest, i, o, w.opens_trace, h, ho⟩, [],
          by simp [Window.trace, Window.inputs], rfl⟩

theorem Opens.induction {m : Mealy σ ι ω} {s : σ} {motive : (is : List ι) → m.Opens s is → Prop}
    (nil : motive [] (.inl rfl))
    (window : ∀ w : m.Window s, motive w.before w.opens → motive w.trace w.opens_trace)
    (is : List ι) (h : m.Opens s is) : motive is h := by
  induction hn : is.length using Nat.strong_induction_on generalizing is with
  | _ n ih =>
    rcases h with rfl | ⟨p, i, rfl, hi⟩
    · exact nil
    · obtain ⟨o, ho⟩ := Option.isSome_iff_exists.mp hi
      rcases m.silent_or_window s p with hs | ⟨v, rest, rfl, hs⟩
      · exact window ⟨[], p, i, o, .inl rfl, hs, ho⟩ nil
      · have hlt : v.trace.length < n := by
          simp only [← hn, List.length_append, List.length_singleton]
          omega
        have hv := ih _ hlt v.trace v.opens_trace rfl
        have htrace : v.trace ++ rest ++ [i] = v.trace ++ (rest ++ [i]) := by simp
        have := window ⟨v.trace, rest, i, o, v.opens_trace, hs, ho⟩ hv
        simp only [Window.trace, Window.inputs] at this htrace ⊢
        convert this using 1

/-- Two outputs with nothing put out between them. -/
structure Consecutive (m : Mealy σ ι ω) (s : σ) where
  before : List ι
  first : ι
  body : List ι
  last : ι
  output₁ : ω
  output₂ : ω
  emits₁ : m.out (m.run s before) first = some output₁
  silent : m.outputs (m.run s (before ++ [first])) body = []
  emits₂ : m.out (m.run s (before ++ first :: body)) last = some output₂

namespace Consecutive

variable {m : Mealy σ ι ω} {s : σ}

def state (c : m.Consecutive s) : σ := m.run s c.before

def inputs (c : m.Consecutive s) : List ι := c.body ++ [c.last]

def trace (c : m.Consecutive s) : List ι := c.before ++ c.first :: c.inputs

end Consecutive

theorem outputs_isChain {m : Mealy σ ι ω} {s : σ} {R : ω → ω → Prop} {is : List ι}
    (h : ∀ c : m.Consecutive s, c.trace <+: is → R c.output₁ c.output₂) :
    (m.outputs s is).IsChain R := by
  induction is using List.reverseRecOn with
  | nil => exact .nil
  | append_singleton is i ih =>
    have ih := ih fun c hc => h c (hc.trans (List.prefix_append _ _))
    rw [outputs_append]
    cases ho : m.out (m.run s is) i with
    | none => simpa [ho] using ih
    | some o =>
      have hlast : m.outputs (m.run s is) [i] = [o] := by simp [ho]
      rw [hlast, List.isChain_append]
      refine ⟨ih, .singleton o, ?_⟩
      rcases m.silent_or_window s is with hs | ⟨w, rest, rfl, hs⟩
      · simp [hs]
      · have htrace : w.trace = w.before ++ w.body ++ [w.last] := by
          simp [Window.trace, Window.inputs]
        rw [outputs_append, w.outputs_trace, hs]
        simp only [List.append_nil, List.getLast?_concat, List.head?_cons, Option.mem_some_iff]
        rintro _ rfl _ rfl
        rw [htrace] at hs ho h
        exact h ⟨w.before ++ w.body, w.last, rest, i, w.output, o, w.emits, hs,
          by simpa using ho⟩ (by simp [Consecutive.trace, Consecutive.inputs])

end Mealy

end PhotonCount.Machine
