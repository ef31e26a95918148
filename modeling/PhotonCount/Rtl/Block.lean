import Mathlib.Logic.Function.Basic

/-! Clocked blocks with blocking and nonblocking assignments.  The blocks of one
edge run one after the other in some order: what a block assigns with `=` is seen
by those that run after it, what it assigns with `<=` only after the edge. -/

universe u v w z

namespace PhotonCount.Rtl

/-- What a block leaves behind: the registers with its blocking assignments made,
and its nonblocking ones, still to be made. -/
structure Effect (σ : Type u) where
  now : σ
  later : σ → σ

abbrev Block (ι : Type v) (σ : Type u) := ι → σ → Effect σ

namespace Block

variable {σ : Type u} {ι : Type v} {τ : Type w} {κ : Type z}

/-- Run blocks in order; the nonblocking assignments queue up in the same order. -/
def sweep : List (Block ι σ) → ι → σ → Effect σ
  | [], _, s => ⟨s, id⟩
  | b :: bs, i, s =>
    let e := b i s
    let r := sweep bs i e.now
    ⟨r.now, r.later ∘ e.later⟩

def edge (bs : List (Block ι σ)) (i : ι) (s : σ) : σ :=
  (sweep bs i s).later (sweep bs i s).now

def within (pick : κ → ι) (get : τ → σ) (put : σ → τ → τ) (b : Block ι σ) : Block κ τ :=
  fun k t => ⟨put (b (pick k) (get t)).now t,
    fun t' => put ((b (pick k) (get t)).later (get t')) t'⟩

theorem edge_pair (a b : Block ι σ) (i : ι) (s : σ) :
    edge [a, b] i s = (b i (a i s).now).later ((a i s).later (b i (a i s).now).now) := rfl

/-- Neither block sees or overwrites what the other one does from `s`. -/
structure Independent (a b : Block ι σ) (i : ι) (s : σ) : Prop where
  now : (b i (a i s).now).now = (a i (b i s).now).now
  later : (b i (a i s).now).later ∘ (a i s).later = (a i (b i s).now).later ∘ (b i s).later

theorem Independent.within {a b : Block ι σ} {pick : κ → ι} {get : τ → σ} {put : σ → τ → τ}
    (get_put : ∀ s t, get (put s t) = s) (put_put : ∀ s s' t, put s (put s' t) = put s t)
    {k : κ} {t : τ} (h : Independent a b (pick k) (get t)) :
    Independent (a.within pick get put) (b.within pick get put) k t where
  now := by simp [Block.within, get_put, put_put, h.now]
  later := by
    funext t'
    have := congrFun h.later (get t')
    simp only [Function.comp_apply] at this
    simp [Block.within, get_put, put_put, this]

theorem edge_swap (bs cs : List (Block ι σ)) {a b : Block ι σ} {i : ι} {s : σ}
    (h : Independent a b i (sweep bs i s).now) :
    edge (bs ++ a :: b :: cs) i s = edge (bs ++ b :: a :: cs) i s := by
  have hsweep : sweep (bs ++ a :: b :: cs) i s = sweep (bs ++ b :: a :: cs) i s := by
    induction bs generalizing s with
    | nil =>
      simp only [List.nil_append, sweep, Function.comp_assoc] at h ⊢
      rw [h.now, h.later]
    | cons c bs ih =>
      simp only [List.cons_append, sweep]
      rw [ih h]
  rw [edge, edge, hsweep]

end Block

end PhotonCount.Rtl
