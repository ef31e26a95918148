import PhotonCount.Machine.Mealy

universe u v w u' v' w' v''

namespace PhotonCount.Machine

variable {γ : Type u} {κ : Type v} {κ' : Type v'} {ρ : Type w'} {σ : Type u'} {ι : Type v''}
  {ω : Type w}

/-- What feeds a machine: a source, its share of the inputs, and what it passes on. -/
structure Driver (γ : Type u) (κ : Type v) (κ' : Type v') (ρ : Type w') (ι : Type v'') where
  source : Mealy γ κ' ρ
  pick : κ → κ'
  feed : γ → κ → ι

namespace Driver

variable (D : Driver γ κ κ' ρ ι) (m : Mealy σ ι ω)

def drive : Mealy (γ × σ) κ ω where
  step t k := (D.source.step t.1 (D.pick k), m.step t.2 (D.feed t.1 k))
  out t k := m.out t.2 (D.feed t.1 k)

@[simp] theorem drive_step (t : γ × σ) (k : κ) :
    (D.drive m).step t k = (D.source.step t.1 (D.pick k), m.step t.2 (D.feed t.1 k)) := rfl

@[simp] theorem drive_out (t : γ × σ) (k : κ) :
    (D.drive m).out t k = m.out t.2 (D.feed t.1 k) := rfl

def feeds : γ → List κ → List ι
  | _, [] => []
  | g, k :: ks => D.feed g k :: feeds (D.source.step g (D.pick k)) ks

@[simp] theorem feeds_nil (g : γ) : D.feeds g [] = [] := rfl

@[simp] theorem feeds_cons (g : γ) (k : κ) (ks : List κ) :
    D.feeds g (k :: ks) = D.feed g k :: D.feeds (D.source.step g (D.pick k)) ks := rfl

@[simp] theorem feeds_append (g : γ) (ks ls : List κ) :
    D.feeds g (ks ++ ls) = D.feeds g ks ++ D.feeds (D.source.run g (ks.map D.pick)) ls := by
  induction ks generalizing g with
  | nil => rfl
  | cons k ks ih => simp [ih]

theorem length_feeds (g : γ) (ks : List κ) : (D.feeds g ks).length = ks.length := by
  induction ks generalizing g with
  | nil => rfl
  | cons k ks ih => simp [ih]

theorem forall_mem_feeds {P : ι → Prop} {ks : List κ} (h : ∀ g, ∀ k ∈ ks, P (D.feed g k))
    (g : γ) : ∀ i ∈ D.feeds g ks, P i := by
  induction ks generalizing g with
  | nil => simp
  | cons k ks ih =>
    rw [feeds_cons, List.forall_mem_cons]
    exact ⟨h g k (by simp), ih (fun g k hk => h g k (List.mem_cons_of_mem _ hk)) _⟩

@[simp] theorem run_drive (t : γ × σ) (ks : List κ) :
    (D.drive m).run t ks = (D.source.run t.1 (ks.map D.pick), m.run t.2 (D.feeds t.1 ks)) := by
  induction ks generalizing t with
  | nil => rfl
  | cons k ks ih => simp [ih]

@[simp] theorem outputs_drive (t : γ × σ) (ks : List κ) :
    (D.drive m).outputs t ks = m.outputs t.2 (D.feeds t.1 ks) := by
  induction ks generalizing t with
  | nil => rfl
  | cons k ks ih => simp [ih]

def driven {t : γ × σ} (c : (D.drive m).Consecutive t) : m.Consecutive t.2 where
  before := D.feeds t.1 c.before
  first := D.feed (D.source.run t.1 (c.before.map D.pick)) c.first
  body := D.feeds (D.source.run t.1 ((c.before ++ [c.first]).map D.pick)) c.body
  last := D.feed (D.source.run t.1 ((c.before ++ c.first :: c.body).map D.pick)) c.last
  output₁ := c.output₁
  output₂ := c.output₂
  emits₁ := by simpa using c.emits₁
  silent := by simpa using c.silent
  emits₂ := by simpa using c.emits₂

theorem driven_trace {t : γ × σ} (c : (D.drive m).Consecutive t) :
    (D.driven m c).trace = D.feeds t.1 c.trace := by
  simp [Mealy.Consecutive.trace, Mealy.Consecutive.inputs, driven]

theorem driven_first_body {t : γ × σ} (c : (D.drive m).Consecutive t) :
    (D.driven m c).first :: (D.driven m c).body =
      D.feeds (D.source.run t.1 (c.before.map D.pick)) (c.first :: c.body) := by
  simp [driven]

end Driver

end PhotonCount.Machine
