import Mathlib.Data.List.Sublists

universe u

namespace PhotonCount.Machine

structure Fifo (depth : Nat) (α : Type u) where
  items : List α
  le : items.length ≤ depth

namespace Fifo

variable {depth : Nat} {α : Type u}

def empty : Fifo depth α := ⟨[], Nat.zero_le _⟩

def push (f : Fifo depth α) (a : α) : Fifo depth α :=
  if h : f.items.length < depth then
    ⟨f.items ++ [a], by rw [List.length_append]; exact h⟩
  else f

def pop (f : Fifo depth α) : Option (α × Fifo depth α) :=
  match h : f.items with
  | [] => none
  | a :: as => some (a, ⟨as, by have := f.le; rw [h] at this; exact Nat.le_of_succ_le this⟩)

theorem push_sublist (f : Fifo depth α) (a : α) : (f.push a).items.Sublist (f.items ++ [a]) := by
  unfold push
  split
  · exact .refl _
  · exact List.sublist_append_left _ _

theorem push_ne_nil {f : Fifo depth α} (h : f.items ≠ []) (a : α) : (f.push a).items ≠ [] := by
  unfold push
  split
  · simp
  · exact h

theorem pop_eq_none {f : Fifo depth α} : f.pop = none ↔ f.items = [] := by
  unfold pop
  split
  next h => simp [h]
  next h => simp [h]

theorem items_of_pop {f g : Fifo depth α} {a : α} (h : f.pop = some (a, g)) :
    f.items = a :: g.items := by
  unfold pop at h
  split at h
  next => cases h
  next hf =>
    obtain ⟨rfl, rfl⟩ := Prod.mk.inj (Option.some.inj h)
    exact hf

theorem pop_of_items {f : Fifo depth α} {a : α} {as : List α} (h : f.items = a :: as) :
    ∃ g, f.pop = some (a, g) ∧ g.items = as := by
  have hne : f.pop ≠ none := fun hp => by simp [pop_eq_none.mp hp] at h
  obtain ⟨⟨b, g⟩, hg⟩ := Option.ne_none_iff_exists'.mp hne
  have hf := items_of_pop hg
  rw [h] at hf
  obtain ⟨rfl, rfl⟩ := List.cons.inj hf
  exact ⟨g, hg, rfl⟩

end Fifo

/-- `bs` is `as` after some items have gone and others, each with `p`, have come behind. -/
def Refilled (p : α → Prop) (as bs : List α) : Prop :=
  ∃ new, (∀ a ∈ new, p a) ∧ bs.Sublist (as ++ new)

namespace Refilled

variable {p : α → Prop} {as bs cs : List α}

theorem of_sublist (h : bs.Sublist as) : Refilled p as bs := ⟨[], by simp, by simpa using h⟩

theorem trans (h₁ : Refilled p as bs) (h₂ : Refilled p bs cs) : Refilled p as cs := by
  obtain ⟨new₁, hp₁, hs₁⟩ := h₁
  obtain ⟨new₂, hp₂, hs₂⟩ := h₂
  refine ⟨new₁ ++ new₂, List.forall_mem_append.mpr ⟨hp₁, hp₂⟩, hs₂.trans ?_⟩
  rw [← List.append_assoc]
  exact hs₁.append (.refl _)

theorem append_left (h : Refilled p as bs) (ds : List α) : Refilled p (ds ++ as) (ds ++ bs) := by
  obtain ⟨new, hp, hs⟩ := h
  refine ⟨new, hp, ?_⟩
  rw [List.append_assoc]
  exact hs.append_left ds

theorem split (h : Refilled p as bs) :
    ∃ old new, bs = old ++ new ∧ old.Sublist as ∧ ∀ a ∈ new, p a := by
  obtain ⟨new, hp, hs⟩ := h
  obtain ⟨old, new', rfl, hold, hnew⟩ := List.sublist_append_iff.mp hs
  exact ⟨old, new', rfl, hold, fun a ha => hp a (hnew.subset ha)⟩

end Refilled

end PhotonCount.Machine
