import PhotonCount.Machine.Fifo
import PhotonCount.Machine.Mealy

universe u

namespace PhotonCount.Machine.Fifo

variable {depth : Nat} {α : Type u} {f : Fifo depth α} {a : α}

/-- The oldest item goes if it is asked for, and then an item may come. -/
structure Ask (α : Type u) where
  pop : Bool
  push : Option α

def queue (depth : Nat) (α : Type u) : Mealy (Fifo depth α) (Ask α) α where
  step f k :=
    let f := if k.pop then (f.pop.map Prod.snd).getD f else f
    match k.push with
    | some a => f.push a
    | none => f
  out f k := if k.pop then f.pop.map Prod.fst else none

def Serves (f : Fifo depth α) (k : Ask α) : Prop :=
  (k.pop = true → f.items ≠ []) ∧ (k.push.isSome → f.items.length < depth)

theorem items_push (h : f.items.length < depth) : (f.push a).items = f.items ++ [a] := by
  rw [push, dif_pos h]

theorem items_step {k : Ask α} (h : f.Serves k) :
    ((queue depth α).step f k).items =
      (if k.pop then f.items.tail else f.items) ++ k.push.toList := by
  obtain ⟨pop, push⟩ := k
  have hpop : (if pop then (f.pop.map Prod.snd).getD f else f).items =
      if pop then f.items.tail else f.items := by
    cases pop with
    | false => rfl
    | true =>
      obtain ⟨a, as, hf⟩ := List.exists_cons_of_ne_nil (h.1 rfl)
      obtain ⟨g, hg, hitems⟩ := pop_of_items hf
      simp [hg, hitems, hf]
  cases push with
  | none => simpa [queue] using hpop
  | some a =>
    have hroom : (if pop then f.items.tail else f.items).length < depth := by
      refine lt_of_le_of_lt ?_ (h.2 rfl)
      cases pop <;> simp
    have hitems := items_push (a := a) (hpop ▸ hroom)
    rw [hpop] at hitems
    exact hitems

theorem out_queue (k : Ask α) :
    (queue depth α).out f k = if k.pop then f.items.head? else none := by
  cases hf : f.items with
  | nil => simp [queue, pop_eq_none.mpr hf]
  | cons a as =>
    obtain ⟨g, hg, -⟩ := pop_of_items hf
    simp [queue, hg]

end PhotonCount.Machine.Fifo
