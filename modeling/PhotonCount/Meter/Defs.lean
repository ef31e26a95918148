import PhotonCount.Machine.Mealy

/-! A photon meter over the natural numbers: it divides time into windows of `tao`
ticks, and closes each with a record of the photons counted in it, the tick it ends
on and whether a trigger fell into it.  A flagged record starts the time scale anew.
Time and counts run modulo `M`. -/

namespace PhotonCount.Meter

open Machine

structure State where
  tao : Nat
  stamp : Nat
  since : Nat
  pending : Bool
  deriving DecidableEq

structure Record where
  stamp : Nat
  count : Nat
  flag : Bool
  deriving DecidableEq

inductive Event
  | photon
  | retune (tao : Nat)
  | tick (trigger : Bool)
  deriving DecidableEq

def State.flag (m : State) (trigger : Bool) : Bool := trigger || m.pending

def State.record (m : State) (trigger : Bool) : Record := ⟨m.stamp, m.since, m.flag trigger⟩

/-- The tick that closes a window.  A trigger on this very tick leaves `pending`
as it was. -/
def close (M : Nat) (trigger : Bool) (m : State) : State :=
  { m with
    stamp := if m.flag trigger then 1 else (m.stamp + 1) % M
    since := 0
    pending := trigger && m.pending }

def advance (M : Nat) (trigger : Bool) (m : State) : State :=
  { m with stamp := (m.stamp + 1) % M, pending := trigger || m.pending }

def tick (M : Nat) (trigger : Bool) (m : State) : State :=
  if m.tao = 0 then m
  else if m.stamp % m.tao = 0 then close M trigger m
  else advance M trigger m

def meter (M : Nat) : Mealy State Event Record where
  step
    | m, .photon => { m with since := (m.since + 1) % M }
    | m, .retune tao => { m with tao := tao }
    | m, .tick trigger => tick M trigger m
  out
    | _, .photon => none
    | _, .retune _ => none
    | m, .tick trigger =>
      if m.tao ≠ 0 ∧ m.stamp % m.tao = 0 then some (m.record trigger) else none

namespace Event

def isPhoton : Event → Bool
  | .photon => true
  | _ => false

def isTick : Event → Bool
  | .tick _ => true
  | _ => false

def isTrigger : Event → Bool
  | .tick trigger => trigger
  | _ => false

def isRetune : Event → Bool
  | .retune _ => true
  | _ => false

def Live : Event → Prop
  | .retune tao => tao ≠ 0
  | _ => True

end Event

def photons (es : List Event) : Nat := es.countP Event.isPhoton

def ticks (es : List Event) : Nat := es.countP Event.isTick

def triggered (es : List Event) : Bool := es.any Event.isTrigger

end PhotonCount.Meter
