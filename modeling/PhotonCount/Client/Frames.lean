import PhotonCount.Client.Receive

namespace PhotonCount.Client

/-- `data[2*i]` with `data[2*i+1]`; a number left over is not looked at. -/
def pairs : List Nat → List (Nat × Nat)
  | d₀ :: d₁ :: data => (d₀, d₁) :: pairs data
  | _ => []

def lastStamp (ps : List (Nat × Nat)) : Nat := (0 :: ps.map Prod.fst).getLast (by simp)

def Rising (ps : List (Nat × Nat)) : Prop := (0 :: ps.map Prod.fst).IsChain (· < ·)

/-- Time stamps that increase, and a last one that does not. -/
structure Frame where
  rising : List (Nat × Nat)
  last : Nat × Nat
  rises : Rising rising
  falls : last.1 ≤ lastStamp rising

namespace Frame

def pairs (f : Frame) : List (Nat × Nat) := f.rising ++ [f.last]

/-- The flag is taken off the last count, whether it is there or not. -/
def drawn (f : Frame) : List Nat × List Int :=
  (f.pairs.map Prod.fst, f.rising.map (fun p => (p.2 : Int)) ++ [f.last.2 - si])

end Frame

section Loop

variable {opened : List (Nat × Nat)} {p : Nat × Nat} {l : Loop}

theorem rising_nil : Rising [] := List.isChain_singleton 0

theorem lastStamp_append : lastStamp (opened ++ [p]) = p.1 := by
  simp [lastStamp]

theorem Rising.append (h : Rising opened) (hp : lastStamp opened < p.1) :
    Rising (opened ++ [p]) := by
  rw [Rising, List.map_append, ← List.cons_append]
  refine List.isChain_append.mpr ⟨h, List.isChain_singleton _, fun x hx y hy => ?_⟩
  obtain rfl : p.1 = y := by simpa using hy
  rw [List.getLast?_eq_some_getLast (by simp), Option.mem_some] at hx
  exact hx ▸ hp

structure Within (l : Loop) (opened : List (Nat × Nat)) : Prop where
  x : l.x = opened.map Prod.fst
  y : l.y = opened.map fun p => (p.2 : Int)
  tmp : l.tmp = lastStamp opened
  rises : Rising opened

theorem Within.pass_rise (h : Within l opened) (hp : p.1 > l.tmp) :
    Within (pass p.1 p.2 l) (opened ++ [p]) := by
  refine ⟨?_, ?_, ?_, h.rises.append (h.tmp ▸ hp)⟩
  · simp [pass, hp, h.x]
  · simp [pass, hp, h.y]
  · rw [lastStamp_append, pass, if_pos hp]

theorem within_start (count : Nat) : Within (.start count) [] := ⟨rfl, rfl, rfl, rising_nil⟩

theorem Within.pass_fall (h : Within l opened) (hp : ¬ p.1 > l.tmp) :
    ∃ f : Frame, f.pairs = opened ++ [p] ∧
      pass p.1 p.2 l = ⟨0, 0, [], [], l.count + f.pairs.length, l.drawn ++ [f.drawn]⟩ := by
  refine ⟨⟨opened, p, h.rises, h.tmp ▸ Nat.le_of_not_lt hp⟩, rfl, ?_⟩
  rw [pass, if_neg hp]
  simp [Frame.drawn, Frame.pairs, h.x, h.y]

theorem Within.receive (h : Within l opened) (data : List Nat) :
    ∃ fs : List Frame, ∃ rest, fs.flatMap Frame.pairs ++ rest = opened ++ pairs data ∧
      Within (receive data l) rest ∧ (receive data l).drawn = l.drawn ++ fs.map Frame.drawn ∧
      (receive data l).count = l.count + (fs.flatMap Frame.pairs).length := by
  induction data using pairs.induct generalizing l opened with
  | case1 d₀ d₁ data ih =>
    rw [receive_cons, pairs]
    by_cases hp : d₀ > l.tmp
    · obtain ⟨fs, rest, hfs, hrest, hdrawn, hcount⟩ := ih (h.pass_rise (p := (d₀, d₁)) hp)
      have hpass : (pass d₀ d₁ l).drawn = l.drawn ∧ (pass d₀ d₁ l).count = l.count := by
        simp [pass, hp]
      refine ⟨fs, rest, ?_, hrest, ?_, ?_⟩
      · rw [hfs, List.append_assoc, List.singleton_append]
      · rw [hdrawn, hpass.1]
      · rw [hcount, hpass.2]
    · obtain ⟨f, hf, hpass⟩ := h.pass_fall (p := (d₀, d₁)) hp
      have hnew : Within (pass d₀ d₁ l) [] := hpass ▸ ⟨rfl, rfl, rfl, rising_nil⟩
      obtain ⟨fs, rest, hfs, hrest, hdrawn, hcount⟩ := ih hnew
      refine ⟨f :: fs, rest, ?_, hrest, ?_, ?_⟩
      · rw [List.flatMap_cons, List.append_assoc, hfs, hf, List.append_assoc]
        rfl
      · rw [hdrawn, hpass, List.map_cons, List.append_assoc, List.singleton_append]
      · rw [hcount, hpass, List.flatMap_cons, List.length_append, Nat.add_assoc]
  | case2 data hdata =>
    have hshort : pairs data = [] ∧ Client.receive data l = l := by
      cases data with
      | nil => exact ⟨rfl, rfl⟩
      | cons d₀ data =>
        cases data with
        | nil => exact ⟨rfl, rfl⟩
        | cons d₁ data => exact absurd rfl (hdata d₀ d₁ data)
    obtain ⟨hpairs, hreceive⟩ := hshort
    exact ⟨[], opened, by simp [hpairs], hreceive.symm ▸ h, by simp [hreceive], by simp [hreceive]⟩

theorem client_draws (count : Nat) (data : List Nat) :
    ∃ fs : List Frame, ∃ rest, fs.flatMap Frame.pairs ++ rest = pairs data ∧ Rising rest ∧
      (receive data (.start count)).drawn = fs.map Frame.drawn ∧
      (receive data (.start count)).x = rest.map Prod.fst ∧
      (receive data (.start count)).count + rest.length = count + (pairs data).length := by
  obtain ⟨fs, rest, hfs, hrest, hdrawn, hcount⟩ := (within_start count).receive data
  rw [List.nil_append] at hfs
  refine ⟨fs, rest, hfs, hrest.rises, hdrawn, hrest.x, ?_⟩
  rw [hcount, ← hfs, List.length_append, Nat.add_assoc]
  rfl

end Loop

end PhotonCount.Client
