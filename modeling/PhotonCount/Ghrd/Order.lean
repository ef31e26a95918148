import PhotonCount.Ghrd.Laws
import PhotonCount.Machine.Stream

namespace PhotonCount.Ghrd

open Machine PlsCnt

variable {b : Board} {σ τ : Nat → Order} {c : Nat → Clock}

def words (b : Board) (c : Nat → Clock) (σ : Nat → Order) (n : Nat) : List Word :=
  ghrd.emissions b (fun n => (σ n, c n)) 0 n

/-- Whatever is written in one order is written in the other, sooner or later. -/
def SameWords (b : Board) (c : Nat → Clock) (σ τ : Nat → Order) : Prop :=
  ∀ n, ∃ m, words b c σ n <+: words b c τ m

theorem SameWords.comparable (h : SameWords b c σ τ) (n m : Nat) :
    words b c σ n <+: words b c τ m ∨ words b c τ m <+: words b c σ n := by
  obtain ⟨k, hk⟩ := h n
  rcases le_total m k with hm | hm
  · exact List.prefix_or_prefix_of_prefix hk (ghrd.emissions_prefix b _ hm)
  · exact .inl (hk.trans (ghrd.emissions_prefix b _ hm))

/-- A trigger seen is still high, and while `RDY` is high nothing is written or emitted. -/
def OrderSafe (s : Regs) (i : PlsCnt.Inputs) : Prop :=
  (i.write = false → s.tri1 = 1#2 → i.triIn = true) ∧
    (s.rdy = true → i.write = false ∧ (branch i s).emits = false)

instance (s : Regs) (i : PlsCnt.Inputs) : Decidable (OrderSafe s i) :=
  inferInstanceAs (Decidable (_ ∧ _))

def counter (b : Board) (c : Nat → Clock) (n : Nat) : Regs :=
  clocked.states b.cnt (fun n => (c n).toCycle) n

theorem counter_tao (h0 : b.cnt.tao ≠ 0#32) (hc : ∀ n, (c n).Running) (n : Nat) :
    (counter b c n).tao ≠ 0#32 := by
  refine clocked.states_invariant b.cnt _ (P := fun s => s.tao ≠ 0#32) (fun n s hs => ?_) h0 n
  rw [clocked_step]
  exact clk_tao_ne_zero (.inr hs) (hc n).2.2

theorem order_invariant (hb : b.Idle) (h0 : b.cnt.tao ≠ 0#32) (hc : ∀ n, (c n).Running)
    (hsafe : ∀ n, OrderSafe (counter b c n) (c n).inputs) (σ : Nat → Order) (n : Nat) :
    (ghrd.states b (fun n => (σ n, c n)) n).cnt = counter b c n ∧
      (ghrd.states b (fun n => (σ n, c n)) n).Coherent ∧
      words b c σ n ++ inFlight (ghrd.states b (fun n => (σ n, c n)) n) =
        clocked.emissions b.cnt (fun n => (c n).toCycle) 0 n := by
  induction n with
  | zero => exact ⟨rfl, hb.coherent, hb.inFlight⟩
  | succ n ih =>
    obtain ⟨hcnt, hcoh, hcons⟩ := ih
    have hn := hsafe n
    have htao := counter_tao h0 hc n
    rw [← hcnt] at hn htao
    have hσ := clk_order (σ n) hn.1
    obtain ⟨hcoh', hcons'⟩ := conserves hcoh (hc n) htao hσ (fun hr _ => (hn.2 hr).2)
      fun hr _ => (hn.2 hr).1
    refine ⟨?_, hcoh', ?_⟩
    · rw [Mealy.states_succ, step_cnt hσ, hcnt]
      rfl
    · rw [words, Mealy.emissions_succ, Mealy.emissions_succ, ← words, Mealy.states_succ,
        List.append_assoc]
      have hout : clocked.emitted b.cnt (fun n => (c n).toCycle) n =
          clocked.out (ghrd.states b (fun n => (σ n, c n)) n).cnt (c n).toCycle := by
        rw [hcnt]
        rfl
      rw [hout, ← hcons, List.append_assoc, ← hcons']
      rfl

theorem emissions_written (hb : b.Idle) (h0 : b.cnt.tao ≠ 0#32) (hc : ∀ n, (c n).Running)
    (hsafe : ∀ n, OrderSafe (counter b c n) (c n).inputs) (σ : Nat → Order) (n : Nat) :
    clocked.emissions b.cnt (fun n => (c n).toCycle) 0 n <+: words b c σ (n + 2) := by
  obtain ⟨hcnt, hcoh, hcons⟩ := order_invariant hb h0 hc hsafe σ n
  have hn := hsafe n
  rw [← hcnt] at hn
  have hdel := delivers hcoh (hc n).1 (clk_order (σ n) hn.1) (fun hr _ => (hn.2 hr).2)
    (σ (n + 1), c (n + 1))
  rw [← hcons, words, words, Mealy.emissions_succ, Mealy.emissions_succ, List.append_assoc]
  exact (List.prefix_append_right_inj _).mpr hdel

theorem order_irrelevant (hb : b.Idle) (h0 : b.cnt.tao ≠ 0#32) (hc : ∀ n, (c n).Running)
    (hsafe : ∀ n, OrderSafe (counter b c n) (c n).inputs) (σ τ : Nat → Order) :
    SameWords b c σ τ := by
  intro n
  obtain ⟨-, -, hcons⟩ := order_invariant hb h0 hc hsafe σ n
  refine ⟨n + 2, List.IsPrefix.trans ?_ (emissions_written hb h0 hc hsafe τ n)⟩
  rw [← hcons]
  exact List.prefix_append _ _

def ready (tao : BitVec 32) : Board :=
  ⟨plsCnt.run (PlsCnt.powerUp 0#32) [.resetEdge, .program tao], 0#8, 0#64, false⟩

def pulse (width n : Nat) : Clock := ⟨⟨⟨false, decide (n < width), false, 0#32⟩, 0⟩, true⟩

theorem every_second_clock (n : Nat) :
    (counter (ready 2#32) (pulse 0) n).tri1 = 0#2 ∧
      (counter (ready 2#32) (pulse 0) n).tao = 2#32 ∧
        ((counter (ready 2#32) (pulse 0) n).rdy = true →
          modTao (counter (ready 2#32) (pulse 0) n) ≠ 0) := by
  refine clocked.states_invariant _ _
    (P := fun s => s.tri1 = 0#2 ∧ s.tao = 2#32 ∧ (s.rdy = true → modTao s ≠ 0))
    (fun n s hs => ?_) (by decide) n
  obtain ⟨htri, htao, -⟩ := hs
  have hr : (pulse 0 n).inputs.reset = false := rfl
  have hw : (pulse 0 n).inputs.write = false := rfl
  have h0 : s.tao ≠ 0#32 := by
    rw [htao]
    decide
  have htao' : (PlsCnt.clk (pulse 0 n).inputs s).tao = 2#32 := by simp [clk_tao hr h0, hw, htao]
  rw [clocked_step]
  refine ⟨?_, htao', fun hrdy => ?_⟩
  · change (PlsCnt.clk (pulse 0 n).inputs s).tri1 = 0#2
    simp [clk_eq, nextTri, pulse]
  · change (PlsCnt.clk (pulse 0 n).inputs s).rdy = true at hrdy
    change modTao (PlsCnt.clk (pulse 0 n).inputs s) ≠ 0
    rw [clk_rdy hr h0, hw] at hrdy
    refine modTao_clk_of_emits hr (by simp [htao]) hrdy fun _ => ?_
    simp [htao, BitVec.toNat_add]

theorem order_irrelevant_without_triggers :
    SameWords (ready 2#32) (pulse 0) (fun _ => .before) (fun _ => .after) := by
  refine order_irrelevant (by decide) (by decide) (fun n => ⟨rfl, rfl, by simp [pulse]⟩)
    (fun n => ?_) _ _
  obtain ⟨htri, htao, hrdy⟩ := every_second_clock n
  have h0 : (counter (ready 2#32) (pulse 0) n).tao ≠ 0#32 := by
    rw [htao]
    decide
  refine ⟨fun _ h => by simp [htri] at h, fun hr => ⟨rfl, ?_⟩⟩
  rw [Bool.eq_false_iff]
  exact fun he => hrdy hr ((emits_iff rfl h0).mp he).2

def Order.triFirst : Order := ⟨[.transfer, .tri, .counter], by decide⟩

theorem order_matters :
    (ready 2#32).Idle ∧ (ready 2#32).cnt.tao ≠ 0#32 ∧ (∀ n, (pulse 1 n).Running) ∧
      ¬ SameWords (ready 2#32) (pulse 1) (fun _ => .before) (fun _ => .triFirst) := by
  refine ⟨by decide, by decide, fun n => ⟨rfl, rfl, by simp [pulse]⟩, fun h => ?_⟩
  have := h.comparable 4 4
  revert this
  decide

end PhotonCount.Ghrd
