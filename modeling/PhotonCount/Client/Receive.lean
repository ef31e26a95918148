import PhotonCount.PlsCnt.TimeBase

/-! The loop of `client.py` that cuts a batch of records into frames. -/

namespace PhotonCount.Client

open PlsCnt Machine

def si : Int := 2147483648

/-- Bits 63:32, the flag above the count. -/
def countWord (w : Word) : BitVec 32 := w.extractLsb' 32 32

def unpack (batch : List Word) : List Nat :=
  batch.flatMap fun w => [w.stamp.toNat, (countWord w).toNat]

structure Loop where
  tmp : Nat
  j : Nat
  x : List Nat
  y : List Int
  count : Nat
  drawn : List (List Nat × List Int)
  deriving DecidableEq

def Loop.start (count : Nat) : Loop := ⟨0, 0, [], [], count, []⟩

def pass (d₀ d₁ : Nat) (l : Loop) : Loop :=
  if d₀ > l.tmp then
    { l with x := l.x ++ [d₀], y := l.y ++ [(d₁ : Int)], tmp := d₀, j := l.j + 1 }
  else
    let l := { l with x := l.x ++ [d₀], y := l.y ++ [(d₁ : Int) - si] }
    let l := { l with drawn := l.drawn ++ [(l.x, l.y)], count := l.count + l.x.length }
    { l with j := 0, x := [], y := [], tmp := 0 }

def receive : List Nat → Loop → Loop
  | d₀ :: d₁ :: data, l => receive data (pass d₀ d₁ l)
  | _, l => l

/-- The frames of a batch, each closed by a flagged record, and the unfinished one. -/
def frames (opened : List Word) : List Word → List (List Word) × List Word
  | [] => ([], opened)
  | w :: ws =>
    if w.flag then ((opened ++ [w]) :: (frames [] ws).1, (frames [] ws).2)
    else frames (opened ++ [w]) ws

def plot (ws : List Word) : List Nat × List Int :=
  (ws.map (·.stamp.toNat), ws.map fun w => (w.count.toNat : Int))

def Decodes (count : Nat) (batch : List Word) : Prop :=
  (receive (unpack batch) (.start count)).drawn = (frames [] batch).1.map plot ∧
    ((receive (unpack batch) (.start count)).x, (receive (unpack batch) (.start count)).y) =
      plot (frames [] batch).2

instance (count : Nat) (batch : List Word) : Decidable (Decodes count batch) :=
  inferInstanceAs (Decidable (_ ∧ _))

section Loop

variable {l : Loop} {w : Word} {ws opened : List Word} {tmp : Nat}

@[simp] theorem unpack_nil : unpack [] = [] := rfl
@[simp] theorem unpack_cons (w : Word) (ws : List Word) :
    unpack (w :: ws) = w.stamp.toNat :: (countWord w).toNat :: unpack ws := rfl

@[simp] theorem receive_nil (l : Loop) : receive [] l = l := rfl
@[simp] theorem receive_cons (d₀ d₁ : Nat) (data : List Nat) (l : Loop) :
    receive (d₀ :: d₁ :: data) l = receive data (pass d₀ d₁ l) := rfl

theorem countWord_toNat (w : Word) :
    (countWord w).toNat = w.count.toNat + if w.flag then 2 ^ 31 else 0 := by
  have hflag : w.flag = (w.toNat >>> 32).testBit 31 := by
    rw [Word.flag, BitVec.getLsbD, Nat.testBit_shiftRight]
  rw [countWord, Word.count, BitVec.extractLsb'_toNat, BitVec.extractLsb'_toNat, hflag,
    Nat.testBit_eq_decide_div_mod_eq, Nat.mod_pow_succ (k := 31)]
  simp only [decide_eq_true_eq]
  split <;> omega

def reading (tmp : Nat) (w : Word) : Int :=
  if w.stamp.toNat > tmp then (countWord w).toNat else (countWord w).toNat - si

def nextTmp (tmp : Nat) (w : Word) : Nat := if w.stamp.toNat > tmp then w.stamp.toNat else 0

def Right (tmp : Nat) (w : Word) : Prop := w.flag = decide (w.stamp.toNat ≤ tmp)

theorem reading_eq_count : reading tmp w = w.count.toNat ↔ Right tmp w := by
  rw [reading, Right, countWord_toNat, si]
  by_cases h : w.stamp.toNat ≤ tmp <;> cases w.flag <;> simp [h, Nat.not_lt.mpr]

def readings (l : Loop) : List Int := l.drawn.flatMap Prod.snd ++ l.y

theorem pass_tmp : (pass w.stamp.toNat (countWord w).toNat l).tmp = nextTmp l.tmp w := by
  unfold pass nextTmp
  split <;> rfl

theorem readings_pass :
    readings (pass w.stamp.toNat (countWord w).toNat l) = readings l ++ [reading l.tmp w] := by
  unfold pass reading readings
  split <;> simp

def decoded : Nat → List Word → List Int
  | _, [] => []
  | tmp, w :: ws => reading tmp w :: decoded (nextTmp tmp w) ws

theorem readings_receive (ws : List Word) (l : Loop) :
    readings (receive (unpack ws) l) = readings l ++ decoded l.tmp ws := by
  induction ws generalizing l with
  | nil => simp [decoded]
  | cons w ws ih => simp [decoded, ih, pass_tmp, readings_pass]

def AllRight : Nat → List Word → Prop
  | _, [] => True
  | tmp, w :: ws => Right tmp w ∧ AllRight (nextTmp tmp w) ws

theorem decoded_eq_counts :
    decoded tmp ws = ws.map (fun w => (w.count.toNat : Int)) ↔ AllRight tmp ws := by
  induction ws generalizing tmp with
  | nil => simp [decoded, AllRight]
  | cons w ws ih => simp [decoded, AllRight, ih, reading_eq_count]

theorem frames_flatten (opened ws : List Word) :
    (frames opened ws).1.flatten ++ (frames opened ws).2 = opened ++ ws := by
  induction ws generalizing opened with
  | nil => simp [frames]
  | cons w ws ih =>
    unfold frames
    split
    · simpa using ih []
    · simpa using ih (opened ++ [w])

theorem pass_right (h : Right l.tmp w) (hl : (l.x, l.y) = plot opened) :
    pass w.stamp.toNat (countWord w).toNat l =
      if w.flag then
        ⟨0, 0, [], [], l.count + (opened.length + 1), l.drawn ++ [plot (opened ++ [w])]⟩
      else
        { l with
          x := (plot (opened ++ [w])).1
          y := (plot (opened ++ [w])).2
          tmp := w.stamp.toNat
          j := l.j + 1 } := by
  simp only [plot, Prod.mk.injEq] at hl
  have hcount := reading_eq_count.mpr h
  rw [Right] at h
  rw [reading] at hcount
  by_cases hle : w.stamp.toNat ≤ l.tmp
  · simp only [hle, decide_true] at h
    simp only [Nat.not_lt.mpr hle, if_false] at hcount
    simp [pass, h, hle, hl, plot, hcount, Nat.not_lt.mpr]
  · simp only [hle, decide_false] at h
    simp only [Nat.lt_of_not_le hle, if_true] at hcount
    simp [pass, h, Nat.lt_of_not_le hle, hl, plot, hcount]

theorem receive_right (h : AllRight l.tmp ws) (hl : (l.x, l.y) = plot opened) :
    (receive (unpack ws) l).drawn = l.drawn ++ (frames opened ws).1.map plot ∧
      ((receive (unpack ws) l).x, (receive (unpack ws) l).y) = plot (frames opened ws).2 := by
  induction ws generalizing l opened with
  | nil => simpa [frames] using hl
  | cons w ws ih =>
    obtain ⟨hw, h⟩ := h
    rw [← pass_tmp] at h
    rw [unpack_cons, receive_cons]
    cases hf : w.flag with
    | true =>
      have hpass := pass_right hw hl
      simp only [hf, if_true] at hpass
      have key := ih h (show (_, _) = plot [] by rw [hpass]; rfl)
      simpa [frames, hf, hpass] using key
    | false =>
      have hpass := pass_right hw hl
      simp only [hf, Bool.false_eq_true, if_false] at hpass
      have key := ih h (show (_, _) = plot (opened ++ [w]) by rw [hpass])
      simpa [frames, hf, hpass] using key

theorem decodes_iff_allRight (count : Nat) (batch : List Word) :
    Decodes count batch ↔ AllRight 0 batch := by
  constructor
  · rintro ⟨hdrawn, hopen⟩
    have h := readings_receive batch (.start count)
    have hy : (receive (unpack batch) (.start count)).y = (plot (frames [] batch).2).2 :=
      congrArg Prod.snd hopen
    rw [← decoded_eq_counts]
    refine h.symm.trans ?_
    have hbatch := congrArg (List.map fun w => (w.count.toNat : Int))
      (frames_flatten [] batch)
    rw [readings, hdrawn, hy]
    simpa [plot, List.map_flatten, List.flatMap_def, Function.comp_def] using hbatch
  · intro h
    simpa [Decodes, Loop.start] using receive_right (l := .start count) h (rfl : (_, _) = plot [])

end Loop

section Batch

variable {s : Regs} {es : List Event} {batch : List Word}

/-- No frame is closed but by a record stamped 0 at the very start. -/
def Undivided : List Word → Prop
  | [] => True
  | w :: ws => w.flag = decide (w.stamp = 0#32) ∧ ∀ v ∈ ws, v.flag = false

theorem allRight_of_isChain {tmp : Nat} {w : Word} (hw : tmp < w.stamp.toNat)
    (h : (w :: batch).IsChain fun a b => restart a < b.stamp.toNat) :
    AllRight tmp (w :: batch) ↔ ∀ v ∈ w :: batch, v.flag = false := by
  induction batch generalizing tmp w with
  | nil => simp [AllRight, Right, decide_eq_false (Nat.not_le.mpr hw)]
  | cons v ws ih =>
    rw [List.isChain_cons_cons] at h
    rw [AllRight, Right, List.forall_mem_cons, decide_eq_false (Nat.not_le.mpr hw)]
    refine and_congr_right fun hf => ?_
    rw [nextTmp, if_pos hw]
    refine ih ?_ h.2
    simpa [restart, hf] using h.1

theorem allRight_zero_iff (h : batch.IsChain fun a b => restart a < b.stamp.toNat) :
    AllRight 0 batch ↔ Undivided batch := by
  cases batch with
  | nil => simp [AllRight, Undivided]
  | cons w ws =>
    by_cases hz : w.stamp = 0#32
    · have hz' : w.stamp.toNat = 0 := toNat_eq_zero.mpr hz
      rw [AllRight, Right, Undivided, hz', hz]
      refine and_congr_right fun hf => ?_
      cases ws with
      | nil => simp [AllRight]
      | cons v ws =>
        rw [List.isChain_cons_cons] at h
        rw [nextTmp, hz', if_neg (lt_irrefl 0)]
        exact allRight_of_isChain (Nat.zero_lt_of_lt h.1) h.2
    · have hpos : 0 < w.stamp.toNat := Nat.pos_of_ne_zero (mt toNat_eq_zero.mp hz)
      rw [allRight_of_isChain hpos h, Undivided, List.forall_mem_cons, decide_eq_false hz]

/-- The client decodes a batch taken at one integration time exactly if no record of it
closes a frame: it looks for the flag on the record after the one that carries it. -/
theorem client_decodes_iff (count : Nat) (h0 : s.tao ≠ 0#32) (hr : ∀ e ∈ es, e.Running)
    (hq : ∀ e ∈ es, e.isWrite = false) (hw : NoWrap s es) :
    Decodes count (plsCnt.outputs s es) ↔ Undivided (plsCnt.outputs s es) := by
  rw [decodes_iff_allRight]
  exact allRight_zero_iff (stamps_isChain h0 hr hq hw)

theorem client_decodes_plain :
    Decodes 0 (plsCnt.outputs (plsCnt.run (powerUp 0#32) [.resetEdge, .program 2#32])
      [.idle, .pho, .idle, .idle, .idle]) := by
  refine (client_decodes_iff 0 (by decide) (by decide) (by decide) (by decide)).mpr ?_
  have h : plsCnt.outputs (plsCnt.run (powerUp 0#32) [.resetEdge, .program 2#32])
      [.idle, .pho, .idle, .idle, .idle] =
        [Word.pack false 1#32 2#32, Word.pack false 0#32 4#32] := by decide
  rw [h]
  simp [Undivided]

theorem client_misses_flag :
    let s := plsCnt.run (powerUp 0#32) [.resetEdge, .program 2#32]
    let es : List Event := [.trigger, .idle, .idle, .idle, .idle, .idle]
    s.tao ≠ 0#32 ∧ (∀ e ∈ es, e.Running) ∧ (∀ e ∈ es, e.isWrite = false) ∧ NoWrap s es ∧
      (plsCnt.outputs s es).map (·.flag) = [true, false, false] ∧
        ¬ Decodes 0 (plsCnt.outputs s es) := by
  decide

end Batch

end PhotonCount.Client
