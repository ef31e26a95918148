import PhotonCount.Dcfifo.Memory
import PhotonCount.Machine.Stream

namespace PhotonCount.Dcfifo

open Machine Gray PlsCnt

section Counter

def Counter.after (en : List Bool) : Counter := en.foldl (fun c e => c.clk e) .start

theorem Counter.after_concat (en : List Bool) (e : Bool) :
    Counter.after (en ++ [e]) = (Counter.after en).clk e := List.foldl_concat _ _ _ _

theorem counter_codes (en : List Bool) :
    (Counter.after en).Codes (BitVec.ofNat 14 (1 + en.count true)) := by
  induction en using List.reverseRecOn with
  | nil => exact Counter.start_codes
  | append_singleton en e ih =>
    rw [Counter.after_concat, List.count_append]
    cases e with
    | false => simpa using ih
    | true =>
      have := ih.clk
      rwa [← BitVec.ofNat_add] at this

theorem counter_counts (en : List Bool) :
    (Counter.after en).counter = encode (BitVec.ofNat 14 (1 + en.count true)) :=
  (counter_codes en).counter

/-- What a register holds whose clock comes while its input changes: `sel` are the bits that
have changed by then. -/
def sampled (sel old new : BitVec 14) : BitVec 14 := (new &&& sel) ||| (old &&& ~~~sel)

theorem getLsbD_sampled {sel old new : BitVec 14} {i : Nat} (hi : i < 14) :
    (sampled sel old new).getLsbD i = if sel.getLsbD i then new.getLsbD i else old.getLsbD i := by
  simp only [sampled, BitVec.getLsbD_or, BitVec.getLsbD_and, BitVec.getLsbD_not, hi]
  cases sel.getLsbD i <;> simp

def Settles (old new : BitVec 14) : Prop :=
  ∀ sel, sampled sel old new = old ∨ sampled sel old new = new

theorem settles_refl (p : BitVec 14) : Settles p p := by
  intro sel
  left
  apply BitVec.eq_of_getLsbD_eq
  intro i hi
  rw [getLsbD_sampled hi, ite_self]

theorem settles_encode (x : BitVec 14) : Settles (encode x) (encode (x + 1#14)) := by
  intro sel
  apply eq_encode_of_bits
  intro i hi
  rw [getLsbD_sampled hi]
  cases sel.getLsbD i
  · exact .inl rfl
  · exact .inr rfl

theorem settles_ptr {m n : Nat} (hm : m ≤ n) (hn : n ≤ m + 1) : Settles (ptr m) (ptr n) := by
  rcases (by omega : n = m ∨ n = m + 1) with rfl | rfl
  · exact settles_refl _
  · rw [ptr, ptr, BitVec.ofNat_add]
    exact settles_encode _

theorem settles_counter (en : List Bool) (b : Bool) :
    Settles (Counter.after en).counter (Counter.after (en ++ [b])).counter := by
  have hc := counter_codes en
  rw [Counter.after_concat]
  cases b with
  | false =>
    rw [Counter.clk_false]
    exact settles_refl _
  | true =>
    rw [hc.counter, hc.clk.counter]
    exact settles_encode _

end Counter

section Runs

variable (s : State) (es : List Edge)

theorem reads_in_order :
    dcfifo.outputs s.aclr es <+: accepted.outputs s.aclr es ∧
      (accepted.outputs s.aclr es).length ≤ (dcfifo.outputs s.aclr es).length + depth := by
  obtain ⟨c, h, hh, ho⟩ := run_holds s es
  have hlen := hh.length
  have hroom := h.sound.written
  have hfreed := h.sound.freed.trans h.sound.first
  rw [ho]
  refine ⟨List.take_prefix _ _, ?_⟩
  rw [List.length_take]
  omega

theorem follow_wr (t : State) (e : Edge) (c : Counts) :
    (follow t e c).wr = c.wr ∨ ∃ new read, new ≤ 1 ∧ (follow t e c).wr = c.wr.clk new read := by
  cases he : e.wr with
  | none => exact .inl (by simp only [follow, he])
  | some w =>
    simp only [follow, he]
    split
    · exact .inr ⟨_, _, Bool.toNat_le _, rfl⟩
    · exact .inl rfl

theorem follow_rd (t : State) (e : Edge) (c : Counts) :
    (follow t e c).rd = c.rd ∨
      ∃ new delayed, new ≤ 1 ∧ (follow t e c).rd = c.rd.clk new delayed := by
  cases he : e.rd with
  | none => exact .inl (by simp only [follow, he])
  | some rdreq =>
    simp only [follow, he]
    split
    · exact .inr ⟨_, _, Bool.toNat_le _, rfl⟩
    · exact .inl rfl

theorem run_delayed :
    ∃ c, Tracks (dcfifo.run s.aclr es) c ∧ c.wr.written ≤ c.wr.delayed + 1 := by
  have hstep : ∀ t e, True → (∃ c, Tracks t c ∧ c.wr.written ≤ c.wr.delayed + 1) →
      ∃ c, Tracks (dcfifo.step t e) c ∧ c.wr.written ≤ c.wr.delayed + 1 := by
    rintro t e - ⟨c, h, hle⟩
    refine ⟨follow t e c, h.step e, ?_⟩
    rcases follow_wr t e c with hwr | ⟨new, read, hnew, hwr⟩
    · rwa [hwr]
    · rw [hwr]
      exact Nat.add_le_add_left hnew _
  exact dcfifo.run_invariant hstep ⟨.zero, aclr_tracks s, Nat.zero_le _⟩ fun _ _ => trivial

theorem sampled_pointer (e : Edge) :
    Settles (dcfifo.run s.aclr es).wr.delayedWrptrG
        (dcfifo.run s.aclr (es ++ [e])).wr.delayedWrptrG ∧
      Settles (dcfifo.run s.aclr es).rd.rdptrG (dcfifo.run s.aclr (es ++ [e])).rd.rdptrG ∧
      ∀ (en : List Bool) (b : Bool),
        Settles (Counter.after en).counter (Counter.after (en ++ [b])).counter := by
  obtain ⟨c, h, hle⟩ := run_delayed s es
  have hnext : Tracks (dcfifo.run s.aclr (es ++ [e])) (follow (dcfifo.run s.aclr es) e c) := by
    rw [Mealy.run_append]
    exact h.step e
  rw [h.wr.delayedWrptrG, h.rd.rdptrG, hnext.wr.delayedWrptrG, hnext.rd.rdptrG]
  refine ⟨?_, ?_, settles_counter⟩
  · rcases follow_wr (dcfifo.run s.aclr es) e c with hwr | ⟨new, read, -, hwr⟩
    · rw [hwr]
      exact settles_refl _
    · rw [hwr]
      exact settles_ptr h.sound.delayed hle
  · rcases follow_rd (dcfifo.run s.aclr es) e c with hrd | ⟨new, delayed, hnew, hrd⟩
    · rw [hrd]
      exact settles_refl _
    · rw [hrd]
      exact settles_ptr (Nat.le_add_right _ _) (Nat.add_le_add_left hnew _)

def held : Nat := (accepted.outputs s.aclr es).length - (dcfifo.outputs s.aclr es).length

theorem flags_safe :
    ((dcfifo.run s.aclr es).rd.rdempty = false → 0 < held s es) ∧
      ((dcfifo.run s.aclr es).wr.intWrfull = false → held s es < depth) ∧
      ((dcfifo.run s.aclr es).rd.rdfull = true → held s es = depth) ∧
      ((dcfifo.run s.aclr es).wr.wrempty = true → held s es = 0) := by
  obtain ⟨c, h, hh, ho⟩ := run_holds s es
  have hheld : held s es = c.wr.written - c.rd.read := by
    rw [held, ho, List.length_take, hh.length]
    omega
  have hempty := (rdempty_iff h.rd h.sound).not
  have hfull := (intWrfull_iff h.wr h.sound).not
  rw [Bool.not_eq_true] at hempty hfull
  have hdepth : 0 < depth := by decide
  obtain ⟨hfreed, hfirst, hread, hseen, hrs, hdel, hwritten⟩ := h.sound
  refine ⟨fun hf => ?_, fun hf => ?_, fun hf => ?_, fun hf => ?_⟩
  · have := hempty.mp hf
    omega
  · have := hfull.mp hf
    omega
  · have := (rdfull_iff h.rd h.sound).mp hf
    omega
  · have := (wrempty_iff h.wr h.sound).mp hf
    omega

end Runs

section Together

def Edge.Together (e : Edge) : Prop := e.wr.isSome ∧ e.rd.isSome

variable {s : State} {e : Edge} {c : Counts}

theorem follow_together (h : Tracks s c) (ha : s.wr.wraclr = s.rd.rdaclr) (he : e.Together) :
    follow s e c =
      ⟨c.wr.clk (written s e).toList.length c.rd.read,
        c.rd.clk (dcfifo.out s e).toList.length c.wr.delayed⟩ := by
  have hwritten := follow_written h e
  have hread := follow_read h e
  obtain ⟨wr, rd, dontCare⟩ := e
  obtain ⟨⟨w, rfl⟩, ⟨rdreq, rfl⟩⟩ := he.imp Option.isSome_iff_exists.mp Option.isSome_iff_exists.mp
  cases hq : s.rd.rdaclr.q with
  | true =>
    simp only [follow, ha, hq, if_true, WrCounts.clk, RdCounts.clk] at hwritten hread ⊢
    rw [Nat.add_left_cancel hwritten, Nat.add_left_cancel hread]
  | false =>
    have hwr := h.wr.idle (ha ▸ hq)
    have hrd := h.rd.idle hq
    simp only [follow, ha, hq, Bool.false_eq_true, if_false] at hwritten hread ⊢
    rw [Nat.left_eq_add.mp hwritten, Nat.left_eq_add.mp hread, hwr, hrd]
    rfl

theorem step_together (ha : s.wr.wraclr = s.rd.rdaclr) (he : e.Together) :
    (step s e).wr.wraclr = (step s e).rd.rdaclr := by
  obtain ⟨wr, rd, dontCare⟩ := e
  obtain ⟨⟨w, rfl⟩, ⟨rdreq, rfl⟩⟩ := he.imp Option.isSome_iff_exists.mp Option.isSome_iff_exists.mp
  simp only [step, Wr.clk, Rd.clk, ha]
  cases s.rd.rdaclr.q <;> rfl

variable (s : State) (es : Nat → Edge)

def wrote (n : Nat) : Nat := (accepted.emissions s.aclr es 0 n).length

def took (n : Nat) : Nat := (dcfifo.emissions s.aclr es 0 n).length

def counts : Nat → Counts
  | 0 => .zero
  | n + 1 => follow (dcfifo.states s.aclr es n) (es n) (counts n)

theorem tracks_states (n : Nat) : Tracks (dcfifo.states s.aclr es n) (counts s es n) := by
  induction n with
  | zero => exact aclr_tracks s
  | succ n ih => exact ih.step (es n)

theorem written_counts (n : Nat) : (counts s es n).wr.written = wrote s es n := by
  induction n with
  | zero => rfl
  | succ n ih =>
    rw [counts, follow_written (tracks_states s es n), ih, wrote, wrote, Mealy.emissions_succ,
      List.length_append, Mealy.emitted, accepted, Mealy.states_observe]
    simp [Mealy.observe, Option.toList_map]

theorem read_counts (n : Nat) : (counts s es n).rd.read = took s es n := by
  induction n with
  | zero => rfl
  | succ n ih =>
    rw [counts, follow_read (tracks_states s es n), ih, took, took, Mealy.emissions_succ,
      List.length_append, Mealy.emitted]

variable {s es}

theorem counts_succ (he : ∀ n, (es n).Together) (n : Nat) :
    counts s es (n + 1) =
      ⟨⟨wrote s es (n + 1), wrote s es n, took s es n, (counts s es n).wr.first,
          (counts s es n).wr.freed, wrote s es n⟩,
        ⟨took s es (n + 1), (counts s es n).wr.delayed, (counts s es n).rd.first, took s es n,
          (counts s es n).rd.seen⟩⟩ := by
  have ha : (dcfifo.states s.aclr es n).wr.wraclr = (dcfifo.states s.aclr es n).rd.rdaclr := by
    induction n with
    | zero => rfl
    | succ n ih => exact step_together ih (he n)
  have hw := follow_written (tracks_states s es n) (es n)
  have hr := follow_read (tracks_states s es n) (es n)
  rw [← counts, written_counts, written_counts] at hw
  rw [← counts, read_counts, read_counts] at hr
  rw [counts, follow_together (tracks_states s es n) ha (he n), WrCounts.clk, RdCounts.clk,
    written_counts, read_counts, ← hw, ← hr]

theorem latency (he : ∀ n, (es n).Together) (n : Nat) :
    let t := dcfifo.states s.aclr es
    ((t (n + 3)).rd.rdempty = true ↔ took s es (n + 3) = wrote s es n) ∧
      ((t (n + 3)).rd.rdfull = true ↔ wrote s es n = took s es (n + 3) + depth) ∧
      ((t (n + 2)).wr.wrempty = true ↔ wrote s es (n + 2) = took s es n) ∧
      ((t (n + 2)).wr.intWrfull = true ↔ wrote s es (n + 2) = took s es n + depth) := by
  have h2 := tracks_states s es (n + 2)
  have h3 := tracks_states s es (n + 3)
  have hseen : (counts s es (n + 3)).rd.seen = wrote s es n := by simp only [counts_succ he]
  have hfreed : (counts s es (n + 2)).wr.freed = took s es n := by simp only [counts_succ he]
  intro t
  rw [rdempty_iff h3.rd h3.sound, rdfull_iff h3.rd h3.sound, wrempty_iff h2.wr h2.sound,
    intWrfull_iff h2.wr h2.sound, hseen, hfreed, written_counts, read_counts]
  exact ⟨eq_comm, .rfl, .rfl, .rfl⟩

def State.blank : State :=
  ⟨.cleared ⟨false, false⟩, .cleared ⟨false, false⟩, ⟨fun _ => 0#64, 0#13, 0#64, 0#64⟩⟩

def flowing (n : Nat) : Edge := ⟨some (true, BitVec.ofNat 64 n), some true, 0#64⟩

theorem latency_flowing :
    (dcfifo.states State.blank.aclr flowing 9).rd.rdempty = false ∧
      (dcfifo.states State.blank.aclr flowing 8).wr.wrempty = false := by
  obtain ⟨hrd, -, hwr, -⟩ := latency (s := .blank) (fun n => (⟨rfl, rfl⟩ : (flowing n).Together)) 6
  rw [← Bool.not_eq_true, ← Bool.not_eq_true, hrd, hwr]
  decide +kernel

theorem usedw_eq {a b : Nat} (h : b ≤ a) :
    (BitVec.ofNat 14 a - BitVec.ofNat 14 b).setWidth 13 = BitVec.ofNat 13 (a - b) := by
  apply BitVec.eq_of_toNat_eq
  simp only [BitVec.toNat_setWidth, BitVec.toNat_sub, BitVec.toNat_ofNat]
  omega

theorem levels (he : ∀ n, (es n).Together) (n : Nat) :
    let t := dcfifo.states s.aclr es
    (t (n + 3)).wr.wrusedw = BitVec.ofNat 13 (wrote s es (n + 2) - took s es n) ∧
      (t (n + 4)).rd.rdusedw = BitVec.ofNat 13 (wrote s es n - took s es (n + 3)) := by
  have h2 := tracks_states s es (n + 2)
  have h3 := tracks_states s es (n + 3)
  have h4 := tracks_states s es (n + 4)
  have hfreed : (counts s es (n + 2)).wr.freed = took s es n := by simp only [counts_succ he]
  have hseen : (counts s es (n + 3)).rd.seen = wrote s es n := by simp only [counts_succ he]
  have hwr := h2.sound.freed_le
  have hrd := h3.sound.read
  rw [hfreed, written_counts] at hwr
  rw [hseen, read_counts] at hrd
  intro t
  rw [Wr.wrusedw, Rd.rdusedw, h3.wr.wsBwp, h3.wr.wsBrp, h4.rd.rsBwp, h4.rd.rsBrp,
    counts_succ he (n + 2), counts_succ he (n + 3)]
  exact ⟨by rw [hfreed, usedw_eq hwr], by rw [hseen, usedw_eq hrd]⟩

theorem levels_flowing :
    (dcfifo.states State.blank.aclr flowing 11).wr.wrusedw = 6#13 ∧
      (dcfifo.states State.blank.aclr flowing 12).rd.rdusedw = 1#13 := by
  obtain ⟨hwr, hrd⟩ := levels (s := .blank) (fun n => (⟨rfl, rfl⟩ : (flowing n).Together)) 8
  rw [hwr, hrd]
  decide +kernel

end Together

end PhotonCount.Dcfifo
