import PhotonCount.FifoPls.Laws

namespace PhotonCount.FifoPls

open Machine PlsCnt Dcfifo

structure Lags (c : WrCounts) : Prop where
  brp : c.brp ≤ c.freed
  bwp : c.bwp ≤ c.written
  le : c.brp ≤ c.bwp
  room : c.bwp ≤ c.brp + depth

structure Knows (read : Nat) (ls : List Clock) (c : WrCounts) : Prop where
  first : 1 ≤ ls.length → read ≤ c.first
  freed : 2 ≤ ls.length → read ≤ c.freed
  brp : 3 ≤ ls.length → read ≤ c.brp

section Step

variable {s : State} {cs ls : List Clock} {c : Clock} {n : Counts} {read : Nat}

theorem Stands.follow_wr (h : Stands s cs n) (c : Clock) :
    (follow (fifoPls.run s.reset cs).fifo c.edge n).wr =
      n.wr.clk (written (fifoPls.run s.reset cs).fifo c.edge).toList.length n.rd.read :=
  congrArg Counts.wr (follow_together h.tracks (synced s cs) ⟨rfl, rfl⟩)

theorem Sound.lags (h : Sound n) (new : Nat) : Lags (n.wr.clk new n.rd.read) where
  brp := h.freed
  bwp := Nat.le_add_right _ _
  le := h.freed_le
  room := h.written

theorem Knows.clk (h : Knows read ls n.wr) (hread : read ≤ n.rd.read) (new : Nat) :
    Knows read (ls ++ [c]) (n.wr.clk new n.rd.read) := by
  have hlen : (ls ++ [c]).length = ls.length + 1 := List.length_append
  exact ⟨fun _ => hread, fun hl => h.first (by omega), fun hl => h.freed (by omega)⟩

theorem exists_lags (s : State) (cs : List Clock) : ∃ n, Stands s cs n ∧ Lags n.wr := by
  induction cs using List.reverseRecOn with
  | nil =>
    exact ⟨.zero, ⟨aclr_tracks s.fifo, aclr_holds s.fifo, rfl⟩,
      ⟨le_rfl, le_rfl, le_rfl, Nat.zero_le _⟩⟩
  | append_singleton cs c ih =>
    obtain ⟨n, h, -⟩ := ih
    exact ⟨_, h.step c, h.follow_wr c ▸ Sound.lags h.tracks.sound _⟩

theorem exists_knows (s : State) (before ls : List Clock) : ∃ n, Stands s (before ++ ls) n ∧
    Lags n.wr ∧ Knows (fifoPls.outputs s.reset before).length ls n.wr := by
  induction ls using List.reverseRecOn with
  | nil =>
    obtain ⟨n, h, hl⟩ := exists_lags s (before ++ [])
    exact ⟨n, h, hl, by constructor <;> simp⟩
  | append_singleton ls c ih =>
    obtain ⟨n, h, -, hk⟩ := ih
    have hread : (fifoPls.outputs s.reset before).length ≤ n.rd.read := by
      rw [h.read, Mealy.outputs_append, List.length_append]
      exact Nat.le_add_right _ _
    refine ⟨_, List.append_assoc before ls [c] ▸ h.step c, ?_, ?_⟩
    · exact h.follow_wr c ▸ Sound.lags h.tracks.sound _
    · exact h.follow_wr c ▸ hk.clk hread _

/-- The FIFO calls itself full at 8189 words, those of the last three reads among them. -/
theorem Stands.wrfull (h : Stands s cs n) (hl : Lags n.wr)
    (hq : (fifoPls.run s.reset cs).fifo.wr.wraclr.q = true)
    (hf : FifoPls.wrfull (fifoPls.run s.reset cs) = true) :
    n.wr.brp + 8189 ≤ (accepted.outputs s.reset cs).length := by
  have hbwp := hl.bwp
  have hle := hl.le
  have hroom := hl.room
  rw [depth] at hroom
  rw [h.holds.length]
  simp only [FifoPls.wrfull, Wr.wrfull, hq, Bool.not_true, Bool.or_false, Bool.or_eq_true,
    decide_eq_true_eq, Wr.wrusedw, h.tracks.wr.wsBwp, h.tracks.wr.wsBrp, usedw_eq hle,
    BitVec.toNat_ofNat] at hf
  rcases hf with hf | hf
  · omega
  · have hfull := (intWrfull_iff h.tracks.wr h.tracks.sound).mp hf
    have hbrp := hl.brp
    rw [depth] at hfull
    omega

end Step

section Overflow

variable {s : State} {c : Clock} {cs : List Clock}

theorem overflow_le (h : s.wr.event.overflow = false) (hsig : (wrSignals s c).overflow = false) :
    (fifoPls.step s c).wr.event.overflow = false := by
  change Csr.eventQ c.wr 4 (wrSignals s c).overflow s.wr.event.overflow = false
  rw [Csr.eventQ, hsig, h]
  simp

theorem offered_append (cs ds : List Clock) : offered (cs ++ ds) = offered cs ++ offered ds :=
  List.filterMap_append

theorem accepted_le (s : State) (cs : List Clock) :
    (accepted.outputs s cs).length ≤ (offered cs).length := by
  induction cs generalizing s with
  | nil => exact le_rfl
  | cons c cs ih =>
    have hhead : (accepted.out s c).toList.length ≤ (offered [c]).length := by
      cases hw : c.wrreq
      · simp [accepted, Mealy.observe, written, Clock.edge, hw, Wr.validWrreq]
      · simp [offered, hw]
    rw [accepted_cons, ← List.singleton_append, offered_append, List.length_append,
      List.length_append]
    exact Nat.add_le_add hhead (ih _)

theorem wraclr_of_two_le (s : State) (h : 2 ≤ cs.length) :
    (fifoPls.run s.reset cs).fifo.wr.wraclr.q = true := by
  obtain ⟨c, d, cs, rfl⟩ : ∃ c d ds, cs = [c, d] ++ ds := by
    match cs, h with
    | c :: d :: ds, _ => exact ⟨c, d, ds, rfl⟩
  rw [wraclr_run]

theorem stays_clear (s : State) {before settle away : List Clock} (hs : 3 ≤ settle.length)
    (h : (fifoPls.run s.reset (before ++ settle)).wr.event.overflow = false)
    (hroom : (accepted.outputs s.reset (before ++ settle)).length + (offered away).length ≤
      (fifoPls.outputs s.reset before).length + 8189) :
    (fifoPls.run s.reset (before ++ settle ++ away)).wr.event.overflow = false := by
  induction away using List.reverseRecOn with
  | nil => simpa using h
  | append_singleton away c ih =>
    rw [offered_append, List.length_append] at hroom
    rw [← List.append_assoc, Mealy.run_append, Mealy.run_cons, Mealy.run_nil]
    refine overflow_le (ih (by omega)) (Bool.eq_false_iff.mpr fun hsig => ?_)
    obtain ⟨hw, hf⟩ := (Bool.and_eq_true _ _).mp hsig
    obtain ⟨n, hn, hl, hk⟩ := exists_knows s before (settle ++ away)
    rw [← List.append_assoc] at hn
    -- the three clocks of `settle` bring the reads before them to the end that writes
    have hbrp := hk.brp (by rw [List.length_append]; omega)
    have hfull := hn.wrfull hl (wraclr_of_two_le s (by simp; omega)) hf
    have htaken := accepted_le (fifoPls.run s.reset (before ++ settle)) away
    rw [accepted_append, List.length_append] at hfull
    have hlast : (offered [c]).length = 1 := by simp [offered, hw]
    omega

theorem accepted_ge (s : State) (before : List Clock) {settle : List Clock}
    (hs : 2 ≤ settle.length) (away : List Clock) :
    min ((fifoPls.outputs s.reset before).length + depth)
        ((accepted.outputs s.reset (before ++ settle)).length + (offered away).length) ≤
      (accepted.outputs s.reset (before ++ settle ++ away)).length := by
  induction away using List.reverseRecOn with
  | nil => simp [offered]
  | append_singleton away c ih =>
    rw [← List.append_assoc, accepted_concat, List.length_append, offered_append,
      List.length_append]
    cases hw : c.wrreq with
    | false =>
      have hnone : (offered [c]).length = 0 := by simp [offered, hw]
      omega
    | true =>
      obtain ⟨n, hn, -, hk⟩ := exists_knows s before (settle ++ away)
      rw [← List.append_assoc] at hn
      have hfreed := hk.freed (by rw [List.length_append]; omega)
      have hq : (fifoPls.run s.reset (before ++ settle ++ away)).fifo.wr.wraclr.q = true :=
        wraclr_of_two_le s (by simp; omega)
      have hone : (offered [c]).length = 1 := by simp [offered, hw]
      rcases Nat.lt_or_ge n.wr.written (n.wr.freed + depth) with hroom | hfull
      · have hvalid := (validWrreq_iff hn.tracks.wr hn.tracks.sound).mpr ⟨hw, hroom, hq⟩
        have htaken := congrArg (fun o => o.toList.length) (out_accepted hvalid)
        simp only [Option.toList_some, List.length_singleton] at htaken
        omega
      · rw [← hn.holds.length] at hfull
        omega

end Overflow

end PhotonCount.FifoPls
