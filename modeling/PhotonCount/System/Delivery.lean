import PhotonCount.FifoPls.Level
import PhotonCount.Ghrd.Transfer
import PhotonCount.Machine.Drive
import PhotonCount.PlsCnt.Rate

namespace PhotonCount.System

open Machine PlsCnt Ghrd Dcfifo FifoPls

structure Access where
  rdreq : Bool
  rd : Slave
  wr : Slave
  dontCare : Word

/-- `fifo_pls_in_write` is `data_buffer_valid`, `fifo_pls_in_writedata` is `data_buffer`. -/
def link : Driver Board (Ghrd.Clock × Access) (Order × Ghrd.Clock) Word FifoPls.Clock where
  source := ghrd
  pick k := (.before, k.1)
  feed b k :=
    ⟨b.link.dataBufferValid, b.link.dataBuffer, k.2.rdreq, k.2.rd, k.2.wr, k.2.dontCare⟩

def board : Mealy (Board × FifoPls.State) (Ghrd.Clock × Access) Word := link.drive fifoPls

variable {b : Board} {s : FifoPls.State} {ks : List (Ghrd.Clock × Access)}

theorem offered_feeds (b : Board) (ks : List (Ghrd.Clock × Access)) :
    offered (link.feeds b ks) = ghrd.outputs b (ks.map link.pick) := by
  induction ks generalizing b with
  | nil => rfl
  | cons k ks ih =>
    rw [Driver.feeds_cons, List.map_cons, Mealy.outputs_cons, ← ih]
    cases hv : b.link.dataBufferValid <;> simp [offered, link, ghrd, hv]

def cntEvents (cs : List Ghrd.Clock) : List PlsCnt.Event := events (cs.map Clock.toCycle)

theorem cntEvents_append (cs ds : List Ghrd.Clock) :
    cntEvents (cs ++ ds) = cntEvents cs ++ cntEvents ds := by
  simp [cntEvents]

theorem clkEdges_cntEvents (cs : List Ghrd.Clock) : clkEdges (cntEvents cs) = cs.length :=
  (clkEdges_events _).trans (List.length_map _)

theorem cntEvents_quiet {cs : List Ghrd.Clock} (hslow : ∀ c ∈ cs, c.Slow)
    (hquiet : ∀ c ∈ cs, c.inputs.write = false) :
    ∀ e ∈ cntEvents cs, e.Running ∧ e.isWrite = false := by
  refine events_quiet fun c hc => ?_
  obtain ⟨k, hk, rfl⟩ := List.mem_map.mp hc
  exact ⟨(hslow k hk).2.1, hquiet k hk⟩

/-- From an idle board on the hand-off loses nothing. -/
structure Paced (b : Board) (cs : List Ghrd.Clock) : Prop where
  idle : b.Idle
  tao : 2 ≤ b.cnt.tao.toNat
  slow : ∀ c ∈ cs, c.Slow
  spaced : Spaced cs
  noWrap : NoWrap b.cnt (cntEvents cs)

section Paced

variable {cs before away : List Ghrd.Clock}

theorem Paced.running (h : Paced b cs) : ∀ e ∈ cntEvents cs, e.Running := by
  intro e he
  obtain ⟨c, hc, he⟩ := List.mem_flatMap.mp he
  obtain ⟨k, hk, rfl⟩ := List.mem_map.mp hc
  rcases List.mem_cons.mp he with rfl | he
  · exact (h.slow k hk).running.2
  · rw [List.eq_of_mem_replicate he]
    trivial

theorem Paced.left (h : Paced b (before ++ away)) : Paced b before where
  idle := h.idle
  tao := h.tao
  slow c hc := h.slow c (List.mem_append_left _ hc)
  spaced := h.spaced.left_of_append
  noWrap := (noWrap_append.mp (cntEvents_append before away ▸ h.noWrap)).1

theorem Paced.offered (h : Paced b (ks.map Prod.fst)) :
    offered (link.feeds b ks) ++ inFlight (ghrd.run b (ks.map link.pick)) =
      plsCnt.outputs b.cnt (cntEvents (ks.map Prod.fst)) := by
  have hpick : ks.map link.pick = (ks.map Prod.fst).map fun c => (Order.before, c) := by
    simp [link]
  have hkeeps : Keeps b (ks.map Prod.fst) := ⟨h.idle.coherent, h.tao,
    fun hr => by simp [h.idle.1] at hr, fun hr => by simp [h.idle.1] at hr⟩
  have hrun := hkeeps.run h.slow h.spaced h.noWrap
  rw [h.idle.inFlight, List.nil_append, outputs_clocked, ← hpick] at hrun
  rw [offered_feeds, hrun, cntEvents]

theorem Paced.quiet (h : Paced b (before ++ away)) (hquiet : ∀ c ∈ away, c.inputs.write = false) :
    ∀ e ∈ cntEvents away, e.Running ∧ e.isWrite = false :=
  cntEvents_quiet (fun c hc => h.slow c (List.mem_append_right _ hc)) hquiet

theorem Paced.tao_ne_zero (h : Paced b cs) : (plsCnt.run b.cnt (cntEvents cs)).tao ≠ 0#32 :=
  run_tao_ne_zero (ne_zero_of_two_le h.tao) h.running

theorem Paced.outputs_away (h : Paced b (before ++ away))
    (hquiet : ∀ c ∈ away, c.inputs.write = false) :
    (plsCnt.outputs b.cnt (cntEvents (before ++ away))).length ≤
      (plsCnt.outputs b.cnt (cntEvents before)).length +
        (away.length / (plsCnt.run b.cnt (cntEvents before)).tao.toNat + 1) := by
  have hle := length_outputs_le (h.quiet hquiet) h.left.tao_ne_zero
    (noWrap_append.mp (cntEvents_append before away ▸ h.noWrap)).2
  rw [clkEdges_cntEvents] at hle
  rw [cntEvents_append, Mealy.outputs_append, List.length_append]
  exact Nat.add_le_add_left hle _

end Paced

theorem board_delivers (h : Paced b (ks.map Prod.fst))
    (hclear : ∀ k ∈ ks, ¬ k.2.wr.ClearsOverflow)
    (hover : (board.run (b, s.reset) ks).2.wr.event.overflow = false) :
    board.outputs (b, s.reset) ks <+: plsCnt.outputs b.cnt (cntEvents (ks.map Prod.fst)) ∧
      (plsCnt.outputs b.cnt (cntEvents (ks.map Prod.fst))).length ≤
        (board.outputs (b, s.reset) ks).length + depth + 1 := by
  have hfeeds := link.forall_mem_feeds (P := fun c => ¬ c.wr.ClearsOverflow)
    (fun _ k hk => hclear k hk) b
  rw [board, Driver.run_drive] at hover
  rw [board, Driver.outputs_drive, ← h.offered]
  refine ⟨(outputs_prefix_offered hfeeds hover).trans (List.prefix_append _ _), ?_⟩
  obtain ⟨n, hn⟩ := exists_stands s (link.feeds b ks)
  have hlen := hn.holds.length
  have hroom := hn.tracks.sound.written.trans (Nat.add_le_add_right
    (hn.tracks.sound.freed.trans hn.tracks.sound.first) depth)
  have hflight := inFlight_length (ghrd.run b (ks.map link.pick))
  rw [accepts_of_no_event hfeeds hover] at hlen
  rw [List.length_append, ← hn.read]
  omega

def polled (photons : Nat) : Ghrd.Clock × Access :=
  ⟨⟨⟨⟨false, false, false, 0#32⟩, photons⟩, true⟩, true, .none, .none, 0#64⟩

def started : List (Ghrd.Clock × Access) :=
  ⟨⟨⟨⟨false, false, true, 2#32⟩, 0⟩, true⟩, false, .none, .none, 0#64⟩ ::
    [1, 0, 2, 0, 0, 1, 0, 0, 1, 0, 0, 0].map polled

def idleBoard : Board := ⟨PlsCnt.powerUp 2#32, 0#8, 0#64, false⟩

theorem started_paced : Paced idleBoard (started.map Prod.fst) :=
  ⟨by decide, by decide, by decide, by decide, by decide⟩

theorem board_delivers_started :
    board.outputs (idleBoard, State.blank.reset) started <+:
        plsCnt.outputs idleBoard.cnt (cntEvents (started.map Prod.fst)) ∧
      (plsCnt.outputs idleBoard.cnt (cntEvents (started.map Prod.fst))).length ≤
        (board.outputs (idleBoard, State.blank.reset) started).length + depth + 1 :=
  board_delivers started_paced
    (by simp [started, polled, Slave.none, Slave.ClearsOverflow]) (by decide +kernel)

section Load

variable {before settle away : List (Ghrd.Clock × Access)}

theorem board_absorbs (h : Paced b ((before ++ settle ++ away).map Prod.fst))
    (hs : 3 ≤ settle.length) (hquiet : ∀ k ∈ away, k.1.inputs.write = false)
    (hover : (board.run (b, s.reset) (before ++ settle)).2.wr.event.overflow = false)
    (hroom : (plsCnt.outputs b.cnt (cntEvents ((before ++ settle).map Prod.fst))).length +
        away.length /
          (plsCnt.run b.cnt (cntEvents ((before ++ settle).map Prod.fst))).tao.toNat <
      (board.outputs (b, s.reset) before).length + 8189) :
    (board.run (b, s.reset) (before ++ settle ++ away)).2.wr.event.overflow = false := by
  have hall := congrArg List.length h.offered
  have h' : Paced b ((before ++ settle).map Prod.fst ++ away.map Prod.fst) := by
    rwa [← List.map_append]
  have haway := h'.outputs_away (by simpa using hquiet)
  rw [← List.map_append, List.length_map] at haway
  simp only [board, Driver.run_drive, Driver.outputs_drive, Driver.feeds_append,
    offered_append, List.length_append] at hall hover hroom ⊢
  have htaken := accepted_le s.reset (link.feeds b before ++
    link.feeds (link.source.run b (before.map link.pick)) settle)
  rw [offered_append, List.length_append] at htaken
  refine stays_clear s ?_ hover ?_
  · rwa [Driver.length_feeds]
  · omega

theorem board_absorbs_started :
    (board.run (idleBoard, State.blank.reset)
      (started.take 2 ++ (started.drop 2).take 3 ++ (started.drop 2).drop 3)
      ).2.wr.event.overflow = false :=
  board_absorbs started_paced (by decide) (by decide) (by decide +kernel) (by decide +kernel)

end Load

end PhotonCount.System
