import PhotonCount.Client.Unpack
import PhotonCount.FifoPls.Readout
import PhotonCount.System.Delivery

namespace PhotonCount.System

open Machine PlsCnt Ghrd Dcfifo FifoPls Hps Client

/-- The clocks of the board from an access of the loop to the next one; whether `out` is read
in them is up to the loop. -/
structure Span where
  command : Ghrd.Clock × Access
  response : Ghrd.Clock × Access
  stalls : List (Ghrd.Clock × Access)

def Span.all (u : Span) : List (Ghrd.Clock × Access) := u.command :: u.response :: u.stalls

def lines : Driver Board (Ghrd.Clock × Access) (Order × Ghrd.Clock) Word Ports where
  source := ghrd
  pick k := (.before, k.1)
  feed b k := ⟨b.link.dataBufferValid, b.link.dataBuffer, k.2.rd, k.2.wr, k.2.dontCare⟩

def Span.turn (b : Board) (u : Span) : Turn where
  command := lines.feed b u.command
  response := lines.feed (ghrd.step b (lines.pick u.command)) u.response
  stalls := lines.feeds (ghrd.run b [lines.pick u.command, lines.pick u.response]) u.stalls

def fetch : Driver Board Span Span Word Turn where
  source := ⟨fun b u => ghrd.run b (u.all.map lines.pick), fun _ _ => none⟩
  pick u := u
  feed b u := u.turn b

def readout : Mealy (Board × (FifoPls.State × DataGet.State Word)) Span Word := fetch.drive poll

def Access.quiet (a : Access) : Access := { a with rdreq := false }

def Access.command (pc : DataGet.Pc) (a : Access) : Access :=
  match pc with
  | .status => { a with rdreq := false, rd := statusRead }
  | .data => { a with rdreq := true }
  | .done => a.quiet

def Access.response (pc : DataGet.Pc) (a : Access) : Access :=
  match pc with
  | .status => { a with rdreq := false, rd := statusRead }
  | _ => a.quiet

def Span.accesses (pc : DataGet.Pc) (u : Span) : List (Ghrd.Clock × Access) :=
  (u.command.1, u.command.2.command pc) :: (u.response.1, u.response.2.response pc) ::
    u.stalls.map fun k => (k.1, k.2.quiet)

section Clocks

variable {b : Board} {t : FifoPls.State × DataGet.State Word} {us : List Span}

theorem stalls_feeds (b : Board) (ks : List (Ghrd.Clock × Access)) :
    (lines.feeds b ks).map Ports.clock = link.feeds b (ks.map fun k => (k.1, k.2.quiet)) := by
  induction ks generalizing b with
  | nil => rfl
  | cons k ks ih => exact congrArg (_ :: ·) (ih _)

theorem clocks_turn (b : Board) (pc : DataGet.Pc) (u : Span) :
    (u.turn b).clocks pc = link.feeds b (u.accesses pc) := by
  rw [Turn.clocks, Span.turn, stalls_feeds]
  cases pc <;> rfl

theorem accesses_fst (pc : DataGet.Pc) (u : Span) :
    (u.accesses pc).map Prod.fst = u.all.map Prod.fst := by
  simp [Span.accesses, Span.all]

theorem accesses_wr {pc : DataGet.Pc} {u : Span} {P : Slave → Prop} (h : ∀ k ∈ u.all, P k.2.wr) :
    ∀ k ∈ u.accesses pc, P k.2.wr := by
  simp only [Span.all, Span.accesses, List.forall_mem_cons, List.forall_mem_map] at h ⊢
  refine ⟨?_, ?_, h.2.2⟩
  · cases pc <;> exact h.1
  · cases pc <;> exact h.2.1

theorem exists_accesses (b : Board) (t : FifoPls.State × DataGet.State Word) (us : List Span) :
    ∃ ks, clocks t (fetch.feeds b us) = link.feeds b ks ∧
      ks.map Prod.fst = (us.flatMap Span.all).map Prod.fst ∧
      ∀ P : Slave → Prop, (∀ k ∈ us.flatMap Span.all, P k.2.wr) → ∀ k ∈ ks, P k.2.wr := by
  induction us generalizing b t with
  | nil => exact ⟨[], rfl, rfl, by simp⟩
  | cons u us ih =>
    obtain ⟨ks, hks, hfst, hwr⟩ := ih (fetch.source.step b u) (poll.step t (u.turn b))
    have hboard :
        link.source.run b ((u.accesses t.2.pc).map link.pick) = fetch.source.step b u := by
      have hpick (ks : List (Ghrd.Clock × Access)) :
          ks.map link.pick = (ks.map Prod.fst).map fun c => (Order.before, c) := by
        simp [link]
      rw [hpick, accesses_fst, ← hpick]
      rfl
    refine ⟨u.accesses t.2.pc ++ ks, ?_, ?_, fun P hP => ?_⟩
    · rw [Driver.feeds_append, hboard, ← hks, ← clocks_turn]
      rfl
    · rw [List.map_append, accesses_fst, hfst, List.flatMap_cons, List.map_append]
    · rw [List.flatMap_cons, List.forall_mem_append] at hP
      exact List.forall_mem_append.mpr ⟨accesses_wr hP.1, hwr P hP.2⟩

end Clocks

section Array

variable {b : Board} {s : FifoPls.State} {before : List (Ghrd.Clock × Access)}
  {k : Ghrd.Clock × Access} {us : List Span}

def called (b : Board) (s : FifoPls.State) (ks : List (Ghrd.Clock × Access))
    (data : Int → Word) : Board × (FifoPls.State × DataGet.State Word) :=
  ((board.run (b, s.reset) ks).1, (board.run (b, s.reset) ks).2, DataGet.start data [])

theorem array_holds_records (data : Int → Word)
    (h : Paced b ((before ++ [k] ++ us.flatMap Span.all).map Prod.fst)) (hk : k.2.rdreq = false)
    (hclear : ∀ l ∈ before ++ [k] ++ us.flatMap Span.all, ¬ l.2.wr.ClearsOverflow)
    (hover : (readout.run (called b s (before ++ [k]) data) us).2.1.wr.event.overflow = false) :
    let d := (readout.run (called b s (before ++ [k]) data) us).2.2
    ∃ n : Nat, d.i = n ∧ (d.pc = .done ↔ n = Readout.max) ∧
      board.outputs (b, s.reset) (before ++ [k]) ++ (List.range n).map (fun j : Nat => d.data j) <+:
        plsCnt.outputs b.cnt
          (cntEvents ((before ++ [k] ++ us.flatMap Span.all).map Prod.fst)) := by
  obtain ⟨b₀, hb₀⟩ : ∃ b₀, link.source.run b ((before ++ [k]).map link.pick) = b₀ := ⟨_, rfl⟩
  obtain ⟨s₀, hs₀⟩ : ∃ s₀, fifoPls.run s.reset (link.feeds b (before ++ [k])) = s₀ := ⟨_, rfl⟩
  have hcalled : called b s (before ++ [k]) data = (b₀, s₀, DataGet.start data []) := by
    rw [called, board, Driver.run_drive, hb₀, hs₀]
  intro d
  obtain ⟨ks, hks, hfst, hwr⟩ := exists_accesses b₀ (s₀, DataGet.start data []) us
  have hfeeds : link.feeds b (before ++ [k] ++ ks) = link.feeds b (before ++ [k]) ++
      clocks (s₀, DataGet.start data []) (fetch.feeds b₀ us) := by
    rw [Driver.feeds_append, hb₀, hks]
  have hclocks : (before ++ [k] ++ us.flatMap Span.all).map Prod.fst =
      (before ++ [k] ++ ks).map Prod.fst := by
    rw [List.map_append, ← hfst, ← List.map_append]
  rw [hclocks] at h ⊢
  rw [List.forall_mem_append] at hclear
  have hwr' : ∀ l ∈ before ++ [k] ++ ks, ¬ l.2.wr.ClearsOverflow :=
    List.forall_mem_append.mpr ⟨hclear.1, hwr (fun a => ¬ a.ClearsOverflow) hclear.2⟩
  rw [hcalled, readout, Driver.run_drive, poll_run_fst, ← hs₀, ← Mealy.run_append, hs₀,
    ← hfeeds] at hover
  have hprefix := outputs_prefix_offered (link.forall_mem_feeds (fun _ l hl => hwr' l hl) b) hover
  -- the last clock before the call does not read `out`
  obtain ⟨n, hi, hdone, hout⟩ := stored s (link.feeds b before)
    (p := link.feed (link.source.run b (before.map link.pick)) k) hk data (fetch.feeds b₀ us)
  have hlast : link.feeds b (before ++ [k]) =
      link.feeds b before ++ [link.feed (link.source.run b (before.map link.pick)) k] := by
    simp
  rw [← hlast, hs₀] at hi hdone hout
  have hd : d = (poll.run (s₀, DataGet.start data []) (fetch.feeds b₀ us)).2 := by
    simp only [d, hcalled, readout, Driver.run_drive]
  rw [hd]
  refine ⟨n, hi, hdone, ?_⟩
  rw [hfeeds, Mealy.outputs_append, hs₀, hout, ← hfeeds] at hprefix
  rw [board, Driver.outputs_drive, ← h.offered]
  exact hprefix.trans (List.prefix_append _ _)

theorem client_gets_records (data : Int → Word)
    (h : Paced b ((before ++ [k] ++ us.flatMap Span.all).map Prod.fst)) (hk : k.2.rdreq = false)
    (hclear : ∀ l ∈ before ++ [k] ++ us.flatMap Span.all, ¬ l.2.wr.ClearsOverflow)
    (hover : (readout.run (called b s (before ++ [k]) data) us).2.1.wr.event.overflow = false) :
    let d := (readout.run (called b s (before ++ [k]) data) us).2.2
    ∃ n : Nat, ∃ batch : List Word, d.i = n ∧ batch = (List.range n).map (fun j : Nat => d.data j) ∧
      board.outputs (b, s.reset) (before ++ [k]) ++ batch <+: plsCnt.outputs b.cnt
        (cntEvents ((before ++ [k] ++ us.flatMap Span.all).map Prod.fst)) ∧
      (d.pc = .done → batch.length = Readout.max ∧
        ∀ i : Nat → Int, (∀ m, SendAll.Takes (SendAll.state (SendAll.memory batch) i m) (i m)) →
          (∀ m, (SendAll.state (SendAll.memory batch) i m).returned = none → 1 ≤ i m) →
          ∃ m, (SendAll.state (SendAll.memory batch) i m).returned = some true ∧
            received (SendAll.handedOver (SendAll.memory batch) i m) = some (unpack batch)) := by
  intro d
  obtain ⟨n, hi, hdone, hprefix⟩ := array_holds_records data h hk hclear hover
  refine ⟨n, _, hi, rfl, hprefix, fun hpc => ?_⟩
  obtain ⟨batch, hbatch⟩ : ∃ batch, (List.range n).map (fun j : Nat => d.data j) = batch :=
    ⟨_, rfl⟩
  have hlen : batch.length = Readout.max := by
    rw [← hbatch, List.length_map, List.length_range, hdone.mp hpc]
  rw [hbatch]
  refine ⟨hlen, fun i htakes hsends => ?_⟩
  have hlt : (SendAll.memory batch).length < 2 ^ 32 :=
    SendAll.memory_lt (by rw [hlen]; decide)
  obtain ⟨m, hret, hhanded⟩ := SendAll.returns_true hlt htakes hsends
  refine ⟨m, hret, ?_⟩
  rw [hhanded]
  exact received_memory hlen.le

def waited (photons : Nat) : Ghrd.Clock × Access := ((polled photons).1, (polled photons).2.quiet)

def spans : List Span := [1, 0, 2, 1].map fun n => ⟨waited n, waited 0, [waited 1]⟩

theorem client_gets_records_started :
    ∃ n : Nat, ∃ batch : List Word,
      (readout.run (called idleBoard .blank (started.take 1 ++ [waited 3] ++ [waited 0])
        fun _ => 0#64) spans).2.2.i = n ∧ batch.length = n ∧
      board.outputs (idleBoard, State.reset .blank)
          (started.take 1 ++ [waited 3] ++ [waited 0]) ++ batch <+:
        plsCnt.outputs idleBoard.cnt (cntEvents
          ((started.take 1 ++ [waited 3] ++ [waited 0] ++
            spans.flatMap Span.all).map Prod.fst)) := by
  obtain ⟨n, batch, hi, hbatch, hprefix, -⟩ := @client_gets_records idleBoard .blank
    (started.take 1 ++ [waited 3]) (waited 0) spans (fun _ => 0#64)
    ⟨by decide, by decide, by decide, by decide, by decide⟩ rfl
    (by simp [started, spans, waited, polled, Span.all, Access.quiet, Slave.none,
      Slave.ClearsOverflow]) (by decide +kernel)
  exact ⟨n, batch, hi, by simp [hbatch], hprefix⟩

end Array

end PhotonCount.System
