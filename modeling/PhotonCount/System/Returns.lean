import PhotonCount.System.Acquire

namespace PhotonCount.System

open Machine PlsCnt Ghrd Dcfifo FifoPls Hps

variable {b : Board} {s : FifoPls.State} {before : List (Ghrd.Clock × Access)}

section Offered

variable {away : List (Ghrd.Clock × Access)} {cs ds : List Ghrd.Clock}

theorem Paced.tao_stands (h : Paced b (cs ++ ds)) (hquiet : ∀ c ∈ ds, c.inputs.write = false) :
    (plsCnt.run b.cnt (cntEvents (cs ++ ds))).tao = (plsCnt.run b.cnt (cntEvents cs)).tao := by
  rw [cntEvents_append, Mealy.run_append]
  exact run_tao h.left.tao_ne_zero (h.quiet hquiet)

theorem Paced.many (h : Paced b (cs ++ ds)) (hquiet : ∀ c ∈ ds, c.inputs.write = false) {m : Nat}
    (hm : m * (plsCnt.run b.cnt (cntEvents cs)).tao.toNat ≤ ds.length) :
    (plsCnt.outputs b.cnt (cntEvents cs)).length + m ≤
      (plsCnt.outputs b.cnt (cntEvents (cs ++ ds))).length := by
  have hle := le_length_outputs (h.quiet hquiet) h.left.tao_ne_zero
    (noWrap_append.mp (cntEvents_append cs ds ▸ h.noWrap)).2 (clkEdges_cntEvents ds ▸ hm)
  rw [cntEvents_append, Mealy.outputs_append, List.length_append]
  exact Nat.add_le_add_left hle _

theorem Paced.offered_away (h : Paced b ((before ++ away).map Prod.fst))
    (hquiet : ∀ k ∈ away, k.1.inputs.write = false) {m : Nat}
    (hm : (m + 1) * (plsCnt.run b.cnt (cntEvents (before.map Prod.fst))).tao.toNat ≤
      away.length) :
    m ≤ (FifoPls.offered
      (link.feeds (link.source.run b (before.map link.pick)) away)).length := by
  have h' : Paced b (before.map Prod.fst ++ away.map Prod.fst) := List.map_append ▸ h
  have hmany := h'.many (by simpa using hquiet) (by simpa using hm)
  have hall := congrArg List.length h.offered
  have hleft := congrArg List.length h'.left.offered
  have hflight := inFlight_length (ghrd.run b ((before ++ away).map link.pick))
  rw [Driver.feeds_append, offered_append, List.length_append, List.length_append] at hall
  rw [List.length_append] at hleft
  rw [← List.map_append] at hmany
  omega

end Offered

section Returns

variable {us : List (Ghrd.Clock × Access)}

theorem Paced.taken (h : Paced b ((before ++ us).map Prod.fst)) (s : FifoPls.State)
    (hquiet : ∀ l ∈ us, l.1.inputs.write = false)
    (htime : (Readout.max + 1) *
      (plsCnt.run b.cnt (cntEvents (before.map Prod.fst))).tao.toNat + 2 ≤ us.length) :
    (fifoPls.outputs s.reset (link.feeds b before)).length + Readout.max ≤
      (FifoPls.accepted.outputs s.reset (link.feeds b (before ++ us))).length := by
  obtain ⟨settle, away, rfl, hsettle⟩ : ∃ settle away, us = settle ++ away ∧ settle.length = 2 :=
    ⟨us.take 2, us.drop 2, (List.take_append_drop 2 us).symm, by simp; omega⟩
  rw [List.forall_mem_append] at hquiet
  rw [← List.append_assoc] at h
  have hall : Paced b (before.map Prod.fst ++ settle.map Prod.fst ++ away.map Prod.fst) := by
    simpa using h
  have hleft := hall.left
  have htao := hleft.tao_stands (by simpa using hquiet.1)
  rw [← List.map_append] at htao
  have hoffered := h.offered_away hquiet.2 (m := Readout.max) (by
    rw [htao]
    rw [List.length_append] at htime
    omega)
  have hlen : 2 ≤ (link.feeds (link.source.run b (before.map link.pick)) settle).length := by
    rw [Driver.length_feeds, hsettle]
  have hge := accepted_ge s (link.feeds b before) hlen
    (link.feeds (link.source.run b ((before ++ settle).map link.pick)) away)
  have hread : (fifoPls.outputs s.reset (link.feeds b before)).length ≤
      (FifoPls.accepted.outputs s.reset (link.feeds b before)).length := by
    obtain ⟨n, hn⟩ := exists_stands s (link.feeds b before)
    rw [hn.put, List.length_take]
    exact Nat.min_le_right _ _
  have hdepth : depth = Readout.max := rfl
  rw [← List.append_assoc, Driver.feeds_append, Driver.feeds_append]
  rw [FifoPls.accepted_append s.reset (link.feeds b before), List.length_append] at hge
  omega

theorem call_returns (s : FifoPls.State) {k : Ghrd.Clock × Access} {us vs : List Span}
    (data : Int → Word)
    (h : Paced b ((before ++ [k] ++ us.flatMap Span.all).map Prod.fst)) (hk : k.2.rdreq = false)
    (hquiet : ∀ l ∈ us.flatMap Span.all, l.1.inputs.write = false)
    (htime : (Readout.max + 1) *
        (plsCnt.run b.cnt (cntEvents ((before ++ [k]).map Prod.fst))).tao.toNat + 2 ≤
      (us.flatMap Span.all).length)
    (hvs : 2 * Readout.max + 2 ≤ vs.length) :
    (readout.run (called b s (before ++ [k]) data) (us ++ vs)).2.2.pc = .done := by
  obtain ⟨b₀, hb₀⟩ : ∃ b₀, link.source.run b ((before ++ [k]).map link.pick) = b₀ := ⟨_, rfl⟩
  obtain ⟨cs, hcs⟩ : ∃ cs, link.feeds b (before ++ [k]) = cs := ⟨_, rfl⟩
  have hcalled : called b s (before ++ [k]) data =
      (b₀, fifoPls.run s.reset cs, DataGet.start data []) := by
    rw [called, board, Driver.run_drive, hb₀, hcs]
  obtain ⟨ks, hks, hfst, -⟩ :=
    exists_accesses b₀ (fifoPls.run s.reset cs, DataGet.start data []) us
  have hfeeds : link.feeds b (before ++ [k] ++ ks) =
      cs ++ clocks (fifoPls.run s.reset cs, DataGet.start data []) (fetch.feeds b₀ us) := by
    rw [Driver.feeds_append, hb₀, hks, hcs]
  rw [List.map_append, ← hfst, ← List.map_append] at h
  rw [← List.length_map Prod.fst, ← hfst, List.length_map] at htime
  have hmany := h.taken s (fun l hl => ?_) htime
  · rw [hfeeds, hcs] at hmany
    have hlast : cs = link.feeds b before ++
        [link.feed (link.source.run b (before.map link.pick)) k] := by
      rw [← hcs]
      simp
    obtain ⟨c, hc, hserves⟩ := serves_after s (link.feeds b before)
      (p := link.feed (link.source.run b (before.map link.pick)) k) hk
    rw [← hlast] at hc hserves
    rw [hcalled, readout, Driver.run_drive, Driver.feeds_append]
    refine done_after hc hserves data (hc.read ▸ hmany) ?_
    rwa [Driver.length_feeds]
  · have hmem : l.1 ∈ (us.flatMap Span.all).map Prod.fst := hfst ▸ List.mem_map_of_mem hl
    obtain ⟨m, hm, hml⟩ := List.mem_map.mp hmem
    exact hml ▸ hquiet m hm

theorem paced_of_quiet {cs : List Ghrd.Clock} (hb : b.Idle) (htao : 2 ≤ b.cnt.tao.toNat)
    (hslow : ∀ c ∈ cs, c.Slow) (hquiet : ∀ c ∈ cs, c.inputs.write = false)
    (hlt : b.cnt.clkCnt.toNat + cs.length < 2 ^ 32) : Paced b cs where
  idle := hb
  tao := htao
  slow := hslow
  spaced := (List.pairwise_of_forall_mem_list fun c hc _ _ => by simp [hquiet c hc]).isChain
  noWrap := noWrap_of_lt (fun e he => (cntEvents_quiet hslow hquiet e he).1)
    (ne_zero_of_two_le htao) (clkEdges_cntEvents cs ▸ hlt)

def rest (n : Nat) : Span := ⟨waited 0, waited 0, List.replicate n (waited 0)⟩

theorem call_returns_started :
    (readout.run (called idleBoard .blank ([] ++ [waited 0]) fun _ => 0#64)
      ([rest (2 * (Readout.max + 1))] ++ List.replicate (2 * Readout.max + 2) (rest 0))).2.2.pc =
        .done := by
  have hclocks :
      ([] ++ [waited 0] ++ [rest (2 * (Readout.max + 1))].flatMap Span.all).map Prod.fst =
        List.replicate (2 * (Readout.max + 1) + 3) (waited 0).1 := by
    simp [rest, Span.all, List.replicate_succ]
  have hmem {c : Ghrd.Clock} {n : Nat} (hc : c ∈ List.replicate n (waited 0).1) :
      c = (waited 0).1 := List.eq_of_mem_replicate hc
  refine call_returns .blank (fun _ => 0#64) (hclocks ▸ paced_of_quiet (by decide) (by decide)
    (fun c hc => hmem hc ▸ by decide) (fun c hc => hmem hc ▸ rfl) ?_) rfl ?_ ?_ ?_
  · rw [List.length_replicate]
    decide
  · simp [rest, Span.all, waited, polled]
  · have htao : (plsCnt.run idleBoard.cnt
        (cntEvents (([] ++ [waited 0]).map Prod.fst))).tao.toNat = 2 := by decide
    have hlen : ([rest (2 * (Readout.max + 1))].flatMap Span.all).length =
        2 * (Readout.max + 1) + 2 := by simp [rest, Span.all]
    rw [htao, hlen]
    omega
  · simp

end Returns

end PhotonCount.System
