import PhotonCount.Dcfifo.Pointers

namespace PhotonCount.Dcfifo

open Machine PlsCnt

variable {s : State} {e : Edge} {c : Counts} {ws : List Word}

/-- The words not yet read are in the memory, and the next one is read out already when the end
that reads gets to know of it. -/
structure Holds (s : State) (c : Counts) (ws : List Word) : Prop where
  length : ws.length = c.wr.written
  mem : ∀ i, c.rd.read ≤ i → i < c.wr.written → ws[i]? = some (s.ram.mem (address i))
  addressB : s.ram.addressB = address c.rd.read
  read : c.rd.read < c.rd.seen → ws[c.rd.read]? = some s.ram.read

theorem aclr_tracks (s : State) : Tracks s.aclr Counts.zero where
  wr := Wr.cleared_shows (by simp)
  rd := Rd.cleared_shows (by simp)
  sound := by constructor <;> simp [Counts.zero]

theorem aclr_holds (s : State) : Holds s.aclr Counts.zero [] where
  length := rfl
  mem i _ hi := absurd hi (Nat.not_lt_zero i)
  addressB := by
    change 0#13 = address 0
    decide
  read h := absurd h (Nat.not_lt_zero 0)

section Step

theorem written_eq_some (h : Tracks s c) {a : BitVec 13} {data : Word}
    (hw : written s e = some (a, data)) :
    a = address c.wr.written ∧ c.wr.written < c.wr.freed + depth := by
  obtain ⟨wr, rd, dontCare⟩ := e
  cases wr with
  | none => cases hw
  | some w =>
    simp only [written] at hw
    split at hw
    next hv =>
      obtain ⟨rfl, -⟩ := Prod.mk.inj (Option.some.inj hw)
      exact ⟨by rw [h.wr.wrptrG, ramAddress_ptr], ((validWrreq_iff h.wr h.sound).mp hv).2.1⟩
    next => cases hw

theorem follow_written (h : Tracks s c) (e : Edge) :
    (follow s e c).wr.written = c.wr.written + (written s e).toList.length := by
  obtain ⟨wr, rd, dontCare⟩ := e
  cases wr with
  | none => rfl
  | some w =>
    cases hv : s.wr.validWrreq w.1 with
    | false => cases hq : s.wr.wraclr.q <;> simp [follow, written, hv, hq, WrCounts.clk]
    | true =>
      have hq := ((validWrreq_iff h.wr h.sound).mp hv).2.2
      simp [follow, written, hv, hq, WrCounts.clk]

theorem follow_read (h : Tracks s c) (e : Edge) :
    (follow s e c).rd.read = c.rd.read + (dcfifo.out s e).toList.length := by
  obtain ⟨wr, rd, dontCare⟩ := e
  cases rd with
  | none => rfl
  | some rdreq =>
    cases hv : s.rd.validRdreq rdreq with
    | false => cases hq : s.rd.rdaclr.q <;> simp [follow, dcfifo, hv, hq, RdCounts.clk]
    | true =>
      have hq := ((validRdreq_iff h.rd h.sound).mp hv).2.2
      simp [follow, dcfifo, hv, hq, RdCounts.clk]

theorem step_mem (s : State) (e : Edge) :
    (step s e).ram.mem = (s.ram.write (written s e)).mem := by
  cases hw : written s e <;> cases hr : e.rd <;> simp [step, hw, hr, Ram.write, Ram.clk]

theorem step_mem_address (h : Tracks s c) {i : Nat} (hi : c.rd.read ≤ i)
    (hlt : i < c.wr.written) : (step s e).ram.mem (address i) = s.ram.mem (address i) := by
  rw [step_mem]
  cases hw : written s e with
  | none => rfl
  | some w =>
    obtain ⟨ha, hroom⟩ := written_eq_some h hw
    have hne : address i ≠ w.1 := by
      have := h.sound.freed
      have := h.sound.first
      rw [ha, Ne, address_inj (by omega) (by omega)]
      omega
    exact Function.update_of_ne hne _ _

theorem step_addressB (h : Tracks s c) (hb : s.ram.addressB = address c.rd.read) (e : Edge) :
    (step s e).ram.addressB = address (follow s e c).rd.read := by
  have hw (w : Option (BitVec 13 × Word)) (r : Ram) : (r.write w).addressB = r.addressB := by
    cases w <;> rfl
  obtain ⟨wr, rd, dontCare⟩ := e
  cases rd with
  | none => exact (hw _ _).trans hb
  | some rdreq =>
    simp only [step, follow, hw, Ram.clk]
    cases hq : s.rd.rdaclr.q with
    | false =>
      rw [if_neg (by simp), if_neg (by simp), h.rd.idle hq]
      decide
    | true =>
      cases hv : s.rd.validRdreq rdreq with
      | false => simpa [RdCounts.clk] using hb
      | true =>
        have hnext : s.rd.rdptrG1p.counter = ptr (c.rd.read + 1) := h.rd.rdptrG1p.counter
        simp [RdCounts.clk, hnext, ramAddress_ptr]

theorem step_ram_read {rdreq : Bool} (he : e.rd = some rdreq) :
    (step s e).ram.read =
      if (written s e).map Prod.fst = some (step s e).ram.addressB then e.dontCare
      else s.ram.mem (step s e).ram.addressB := by
  have hw (w : Option (BitVec 13 × Word)) (r : Ram) :
      (r.write w).read = r.read ∧ (r.write w).addressB = r.addressB := by
    cases w <;> exact ⟨rfl, rfl⟩
  simp only [step, he, hw]
  rfl

theorem follow_seen_le (h : Tracks s c) (e : Edge) : (follow s e c).rd.seen ≤ c.wr.written := by
  have hseen := h.sound.seen
  have hfirst := h.sound.rsFirst.trans h.sound.delayed
  cases he : e.rd with
  | none => simpa [follow, he] using hseen.trans hfirst
  | some rdreq =>
    simp only [follow, he]
    split
    · exact hfirst
    · exact hseen.trans hfirst

theorem step_read (h : Tracks s c) (hb : s.ram.addressB = address c.rd.read) {rdreq : Bool}
    (he : e.rd = some rdreq) (hlt : (follow s e c).rd.read < (follow s e c).rd.seen) :
    (step s e).ram.read = s.ram.mem (address (follow s e c).rd.read) := by
  have hread := follow_read h e
  have hseen := follow_seen_le h e
  rw [step_ram_read he, step_addressB h hb]
  refine if_neg fun hcol => ?_
  cases hw : written s e with
  | none => simp [hw] at hcol
  | some w =>
    obtain ⟨ha, hroom⟩ := written_eq_some h hw
    have := h.sound.freed
    have := h.sound.first
    simp only [hw, Option.map_some, Option.some.injEq, ha] at hcol
    rw [eq_comm, address_inj (by omega) (by omega)] at hcol
    omega

theorem Holds.step (hh : Holds s c ws) (h : Tracks s c) (e : Edge) :
    Holds (step s e) (follow s e c) (ws ++ ((written s e).map Prod.snd).toList) := by
  have hold : ∀ i, c.rd.read ≤ i → i < (follow s e c).wr.written →
      (ws ++ ((written s e).map Prod.snd).toList)[i]? =
        some ((Dcfifo.step s e).ram.mem (address i)) := by
    intro i hi hlt
    rw [follow_written h] at hlt
    by_cases hiw : i < c.wr.written
    · rw [List.getElem?_append_left (hh.length ▸ hiw), step_mem_address h hi hiw]
      exact hh.mem i hi hiw
    · cases hw : written s e with
      | none => simp [hw] at hlt; omega
      | some w =>
        obtain ⟨ha, -⟩ := written_eq_some h hw
        obtain rfl : i = ws.length := by
          simp only [hw, Option.toList_some, List.length_singleton] at hlt
          have := hh.length
          omega
        simp [step_mem, hw, Ram.write, ha, hh.length]
  have hread := follow_read h e
  exact {
    length := by
      rw [follow_written h, List.length_append, hh.length]
      cases written s e <;> rfl
    mem i hi hlt := hold i (by omega) hlt
    addressB := step_addressB h hh.addressB e
    read hlt := by
      have hseen := follow_seen_le h e
      have hin : (follow s e c).rd.read < ws.length := hh.length ▸ hlt.trans_le hseen
      rw [List.getElem?_append_left hin]
      cases he : e.rd with
      | none =>
        have hram : (Dcfifo.step s e).ram.read = s.ram.read := by
          cases hw : written s e <;> simp [Dcfifo.step, he, hw, Ram.write]
        rw [hram]
        simp only [follow, he] at hlt ⊢
        exact hh.read hlt
      | some rdreq =>
        rw [step_read h hh.addressB he hlt]
        exact hh.mem _ (by omega) (hlt.trans_le hseen) }

theorem out_eq (hh : Holds s c ws) (h : Tracks s c) {w : Word} (ho : dcfifo.out s e = some w) :
    ws[c.rd.read]? = some w := by
  obtain ⟨wr, rd, dontCare⟩ := e
  cases rd with
  | none => cases ho
  | some rdreq =>
    simp only [dcfifo, Option.any_some] at ho
    split at ho
    next hv =>
      obtain ⟨-, hlt, hq⟩ := (validRdreq_iff h.rd h.sound).mp hv
      rw [hh.read hlt, ← ho]
      have hram (x : Option (BitVec 13 × Word)) (r : Ram) : (r.write x).q = r.q := by
        cases x <;> rfl
      simp [step, hram, Ram.clk, hq, hv]
    next => cases ho

theorem Holds.read_le (hh : Holds s c ws) (h : Tracks s c) : c.rd.read ≤ ws.length := by
  have hs := h.sound
  rw [hh.length]
  exact hs.read.trans (hs.seen.trans (hs.rsFirst.trans hs.delayed))

theorem Holds.take_step (hh : Holds s c ws) (h : Tracks s c) (e : Edge) :
    ws.take c.rd.read ++ (dcfifo.out s e).toList =
      (ws ++ ((written s e).map Prod.snd).toList).take (follow s e c).rd.read := by
  have hle := hh.read_le h
  rw [follow_read h]
  cases hout : dcfifo.out s e with
  | none => simp [List.take_append_of_le_length hle]
  | some w =>
    obtain ⟨hlt, hw⟩ := List.getElem?_eq_some_iff.mp (out_eq hh h hout)
    rw [Option.toList_some, List.length_singleton, List.take_append_of_le_length hlt,
      List.take_succ_eq_append_getElem hlt, hw]

end Step

theorem accepted_concat (s : State) (es : List Edge) (e : Edge) :
    accepted.outputs s (es ++ [e]) =
      accepted.outputs s es ++ ((written (dcfifo.run s es) e).map Prod.snd).toList := by
  rw [Mealy.outputs_append, accepted, Mealy.run_observe]
  exact congrArg _ (List.append_nil _)

theorem run_holds (s : State) (es : List Edge) :
    ∃ c, Tracks (dcfifo.run s.aclr es) c ∧
      Holds (dcfifo.run s.aclr es) c (accepted.outputs s.aclr es) ∧
      dcfifo.outputs s.aclr es = (accepted.outputs s.aclr es).take c.rd.read := by
  induction es using List.reverseRecOn with
  | nil => exact ⟨.zero, aclr_tracks s, aclr_holds s, rfl⟩
  | append_singleton es e ih =>
    obtain ⟨c, h, hh, ho⟩ := ih
    rw [Mealy.run_append, accepted_concat, Mealy.outputs_append, ho]
    refine ⟨follow (dcfifo.run s.aclr es) e c, h.step e, hh.step h e, ?_⟩
    rw [← hh.take_step h, Mealy.outputs_cons, Mealy.outputs_nil, List.append_nil]

end PhotonCount.Dcfifo
