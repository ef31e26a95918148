import PhotonCount.FifoPls.Poll

namespace PhotonCount.FifoPls

open Machine PlsCnt Dcfifo Hps

section Refines

variable {t : State × DataGet.State Word} {a : DataGet.State Word} {c : Counts}
  {ws os : List Word} {v : Nat} {u : Turn}

/-- The loop on the FIFO, and the loop whose FIFO is the list of the words on offer. -/
structure Refines (t : State × DataGet.State Word) (a : DataGet.State Word) (c : Counts)
    (ws os : List Word) (v : Nat) : Prop where
  serves : Serves t.1 c ws v
  read_le : c.rd.read ≤ v
  loop : a = { t.2 with fifo := (ws.take v).drop c.rd.read }
  own : t.2.fifo = []
  ready : t.2.pc = .data → c.rd.read < v
  put : os = ws.take c.rd.read

def Follows (t : State × DataGet.State Word) (a : DataGet.State Word) (ws os : List Word) (v : Nat)
    (u : Turn) : Prop :=
  ∃ b c' v', DataGet.Tells a b ∧
    Refines (poll.step t u) (DataGet.dataGet.step a b) c'
      (ws ++ accepted.outputs t.1 (u.clocks t.2.pc))
      (os ++ fifoPls.outputs t.1 (u.clocks t.2.pc)) v' ∧
    v ≤ v' ∧ v' ≤ ws.length ∧ b.arrivals = (ws.take v').drop v

theorem next_pc_ne (d : DataGet.State Word) : (DataGet.next d).pc ≠ .data := by
  simp only [DataGet.next]
  split <;> simp

theorem access_status {d : DataGet.State Word} (hpc : d.pc = .status) (b : DataGet.Bus Word)
    (arrivals f : List Word) :
    DataGet.access { b with arrivals } { d with fifo := f } =
      { DataGet.access b d with fifo := f } := by
  simp only [DataGet.access, hpc, DataGet.status]
  split <;> rfl

theorem access_status_fifo {d : DataGet.State Word} (hpc : d.pc = .status)
    (b : DataGet.Bus Word) : (DataGet.access b d).fifo = d.fifo := by
  simp only [DataGet.access, hpc]
  split <;> rfl

theorem found_of_access {d : DataGet.State Word} {b : DataGet.Bus Word} (hpc : d.pc = .status)
    (h : (DataGet.access b d).pc = .data) : b.csr.getLsbD 1 = false := by
  simp only [DataGet.access, hpc] at h
  split at h
  next hfound => exact (DataGet.status_bit b).mp hfound
  next => exact absurd h (next_pc_ne _)

theorem drop_take_append {r v' : Nat} (hr : r ≤ v) (hv : v ≤ v') (hlen : v ≤ ws.length) :
    (ws.take v).drop r ++ (ws.take v').drop v = (ws.take v').drop r := by
  have hr' : r ≤ (ws.take v).length := by rw [List.length_take]; omega
  have htake : ws.take v = (ws.take v').take v := by rw [List.take_take, Nat.min_eq_left hv]
  rw [← List.drop_append_of_le_length hr', htake, List.take_append_drop]

theorem Refines.step_status (h : Refines t a c ws os v) (hpc : t.2.pc = .status) (u : Turn) :
    Follows t a ws os v u := by
  have hle := h.serves.le_seen
  have hsound := h.serves.sound
  have hshown := h.serves.shown
  -- the words on offer are those that the status register knows of
  obtain ⟨v', hv, hseen, hv'⟩ : ∃ v', v ≤ v' ∧ v' ≤ c.rd.seen ∧
      (t.1.rd.status.empty = false ↔ c.rd.read < v') := by
    cases hs : t.1.rd.status.empty with
    | false => exact ⟨c.rd.seen, hle, le_refl _, by simpa [hs] using hsound⟩
    | true => exact ⟨v, le_refl _, hle, by simpa [hs] using hshown⟩
  have hne : t.2.pc ≠ .data := by simp [hpc]
  obtain ⟨c', h', hr, ho⟩ := h.serves.turn_quiet hne hseen (u := u)
  have hlen := seen_le_length h.serves.tracks h.serves.holds
  have hread := h.read_le
  let b := bus (fifoPls.step t.1 (command t.2.pc u.command))
  have hbit : b.csr.getLsbD 1 = t.1.rd.status.empty := by
    simp only [b, hpc]
    exact status_read t.1 u.command
  have harrive : DataGet.arrive { b with arrivals := (ws.take v').drop v } a =
      { t.2 with fifo := (ws.take v').drop c.rd.read } := by
    rw [h.loop, DataGet.arrive, drop_take_append hread hv (hle.trans hlen)]
  refine ⟨{ b with arrivals := (ws.take v').drop v }, c', v', fun _ => ?_, ?_, hv, hseen.trans hlen,
    rfl⟩
  · rw [harrive, List.drop_eq_nil_iff, List.length_take, hbit,
      Nat.min_eq_left (hseen.trans hlen), ← Nat.not_lt, ← hv', Bool.not_eq_false]
  · exact {
      serves := h'
      read_le := by omega
      loop := by
        rw [hr, List.take_append_of_le_length (hseen.trans hlen)]
        exact (congrArg (DataGet.access _) harrive).trans (access_status hpc _ _ _)
      own := (access_status_fifo hpc _).trans h.own
      ready hdata := by
        rw [hr, ← hv', ← hbit]
        exact found_of_access hpc hdata
      put := by
        rw [ho, List.append_nil, hr, h.put, List.take_append_of_le_length (by omega)] }

theorem Refines.step_data (h : Refines t a c ws os v) (hpc : t.2.pc = .data) (u : Turn) :
    Follows t a ws os v u := by
  have hready := h.ready hpc
  have hlen := h.serves.le_seen.trans (seen_le_length h.serves.tracks h.serves.holds)
  obtain ⟨c', w, h', hr, hw, hq, ho⟩ := h.serves.turn_pop hpc hready (u := u)
  obtain ⟨hlt, hget⟩ := List.getElem?_eq_some_iff.mp hw
  have hdrop : (ws.take v).drop c.rd.read = w :: (ws.take v).drop (c.rd.read + 1) := by
    have hlt' : c.rd.read < (ws.take v).length := by rw [List.length_take]; omega
    rw [List.drop_eq_getElem_cons hlt', List.getElem_take, hget]
  have hapc : a.pc = .data := by rw [h.loop, hpc]
  have hload (b : DataGet.Bus Word) (x : DataGet.State Word) (hx : x.pc = .data) :
      DataGet.access b x = DataGet.next { x with
        data := Function.update x.data x.i (x.fifo.headD b.stale)
        fifo := x.fifo.tail } := by simp only [DataGet.access, hx]
  refine ⟨⟨[], 0#32, w⟩, c', v, fun hs => by simp [hapc] at hs, ?_, le_refl v, hlen,
    by simp⟩
  exact {
    serves := h'
    read_le := by omega
    loop := by
      rw [hr, List.take_append_of_le_length hlen]
      have harrive : DataGet.arrive ⟨[], 0#32, w⟩ a = a := by simp [DataGet.arrive]
      refine (congrArg (DataGet.access _) harrive).trans ?_
      have hpoll : (poll.step t u).2 =
          DataGet.access (bus (fifoPls.step t.1 (command t.2.pc u.command))) t.2 := rfl
      rw [hpoll, hload _ _ hapc, hload _ _ hpc, h.loop, hdrop, h.own, List.headD_nil, hq]
      rfl
    own := by
      change (DataGet.access _ t.2).fifo = []
      rw [hload _ _ hpc, h.own]
      rfl
    ready hdata := by
      refine absurd hdata ?_
      change (DataGet.access _ t.2).pc ≠ .data
      rw [hload _ _ hpc]
      exact next_pc_ne _
    put := by
      rw [ho, hr, h.put, List.take_append_of_le_length hlt, List.take_succ_eq_append_getElem hlt,
        hget] }

theorem Refines.step_done (h : Refines t a c ws os v) (hpc : t.2.pc = .done) (u : Turn) :
    Follows t a ws os v u := by
  have hne : t.2.pc ≠ .data := by simp [hpc]
  have hlen := seen_le_length h.serves.tracks h.serves.holds
  have hle := h.serves.le_seen
  have hread := h.read_le
  have hapc : a.pc = .done := by rw [h.loop, hpc]
  obtain ⟨c', h', hr, ho⟩ := h.serves.turn_quiet hne hle (u := u)
  refine ⟨⟨[], 0#32, 0#64⟩, c', v, fun hs => by simp [hapc] at hs, ?_, le_refl v,
    hle.trans hlen, by simp⟩
  have hown : (poll.step t u).2 = t.2 := DataGet.access_done hpc
  exact {
    serves := h'
    read_le := by omega
    loop := by
      rw [hr, List.take_append_of_le_length (hle.trans hlen), hown, ← h.loop]
      have harrive : DataGet.arrive ⟨[], 0#32, 0#64⟩ a = a := by simp [DataGet.arrive]
      exact (congrArg (DataGet.access _) harrive).trans (DataGet.access_done hapc)
    own := hown ▸ h.own
    ready hdata := by
      rw [hown, hpc] at hdata
      cases hdata
    put := by
      rw [ho, List.append_nil, hr, h.put, List.take_append_of_le_length (by omega)] }

theorem Refines.step (h : Refines t a c ws os v) (u : Turn) : Follows t a ws os v u := by
  cases hpc : t.2.pc with
  | status => exact h.step_status hpc u
  | data => exact h.step_data hpc u
  | done => exact h.step_done hpc u

theorem Refines.run (h : Refines t a c ws os v) (us : List Turn) :
    ∃ bs c' v', bs.length = us.length ∧ DataGet.dataGet.Along DataGet.Tells a bs ∧
      Refines (poll.run t us) (DataGet.dataGet.run a bs) c'
        (ws ++ accepted.outputs t.1 (clocks t us)) (os ++ fifoPls.outputs t.1 (clocks t us)) v' ∧
      v ≤ v' ∧
      bs.flatMap (·.arrivals) = ((ws ++ accepted.outputs t.1 (clocks t us)).take v').drop v := by
  induction us generalizing t a c ws os v with
  | nil => exact ⟨[], c, v, rfl, trivial, by simpa [clocks] using h, le_refl v, by simp⟩
  | cons u us ih =>
    obtain ⟨b, c₁, v₁, hb, h₁, hv₁, hlen₁, ha₁⟩ := h.step u
    obtain ⟨bs, c₂, v₂, hlen, hbs, h₂, hv₂, ha₂⟩ := ih h₁
    have hws : accepted.outputs t.1 (clocks t (u :: us)) =
        accepted.outputs t.1 (u.clocks t.2.pc) ++
          accepted.outputs (poll.step t u).1 (clocks (poll.step t u) us) := accepted_append _ _ _
    rw [List.append_assoc, ← hws] at h₂ ha₂
    refine ⟨b :: bs, c₂, v₂, by simp [hlen], ⟨hb, hbs⟩, ?_, hv₁.trans hv₂, ?_⟩
    · have hos : fifoPls.outputs t.1 (clocks t (u :: us)) =
          fifoPls.outputs t.1 (u.clocks t.2.pc) ++
            fifoPls.outputs (poll.step t u).1 (clocks (poll.step t u) us) :=
        fifoPls.outputs_append _ _ _
      rwa [List.append_assoc, ← hos] at h₂
    · rw [List.flatMap_cons, ha₁, ha₂, ← List.take_append_of_le_length hlen₁]
      exact drop_take_append hv₁ hv₂ (by rw [List.length_append]; omega)

end Refines

section Start

theorem refines_start {s : State} {c : Counts} {ws os : List Word} {v : Nat}
    (h : Serves s c ws v) (hv : c.rd.read ≤ v) (ho : os = ws.take c.rd.read) (data : Int → Word) :
    Refines (s, DataGet.start data []) (DataGet.start data ((ws.take v).drop c.rd.read)) c ws os
      v :=
  ⟨h, hv, rfl, rfl, fun hpc => by simp [DataGet.start] at hpc, ho⟩

theorem serves_after (s : State) (before : List Clock) {p : Clock} (hp : p.rdreq = false) :
    ∃ c, Stands s (before ++ [p]) c ∧
      Serves (fifoPls.run s.reset (before ++ [p])) c (accepted.outputs s.reset (before ++ [p]))
        c.rd.read := by
  obtain ⟨c, h⟩ := exists_stands s before
  obtain ⟨hs, hr, -⟩ := quiet h.tracks h.holds h.tracks.sound.read hp
  refine ⟨_, h.step p, ?_⟩
  rw [hr, Mealy.run_append, accepted_concat]
  exact hs

theorem Stands.seen {s : State} {cs : List Clock} {c : Counts} (h : Stands s cs c)
    (p q r : Clock) : ∃ c', Stands s (cs ++ [p] ++ [q] ++ [r]) c' ∧ c'.rd.seen = c.wr.written := by
  have hclock (x : Clock) : x.edge.Together := ⟨rfl, rfl⟩
  have h₁ := h.step p
  have h₂ := h₁.step q
  refine ⟨_, h₂.step r, ?_⟩
  rw [follow_together h₂.tracks (synced s _) (hclock r),
    follow_together h₁.tracks (synced s _) (hclock q),
    follow_together h.tracks (synced s _) (hclock p)]
  rfl

theorem seen_unique {s : State} {c c' : Counts} (h : Tracks s.fifo c) (h' : Tracks s.fifo c')
    (hr : c.rd.read = c'.rd.read) : c.rd.seen = c'.rd.seen := by
  have hptr : ptr c.rd.seen = ptr c'.rd.seen :=
    congrArg Dffpipe.q (h.rd.rsDgwp.symm.trans h'.rd.rsDgwp)
  have hread := h.sound.read
  have hread' := h'.sound.read
  have hseen := h.sound.seen_le
  have hseen' := h'.sound.seen_le
  rw [ptr_eq_iff] at hptr
  rw [depth] at hseen hseen'
  omega

theorem Serves.settled {s : State} {before : List Clock} {p q r o : Clock} {c : Counts}
    {ws : List Word} {v : Nat} (ho : o.rdreq = false)
    (h : Serves (fifoPls.run s.reset (before ++ [p] ++ [q] ++ [r] ++ [o])) c ws v)
    (hr : c.rd.read = (fifoPls.outputs s.reset (before ++ [p] ++ [q] ++ [r] ++ [o])).length) :
    Serves (fifoPls.run s.reset (before ++ [p] ++ [q] ++ [r] ++ [o])) c ws
      (accepted.outputs s.reset before).length := by
  obtain ⟨c₀, h₀⟩ := exists_stands s before
  obtain ⟨c₃, h₃, hseen⟩ := h₀.seen p q r
  rw [← h₀.holds.length] at hseen
  obtain ⟨h₄, -⟩ := quiet h₃.tracks h₃.holds hseen.ge ho
  have hread := hr.trans (h₃.step o).read.symm
  have hrun : fifoPls.run s.reset (before ++ [p] ++ [q] ++ [r] ++ [o]) = _ :=
    fifoPls.run_append _ _ _
  rw [hrun] at h ⊢
  exact {
    tracks := h.tracks
    holds := h.holds
    le_seen := h₄.le_seen.trans_eq (seen_unique h₄.tracks h.tracks hread.symm)
    sound := h.sound
    shown hlt := h₄.shown (hread ▸ hlt) }

theorem Refines.loop_eq {t : State × DataGet.State Word} {a : DataGet.State Word} {c : Counts}
    {ws os : List Word} {v : Nat} (h : Refines t a c ws os v) : t.2 = { a with fifo := [] } := by
  rw [h.loop, ← h.own]

theorem Refines.taken {t : State × DataGet.State Word} {a : DataGet.State Word} {c : Counts}
    {ws os : List Word} {v r k : Nat} {accesses : List (DataGet.Access Word)}
    (h : Refines t a c ws os v) (hd : DataGet.Drained ((ws.take v).drop r) accesses a k)
    (hr : r ≤ v) : c.rd.read = r + k ∧ t.2.i = k ∧ ∀ j < k, ws[r + j]? = some (t.2.data j) := by
  have hlen := h.serves.le_seen.trans (seen_le_length h.serves.tracks h.serves.holds)
  have hread := h.read_le
  have hloop := h.loop
  have hk := hd.le
  have hfifo := congrArg List.length hd.fifo
  rw [hloop, List.drop_drop, List.length_drop, List.length_drop, List.length_take,
    Nat.min_eq_left hlen] at hfifo
  rw [List.length_drop, List.length_take, Nat.min_eq_left hlen] at hk
  refine ⟨by omega, ?_, fun j hj => ?_⟩
  · have := hd.index
    rwa [hloop] at this
  · have hj' := hd.data j hj
    rw [List.getElem?_drop, List.getElem?_take_of_lt (by omega), hloop] at hj'
    exact hj'

variable {seq : List Word} {accesses : List (DataGet.Access Word)} {a : DataGet.State Word}
  {k : Nat}

theorem drained_run (h : DataGet.Drained seq accesses a k) {bs : List (DataGet.Bus Word)}
    (hbs : DataGet.dataGet.Along DataGet.Tells a bs) :
    ∃ accesses' k', DataGet.Drained (seq ++ bs.flatMap (·.arrivals)) accesses'
      (DataGet.dataGet.run a bs) k' := by
  induction bs generalizing seq accesses a k with
  | nil => exact ⟨accesses, k, by simpa using h⟩
  | cons b bs ih =>
    obtain ⟨k₁, h₁⟩ := h.step hbs.1
    obtain ⟨accesses', k', h'⟩ := ih h₁ hbs.2
    exact ⟨accesses', k', by simpa using h'⟩

theorem turn_step (h : DataGet.Drained seq accesses a k) {b : DataGet.Bus Word}
    (hb : DataGet.Tells a b) (hseq : Readout.max ≤ seq.length) (hpc : a.pc ≠ .done) :
    DataGet.turn (DataGet.dataGet.step a b) = DataGet.turn a + 1 := by
  have hrun := h.running hpc
  cases hpc' : a.pc with
  | status =>
    have hf : (DataGet.arrive b a).fifo ≠ [] := by
      have hdrop : seq.drop k ≠ [] := by
        rw [Ne, List.drop_eq_nil_iff]
        omega
      simp [DataGet.arrive, h.fifo, hdrop]
    have hbit : b.csr.getLsbD 1 = false := by
      rw [← Bool.not_eq_true, hb hpc']
      exact hf
    exact DataGet.turn_access (s := DataGet.arrive b a) hpc hbit
  | data =>
    have hcsr : DataGet.access b (DataGet.arrive b a) =
        DataGet.access { b with csr := 0#32 } (DataGet.arrive b a) := by
      simp [DataGet.access, DataGet.arrive, hpc']
    exact (congrArg _ hcsr).trans (DataGet.turn_access (s := DataGet.arrive b a) hpc (by simp))
  | done => exact absurd hpc' hpc

theorem done_run (bs : List (DataGet.Bus Word)) (hpc : a.pc = .done) :
    (DataGet.dataGet.run a bs).pc = .done := by
  induction bs generalizing a with
  | nil => exact hpc
  | cons b bs ih =>
    apply ih
    have hstep : DataGet.dataGet.step a b = DataGet.arrive b a := DataGet.access_done hpc
    rw [hstep]
    exact hpc

theorem turn_run (h : DataGet.Drained seq accesses a k) (hseq : Readout.max ≤ seq.length)
    {bs : List (DataGet.Bus Word)} (hbs : DataGet.dataGet.Along DataGet.Tells a bs)
    (hpc : (DataGet.dataGet.run a bs).pc ≠ .done) :
    DataGet.turn (DataGet.dataGet.run a bs) = DataGet.turn a + bs.length := by
  induction bs generalizing seq accesses a k with
  | nil => simp
  | cons b bs ih =>
    obtain ⟨k₁, h₁⟩ := h.step hbs.1
    have hpc₁ : a.pc ≠ .done := fun hd => hpc (done_run (b :: bs) hd)
    rw [Mealy.run_cons, ih h₁ (by rw [List.length_append]; omega) hbs.2 hpc,
      turn_step h hbs.1 hseq hpc₁, List.length_cons]
    push_cast
    omega

theorem done_of_enough (h : DataGet.Drained seq accesses a k) (hseq : Readout.max ≤ seq.length)
    {bs : List (DataGet.Bus Word)} (hbs : DataGet.dataGet.Along DataGet.Tells a bs)
    (hlen : 2 * Readout.max ≤ bs.length) : (DataGet.dataGet.run a bs).pc = .done := by
  by_contra hpc
  have hturn := turn_run h hseq hbs hpc
  obtain ⟨accesses', k', h'⟩ := drained_run h hbs
  have hrun := h'.running hpc
  rw [DataGet.turn, DataGet.turn, h.index, h'.index] at hturn
  split at hturn <;> split at hturn <;> omega

theorem Refines.offer {t : State × DataGet.State Word} {c : Counts} {ws os : List Word} {v v' : Nat}
    (h : Refines t a c ws os v) (hs : Serves t.1 c ws v') (hv : v ≤ v') :
    Refines t (DataGet.arrive ⟨(ws.take v').drop v, 0#32, 0#64⟩ a) c ws os v' where
  serves := hs
  read_le := h.read_le.trans hv
  loop := by
    have hlen := h.serves.le_seen.trans (seen_le_length h.serves.tracks h.serves.holds)
    rw [h.loop, DataGet.arrive, drop_take_append h.read_le hv hlen]
  own := h.own
  ready hpc := (h.ready hpc).trans_le hv
  put := h.put

theorem Serves.max {s : State} {c : Counts} {ws : List Word} {v v' : Nat} (h : Serves s c ws v)
    (h' : Serves s c ws v') : Serves s c ws (max v v') := by
  rcases Nat.le_total v v' with hv | hv
  · rwa [Nat.max_eq_right hv]
  · rwa [Nat.max_eq_left hv]

theorem last_three {α : Type} {l : List α} (h : 3 ≤ l.length) :
    ∃ x p q r, l = x ++ [p] ++ [q] ++ [r] := by
  have hconcat (l : List α) (h : 1 ≤ l.length) : ∃ x p, l = x ++ [p] :=
    (List.eq_nil_or_concat' l).resolve_left (List.length_pos_iff.mp h)
  obtain ⟨l, r, rfl⟩ := hconcat l (by omega)
  rw [List.length_append, List.length_singleton] at h
  obtain ⟨l, q, rfl⟩ := hconcat l (by omega)
  rw [List.length_append, List.length_singleton] at h
  obtain ⟨x, p, rfl⟩ := hconcat l (by omega)
  exact ⟨x, p, q, r, rfl⟩

theorem clocks_concat (pc : DataGet.Pc) (u : Turn) :
    ∃ x o, u.clocks pc = x ++ [o] ∧ 1 ≤ x.length ∧ o.rdreq = false := by
  rcases List.eq_nil_or_concat' (u.stalls.map Ports.clock) with hnil | ⟨y, o, hy⟩
  · refine ⟨[command pc u.command], response pc u.response, ?_, le_refl 1, by cases pc <;> rfl⟩
    rw [Turn.clocks, hnil]
    rfl
  · refine ⟨command pc u.command :: response pc u.response :: y, o, ?_, by simp, ?_⟩
    · rw [Turn.clocks, hy]
      rfl
    · have ho : o ∈ u.stalls.map Ports.clock := by simp [hy]
      obtain ⟨p, -, rfl⟩ := List.mem_map.mp ho
      rfl

theorem clocks_two (t : State × DataGet.State Word) (u u' : Turn) :
    ∃ x p q r o, clocks t [u, u'] = x ++ [p] ++ [q] ++ [r] ++ [o] ∧ o.rdreq = false := by
  obtain ⟨y, o, hy, hlen, ho⟩ := clocks_concat (poll.step t u).2.pc u'
  have hthree : 3 ≤ (u.clocks t.2.pc ++ y).length := by
    simp only [List.length_append, Turn.clocks, List.length_cons]
    omega
  obtain ⟨x, p, q, r, hx⟩ := last_three hthree
  refine ⟨x, p, q, r, o, ?_, ho⟩
  rw [← hx]
  simp [clocks, hy]

theorem Refines.length_put {t : State × DataGet.State Word} {c : Counts} {ws os : List Word}
    {v : Nat} (h : Refines t a c ws os v) : c.rd.read = os.length := by
  rw [h.put, List.length_take, Nat.min_eq_left (h.serves.holds.read_le h.serves.tracks)]

theorem clocks_append (t : State × DataGet.State Word) (us us' : List Turn) :
    clocks t (us ++ us') = clocks t us ++ clocks (poll.run t us) us' := by
  induction us generalizing t with
  | nil => rfl
  | cons u us ih => simp [clocks, ih]

theorem poll_run_fst (t : State × DataGet.State Word) (us : List Turn) :
    (poll.run t us).1 = fifoPls.run t.1 (clocks t us) := by
  induction us generalizing t with
  | nil => rfl
  | cons u us ih =>
    rw [Mealy.run_cons, ih, clocks, Mealy.run_append]
    rfl

theorem Refines.settled {s : State} {cs : List Clock} {t : State × DataGet.State Word}
    {c : Counts} {ws : List Word} {v : Nat} {u u' : Turn} (ht : t.1 = fifoPls.run s.reset cs)
    (h : Refines (poll.run t [u, u']) a c ws
      (fifoPls.outputs s.reset (cs ++ clocks t [u, u'])) v) :
    Serves (poll.run t [u, u']).1 c ws (accepted.outputs s.reset cs).length := by
  have hserves := h.serves
  have hread := h.length_put
  obtain ⟨x, p, q, r, o, hx, ho⟩ := clocks_two t u u'
  have hrun : (poll.run t [u, u']).1 =
      fifoPls.run s.reset (cs ++ x ++ [p] ++ [q] ++ [r] ++ [o]) := by
    rw [poll_run_fst, ht, hx, ← Mealy.run_append]
    simp only [List.append_assoc]
  have hcs : cs ++ clocks t [u, u'] = cs ++ x ++ [p] ++ [q] ++ [r] ++ [o] := by
    rw [hx]
    simp only [List.append_assoc]
  rw [hcs] at hread
  rw [hrun] at hserves ⊢
  refine (hserves.settled ho hread).of_le ?_
  rw [accepted_append, List.length_append]
  exact Nat.le_add_right _ _

end Start

section Laws

variable (s : State) (before : List Clock)

theorem poll_refines {p : Clock} (hp : p.rdreq = false) (data : Int → Word) (us : List Turn) :
    let s₀ := fifoPls.run s.reset (before ++ [p])
    let t := poll.run (s₀, DataGet.start data []) us
    ∃ bs, bs.length = us.length ∧
      DataGet.dataGet.Along DataGet.Tells (DataGet.start data []) bs ∧
      t.2 = { DataGet.dataGet.run (DataGet.start data []) bs with fifo := [] } ∧
      fifoPls.outputs s.reset (before ++ [p]) ++ bs.flatMap (·.arrivals) <+:
        accepted.outputs s.reset (before ++ [p] ++ clocks (s₀, DataGet.start data []) us) := by
  intro s₀ t
  obtain ⟨c, hc, h⟩ := serves_after s before hp
  have ho := hc.put
  have hstart := refines_start h (le_refl _) ho data
  rw [List.drop_take_self] at hstart
  obtain ⟨bs, c', v', hlen, hbs, h', hv, ha⟩ := hstart.run us
  rw [← accepted_append] at h' ha
  refine ⟨bs, hlen, hbs, ?_, ?_⟩
  · exact h'.loop_eq
  · have hread : c.rd.read ≤ (accepted.outputs s.reset (before ++ [p])).length :=
      h.le_seen.trans (seen_le_length h.tracks h.holds)
    rw [ho, ha, ← List.take_append_of_le_length hread, ← accepted_append,
      show c.rd.read = min c.rd.read v' by omega, ← List.take_take, Nat.min_eq_left hv,
      List.take_append_drop]
    exact List.take_prefix _ _

def Ports.nop : Ports := ⟨false, 0#64, .none, .none, 0#64⟩

def Turn.nop : Turn := ⟨.nop, .nop, []⟩

def twoWords : List Clock :=
  [.nop, .nop, .nop, { Clock.nop with wrreq := true, data := 5#64 },
    { Clock.nop with wrreq := true, data := 7#64 }, .nop, .nop]

theorem poll_refines_two_words :
    ∃ bs : List (DataGet.Bus Word), bs.length = 5 ∧
      DataGet.dataGet.Along DataGet.Tells (DataGet.start (fun _ => 0#64) []) bs ∧
      (DataGet.dataGet.run (DataGet.start (fun _ => 0#64) []) bs).i = 2 := by
  obtain ⟨bs, hlen, hbs, hrun, -⟩ := poll_refines .blank twoWords (p := .nop) rfl
    (fun _ => 0#64) (List.replicate 5 .nop)
  have hi : (poll.run (fifoPls.run State.blank.reset (twoWords ++ [.nop]),
      DataGet.start (fun _ => 0#64) []) (List.replicate 5 .nop)).2.i = 2 := by decide +kernel
  rw [hrun] at hi
  exact ⟨bs, hlen, hbs, hi⟩

theorem stored {p : Clock} (hp : p.rdreq = false) (data : Int → Word) (us : List Turn) :
    let s₀ := fifoPls.run s.reset (before ++ [p])
    let d := (poll.run (s₀, DataGet.start data []) us).2
    ∃ k : Nat, d.i = k ∧ (d.pc = .done ↔ k = Readout.max) ∧
      fifoPls.outputs s₀ (clocks (s₀, DataGet.start data []) us) =
        (List.range k).map fun j : Nat => d.data j := by
  intro s₀ d
  obtain ⟨c, hc, h⟩ := serves_after s before hp
  have hstart := refines_start h (le_refl _) hc.put data
  rw [List.drop_take_self] at hstart
  obtain ⟨bs, c', v', hlen, hbs, h', hv, ha⟩ := hstart.run us
  obtain ⟨accesses, k, hd⟩ := drained_run (DataGet.drained_start data []) hbs
  rw [List.nil_append, ha] at hd
  obtain ⟨hread', hi, hdata⟩ := h'.taken hd hv
  have hput := h'.put
  rw [← accepted_append] at hput hdata
  have hpc : d.pc = (DataGet.dataGet.run (DataGet.start data []) bs).pc := by rw [h'.loop]
  refine ⟨k, hi, ⟨fun hdone => hd.full (hpc ▸ hdone), fun hk => ?_⟩, ?_⟩
  · by_contra hne
    have := hd.running (hpc ▸ hne)
    omega
  · have hlength : c'.rd.read = (fifoPls.outputs s.reset (before ++ [p])).length +
        (fifoPls.outputs s₀ (clocks (s₀, DataGet.start data []) us)).length :=
      h'.length_put.trans List.length_append
    rw [hread', ← hc.read] at hlength
    refine List.ext_getElem? fun j => ?_
    rcases Nat.lt_or_ge j k with hj | hj
    · have hj' := hdata j hj
      rw [← List.getElem?_take_of_lt (Nat.add_lt_add_left hj _), ← hread', ← hput, hc.read,
        List.getElem?_append_right (Nat.le_add_right _ j), Nat.add_sub_cancel_left] at hj'
      rw [List.getElem?_map, List.getElem?_range hj]
      exact hj'
    · rw [List.getElem?_eq_none (by omega), List.getElem?_eq_none (by simpa using hj)]

theorem poll_takes_next_words {p : Clock} (hp : p.rdreq = false) (data : Int → Word)
    (us : List Turn) :
    let s₀ := fifoPls.run s.reset (before ++ [p])
    let all := before ++ [p] ++ clocks (s₀, DataGet.start data []) us
    let d := (poll.run (s₀, DataGet.start data []) us).2
    ∃ k : Nat, d.i = k ∧ (d.pc = .done ↔ k = Readout.max) ∧
      fifoPls.outputs s.reset all =
        fifoPls.outputs s.reset (before ++ [p]) ++ (List.range k).map (fun j : Nat => d.data j) ∧
      fifoPls.outputs s.reset all <+: accepted.outputs s.reset all := by
  intro s₀ all d
  obtain ⟨k, hi, hdone, hout⟩ := stored s before hp data us
  obtain ⟨n, hn⟩ := exists_stands s all
  refine ⟨k, hi, hdone, ?_, hn.put ▸ List.take_prefix _ _⟩
  rw [Mealy.outputs_append, hout]

theorem poll_takes_next_words_two_words :
    ∃ d : DataGet.State Word, fifoPls.outputs State.blank.reset (twoWords ++ [.nop] ++
        clocks (fifoPls.run State.blank.reset (twoWords ++ [.nop]),
          DataGet.start (fun _ => 0#64) []) (List.replicate 5 .nop)) = [d.data 0, d.data 1] ∧
      d.data 0 = 5#64 ∧ d.data 1 = 7#64 := by
  obtain ⟨k, hk, -, hout, -⟩ := poll_takes_next_words .blank twoWords (p := .nop) rfl
    (fun _ => 0#64) (List.replicate 5 .nop)
  have hi : (poll.run (fifoPls.run State.blank.reset (twoWords ++ [.nop]),
      DataGet.start (fun _ => 0#64) []) (List.replicate 5 .nop)).2.i = 2 := by decide +kernel
  obtain rfl : k = 2 := by exact_mod_cast hk.symm.trans hi
  exact ⟨_, hout, by decide +kernel, by decide +kernel⟩

variable {s} in
theorem done_after {cs : List Clock} {c : Counts} (hc : Stands s cs c)
    (h : Serves (fifoPls.run s.reset cs) c (accepted.outputs s.reset cs) c.rd.read)
    (data : Int → Word) {us us' : List Turn}
    (hmany : c.rd.read + Readout.max ≤ (accepted.outputs s.reset
      (cs ++ clocks (fifoPls.run s.reset cs, DataGet.start data []) us)).length)
    (hus : 2 * Readout.max + 2 ≤ us'.length) :
    (poll.run (fifoPls.run s.reset cs, DataGet.start data []) (us ++ us')).2.pc = .done := by
  have hstart := refines_start h (le_refl _) hc.put data
  rw [List.drop_take_self] at hstart
  obtain ⟨u, u', us', rfl⟩ : ∃ u u' us'', us' = u :: u' :: us'' := by
    match us', hus with
    | u :: u' :: us'', _ => exact ⟨u, u', us'', rfl⟩
  obtain ⟨bs, c', v, -, hbs, h', hv, ha⟩ := hstart.run (us ++ [u, u'])
  obtain ⟨accesses, k, hd⟩ := drained_run (DataGet.drained_start data []) hbs
  rw [← accepted_append] at h' ha
  rw [List.nil_append, ha] at hd
  rw [← fifoPls.outputs_append, clocks_append, ← List.append_assoc, Mealy.run_append] at h'
  rw [clocks_append, ← List.append_assoc] at hd
  have ht := poll_run_fst (fifoPls.run s.reset cs, DataGet.start data []) us
  rw [← Mealy.run_append] at ht
  have hmax := h'.serves.max (h'.settled ht)
  have hoffer := h'.offer hmax (Nat.le_max_left _ _)
  obtain ⟨bs', c'', v'', hlen', hbs', h'', -⟩ := hoffer.run us'
  have hrun : poll.run (fifoPls.run s.reset cs, DataGet.start data [])
      (us ++ u :: u' :: us') = _ := poll.run_append _ us ([u, u'] ++ us')
  rw [hrun, Mealy.run_append, h''.loop_eq]
  refine done_of_enough (hd.arrived _) ?_ hbs' ?_
  · have hseen := seen_le_length h'.serves.tracks h'.serves.holds
    have hle := h'.serves.le_seen.trans hseen
    have hle' := hmax.le_seen.trans hseen
    rw [drop_take_append hv (Nat.le_max_left _ _) hle, List.length_drop, List.length_take,
      Nat.min_eq_left hle']
    have := Nat.le_max_right v (accepted.outputs s.reset
      (cs ++ clocks (fifoPls.run s.reset cs, DataGet.start data []) us)).length
    omega
  · rw [List.length_cons, List.length_cons] at hus
    omega

theorem poll_done {p : Clock} (hp : p.rdreq = false) (data : Int → Word) (us us' : List Turn)
    (hmany : (fifoPls.outputs s.reset (before ++ [p])).length + Readout.max ≤
      (accepted.outputs s.reset (before ++ [p] ++
        clocks (fifoPls.run s.reset (before ++ [p]), DataGet.start data []) us)).length)
    (hus : 2 * Readout.max + 2 ≤ us'.length) :
    (poll.run (fifoPls.run s.reset (before ++ [p]), DataGet.start data []) (us ++ us')).2.pc =
      .done := by
  obtain ⟨c, hc, h⟩ := serves_after s before hp
  exact done_after hc h data (hc.read ▸ hmany) hus

theorem poll_done_filled :
    (poll.run (fifoPls.run State.blank.reset (filled ++ [.nop]), DataGet.start (fun _ => 0#64) [])
      ([] ++ List.replicate (2 * Readout.max + 2) Turn.nop)).2.pc = .done := by
  refine poll_done State.blank filled rfl (fun _ => 0#64) [] _ ?_ (by simp)
  have hquiet : ∀ c ∈ filled ++ [Clock.nop], c.rdreq = false :=
    List.forall_mem_append.mpr ⟨filled_quiet, by simp [Clock.nop]⟩
  rw [outputs_quiet hquiet, clocks, List.append_nil, accepted_append, List.length_append,
    accepted_filled]
  decide

end Laws

end PhotonCount.FifoPls
