import PhotonCount.FifoPls.Laws
import PhotonCount.Hps.DataGet

namespace PhotonCount.FifoPls

open Machine PlsCnt Dcfifo Hps

structure Ports where
  wrreq : Bool
  data : Word
  rd : Slave
  wr : Slave
  dontCare : Word

def Ports.clock (p : Ports) : Clock := ⟨p.wrreq, p.data, false, p.rd, p.wr, p.dontCare⟩

/-- `out_csr` at offset 4. -/
def statusRead : Slave := ⟨1#3, true, false, 0#32⟩

/-- The first clock of an access; what is read is there in the second one. -/
def command (pc : DataGet.Pc) (p : Ports) : Clock :=
  match pc with
  | .status => { p.clock with rd := statusRead }
  | .data => { p.clock with rdreq := true }
  | .done => p.clock

/-- The second clock: a read of `out_csr` stays on (`AV_READ_WAIT_CYCLES` is 1, and
`AV_READLATENCY` 0), that of `out` is over (0 and 1). -/
def response (pc : DataGet.Pc) (p : Ports) : Clock :=
  match pc with
  | .status => { p.clock with rd := statusRead }
  | _ => p.clock

structure Turn where
  command : Ports
  response : Ports
  stalls : List Ports

def Turn.clocks (pc : DataGet.Pc) (u : Turn) : List Clock :=
  FifoPls.command pc u.command :: FifoPls.response pc u.response :: u.stalls.map Ports.clock

def bus (s : State) : DataGet.Bus Word := ⟨[], s.rd.readdata, s.fifo.ram.q⟩

def poll : Mealy (State × DataGet.State Word) Turn Word where
  step t u :=
    (fifoPls.run t.1 (u.clocks t.2.pc),
      DataGet.access (bus (fifoPls.step t.1 (command t.2.pc u.command))) t.2)
  out t u := fifoPls.out t.1 (command t.2.pc u.command)

def clocks : State × DataGet.State Word → List Turn → List Clock
  | _, [] => []
  | t, u :: us => u.clocks t.2.pc ++ clocks (poll.step t u) us

section Clock

variable {s : State} {c : Counts} {ws : List Word} {v : Nat} {p : Clock}

/-- The FIFO with `v` words on offer so far, and what the status register says of them. -/
structure Serves (s : State) (c : Counts) (ws : List Word) (v : Nat) : Prop where
  tracks : Tracks s.fifo c
  holds : Holds s.fifo c ws
  le_seen : v ≤ c.rd.seen
  sound : s.rd.status.empty = false → c.rd.read < c.rd.seen
  shown : c.rd.read < v → s.rd.status.empty = false

theorem Serves.of_le (h : Serves s c ws v) {v' : Nat} (hv : v' ≤ v) : Serves s c ws v' where
  tracks := h.tracks
  holds := h.holds
  le_seen := hv.trans h.le_seen
  sound := h.sound
  shown hlt := h.shown (hlt.trans_le hv)

theorem seen_le_length (h : Tracks s.fifo c) (hh : Holds s.fifo c ws) : c.rd.seen ≤ ws.length := by
  rw [hh.length]
  exact h.sound.seen.trans (h.sound.rsFirst.trans h.sound.delayed)

theorem follow_seen (h : Tracks s.fifo c) (e : Edge) : c.rd.seen ≤ (follow s.fifo e c).rd.seen := by
  have hseen := h.sound.seen
  cases he : e.rd with
  | none => simp [follow, he]
  | some rdreq =>
    simp only [follow, he]
    split
    · exact hseen
    · exact le_refl _

theorem not_rdempty_iff (h : Tracks s.fifo c) :
    s.fifo.rd.rdempty = false ↔ c.rd.read < c.rd.seen := by
  have hread := h.sound.read
  rw [← Bool.not_eq_true, rdempty_iff h.rd h.sound]
  omega

theorem quiet (h : Tracks s.fifo c) (hh : Holds s.fifo c ws) (hv : v ≤ c.rd.seen)
    (hp : p.rdreq = false) :
    let c' := follow s.fifo p.edge c
    Serves (fifoPls.step s p) c' (ws ++ (accepted.out s p).toList) v ∧
      c'.rd.read = c.rd.read ∧ fifoPls.out s p = none := by
  have hout : dcfifo.out s.fifo p.edge = none := by
    simp [dcfifo, Clock.edge, hp, Rd.validRdreq]
  have hread : (follow s.fifo p.edge c).rd.read = c.rd.read := by
    rw [follow_read h, hout]
    rfl
  have hseen := follow_seen h p.edge
  have hstatus : (fifoPls.step s p).rd.status.empty = s.fifo.rd.rdempty := rfl
  refine ⟨?_, hread, hout⟩
  exact {
    tracks := h.step p.edge
    holds := hh.step h p.edge
    le_seen := hv.trans hseen
    sound hs := by
      have := (not_rdempty_iff h).mp (hstatus.symm.trans hs)
      omega
    shown hlt := hstatus.trans ((not_rdempty_iff h).mpr (by omega)) }

theorem pop (h : Tracks s.fifo c) (hh : Holds s.fifo c ws) (hp : p.rdreq = true)
    (hlt : c.rd.read < c.rd.seen) :
    ∃ c', Tracks (fifoPls.step s p).fifo c' ∧
      Holds (fifoPls.step s p).fifo c' (ws ++ (accepted.out s p).toList) ∧
      c'.rd.read = c.rd.read + 1 ∧ c.rd.seen ≤ c'.rd.seen ∧
      ws[c.rd.read]? = some (fifoPls.step s p).fifo.ram.q ∧
      fifoPls.out s p = some (fifoPls.step s p).fifo.ram.q := by
  have hq : s.fifo.rd.rdaclr.q = true := by
    by_contra hq
    rw [h.rd.idle (by simpa using hq)] at hlt
    exact Nat.lt_irrefl 0 hlt
  have hvalid := (validRdreq_iff h.rd h.sound).mpr ⟨hp, hlt, hq⟩
  have hout : dcfifo.out s.fifo p.edge = some (fifoPls.step s p).fifo.ram.q := by
    simp [dcfifo, Clock.edge, hvalid, fifoPls]
  refine ⟨follow s.fifo p.edge c, h.step p.edge, hh.step h p.edge, ?_, follow_seen h p.edge,
    out_eq hh h hout, hout⟩
  rw [follow_read h, hout]
  rfl

theorem Serves.stalls (h : Serves s c ws v) (ps : List Ports) :
    ∃ c', Serves (fifoPls.run s (ps.map Ports.clock)) c'
        (ws ++ accepted.outputs s (ps.map Ports.clock)) v ∧
      c'.rd.read = c.rd.read ∧ fifoPls.outputs s (ps.map Ports.clock) = [] := by
  induction ps generalizing s c ws with
  | nil => exact ⟨c, by simpa using h, rfl, rfl⟩
  | cons p ps ih =>
    have hp : p.clock.rdreq = false := rfl
    obtain ⟨h₁, hr₁, ho₁⟩ := quiet h.tracks h.holds h.le_seen hp
    obtain ⟨c₂, h₂, hr₂, ho₂⟩ := ih h₁
    rw [List.append_assoc, ← accepted_cons] at h₂
    exact ⟨c₂, h₂, hr₂.trans hr₁, by simp [ho₁, ho₂]⟩

end Clock

section Turn

variable {s : State} {c : Counts} {ws : List Word} {v : Nat} {pc : DataGet.Pc} {u : Turn}

theorem rest (h : Tracks s.fifo c) (hh : Holds s.fifo c ws) (hv : v ≤ c.rd.seen)
    (pc : DataGet.Pc) (p : Ports) (ps : List Ports) :
    ∃ c', Serves (fifoPls.run s (response pc p :: ps.map Ports.clock)) c'
        (ws ++ accepted.outputs s (response pc p :: ps.map Ports.clock)) v ∧
      c'.rd.read = c.rd.read ∧
      fifoPls.outputs s (response pc p :: ps.map Ports.clock) = [] := by
  have hp : (response pc p).rdreq = false := by cases pc <;> rfl
  obtain ⟨h₁, hr₁, ho₁⟩ := quiet h hh hv hp
  obtain ⟨c₂, h₂, hr₂, ho₂⟩ := h₁.stalls ps
  rw [List.append_assoc, ← accepted_cons] at h₂
  exact ⟨c₂, h₂, hr₂.trans hr₁, by simp [ho₁, ho₂]⟩

theorem Serves.turn_quiet (h : Serves s c ws v) (hpc : pc ≠ .data) {v' : Nat}
    (hv : v' ≤ c.rd.seen) :
    ∃ c', Serves (fifoPls.run s (u.clocks pc)) c' (ws ++ accepted.outputs s (u.clocks pc)) v' ∧
      c'.rd.read = c.rd.read ∧ fifoPls.outputs s (u.clocks pc) = [] := by
  have hp : (command pc u.command).rdreq = false := by
    cases pc with
    | data => exact absurd rfl hpc
    | status => rfl
    | done => rfl
  obtain ⟨h₁, hr₁, ho₁⟩ := quiet h.tracks h.holds hv hp
  obtain ⟨c₂, h₂, hr₂, ho₂⟩ := rest h₁.tracks h₁.holds h₁.le_seen pc u.response u.stalls
  rw [List.append_assoc, ← accepted_cons] at h₂
  refine ⟨c₂, h₂, hr₂.trans hr₁, ?_⟩
  rw [Turn.clocks, Mealy.outputs_cons, ho₁, ho₂]
  rfl

theorem Serves.turn_pop (h : Serves s c ws v) (hpc : pc = .data) (hlt : c.rd.read < v) :
    ∃ c' w, Serves (fifoPls.run s (u.clocks pc)) c' (ws ++ accepted.outputs s (u.clocks pc)) v ∧
      c'.rd.read = c.rd.read + 1 ∧ ws[c.rd.read]? = some w ∧
      (bus (fifoPls.step s (command pc u.command))).stale = w ∧
      fifoPls.outputs s (u.clocks pc) = [w] := by
  subst hpc
  have hp : (command .data u.command).rdreq = true := rfl
  obtain ⟨c₁, ht, hh, hr₁, hs₁, hw, ho₁⟩ := pop h.tracks h.holds hp (hlt.trans_le h.le_seen)
  obtain ⟨c₂, h₂, hr₂, ho₂⟩ := rest ht hh (h.le_seen.trans hs₁) .data u.response u.stalls
  rw [List.append_assoc, ← accepted_cons] at h₂
  refine ⟨c₂, _, h₂, hr₂.trans hr₁, hw, rfl, ?_⟩
  rw [Turn.clocks, Mealy.outputs_cons, ho₁, ho₂]
  rfl

theorem status_read (s : State) (p : Ports) :
    (fifoPls.step s (command .status p)).rd.readdata.getLsbD 1 = s.rd.status.empty := by
  have hempty (f : Flags) : (f.register.setWidth 32).getLsbD 1 = f.empty := by
    obtain ⟨a, b, c, d, e, f⟩ := f
    revert a b c d e f
    decide
  exact hempty s.rd.status

end Turn

end PhotonCount.FifoPls
