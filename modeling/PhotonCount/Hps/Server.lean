import PhotonCount.Hps.DataGet
import PhotonCount.Hps.SendAll

namespace PhotonCount.Hps.Server

open Machine LittleEndian SendAll

inductive Pc
  | accept
  | get
  | send
  | close
  deriving DecidableEq

structure State where
  pc : Pc
  get : DataGet.State (BitVec 64)
  send : SendAll.State

inductive Label
  | accept (connfd : Int)
  | bus (b : DataGet.Bus (BitVec 64))
  | send (i : Int)
  | close

inductive Output
  | connect
  | bytes (bs : List Byte)

def start (data : Int → BitVec 64) (fifo : List (BitVec 64)) : State :=
  ⟨.accept, DataGet.start data fifo, ⟨0, 0#32, none⟩⟩

def data (s : State) : List (BitVec 64) := (List.range Readout.max).map fun j : Nat => s.get.data j

def got (get : DataGet.State (BitVec 64)) (s : State) : State :=
  if get.pc = .done then
    { pc := .send, get := get, send := SendAll.start (8 * Readout.max) }
  else { s with get := get }

def sent (send : SendAll.State) (s : State) : State :=
  { s with send := send, pc := if send.returned = none then .send else .close }

def accept (connfd : Int) (s : State) : State :=
  if 0 < connfd then { s with pc := .get, get := DataGet.start s.get.data s.get.fifo }
  else { s with pc := .close }

/-- An action out of turn does nothing; the records come in at any time. -/
def server : Mealy State Label Output where
  step
    | s, .accept connfd => if s.pc = .accept then accept connfd s else s
    | s, .bus b =>
      if s.pc = .get then got (DataGet.dataGet.step s.get b) s
      else { s with get := DataGet.arrive b s.get }
    | s, .send i =>
      if s.pc = .send then sent ((sendAll (memory (data s))).step s.send i) s else s
    | s, .close => if s.pc = .close then { s with pc := .accept } else s
  out
    | s, .accept connfd => if s.pc = .accept ∧ 0 < connfd then some .connect else none
    | _, .bus _ => none
    | s, .send i =>
      if s.pc = .send then ((sendAll (memory (data s))).out s.send i).map .bytes else none
    | _, .close => none

def arrivals (ls : List Label) : List (BitVec 64) :=
  ls.flatMap fun
    | .bus b => b.arrivals
    | _ => []

def Meets (s : State) : Label → Prop
  | .bus b => s.pc = .get → DataGet.Tells s.get b
  | .send i => s.pc = .send → Takes s.send i
  | _ => True

/-- No client is accepted after one to whom `send_all` has returned false. -/
def Kept (s : State) : Label → Prop
  | .accept connfd => s.pc = .accept → 0 < connfd → s.send.returned ≠ some false
  | _ => True

/-- The complete records that the clients before have got, and the bytes of the last one. -/
structure Clients where
  before : List (BitVec 64)
  bytes : List Byte

def Clients.see (c : Clients) : Output → Clients
  | .connect => ⟨c.before ++ complete c.bytes, []⟩
  | .bytes bs => { c with bytes := c.bytes ++ bs }

def clients (os : List Output) : Clients := os.foldl Clients.see ⟨[], []⟩

def Clients.delivered (c : Clients) : List (BitVec 64) := c.before ++ complete c.bytes

section Step

variable {seq : List (BitVec 64)} {c : Clients} {s : State} {l : Label}

def taken (s : State) : List (BitVec 64) := (DataGet.view s.get).data

theorem data_eq_taken (h : s.get.i = Readout.max) : data s = taken s := by
  simp only [data, taken, DataGet.view, h, Int.toNat_natCast]

/-- The records that have come in are those taken for the clients `before`, those taken for
the last one, and those in the FIFO. -/
structure Inv (seq before : List (BitVec 64)) (bytes : List Byte) (s : State) : Prop where
  conserved : seq = before ++ (taken s ++ s.get.fifo)
  getting : s.pc = .get → bytes = [] ∧ s.get.pc ≠ .done ∧
    ∃ accesses k, DataGet.Drained (taken s ++ s.get.fifo) accesses s.get k
  sending : s.pc = .send → s.get.i = Readout.max ∧ s.send.returned = none ∧
    Handed (memory (taken s)) bytes s.send
  handed : bytes <+: memory (taken s)
  complete : s.pc ≠ .get → s.pc ≠ .send → s.send.returned ≠ some false → bytes = memory (taken s)

theorem inv_start (data : Int → BitVec 64) (fifo : List (BitVec 64)) :
    Inv fifo [] [] (start data fifo) where
  conserved := rfl
  getting := by simp [start]
  sending := by simp [start]
  handed := List.nil_prefix
  complete _ _ _ := rfl

variable {before : List (BitVec 64)} {bytes : List Byte} {b : DataGet.Bus (BitVec 64)}

theorem Inv.arrive (h : Inv seq before bytes s) (hpc : s.pc ≠ .get) :
    Inv (seq ++ b.arrivals) before bytes { s with get := DataGet.arrive b s.get } where
  conserved := by simp [h.conserved, taken, DataGet.arrive, DataGet.view]
  getting hget := absurd hget hpc
  sending := h.sending
  handed := h.handed
  complete := h.complete

theorem started : (SendAll.start (8 * Readout.max)).returned = none := by decide

theorem Inv.got {g : DataGet.State (BitVec 64)} {rest : List (BitVec 64)} {accesses k}
    (hg : DataGet.Drained rest accesses g k) (hpc : s.pc = .get) :
    Inv (before ++ rest) before [] (got g s) := by
  have hrest : rest = (DataGet.view g).data ++ g.fifo := hg.conserved.symm
  unfold Server.got
  split
  next hdone =>
    have hi := hg.index
    rw [hg.full hdone] at hi
    have hlen : (DataGet.view g).data.length = Readout.max := by
      rw [hg.view_data, hg.full hdone, List.length_take, Nat.min_eq_left]
      exact hg.full hdone ▸ hg.le
    have hstart := Handed.start (memory_lt (by rw [hlen]; decide))
    rw [length_memory, hlen] at hstart
    exact {
      conserved := congrArg (before ++ ·) hrest
      getting := by simp
      sending := fun _ => ⟨hi, started, hstart⟩
      handed := List.nil_prefix
      complete := by simp }
  next hdone =>
    exact {
      conserved := congrArg (before ++ ·) hrest
      getting := fun _ => ⟨rfl, hdone, accesses, k, hrest ▸ hg⟩
      sending := by simp [hpc]
      handed := List.nil_prefix
      complete := fun hne => absurd hpc hne }

theorem Inv.bus (h : Inv seq before bytes s) (hb : Meets s (.bus b)) :
    Inv (seq ++ b.arrivals) before bytes (server.step s (.bus b)) := by
  by_cases hpc : s.pc = .get
  · obtain ⟨rfl, -, accesses, k, hdrained⟩ := h.getting hpc
    obtain ⟨k', hstep⟩ := hdrained.step (hb hpc)
    have hgot : Inv (before ++ _) before [] (Server.got _ s) := Inv.got hstep hpc
    rw [← List.append_assoc, ← h.conserved] at hgot
    simpa [server, hpc] using hgot
  · simpa [server, hpc] using h.arrive (b := b) hpc

theorem Inv.sent {i : Int} (h : Inv seq before bytes s) (hpc : s.pc = .send)
    (hi : Takes s.send i) :
    Inv seq before (bytes ++ ((sendAll (memory (data s))).out s.send i).toList.flatten)
      (Server.sent ((sendAll (memory (data s))).step s.send i) s) := by
  obtain ⟨hmax, -, hhanded⟩ := h.sending hpc
  have hstep := hhanded.step hi
  rw [← data_eq_taken hmax] at hstep
  have htaken : taken (Server.sent ((sendAll (memory (data s))).step s.send i) s) = data s :=
    (data_eq_taken hmax).symm
  refine ⟨h.conserved, ?_, ?_, ?_, ?_⟩
  · intro hget
    simp only [Server.sent] at hget
    split at hget <;> cases hget
  · intro hsend
    have hr : ((sendAll (memory (data s))).step s.send i).returned = none := by
      by_contra hr
      simp [Server.sent, hr] at hsend
    rw [htaken]
    exact ⟨hmax, hr, hstep⟩
  · rw [htaken, hstep.taken]
    exact List.take_prefix _ _
  · intro _ hsend hfalse
    rw [htaken]
    refine hstep.all ?_
    change ((sendAll (memory (data s))).step s.send i).returned ≠ some false at hfalse
    cases hr : ((sendAll (memory (data s))).step s.send i).returned with
    | none => simp [Server.sent, hr] at hsend
    | some r =>
      cases r with
      | true => rfl
      | false => exact absurd hr hfalse

theorem Inv.close (h : Inv seq before bytes s) (hpc : s.pc = .close) :
    Inv seq before bytes { s with pc := .accept } where
  conserved := h.conserved
  getting := by simp
  sending := by simp
  handed := h.handed
  complete _ _ := h.complete (by simp [hpc]) (by simp [hpc])

theorem Inv.connect (h : Inv seq before bytes s) :
    Inv seq (before ++ taken s) [] { s with
      pc := .get
      get := DataGet.start s.get.data s.get.fifo } where
  conserved := by simp [h.conserved, taken, DataGet.view, DataGet.start]
  getting _ := ⟨rfl, by simp [DataGet.start], [], 0, DataGet.drained_start _ _⟩
  sending := by simp
  handed := List.nil_prefix
  complete := by simp

theorem Inv.refuse (h : Inv seq before bytes s) (hpc : s.pc = .accept) :
    Inv seq before bytes { s with pc := .close } where
  conserved := h.conserved
  getting := by simp
  sending := by simp
  handed := h.handed
  complete _ _ := h.complete (by simp [hpc]) (by simp [hpc])

theorem see_bytes (c : Clients) (o : Option (List Byte)) :
    (o.map Output.bytes).toList.foldl Clients.see c =
      { c with bytes := c.bytes ++ o.toList.flatten } := by
  cases o <;> simp [Clients.see]

theorem Inv.step (h : Inv seq c.before c.bytes s) (hl : Meets s l) (hk : Kept s l) :
    Inv (seq ++ arrivals [l]) ((server.out s l).toList.foldl Clients.see c).before
      ((server.out s l).toList.foldl Clients.see c).bytes (server.step s l) := by
  have hseq : ∀ l, arrivals [l] = [] → seq ++ arrivals [l] = seq := fun l hl => by
    rw [hl, List.append_nil]
  cases l with
  | accept connfd =>
    rw [hseq _ rfl]
    by_cases hpc : s.pc = .accept
    · by_cases hfd : 0 < connfd
      · have hall := h.complete (by simp [hpc]) (by simp [hpc]) (hk hpc hfd)
        have hconnect := h.connect
        simpa [server, hpc, hfd, accept, Clients.see, hall, complete_memory] using hconnect
      · simpa [server, hpc, hfd, accept] using h.refuse hpc
    · simpa [server, hpc] using h
  | bus b => simpa [server, arrivals] using h.bus hl
  | send i =>
    rw [hseq _ rfl]
    by_cases hpc : s.pc = .send
    · have hout : server.out s (.send i) =
          ((sendAll (memory (data s))).out s.send i).map .bytes := by
        simp [server, hpc]
      rw [hout, see_bytes]
      simpa [server, hpc] using h.sent hpc (hl hpc)
    · simpa [server, hpc] using h
  | close =>
    rw [hseq _ rfl]
    by_cases hpc : s.pc = .close
    · simpa [server, hpc] using h.close hpc
    · simpa [server, hpc] using h

theorem Inv.run {ls : List Label} (h : Inv seq c.before c.bytes s)
    (hls : server.Along (fun s l => Meets s l ∧ Kept s l) s ls) :
    Inv (seq ++ arrivals ls) ((server.outputs s ls).foldl Clients.see c).before
      ((server.outputs s ls).foldl Clients.see c).bytes (server.run s ls) := by
  induction ls generalizing seq c s with
  | nil => simpa [arrivals] using h
  | cons l ls ih =>
    rw [Mealy.along_cons] at hls
    have hrun := ih (h.step hls.1.1 hls.1.2) hls.2
    simpa [arrivals] using hrun

end Step

section Run

variable {data : Int → BitVec 64} {fifo : List (BitVec 64)} {ls : List Label}

theorem no_record_lost (h : server.Along (fun s l => Meets s l ∧ Kept s l) (start data fifo) ls) :
    (clients (server.outputs (start data fifo) ls)).delivered <+: fifo ++ arrivals ls ∧
      ∃ held, held <:+ taken (server.run (start data fifo) ls) ∧
        fifo ++ arrivals ls = (clients (server.outputs (start data fifo) ls)).delivered ++
          (held ++ (server.run (start data fifo) ls).get.fifo) := by
  have hinv := Inv.run (c := ⟨[], []⟩) (inv_start data fifo) h
  obtain ⟨held, hheld⟩ := complete_prefix hinv.handed
  have hsplit : fifo ++ arrivals ls = (clients (server.outputs (start data fifo) ls)).delivered ++
      (held ++ (server.run (start data fifo) ls).get.fifo) := by
    rw [hinv.conserved, ← hheld]
    simp [Clients.delivered, clients]
  exact ⟨⟨_, hsplit.symm⟩, held, ⟨_, hheld⟩, hsplit⟩

end Run

section Flow

variable {s : State} {bus : Nat → DataGet.Bus (BitVec 64)}

theorem outputs_bus (s : State) (bus : Nat → DataGet.Bus (BitVec 64)) (ns : List Nat) :
    server.outputs s (ns.map fun k => .bus (bus k)) = [] := by
  induction ns generalizing s with
  | nil => rfl
  | cons n ns ih => exact ih _

theorem along_bus (hb : ∀ g k, DataGet.Tells g (bus k)) (s : State) (ns : List Nat) :
    server.Along (fun s l => Meets s l ∧ Kept s l) s (ns.map fun k => .bus (bus k)) := by
  induction ns generalizing s with
  | nil => trivial
  | cons n ns ih => exact ⟨⟨fun _ => hb _ _, trivial⟩, ih _⟩

theorem run_bus (hpc : s.pc = .get) (hg : s.get.pc ≠ .done) (n : Nat) :
    server.run s ((List.range n).map fun k => .bus (bus k)) =
      got (DataGet.dataGet.states s.get bus n) s := by
  induction n with
  | zero => simp [got, hg]
  | succ n ih =>
    rw [List.range_succ, List.map_append, Mealy.run_append, ih, Mealy.states_succ]
    by_cases hd : (DataGet.dataGet.states s.get bus n).pc = .done
    · have hstep : DataGet.dataGet.step (DataGet.dataGet.states s.get bus n) (bus n) =
          DataGet.arrive (bus n) (DataGet.dataGet.states s.get bus n) := DataGet.access_done hd
      have hd' : (DataGet.arrive (bus n) (DataGet.dataGet.states s.get bus n)).pc = .done := hd
      simp [got, hd, hstep, hd', server]
    · simp [got, hd, server, hpc]

def flowing (k : Nat) : DataGet.Bus (BitVec 64) := ⟨[BitVec.ofNat 64 k], 0#32, 0#64⟩

def served (n : Nat) : List Label := (List.range n).map fun k => .bus (flowing k)

theorem tells_flowing (g : DataGet.State (BitVec 64)) (k : Nat) : DataGet.Tells g (flowing k) := by
  intro _
  simp [flowing, DataGet.arrive]

theorem drained_flowing (data : Int → BitVec 64) (fifo : List (BitVec 64)) :
    ∃ k, DataGet.Drained (DataGet.stream fifo flowing (2 * Readout.max))
      (DataGet.accesses data fifo flowing (2 * Readout.max))
      (DataGet.state data fifo flowing (2 * Readout.max)) k :=
  DataGet.drained_states (fun k => tells_flowing _ k) _

theorem done_flowing (data : Int → BitVec 64) (fifo : List (BitVec 64)) :
    (DataGet.state data fifo flowing (2 * Readout.max)).pc = .done :=
  DataGet.done_of_flowing (fun k => tells_flowing _ k) fun k => by simp [flowing]

theorem data_of_done {g : DataGet.State (BitVec 64)} {rest : List (BitVec 64)}
    {accesses : List (DataGet.Access (BitVec 64))} {k : Nat}
    (h : DataGet.Drained rest accesses g k) (hd : g.pc = .done) (hs : s.get = g) :
    data s = rest.take Readout.max := by
  obtain rfl := h.full hd
  obtain rfl := hs
  rw [data_eq_taken h.index]
  exact h.view_data

theorem run_served (hpc : s.pc = .accept) :
    ∃ t, server.run s (.accept 4 :: served (2 * Readout.max)) = t ∧ t.pc = .send ∧
      t.send = SendAll.start (8 * Readout.max) ∧
      data t = (DataGet.stream s.get.fifo flowing (2 * Readout.max)).take Readout.max ∧
      t.get.fifo = (DataGet.stream s.get.fifo flowing (2 * Readout.max)).drop Readout.max := by
  have hdone := done_flowing s.get.data s.get.fifo
  obtain ⟨k, h⟩ := drained_flowing s.get.data s.get.fifo
  have hstep : server.step s (.accept 4) =
      { s with pc := .get, get := DataGet.start s.get.data s.get.fifo } := by
    simp [server, hpc, accept]
  have hrun : server.run s (.accept 4 :: served (2 * Readout.max)) =
      ⟨.send, DataGet.state s.get.data s.get.fifo flowing (2 * Readout.max),
        SendAll.start (8 * Readout.max)⟩ := by
    rw [Mealy.run_cons, hstep, served, run_bus rfl (by simp [DataGet.start])]
    exact if_pos hdone
  rw [hrun]
  generalize DataGet.state s.get.data s.get.fifo flowing (2 * Readout.max) = g at h hdone
  have hfifo := h.fifo
  rw [h.full hdone] at hfifo
  exact ⟨_, rfl, rfl, rfl, data_of_done h hdone rfl, hfifo⟩

theorem run_gone (h : s.pc = .send) (hs : s.send = SendAll.start (8 * Readout.max)) :
    (server.run s [.send (-1), .close]).pc = .accept ∧
      (server.run s [.send (-1), .close]).get = s.get ∧
      server.outputs s [.send (-1), .close] = [] := by
  simp [server, h, hs, sendAll, started, sent, SendAll.sent]

theorem stream_flowing (fifo : List (BitVec 64)) (n : Nat) :
    DataGet.stream fifo flowing n = fifo ++ (List.range n).map (BitVec.ofNat 64) := by
  rw [DataGet.stream, List.map_eq_flatMap]
  rfl

def lossy : List Label :=
  .accept 4 :: served (2 * Readout.max) ++ [.send (-1), .close] ++
    .accept 4 :: served (2 * Readout.max) ++ [.send 65536]

theorem first_of_second {m n k : Nat} (hmn : m < n) (hk : 0 < k) (l : Nat) :
    ((DataGet.stream ((DataGet.stream [] flowing n).drop m) flowing l).take k)[0]? =
      some (BitVec.ofNat 64 m) := by
  rw [stream_flowing, stream_flowing, List.nil_append, List.getElem?_take_of_lt hk,
    List.getElem?_append_left (by simp [hmn]), List.getElem?_drop, Nat.add_zero,
    List.getElem?_map, List.getElem?_range hmn, Option.map_some]

theorem send_whole (h : s.pc = .send) (hs : s.send = SendAll.start (8 * Readout.max)) :
    server.outputs s [.send 65536] = [.bytes (memory (data s))] := by
  have hlen : (memory (data s)).length ≤ 65536 := by
    rw [length_memory, data, List.length_map, List.length_range]
    decide
  have hret : (SendAll.start (8 * Readout.max)).returned = none := started
  have hptr : (SendAll.start (8 * Readout.max)).ptr = 0 := rfl
  simp [server, h, hs, sendAll, hret, hptr, List.take_of_length_le hlen]

theorem meets_served (s : State) (n : Nat) : server.Along Meets s (.accept 4 :: served n) := by
  rw [Mealy.along_cons, served]
  exact ⟨trivial, (along_bus tells_flowing _ _).imp fun _ _ h => h.1⟩

theorem along_served (hs : s.send.returned ≠ some false) (n : Nat) :
    server.Along (fun s l => Meets s l ∧ Kept s l) s (.accept 4 :: served n) := by
  rw [Mealy.along_cons, served]
  exact ⟨⟨trivial, fun _ _ => hs⟩, along_bus tells_flowing _ _⟩

theorem no_record_lost_whole_batch :
    (clients (server.outputs (start (fun _ => 0#64) [])
      (.accept 4 :: served (2 * Readout.max) ++ [.send 65536]))).delivered <+:
        [] ++ arrivals (.accept 4 :: served (2 * Readout.max) ++ [.send 65536]) := by
  obtain ⟨t, ht, -, hsend, -⟩ := run_served (s := start (fun _ => 0#64) []) rfl
  refine (no_record_lost ?_).1
  have htakes : Takes t.send 65536 := by
    intro _
    rw [hsend]
    decide
  rw [Mealy.along_append, ht, Mealy.along_cons]
  exact ⟨along_served (by simp [start]) _, ⟨fun _ => htakes, trivial⟩, Mealy.along_nil⟩

theorem outputs_served (hpc : s.pc = .accept) (n : Nat) :
    server.outputs s (.accept 4 :: served n) = [.connect] := by
  rw [Mealy.outputs_cons, served, outputs_bus]
  simp [server, hpc]

theorem arrivals_served (n : Nat) :
    arrivals (.accept 4 :: served n) = (List.range n).map (BitVec.ofNat 64) := by
  simp only [arrivals, served, List.flatMap_cons, List.nil_append, List.flatMap_map]
  rw [List.map_eq_flatMap]
  rfl

theorem delivered_second (bs : List Byte) :
    (clients [.connect, .connect, .bytes bs]).delivered = complete bs := rfl

theorem first_of_lossy : (arrivals lossy)[0]? = some 0#64 := by
  have hpos : 0 < 2 * Readout.max := by decide
  have hsplit : arrivals lossy = arrivals (.accept 4 :: served (2 * Readout.max)) ++
      arrivals
        ([.send (-1), .close] ++ .accept 4 :: served (2 * Readout.max) ++ [.send 65536]) := by
    simp only [lossy, arrivals, List.append_assoc, List.flatMap_append]
  rw [hsplit, arrivals_served, List.getElem?_append_left (by simp [hpos]), List.getElem?_map,
    List.getElem?_range hpos, Option.map_some]

/-- A client is gone before the first byte; the next one gets the batch after the lost one. -/
theorem client_gone_loses_batch :
    server.Along Meets (start (fun _ => 0#64) []) lossy ∧
      ¬ (clients (server.outputs (start (fun _ => 0#64) []) lossy)).delivered <+:
        arrivals lossy := by
  obtain ⟨t₁, ht₁, hpc₁, hsend₁, -, hfifo₁⟩ := run_served (s := start (fun _ => 0#64) []) rfl
  obtain ⟨hpc₂, hget₂, hout₂⟩ := run_gone hpc₁ hsend₁
  obtain ⟨t₃, ht₃, hpc₃, hsend₃, hdata₃, -⟩ := run_served hpc₂
  have hout₁ := outputs_served (s := start (fun _ => 0#64) []) rfl (2 * Readout.max)
  have hout : server.outputs (start (fun _ => 0#64) []) lossy =
      [.connect, .connect, .bytes (memory (data t₃))] := by
    simp only [lossy, List.append_assoc, Mealy.outputs_append, ht₁, ht₃, hout₁,
      outputs_served hpc₂, hout₂, send_whole hpc₃ hsend₃, List.singleton_append, List.nil_append]
  have hdelivered : (clients (server.outputs (start (fun _ => 0#64) []) lossy)).delivered =
      data t₃ := by
    rw [hout, delivered_second, complete_memory]
  have hmax : (Readout.max : Nat) < 2 * Readout.max := by decide
  have hfirst : (data t₃)[0]? = some (BitVec.ofNat 64 Readout.max) := by
    rw [hdata₃, hget₂, hfifo₁]
    exact first_of_second hmax (by decide) _
  refine ⟨?_, ?_⟩
  · simp only [lossy, List.append_assoc, Mealy.along_append, ht₁, ht₃]
    refine ⟨meets_served _ _, ⟨fun _ _ => Int.natCast_nonneg _, trivial, trivial⟩,
      meets_served _ _, fun _ _ => ?_, trivial⟩
    rw [hsend₃]
    decide
  · rintro ⟨rest, hrest⟩
    have hlen : 0 < (data t₃).length := (List.getElem?_eq_some_iff.mp hfirst).1
    have h0 := congrArg (·[0]?) hrest
    rw [hdelivered] at h0
    simp only [List.getElem?_append_left hlen, hfirst, first_of_lossy] at h0
    exact absurd h0 (by decide)

end Flow

end PhotonCount.Hps.Server
