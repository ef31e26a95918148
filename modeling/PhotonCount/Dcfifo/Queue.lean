import PhotonCount.Dcfifo.Laws
import PhotonCount.Machine.Drive
import PhotonCount.Machine.Queue

namespace PhotonCount.Dcfifo

open Machine Gray PlsCnt

/-- The words in the memory from the pointer of the end that reads up to the other one. -/
def contents (s : State) : List Word :=
  (List.range (decode s.wr.wrptrG - decode s.rd.rdptrG).toNat).map fun i =>
    s.ram.mem (ramAddress (encode (decode s.rd.rdptrG + BitVec.ofNat 14 i)))

def asked (s : State) (e : Edge) : Fifo.Ask Word :=
  ⟨(dcfifo.out s e).isSome, (written s e).map Prod.snd⟩

def asks : Driver State Edge Edge Word (Fifo.Ask Word) := ⟨dcfifo, id, asked⟩

section Contents

variable {s : State} {c : Counts} {ws : List Word}

theorem toNat_sub_ofNat {a b : Nat} (hab : b ≤ a) (hle : a ≤ b + depth) :
    (BitVec.ofNat 14 a - BitVec.ofNat 14 b).toNat = a - b := by
  simp only [BitVec.toNat_sub, BitVec.toNat_ofNat]
  rw [depth] at hle
  omega

theorem Tracks.written_le (h : Tracks s c) : c.wr.written ≤ c.rd.read + depth :=
  h.sound.written.trans (Nat.add_le_add_right (h.sound.freed.trans h.sound.first) depth)

theorem contents_eq (hh : Holds s c ws) (h : Tracks s c) : contents s = ws.drop c.rd.read := by
  have hle := hh.length ▸ hh.read_le h
  have haddress (i : Nat) : ramAddress (encode (decode s.rd.rdptrG + BitVec.ofNat 14 i)) =
      address (c.rd.read + i) := by
    rw [h.rd.rdptrG, decode_ptr, ← BitVec.ofNat_add, ← ptr, ramAddress_ptr]
  have hlen : (decode s.wr.wrptrG - decode s.rd.rdptrG).toNat = ws.length - c.rd.read := by
    rw [h.wr.wrptrG, h.rd.rdptrG, decode_ptr, decode_ptr, toNat_sub_ofNat hle h.written_le,
      hh.length]
  simp only [contents, hlen, haddress]
  apply List.ext_getElem?
  intro i
  rw [List.getElem?_map, List.getElem?_drop]
  by_cases hi : i < ws.length - c.rd.read
  · rw [List.getElem?_range hi, hh.mem _ (by omega) (by rw [← hh.length]; omega)]
    rfl
  · rw [List.getElem?_eq_none (by simpa using hi), List.getElem?_eq_none (by omega)]
    rfl

end Contents

section Steps

variable {s : State} {e : Edge} {c : Counts} {ws : List Word} {f : Fifo depth Word}

theorem out_queue (hh : Holds s c ws) (h : Tracks s c) (hf : f.items = ws.drop c.rd.read) :
    (Fifo.queue depth Word).out f (asked s e) = dcfifo.out s e := by
  rw [Fifo.out_queue, hf, List.head?_drop]
  cases ho : dcfifo.out s e with
  | none => simp [asked, ho]
  | some w => simp [asked, ho, out_eq hh h ho]

theorem serves_asked (hh : Holds s c ws) (h : Tracks s c) (hf : f.items = ws.drop c.rd.read) :
    f.Serves (asked s e) := by
  refine ⟨fun hpop => ?_, fun hpush => ?_⟩
  · obtain ⟨w, hw⟩ := Option.isSome_iff_exists.mp hpop
    have hlt := (List.getElem?_eq_some_iff.mp (out_eq hh h hw)).1
    rw [hf, Ne, List.drop_eq_nil_iff, Nat.not_le]
    exact hlt
  · obtain ⟨w, hw⟩ := Option.isSome_iff_exists.mp (Option.isSome_map ▸ hpush)
    obtain ⟨-, hroom⟩ := written_eq_some h hw
    have := h.sound.freed.trans h.sound.first
    have := h.sound.freed_le
    rw [hf, List.length_drop, hh.length]
    omega

theorem step_queue (hh : Holds s c ws) (h : Tracks s c) (hf : f.items = ws.drop c.rd.read) :
    ((Fifo.queue depth Word).step f (asked s e)).items =
      (ws ++ ((written s e).map Prod.snd).toList).drop (follow s e c).rd.read := by
  have hle := hh.read_le h
  rw [Fifo.items_step (serves_asked hh h hf), hf, follow_read h]
  cases ho : dcfifo.out s e with
  | none => simp [asked, ho, List.drop_append_of_le_length hle]
  | some w =>
    have hlt := (List.getElem?_eq_some_iff.mp (out_eq hh h ho)).1
    rw [Option.toList_some, List.length_singleton, List.drop_append_of_le_length hlt]
    simp [asked, ho]

end Steps

section Runs

variable {s : State} {c : Counts} {ws : List Word} {f : Fifo depth Word}

theorem run_queue (hh : Holds s c ws) (h : Tracks s c) (hf : f.items = ws.drop c.rd.read)
    (es : List Edge) :
    (Fifo.queue depth Word).Along Fifo.Serves f (asks.feeds s es) ∧
      (Fifo.queue depth Word).outputs f (asks.feeds s es) = dcfifo.outputs s es ∧
      ((Fifo.queue depth Word).run f (asks.feeds s es)).items = contents (dcfifo.run s es) := by
  induction es generalizing s c ws f with
  | nil => exact ⟨trivial, rfl, hf.trans (contents_eq hh h).symm⟩
  | cons e es ih =>
    obtain ⟨halong, houts, hrun⟩ := ih (hh.step h e) (h.step e) (step_queue hh h hf)
    exact ⟨⟨serves_asked hh h hf, halong⟩,
      congrArg₂ (fun o os => o.toList ++ os) (out_queue hh h hf) houts, hrun⟩

theorem refines_queue (s : State) (es : List Edge) :
    (Fifo.queue depth Word).Along Fifo.Serves .empty (asks.feeds s.aclr es) ∧
      (Fifo.queue depth Word).outputs .empty (asks.feeds s.aclr es) = dcfifo.outputs s.aclr es ∧
      ((Fifo.queue depth Word).run .empty (asks.feeds s.aclr es)).items =
        contents (dcfifo.run s.aclr es) :=
  run_queue (aclr_holds s) (aclr_tracks s) rfl es

end Runs

end PhotonCount.Dcfifo
