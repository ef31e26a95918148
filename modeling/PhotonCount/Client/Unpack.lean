import PhotonCount.Client.Receive
import PhotonCount.Hps.Readout
import PhotonCount.Hps.SendAll

namespace PhotonCount.Client

open Machine LittleEndian PlsCnt Hps SendAll

def N : Nat := 1024 * 8

/-- `struct.unpack` of `n` words `I`; bytes that do not make up `n` words are an error. -/
def structUnpack : Nat → List Byte → Option (List Nat)
  | 0, [] => some []
  | n + 1, a :: b :: c :: d :: dataRaw =>
    (structUnpack n dataRaw).map (value [a, b, c, d] :: ·)
  | _, _ => none

/-- `data`, from what has come in when the server closes the connection. -/
def received (stream : List Byte) : Option (List Nat) :=
  let dataRaw := stream.take (N * 8)
  structUnpack (dataRaw.length / 4) dataRaw

variable {batch : List Word}

theorem structUnpack_append {bs : List Byte} (h : bs.length = 4) (n : Nat) (dataRaw : List Byte) :
    structUnpack (n + 1) (bs ++ dataRaw) = (structUnpack n dataRaw).map (value bs :: ·) := by
  match bs, h with
  | [_, _, _, _], _ => rfl

theorem value_low (w : Word) : value (bytes 4 w) = w.stamp.toNat := by
  rw [value_bytes, Word.stamp, BitVec.extractLsb'_toNat]
  rfl

theorem value_high (w : Word) : value (bytes 4 (w >>> 32)) = (countWord w).toNat := by
  rw [value_bytes, countWord, BitVec.extractLsb'_toNat, BitVec.toNat_ushiftRight]
  rfl

theorem structUnpack_memory (batch : List Word) :
    structUnpack (2 * batch.length) (memory batch) = some (unpack batch) := by
  induction batch with
  | nil => rfl
  | cons w ws ih =>
    have hsplit : bytes 8 w = bytes 4 w ++ bytes 4 (w >>> 32) := bytes_append 4 4 w
    rw [memory_cons, hsplit, List.append_assoc, List.length_cons,
      show 2 * (ws.length + 1) = 2 * ws.length + 1 + 1 by omega,
      structUnpack_append (length_bytes 4 w), structUnpack_append (length_bytes 4 _), ih,
      value_low, value_high]
    rfl

theorem received_memory (hlen : batch.length ≤ N) :
    received (memory batch) = some (unpack batch) := by
  have hsize := length_memory batch
  have htake : (memory batch).take (N * 8) = memory batch :=
    List.take_of_length_le (by omega)
  rw [received, htake, hsize, show 8 * batch.length / 4 = 2 * batch.length by omega]
  exact structUnpack_memory batch

theorem unpack_getElem? (batch : List Word) (k : Nat) :
    (unpack batch)[2 * k]? = batch[k]?.map (·.stamp.toNat) ∧
      (unpack batch)[2 * k + 1]? = batch[k]?.map fun w => (countWord w).toNat := by
  induction batch generalizing k with
  | nil => simp
  | cons w ws ih =>
    cases k with
    | zero => simp
    | succ k => simpa [Nat.mul_add] using ih k

section RoundTrip

variable {i : Nat → Int}

theorem wire_round_trip (hlen : batch.length = Readout.max)
    (hi : ∀ n, Takes (state (memory batch) i n) (i n)) :
    ((∀ n, (state (memory batch) i n).returned = none → 1 ≤ i n) →
      ∃ n data, (state (memory batch) i n).returned = some true ∧
        handedOver (memory batch) i n = memory batch ∧
        received (handedOver (memory batch) i n) = some data ∧
        ∀ k (hk : k < batch.length), data[2 * k]? = some (batch[k].stamp.toNat) ∧
          data[2 * k + 1]? = some ((countWord batch[k]).toNat)) ∧
    ∀ n, (state (memory batch) i n).returned = none → i n < 1 →
      (state (memory batch) i (n + 1)).returned = some false ∧
        handedOver (memory batch) i (n + 1) <+: memory batch := by
  have hsize : (memory batch).length < 2 ^ 32 := memory_lt (by rw [hlen]; decide)
  constructor
  · intro h1
    obtain ⟨n, hret, hhanded⟩ := returns_true hsize hi h1
    refine ⟨n, unpack batch, hret, hhanded, ?_, fun k hk => ?_⟩
    · rw [hhanded]
      exact received_memory (Nat.le_of_eq hlen)
    · have h := unpack_getElem? batch k
      rwa [List.getElem?_eq_getElem hk] at h
  · intro n hret h1
    exact ⟨returns_false hret h1, handedOver_prefix hsize hi (n + 1)⟩

def inThree : Nat → Int
  | 0 => 24577
  | 1 => 24578
  | _ => 16381

theorem state_of_length (buffer : List Byte) (i : Nat → Int) (n : Nat) :
    state buffer i n = (sendAll []).states (SendAll.start buffer.length) i n := by
  induction n with
  | zero => rfl
  | succ n ih =>
    rw [state, Mealy.states_succ, ← state, ih, Mealy.states_succ]
    rfl

theorem returned_in_three {buffer : List Byte} (hlen : buffer.length = 65536) (n : Nat) :
    (state buffer inThree (n + 3)).returned = some true := by
  induction n with
  | zero =>
    rw [state_of_length, hlen]
    decide
  | succ n ih =>
    rw [state, Mealy.states_succ, ← state]
    simp [sendAll, ih]

theorem takes_in_three {buffer : List Byte} (hlen : buffer.length = 65536) :
    ∀ n, Takes (state buffer inThree n) (inThree n)
  | 0 | 1 | 2 => by
    intro _
    rw [state_of_length, hlen]
    decide
  | n + 3 => by
    intro hr
    rw [returned_in_three hlen] at hr
    cases hr

def numbered : List Word :=
  (List.range Readout.max).map fun k =>
    Word.pack (k % 2 == 1) (BitVec.ofNat 32 k) (BitVec.ofNat 32 (3 * k + 1))

theorem wire_round_trip_in_three :
    ∃ n data, handedOver (memory numbered) inThree n = memory numbered ∧
      received (handedOver (memory numbered) inThree n) = some data ∧
      data[2 * 4096]? = some 12289 ∧ data[2 * 4096 + 1]? = some 4096 ∧
      data[2 * 8191]? = some 24574 ∧ data[2 * 8191 + 1]? = some (2 ^ 31 + 8191) := by
  have hlen : numbered.length = Readout.max := by rw [numbered, List.length_map, List.length_range]
  have hbytes : (memory numbered).length = 65536 := by
    rw [length_memory, hlen]
    rfl
  have hone (n : Nat) : 1 ≤ inThree n := by
    unfold inThree
    split <;> decide
  obtain ⟨n, data, -, hhanded, hdata, h⟩ :=
    (wire_round_trip hlen (takes_in_three hbytes)).1 fun n _ => hone n
  have hrecord {k : Nat} (hk : k < numbered.length) : numbered[k] =
      Word.pack (k % 2 == 1) (BitVec.ofNat 32 k) (BitVec.ofNat 32 (3 * k + 1)) := by
    simp [numbered]
  have h4096 : 4096 < numbered.length := by rw [hlen]; decide
  have h8191 : 8191 < numbered.length := by rw [hlen]; decide
  refine ⟨n, data, hhanded, hdata, ?_⟩
  rw [(h 4096 h4096).1, (h 4096 h4096).2, (h 8191 h8191).1, (h 8191 h8191).2, hrecord, hrecord]
  decide

end RoundTrip

end PhotonCount.Client
