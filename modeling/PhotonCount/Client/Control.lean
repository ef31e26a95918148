import PhotonCount.Client.Unpack
import PhotonCount.Hps.Controller

/-! `client.py`: the message of `fifo_control`, and what the controller makes of it. -/

namespace PhotonCount.Client

open Machine LittleEndian Hps

/-- `struct.pack` of words `I`; a number that does not fit in one is an error. -/
def structPack : List Nat → Option (List Byte)
  | [] => some []
  | n :: ns =>
    if n < 2 ^ 32 then (structPack ns).map (bytes 4 (BitVec.ofNat 32 n) ++ ·) else none

def tranRaw (int intTri intTriSim : Nat) : Option (List Byte) := structPack [int, intTri, intTriSim]

theorem structPack_words (ws : List (BitVec 32)) :
    structPack (ws.map BitVec.toNat) = some (ws.flatMap (bytes 4)) := by
  induction ws with
  | nil => rfl
  | cons w ws ih => simp [structPack, w.isLt, ih]

theorem structUnpack_structPack {ns : List Nat} {raw : List Byte} (h : structPack ns = some raw) :
    structUnpack ns.length raw = some ns := by
  induction ns generalizing raw with
  | nil =>
    obtain rfl := Option.some.inj h
    rfl
  | cons n ns ih =>
    rw [structPack] at h
    split at h
    next hn =>
      obtain ⟨rest, hrest, rfl⟩ := Option.map_eq_some_iff.mp h
      have hvalue : value (bytes 4 (BitVec.ofNat 32 n)) = n := by
        rw [value_bytes, BitVec.toNat_ofNat, Nat.mod_eq_of_lt hn]
        exact Nat.mod_eq_of_lt hn
      rw [List.length_cons, structUnpack_append (length_bytes 4 _), ih hrest, hvalue]
      rfl
    next => cases h

theorem word_packed (before after : List Byte) (w : BitVec 32) (h : before.length + 4 ≤ 12) :
    Controller.word (before ++ (bytes 4 w ++ after)) before.length = w := by
  refine bytes_injective (by decide : 32 ≤ 8 * 4) (List.map_congr_left fun j hj => ?_)
  have hj := List.mem_range.mp hj
  rw [Controller.extract_word _ _ hj, Controller.byte, List.getElem?_take_of_lt (by omega),
    List.getElem?_append_right (Nat.le_add_right _ _), Nat.add_sub_cancel_left,
    List.getElem?_append_left (by simpa using hj)]
  simp [bytes, hj]

theorem decode_tranRaw (int intTri intTriSim : BitVec 32) :
    ∃ raw, tranRaw int.toNat intTri.toNat intTriSim.toNat = some raw ∧ raw.length = 12 ∧
      Controller.Setting.decode raw = ⟨int, intTri, intTriSim⟩ := by
  refine ⟨_, structPack_words [int, intTri, intTriSim], ?_, ?_⟩
  · simp
  · have h0 := word_packed [] (bytes 4 intTri ++ bytes 4 intTriSim) int (by simp)
    have h4 := word_packed (bytes 4 int) (bytes 4 intTriSim) intTri (by simp)
    have h8 := word_packed (bytes 4 int ++ bytes 4 intTri) [] intTriSim (by simp)
    simp only [List.length_append, length_bytes, List.length_nil, List.nil_append,
      List.append_nil, List.append_assoc] at h0 h4 h8
    simp [Controller.Setting.decode, h0, h4, h8]

end PhotonCount.Client
