import Mathlib.Data.List.Flatten
import Rewrap.Run.Journal

/-! # Digests and ids

A digest has 64 hexadecimal digits, and the id that is made for a run is the start of one. -/

namespace Rewrap

namespace Blake3

def hexDigits : List Char := "0123456789abcdef".toList

theorem length_digest (bytes : List UInt8) : (digest bytes).length = 32 := by
  unfold digest
  rw [List.length_flatMap]
  have hbytes : ∀ w : UInt32, (bytesOf w).length = 4 := fun _ => rfl
  simp only [hbytes, List.map_const', List.sum_replicate_nat, Vector.length_toList]

theorem length_hexDigest (bytes : ByteArray) : (hexDigest bytes).toList.length = 64 := by
  unfold hexDigest
  rw [String.toList_ofList, List.length_flatMap]
  have hbyte : ∀ b : UInt8, (hexByte b).length = 2 := fun _ => rfl
  simp only [hbyte, List.map_const', List.sum_replicate_nat, length_digest]

theorem mem_hexDigits {bytes : ByteArray} {c : Char} (h : c ∈ (hexDigest bytes).toList) :
    c ∈ hexDigits := by
  have hdigit : ∀ n : Fin 16, Nat.digitChar n.val ∈ hexDigits := by decide
  unfold hexDigest at h
  rw [String.toList_ofList] at h
  obtain ⟨byte, -, hbyte⟩ := List.mem_flatMap.mp h
  have hsize : byte.toNat < 256 := byte.toNat_lt
  simp only [hexByte, List.mem_cons, List.not_mem_nil, or_false] at hbyte
  rcases hbyte with rfl | rfl
  · exact hdigit ⟨byte.toNat / 16, by omega⟩
  · exact hdigit ⟨byte.toNat % 16, by omega⟩

end Blake3

/-- An id as it is made for a run: hexadecimal digits. -/
def Run.IsId (id : String) : Prop := id ≠ "" ∧ ∀ c ∈ id.toList, c ∈ Blake3.hexDigits

theorem Journal.isId_idAt (clock : Nat) : Run.IsId (idAt clock) := by
  have hstart : ∀ bytes, Run.IsId (String.ofList ((Blake3.hexDigest bytes).toList.take 7)) := by
    intro bytes
    refine ⟨fun hempty => ?_, fun c hc => ?_⟩
    · have hlength : ((Blake3.hexDigest bytes).toList.take 7).length = 7 := by
        rw [List.length_take, Blake3.length_hexDigest]
        rfl
      have hnil := congrArg String.toList hempty
      rw [String.toList_ofList] at hnil
      rw [hnil] at hlength
      cases hlength
    · rw [String.toList_ofList] at hc
      exact Blake3.mem_hexDigits (List.mem_of_mem_take hc)
  exact hstart _

end Rewrap
