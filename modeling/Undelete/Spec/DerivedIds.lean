import Undelete.Native.Desktop.Results
import Undelete.Spec.HashCorrect

/-!
# Derived ids

`derive_id` hashes its fields with their lengths in front of them, so that two ids are equal
only where the fields are, unless two of the hashed inputs collide.
-/

namespace Undelete.Desktop

open Restore

variable {env : ResultsEnv}

/-- Fields that a `u64` can count are read back from the hashed input one by one. -/
theorem deriveInput_cons_inj {f g : Bytes} {fs gs : List Bytes} (hf : f.length < 2 ^ 64)
    (hg : g.length < 2 ^ 64) (h : deriveInput (f :: fs) = deriveInput (g :: gs)) :
    f = g ∧ deriveInput fs = deriveInput gs := by
  simp only [deriveInput, List.flatMap_cons, List.append_assoc, List.append_cancel_left_eq] at h ⊢
  obtain ⟨hlength, hrest⟩ := List.append_inj h (by simp)
  have hlength := (Bytes.ofLE_inj (by simpa using hf) (by simpa using hg)).mp hlength
  exact List.append_inj hrest hlength

theorem length_deriveId (tag : String) (fields : List Bytes) :
    (Bytes.ofString (deriveId env tag fields)).length = tag.utf8ByteSize + 65 := by
  have hhex : ∀ bytes : Bytes, (bytes.flatMap hexPair).length = 2 * bytes.length := by
    intro bytes
    induction bytes with
    | nil => rfl
    | cons byte bytes ih =>
      rw [List.flatMap_cons, List.length_append, ih, List.length_cons]
      simp only [hexPair, List.length_cons, List.length_nil]
      omega
  rw [deriveId, Bytes.ofString_append, List.length_append, Bytes.ofString_append,
    List.length_append, ofString_hexLower, hhex, Vector.length_toList, Bytes.length_ofString]
  show tag.utf8ByteSize + 1 + 2 * 32 = _
  omega

theorem length_sourceId (fields : List Bytes) :
    (Bytes.ofString (deriveId env "source" fields)).length < 2 ^ 64 := by
  rw [length_deriveId]
  decide

theorem length_queryId (fields : List Bytes) :
    (Bytes.ofString (deriveId env "query" fields)).length < 2 ^ 64 := by
  rw [length_deriveId]
  decide

/-- Equal ids of one kind come from equal hashes. -/
theorem sha256_eq_of_deriveId {tag : String} {fields fields' : List Bytes}
    (h : deriveId env tag fields = deriveId env tag fields') :
    env.sha256 (deriveInput fields) = env.sha256 (deriveInput fields') := by
  have hbytes := congrArg Bytes.ofString h
  simp only [deriveId, Bytes.ofString_append, List.append_cancel_left_eq] at hbytes
  exact Vector.toList_inj.mp (hexLower_inj (Bytes.ofString_inj.mp hbytes))

end Undelete.Desktop
