import Undelete.Spec.RunsCorrect

/-!
# Run lists and their encodings

A run list on disk is a sequence of elements, each a header with the widths of its two
fields, the length field and the relative offset field, closed by a zero byte. The decoder
keeps the running sum of the offsets as a wide integer but narrows it to 64 bits before it
checks it against the volume, so a run starts at the exact sum as long as the sum does not
pass `2 ^ 64`.

## Key results

- `decodeRunlist_encode`: decoding the encoding of a list of runs gives the list back,
  whatever the field widths and the bytes behind the terminator.
- `decodeRunlist_placed`: the elements of an accepted run list and the runs they give.
- `decodeRunlist_located_iff`: when the runs start at the exact sums of the offsets.
-/

namespace Undelete.Ntfs

open Except

/-! ## Elements on disk -/

/-- The two fields of an element; a sparse run has no offset field. -/
structure RunField where
  length : Bytes
  offset : Bytes
deriving DecidableEq, Repr

/-- An element on disk: the widths of the fields in one byte, then the fields. -/
def RunField.encode (f : RunField) : Bytes :=
  UInt8.ofNat (f.length.length + 16 * f.offset.length) :: (f.length ++ f.offset)

def encodeFields (fields : List RunField) : Bytes := fields.flatMap RunField.encode

/-- The widths that a header can announce. -/
structure RunField.Sized (f : RunField) : Prop where
  length_pos : 1 ≤ f.length.length
  length_le : f.length.length ≤ 8
  offset_le : f.offset.length ≤ 8

/-- The elements in front of the terminator. Every element takes at least two bytes, so the
    length of the buffer is enough fuel. -/
def readElements : Nat → Bytes → List RunField
  | 0, _ => []
  | _, [] => []
  | fuel + 1, header :: rest =>
    if header = 0 then []
    else
      let lenSize := header.toNat % 16
      let offSize := header.toNat / 16
      ⟨Bytes.slice rest 0 lenSize, Bytes.slice rest lenSize (lenSize + offSize)⟩ ::
        readElements fuel (rest.drop (lenSize + offSize))

/-- The elements of a run list on disk. -/
def readFields (buf : Bytes) : List RunField := readElements (buf.length + 1) buf

/-- The exact sums of the offsets, one for each element with an offset. -/
def offsetSums : Int → List RunField → List Int
  | _, [] => []
  | current, f :: fields =>
    if f.offset = [] then offsetSums current fields
    else
      let start := current + signedValue f.offset
      start :: offsetSums start fields

/-- The runs of the elements. An element with an offset starts at the sum of the offsets so
    far, which is not negative and is stored through `narrow`, inside the volume. -/
def Placed (narrow : Int → Nat) (totalClusters : Nat) :
    Int → List RunField → List RunElement → Prop
  | _, [], [] => True
  | current, f :: fields, run :: runs =>
    run.clusterCount = f.length.leValue ∧
      if f.offset = [] then run.lcn = none ∧ Placed narrow totalClusters current fields runs
      else
        let start := current + signedValue f.offset
        0 ≤ start ∧ run.lcn = some (narrow start) ∧
          narrow start + run.clusterCount ≤ totalClusters ∧
          Placed narrow totalClusters start fields runs
  | _, _, _ => False

/-- The runs start at the exact sums of the offsets. -/
def Located (totalClusters : Nat) (fields : List RunField) (runs : List RunElement) : Prop :=
  Placed Int.toNat totalClusters 0 fields runs

/-! ## Signed fields -/

/-- The two's-complement little-endian field of `width` bytes for `z`. -/
def ofSigned (width : Nat) (z : Int) : Bytes := Bytes.ofLE width (z % 2 ^ (8 * width)).toNat

theorem length_ofSigned (width : Nat) (z : Int) : (ofSigned width z).length = width :=
  Bytes.length_ofLE width _

theorem signedValue_ofSigned {width : Nat} {z : Int} (hwidth : 0 < width)
    (hlo : -(2 ^ (8 * width - 1) : Int) ≤ z) (hhi : z < 2 ^ (8 * width - 1)) :
    signedValue (ofSigned width z) = z := by
  have hhalf : 2 ^ (8 * width) = 2 * 2 ^ (8 * width - 1) := by
    rw [← Nat.pow_succ', show (8 * width - 1).succ = 8 * width by omega]
  have hbytes : 256 ^ width = 2 ^ (8 * width) := by rw [Nat.pow_mul]
  have hpos : 0 < 2 ^ (8 * width - 1) := Nat.two_pow_pos _
  have hcast : ((2 ^ (8 * width - 1) : Nat) : Int) = 2 ^ (8 * width - 1) := by push_cast; rfl
  have hcastFull : ((2 ^ (8 * width) : Nat) : Int) = 2 ^ (8 * width) := by push_cast; rfl
  rw [← hcast] at hlo hhi
  have hnonneg : 0 ≤ z % ((2 ^ (8 * width) : Nat) : Int) := Int.emod_nonneg _ (by omega)
  have hlt : z % ((2 ^ (8 * width) : Nat) : Int) < ((2 ^ (8 * width) : Nat) : Int) :=
    Int.emod_lt_of_pos _ (by omega)
  have hvalue : (ofSigned width z).leValue = (z % ((2 ^ (8 * width) : Nat) : Int)).toNat := by
    rw [ofSigned, ← hcastFull]
    apply Bytes.leValue_ofLE
    omega
  simp only [signedValue, hvalue, length_ofSigned, ← hcastFull]
  -- a negative number is stored as its residue, with the top bit set
  by_cases hneg : z < 0
  · have hmod : z % ((2 ^ (8 * width) : Nat) : Int) = z + ((2 ^ (8 * width) : Nat) : Int) := by
      rw [← Int.add_emod_right, Int.emod_eq_of_lt (by omega) (by omega)]
    rw [hmod, if_neg (by omega)]
    omega
  · have hmod : z % ((2 ^ (8 * width) : Nat) : Int) = z :=
      Int.emod_eq_of_lt (Int.not_lt.mp hneg) (by omega)
    rw [hmod, if_pos (by omega)]
    omega

/-! ## Accepted run lists -/

variable {totalClusters : Nat}

theorem header_lenSize (header : UInt8) : header.toNat &&& 0x0F = header.toNat % 16 :=
  Nat.and_two_pow_sub_one_eq_mod header.toNat 4

theorem header_offSize (header : UInt8) : (header.toNat >>> 4) &&& 0x0F = header.toNat / 16 := by
  have hlt : header.toNat < 256 := header.toNat_lt
  have hmask := Nat.and_two_pow_sub_one_eq_mod (header.toNat >>> 4) 4
  rw [Nat.shiftRight_eq_div_pow] at hmask ⊢
  show header.toNat / 2 ^ 4 &&& 2 ^ 4 - 1 = header.toNat / 16
  omega

/-- What one successful turn of the loop reads and places. -/
theorem decodeElements_cons {fuel : Nat} {header : UInt8} {rest : Bytes} {st : RunlistState}
    {runs : List RunElement} (hheader : header ≠ 0)
    (h : decodeElements totalClusters (fuel + 1) (header :: rest) st = .ok runs) :
    let lenSize := header.toNat % 16
    let offSize := header.toNat / 16
    1 ≤ lenSize ∧ lenSize ≤ 8 ∧ offSize ≤ 8 ∧ lenSize + offSize ≤ rest.length ∧
      ∃ currentLcn totalLen run, run.clusterCount = (Bytes.slice rest 0 lenSize).leValue ∧
        decodeElements totalClusters fuel (rest.drop (lenSize + offSize))
          ⟨currentLcn, totalLen, st.runs ++ [run]⟩ = .ok runs ∧
        (offSize = 0 ∧ currentLcn = st.currentLcn ∧ run.lcn = none ∨
          0 < offSize ∧
            currentLcn = st.currentLcn +
              signedValue (Bytes.slice rest lenSize (lenSize + offSize)) ∧
            0 ≤ currentLcn ∧ run.lcn = some (asU64 currentLcn) ∧
            asU64 currentLcn + run.clusterCount ≤ totalClusters) := by
  simp only [decodeElements, if_neg hheader, header_lenSize, header_offSize, bind_eq_ok,
    throw_bind, ite_throw_eq_ok, okOr_eq_ok, Bytes.getRange?_eq_some] at h
  obtain ⟨hsizes, lenBytes, ⟨_, hlen, rfl⟩, totalLen, hadmit, ⟨currentLcn, lcn⟩, hlcn, _, hrest⟩ :=
    h
  have hpos : 1 ≤ header.toNat % 16 := by omega
  simp only [elementLcn] at hlcn
  -- an empty offset field is a sparse run and leaves the LCN where it was
  split at hlcn
  · next hzero =>
    cases hlcn
    exact ⟨hpos, by omega, by omega, by omega, _, _, ⟨_, _⟩, rfl, hrest,
      .inl ⟨hzero, rfl, rfl⟩⟩
  · next hnonzero =>
    simp only [bind_eq_ok, okOr_eq_ok, Bytes.getRange?_eq_some, pure_eq_ok, Prod.mk.injEq] at hlcn
    obtain ⟨field, ⟨_, hoff, rfl⟩, moved, hrelocate, rfl, rfl⟩ := hlcn
    have hinside := relocate_ok hrelocate
    simp only [relocate, throw_bind, ite_throw_eq_ok] at hrelocate
    obtain ⟨hrange, hmoved⟩ := hrelocate
    -- the addition is exact, only the narrowing that follows may lose bits
    have hmoved : moved = st.currentLcn + signedValue
        (Bytes.slice rest (header.toNat % 16) (header.toNat % 16 + header.toNat / 16)) := by
      split at hmoved
      · simp only [ite_throw_eq_ok, pure_eq_ok] at hmoved
        exact hmoved.2.symm
      · cases hmoved
    rw [← hmoved] at hrange
    exact ⟨hpos, by omega, by omega, hoff, moved, _, ⟨_, _⟩, rfl, hrest,
      .inr ⟨by omega, hmoved, by omega, rfl, hinside⟩⟩

/-- The elements that the loop reads, and the runs it adds for them. -/
theorem decodeElements_placed {fuel : Nat} {buf : Bytes} {st : RunlistState}
    {runs : List RunElement} (h : decodeElements totalClusters fuel buf st = .ok runs) :
    (∀ f ∈ readElements fuel buf, f.Sized) ∧
      (∃ trailing, buf = encodeFields (readElements fuel buf) ++ 0 :: trailing) ∧
      ∃ later, runs = st.runs ++ later ∧
        Placed asU64 totalClusters st.currentLcn (readElements fuel buf) later := by
  -- on the fuel, one element of the run list for each unit
  induction fuel generalizing buf st with
  | zero => cases h
  | succ fuel ih =>
    cases buf with
    | nil => cases h
    | cons header rest =>
      by_cases hheader : header = 0
      · subst hheader
        simp only [decodeElements, if_true] at h
        cases h
        refine ⟨?_, ⟨rest, rfl⟩, [], by rw [List.append_nil], trivial⟩
        intro f hf
        cases hf
      · obtain ⟨hpos, hlen, hoff, hinside, currentLcn, totalLen, run, hcount, hrest, hplace⟩ :=
          decodeElements_cons hheader h
        obtain ⟨hsized, ⟨trailing, htrailing⟩, later, hruns, hlater⟩ := ih hrest
        have hlenBytes : (Bytes.slice rest 0 (header.toNat % 16)).length = header.toNat % 16 := by
          rw [Bytes.length_slice]
          omega
        have hoffBytes : (Bytes.slice rest (header.toNat % 16)
            (header.toNat % 16 + header.toNat / 16)).length = header.toNat / 16 := by
          rw [Bytes.length_slice]
          omega
        simp only [readElements, if_neg hheader]
        refine ⟨?_, ⟨trailing, ?_⟩, run :: later, by rw [hruns]; simp, hcount, ?_⟩
        · intro f hf
          rcases List.mem_cons.mp hf with rfl | hf
          · exact ⟨by rw [hlenBytes]; exact hpos, by rw [hlenBytes]; exact hlen,
              by rw [hoffBytes]; exact hoff⟩
          · exact hsized f hf
        -- the header byte is made of the two widths, so encoding gives the bytes back
        · have hbyte : UInt8.ofNat (header.toNat % 16 + 16 * (header.toNat / 16)) = header := by
            rw [Nat.mod_add_div]
            exact UInt8.ofNat_toNat
          have hfields : Bytes.slice rest 0 (header.toNat % 16) ++
              Bytes.slice rest (header.toNat % 16) (header.toNat % 16 + header.toNat / 16) =
                rest.take (header.toNat % 16 + header.toNat / 16) := by
            rw [Bytes.slice_append_slice rest (Nat.zero_le _) (Nat.le_add_right _ _)]
            rfl
          simp only [encodeFields, List.flatMap_cons, RunField.encode, hlenBytes, hoffBytes, hbyte,
            hfields, List.cons_append, List.append_assoc]
          rw [← encodeFields, ← htrailing, List.take_append_drop]
        -- a run is sparse exactly when its offset field is empty
        · rcases hplace with ⟨hzero, rfl, hlcn⟩ | ⟨hnonzero, rfl, hge, hlcn, hle⟩
          · rw [if_pos (List.eq_nil_of_length_eq_zero (by rw [hoffBytes]; exact hzero))]
            exact ⟨hlcn, hlater⟩
          · rw [if_neg]
            · exact ⟨hge, hlcn, hle, hlater⟩
            · intro hnil
              have hempty : (Bytes.slice rest (header.toNat % 16)
                  (header.toNat % 16 + header.toNat / 16)).length = 0 :=
                congrArg List.length hnil
              omega

/-- The runs are at the exact sums as long as these fit 64 bits. -/
theorem Placed.toNat_iff {current : Int} {fields : List RunField} {runs : List RunElement}
    (h : Placed asU64 totalClusters current fields runs) :
    Placed Int.toNat totalClusters current fields runs ↔
      ∀ start ∈ offsetSums current fields, start < 2 ^ 64 := by
  -- on the fields together with the runs decoded from them
  induction fields generalizing current runs with
  | nil =>
    cases runs with
    | nil => exact ⟨fun _ start hstart => (by cases hstart), fun _ => trivial⟩
    | cons run runs => cases h
  | cons f fields ih =>
    cases runs with
    | nil => cases h
    | cons run runs =>
      obtain ⟨hcount, h⟩ := h
      rw [offsetSums]
      show (run.clusterCount = _ ∧ _) ↔ _
      split at h
      · next hnil =>
        obtain ⟨hlcn, hrest⟩ := h
        rw [if_pos hnil, if_pos hnil]
        constructor
        · intro hlocated
          exact (ih hrest).mp hlocated.2.2
        · intro hsums
          exact ⟨hcount, hlcn, (ih hrest).mpr hsums⟩
      · next hnil =>
        obtain ⟨hge, hlcn, hle, hrest⟩ := h
        rw [if_neg hnil, if_neg hnil]
        -- `as u64` is exact on the non-negative sums below 2^64 only
        have hnarrow : asU64 (current + signedValue f.offset) =
            (current + signedValue f.offset).toNat ↔ current + signedValue f.offset < 2 ^ 64 := by
          rw [asU64]
          omega
        constructor
        · intro hlocated
          obtain ⟨_, _, hexact, _, hlocated⟩ := hlocated
          rw [hlcn, Option.some.injEq] at hexact
          intro start hstart
          rcases List.mem_cons.mp hstart with rfl | hstart
          · exact hnarrow.mp hexact
          · exact (ih hrest).mp hlocated start hstart
        · intro hsums
          have hexact := hnarrow.mpr (hsums _ List.mem_cons_self)
          rw [hexact] at hlcn hle
          exact ⟨hcount, hge, hlcn, hle,
            (ih hrest).mpr fun start hstart => hsums start (List.mem_cons_of_mem _ hstart)⟩

/-- The runs of an accepted run list are those of its elements, placed through 64 bits. -/
theorem decodeRunlist_placed {buf : Bytes} {runs : List RunElement}
    (h : decodeRunlist buf totalClusters = .ok runs) :
    (∀ f ∈ readFields buf, f.Sized) ∧
      (∃ trailing, buf = encodeFields (readFields buf) ++ 0 :: trailing) ∧
      Placed asU64 totalClusters 0 (readFields buf) runs := by
  obtain ⟨hsized, htrailing, later, hruns, hplaced⟩ := decodeElements_placed h
  rw [List.nil_append] at hruns
  rw [hruns]
  exact ⟨hsized, htrailing, hplaced⟩

theorem signedValue_lt {field : Bytes} (h : field.length ≤ 8) : signedValue field < 2 ^ 63 := by
  have hlt := Bytes.leValue_lt field
  rw [show (256 : Nat) = 2 ^ 8 from rfl, ← Nat.pow_mul] at hlt
  have hhalf : 2 ^ (8 * field.length - 1) ≤ 2 ^ 63 := Nat.pow_le_pow_right (by decide) (by omega)
  have hcast : ((2 ^ (8 * field.length) : Nat) : Int) = 2 ^ (8 * field.length) := by
    push_cast
    rfl
  simp only [signedValue, ← hcast]
  split <;> omega

/-- On a volume of at most `2 ^ 63 + 1` clusters the sums of the offsets fit 64 bits. -/
theorem Placed.offsetSums_lt {current : Int} {fields : List RunField} {runs : List RunElement}
    (h : Placed asU64 totalClusters current fields runs) (hsized : ∀ f ∈ fields, f.Sized)
    (hpos : ∀ run ∈ runs, 0 < run.clusterCount) (htotal : totalClusters ≤ 2 ^ 63 + 1)
    (hcurrent : current ≤ 2 ^ 63) :
    ∀ start ∈ offsetSums current fields, start < 2 ^ 64 := by
  induction fields generalizing current runs with
  | nil =>
    intro start hstart
    cases hstart
  | cons f fields ih =>
    cases runs with
    | nil => cases h
    | cons run runs =>
      obtain ⟨_, h⟩ := h
      have hsizedTail : ∀ f ∈ fields, f.Sized := fun g hg => hsized g (List.mem_cons_of_mem _ hg)
      have hposTail : ∀ r ∈ runs, 0 < r.clusterCount := fun r hr =>
        hpos r (List.mem_cons_of_mem _ hr)
      rw [offsetSums]
      split at h
      · next hnil =>
        rw [if_pos hnil]
        exact ih h.2 hsizedTail hposTail hcurrent
      · next hnil =>
        obtain ⟨hge, _, hle, hrest⟩ := h
        have hsigned := signedValue_lt (hsized f List.mem_cons_self).offset_le
        have hrun := hpos run List.mem_cons_self
        have hstart : current + signedValue f.offset < 2 ^ 64 := by omega
        -- the run ends inside the volume, so the next offset starts from at most 2^63
        have hnext : current + signedValue f.offset ≤ 2 ^ 63 := by
          rw [asU64] at hle
          omega
        rw [if_neg hnil]
        intro start hmem
        rcases List.mem_cons.mp hmem with rfl | hmem
        · exact hstart
        · exact ih hrest hsizedTail hposTail hnext start hmem

/-! ## Round trip -/

/-- A run with the widths of its two fields. -/
structure SizedRun where
  run : RunElement
  lenSize : Nat
  offSize : Nat
deriving DecidableEq, Repr

/-- The fields of a run behind the LCN `current`. -/
def SizedRun.field (current : Nat) (r : SizedRun) : RunField where
  length := Bytes.ofLE r.lenSize r.run.clusterCount
  offset :=
    match r.run.lcn with
    | none => []
    | some lcn => ofSigned r.offSize ((lcn : Int) - current)

/-- The fields of a list of runs; a sparse run leaves the current LCN alone. -/
def sizedFields : Nat → List SizedRun → List RunField
  | _, [] => []
  | current, r :: rs => r.field current :: sizedFields (r.run.lcn.getD current) rs

/-- The widths hold the values of the run: the length unsigned, the offset signed. -/
structure SizedRun.Admissible (current : Nat) (r : SizedRun) : Prop where
  lenSize_pos : 1 ≤ r.lenSize
  lenSize_le : r.lenSize ≤ 8
  length_lt : r.run.clusterCount < 256 ^ r.lenSize
  offSize_pos : ∀ lcn, r.run.lcn = some lcn → 1 ≤ r.offSize
  offSize_le : ∀ lcn, r.run.lcn = some lcn → r.offSize ≤ 8
  offset_ge : ∀ lcn, r.run.lcn = some lcn →
    -(2 ^ (8 * r.offSize - 1) : Int) ≤ (lcn : Int) - current
  offset_lt : ∀ lcn, r.run.lcn = some lcn → (lcn : Int) - current < 2 ^ (8 * r.offSize - 1)

/-- Every run has admissible widths behind the runs before it. -/
def AdmissibleWidths : Nat → List SizedRun → Prop
  | _, [] => True
  | current, r :: rs => r.Admissible current ∧ AdmissibleWidths (r.run.lcn.getD current) rs

variable {current : Nat} {r : SizedRun}

theorem SizedRun.Admissible.sized (h : r.Admissible current) : (r.field current).Sized where
  length_pos := by simpa [SizedRun.field] using h.lenSize_pos
  length_le := by simpa [SizedRun.field] using h.lenSize_le
  offset_le := by
    cases hlcn : r.run.lcn with
    | none => simp [SizedRun.field, hlcn]
    | some lcn => simpa [SizedRun.field, hlcn, length_ofSigned] using h.offSize_le lcn hlcn

theorem SizedRun.Admissible.leValue_length (h : r.Admissible current) :
    (r.field current).length.leValue = r.run.clusterCount :=
  Bytes.leValue_ofLE h.length_lt

/-- The header of an element with `tail` behind it announces its two fields. -/
theorem RunField.Sized.header {f : RunField} (h : f.Sized) :
    UInt8.ofNat (f.length.length + 16 * f.offset.length) ≠ 0 ∧
      (UInt8.ofNat (f.length.length + 16 * f.offset.length)).toNat % 16 = f.length.length ∧
      (UInt8.ofNat (f.length.length + 16 * f.offset.length)).toNat / 16 = f.offset.length := by
  have hpos := h.length_pos
  have hlen := h.length_le
  have hoff := h.offset_le
  have hvalue : (UInt8.ofNat (f.length.length + 16 * f.offset.length)).toNat =
      f.length.length + 16 * f.offset.length := by
    rw [UInt8.toNat_ofNat']
    omega
  rw [hvalue]
  refine ⟨?_, by omega, by omega⟩
  intro hzero
  rw [hzero] at hvalue
  have : (0 : UInt8).toNat = 0 := rfl
  omega

theorem slice_field {f : RunField} (tail : Bytes) :
    Bytes.slice (f.length ++ f.offset ++ tail) 0 f.length.length = f.length ∧
      Bytes.slice (f.length ++ f.offset ++ tail) f.length.length
        (f.length.length + f.offset.length) = f.offset ∧
      (f.length ++ f.offset ++ tail).drop (f.length.length + f.offset.length) = tail := by
  refine ⟨?_, ?_, ?_⟩
  · simp [Bytes.slice]
  · simp [Bytes.slice]
  · rw [← List.length_append, List.drop_left]

/-- The length of an admitted run fits the total. -/
theorem admitLength_eq_ok {totalLen clusterCount : Nat} (htotal : totalClusters < 2 ^ 64)
    (hpos : 0 < clusterCount) (hle : totalLen + clusterCount ≤ totalClusters) :
    admitLength totalClusters totalLen clusterCount = .ok (totalLen + clusterCount) := by
  have hadd : U64.checkedAdd totalLen clusterCount = some (totalLen + clusterCount) :=
    U64.checkedAdd_eq_some.mpr ⟨by omega, rfl⟩
  rw [admitLength, if_neg (by omega)]
  simp only [hadd, okOr, bind_ok, throw_bind]
  rw [if_neg (by omega)]
  rfl

/-- An offset field that leads to a run inside the volume is followed. -/
theorem relocate_eq_ok {clusterCount lcn : Nat} {currentLcn : Int} {field : Bytes}
    (htotal : totalClusters < 2 ^ 64) (hpos : 0 < clusterCount)
    (hfield : currentLcn + signedValue field = lcn) (hle : lcn + clusterCount ≤ totalClusters) :
    relocate totalClusters currentLcn clusterCount field = .ok (lcn : Int) := by
  have hnarrow : asU64 (lcn : Int) = lcn := by
    rw [asU64]
    omega
  have hadd : U64.checkedAdd lcn clusterCount = some (lcn + clusterCount) :=
    U64.checkedAdd_eq_some.mpr ⟨by omega, rfl⟩
  simp only [relocate, hfield, hnarrow, throw_bind, hadd]
  rw [if_neg (by omega), if_neg (by omega)]
  rfl

/-- The loop reads an encoded run back. -/
theorem decodeElements_encode {fuel totalLen : Nat} {tail : Bytes} {runs : List RunElement}
    (h : r.Admissible current) (htotal : totalClusters < 2 ^ 64) (hpos : 0 < r.run.clusterCount)
    (hle : totalLen + r.run.clusterCount ≤ totalClusters)
    (hinside : ∀ lcn, r.run.lcn = some lcn → lcn + r.run.clusterCount ≤ totalClusters)
    (hcount : runs.length + 1 ≤ maxRuns) :
    decodeElements totalClusters (fuel + 1) ((r.field current).encode ++ tail)
        ⟨current, totalLen, runs⟩ =
      decodeElements totalClusters fuel tail
        ⟨(r.run.lcn.getD current : Nat), totalLen + r.run.clusterCount, runs ++ [r.run]⟩ := by
  obtain ⟨hheader, hlenSize, hoffSize⟩ := h.sized.header
  obtain ⟨hlength, hoffset, hdrop⟩ := @slice_field (r.field current) tail
  have hlen := h.sized.length_pos
  have hlen_le := h.sized.length_le
  have hoff_le := h.sized.offset_le
  have hvalue := h.leValue_length
  have htotalLen : ((r.field current).length ++ (r.field current).offset ++ tail).length =
      (r.field current).length.length + (r.field current).offset.length + tail.length := by
    rw [List.length_append, List.length_append]
  have hgetLength : Bytes.getRange? ((r.field current).length ++ (r.field current).offset ++ tail) 0
      (r.field current).length.length = some (r.field current).length :=
    Bytes.getRange?_eq_some.mpr ⟨Nat.zero_le _, by omega, hlength⟩
  have hgetOffset : Bytes.getRange? ((r.field current).length ++ (r.field current).offset ++ tail)
      (r.field current).length.length
      ((r.field current).length.length + (r.field current).offset.length) =
        some (r.field current).offset :=
    Bytes.getRange?_eq_some.mpr ⟨by omega, by omega, hoffset⟩
  -- the signed difference to the previous run brings the LCN back
  have hlcn :
    elementLcn totalClusters ((r.field current).length ++ (r.field current).offset ++ tail)
      (r.field current).length.length (r.field current).offset.length current
        r.run.clusterCount = .ok (((r.run.lcn.getD current : Nat) : Int), r.run.lcn) := by
    cases hr : r.run.lcn with
    | none =>
      have hnil : (r.field current).offset = [] := by simp [SizedRun.field, hr]
      rw [elementLcn, hnil]
      rfl
    | some lcn =>
      have hfield : (r.field current).offset = ofSigned r.offSize ((lcn : Int) - current) := by
        simp [SizedRun.field, hr]
      have hsize : (r.field current).offset.length = r.offSize := by
        rw [hfield, length_ofSigned]
      have hsigned : (current : Int) + signedValue (r.field current).offset = lcn := by
        rw [hfield, signedValue_ofSigned (h.offSize_pos lcn hr) (h.offset_ge lcn hr)
          (h.offset_lt lcn hr)]
        omega
      have hpositive := h.offSize_pos lcn hr
      have hnarrow : asU64 (lcn : Int) = lcn := by
        have := hinside lcn hr
        rw [asU64]
        omega
      rw [elementLcn, if_neg (by omega), hgetOffset]
      simp only [okOr, bind_ok, relocate_eq_ok htotal hpos hsigned (hinside lcn hr), hnarrow]
      rfl
  simp only [RunField.encode, List.cons_append, decodeElements, if_neg hheader, header_lenSize,
    header_offSize, hlenSize, hoffSize, throw_bind, hgetLength, okOr, bind_ok, hvalue,
    admitLength_eq_ok htotal hpos hle, hlcn, List.length_append, List.length_singleton]
  rw [if_neg (by omega), if_neg (by omega), hdrop]

/-- The loop reads the encoding of a list of runs back, up to the terminator. -/
theorem decodeElements_encodeFields {rs : List SizedRun} {fuel totalLen : Nat} {trailing : Bytes}
    {runs : List RunElement} (htotal : totalClusters < 2 ^ 64) (h : AdmissibleWidths current rs)
    (hfit : RunsFit totalClusters (rs.map (·.run)))
    (hle : totalLen + totalRunClusters (rs.map (·.run)) ≤ totalClusters)
    (hcount : runs.length + rs.length ≤ maxRuns) (hfuel : rs.length < fuel) :
    decodeElements totalClusters fuel (encodeFields (sizedFields current rs) ++ 0 :: trailing)
      ⟨current, totalLen, runs⟩ = .ok (runs ++ rs.map (·.run)) := by
  induction rs generalizing current fuel totalLen runs with
  | nil =>
    obtain ⟨fuel, rfl⟩ := Nat.exists_eq_add_one_of_ne_zero (show fuel ≠ 0 by omega)
    simp [sizedFields, encodeFields, decodeElements]
  | cons r rs ih =>
    obtain ⟨fuel, rfl⟩ := Nat.exists_eq_add_one_of_ne_zero (show fuel ≠ 0 by omega)
    obtain ⟨hr, hrs⟩ := h
    rw [List.map_cons] at hfit hle
    rw [totalRunClusters_cons] at hle
    rw [List.length_cons] at hcount hfuel
    have hinside := hfit.inside r.run List.mem_cons_self
    have hpos := hfit.pos r.run List.mem_cons_self
    simp only [sizedFields, encodeFields, List.flatMap_cons, List.append_assoc]
    rw [decodeElements_encode hr htotal hpos (by omega) hinside (by omega), ← encodeFields,
      ih hrs hfit.tail (by omega) (by rw [List.length_append, List.length_singleton]; omega)
        (by omega), List.append_assoc]
    rfl

theorem length_le_encodeFields (fields : List RunField) :
    fields.length ≤ (encodeFields fields).length := by
  induction fields with
  | nil => exact Nat.le_refl 0
  | cons f fields ih =>
    rw [encodeFields, List.flatMap_cons, ← encodeFields, List.length_append, List.length_cons,
      RunField.encode, List.length_cons]
    omega

theorem length_sizedFields (current : Nat) (rs : List SizedRun) :
    (sizedFields current rs).length = rs.length := by
  induction rs generalizing current with
  | nil => rfl
  | cons r rs ih => rw [sizedFields, List.length_cons, ih, List.length_cons]

/-- Decoding the encoding of a list of runs gives the list back. -/
theorem decodeRunlist_encode {rs : List SizedRun} {trailing : Bytes}
    (htotal : totalClusters < 2 ^ 64) (h : AdmissibleWidths 0 rs)
    (hfit : RunsFit totalClusters (rs.map (·.run))) (hcount : rs.length ≤ maxRuns) :
    decodeRunlist (encodeFields (sizedFields 0 rs) ++ 0 :: trailing) totalClusters =
      .ok (rs.map (·.run)) := by
  have hlength := length_le_encodeFields (sizedFields 0 rs)
  rw [length_sizedFields] at hlength
  rw [decodeRunlist]
  refine decodeElements_encodeFields htotal h hfit ?_ ?_ ?_
  · rw [Nat.zero_add]
    exact hfit.total_le
  · rw [List.length_nil, Nat.zero_add]
    exact hcount
  · rw [List.length_append]
    omega

/-! ## Exact positions -/

/-- Decoding reads every encoding back; and of an accepted run list, the runs start at the
    exact sums of the offsets inside the volume exactly when the sums fit 64 bits, as they
    do on every volume of at most `2 ^ 63 + 1` clusters. -/
theorem decodeRunlist_located_iff (totalClusters : Nat) (htotal : totalClusters < 2 ^ 64) :
    (∀ (rs : List SizedRun) (trailing : Bytes), AdmissibleWidths 0 rs →
      RunsFit totalClusters (rs.map (·.run)) → rs.length ≤ maxRuns →
        decodeRunlist (encodeFields (sizedFields 0 rs) ++ 0 :: trailing) totalClusters =
          .ok (rs.map (·.run))) ∧
    ∀ (buf : Bytes) (runs : List RunElement), decodeRunlist buf totalClusters = .ok runs →
      (Located totalClusters (readFields buf) runs ∧ totalRunClusters runs ≤ totalClusters ↔
        ∀ start ∈ offsetSums 0 (readFields buf), start < 2 ^ 64) ∧
      (∃ trailing, buf = encodeFields (readFields buf) ++ 0 :: trailing) ∧
      (totalClusters ≤ 2 ^ 63 + 1 → Located totalClusters (readFields buf) runs) := by
  constructor
  · intro rs trailing h hfit hcount
    exact decodeRunlist_encode htotal h hfit hcount
  · intro buf runs h
    obtain ⟨hsized, htrailing, hplaced⟩ := decodeRunlist_placed h
    have hfit := decodeRunlist_fit h
    refine ⟨?_, htrailing, ?_⟩
    · constructor
      · intro hlocated
        exact hplaced.toNat_iff.mp hlocated.1
      · intro hsums
        exact ⟨hplaced.toNat_iff.mpr hsums, hfit.total_le⟩
    · intro hsmall
      exact hplaced.toNat_iff.mpr
        (hplaced.offsetSums_lt hsized hfit.pos hsmall (by decide))

/-- Two runs, the second at a lower LCN, with fields wider than they need to be. -/
def twoRuns : Bytes :=
  encodeFields (sizedFields 0 [⟨⟨2, some 100⟩, 1, 2⟩, ⟨⟨3, some 40⟩, 3, 1⟩]) ++ 0 :: [7]

/-- A run list whose third offset carries the exact sum past `2 ^ 64`. -/
def wrappedRunlist : Bytes :=
  encodeFields [⟨[1], List.replicate 7 0xFF ++ [0x7F]⟩, ⟨[1], List.replicate 7 0xFF ++ [0x7F]⟩,
    ⟨[1], [5]⟩] ++ [0]

/-- It is accepted with its third run at the sum modulo `2 ^ 64`. -/
theorem decodeRunlist_wrappedRunlist : decodeRunlist wrappedRunlist (2 ^ 64 - 1) =
    .ok [⟨1, some (2 ^ 63 - 1)⟩, ⟨1, some (2 ^ 64 - 2)⟩, ⟨1, some 3⟩] := by
  decide +kernel

/-- The two runs are read back at the sums of their offsets, and the third run of the other list
    is not. -/
theorem decodeRunlist_located_iff_two :
    (decodeRunlist twoRuns 1000 = .ok [⟨2, some 100⟩, ⟨3, some 40⟩] ∧
      Located 1000 (readFields twoRuns) [⟨2, some 100⟩, ⟨3, some 40⟩]) ∧
    ¬(Located (2 ^ 64 - 1) (readFields wrappedRunlist)
        [⟨1, some (2 ^ 63 - 1)⟩, ⟨1, some (2 ^ 64 - 2)⟩, ⟨1, some 3⟩] ∧
      totalRunClusters [⟨1, some (2 ^ 63 - 1)⟩, ⟨1, some (2 ^ 64 - 2)⟩, ⟨1, some 3⟩] ≤
        2 ^ 64 - 1) := by
  have hdecoded : decodeRunlist twoRuns 1000 = .ok [⟨2, some 100⟩, ⟨3, some 40⟩] := by
    refine (decodeRunlist_located_iff 1000 (by decide)).1 _ [7] ?_ ?_ (by decide)
    · refine ⟨⟨by decide, by decide, by decide, ?_, ?_, ?_, ?_⟩,
        ⟨by decide, by decide, by decide, ?_, ?_, ?_, ?_⟩, trivial⟩ <;>
        (intro lcn hlcn; cases hlcn; decide)
    · refine ⟨?_, ?_, by decide⟩ <;> simp
  refine ⟨⟨hdecoded, ?_⟩, fun hlocated => ?_⟩
  · have hsums : ∀ start ∈ offsetSums 0 (readFields twoRuns), start < 2 ^ 64 := by decide +kernel
    exact (((decodeRunlist_located_iff 1000 (by decide)).2 _ _ hdecoded).1.mpr hsums).1
  · have hsums := ((decodeRunlist_located_iff (2 ^ 64 - 1) (by decide)).2 _ _
      decodeRunlist_wrappedRunlist).1.mp hlocated
    revert hsums
    decide +kernel

theorem decodeRunlist_wraps :
    ¬ ∀ (totalClusters : Nat), totalClusters < 2 ^ 64 → ∀ (buf : Bytes) (runs : List RunElement),
      decodeRunlist buf totalClusters = .ok runs →
        Located totalClusters (readFields buf) runs ∧ totalRunClusters runs ≤ totalClusters := by
  intro h
  obtain ⟨hlocated, _⟩ := h (2 ^ 64 - 1) (by decide) _ _ decodeRunlist_wrappedRunlist
  obtain ⟨_, _, _, _, _, _, _, _, _, _, hthird, _⟩ := hlocated
  revert hthird
  decide +kernel

end Undelete.Ntfs
