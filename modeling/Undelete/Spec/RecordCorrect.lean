import Undelete.ForStd.Except
import Undelete.Native.Ntfs.Record

/-!
# Update sequence arrays

The fixups of an MFT record on its bytes. `savedPosition` says which byte the update
sequence array keeps for a position, and a fixed-up record is the raw record read through
it. A record whose array has an entry for each of its blocks is restored block by block,
and so is the protected form of any record content.

## Key results

- `parseFileRecord_data`: the bytes of a fixed-up record.
- `parseFileRecord_checked`: the blocks that the array covers ended with the update
  sequence number.
- `parseFileRecord_protect`: a protected record parses to its content.
- `parseFileRecord_restores_iff`: a parsed record is restored exactly when the array covers
  it.
-/

namespace Undelete.Ntfs

open Except

/-! ## Fixups -/

/-- The position of the byte that the update sequence array keeps for position `pos`. It
    keeps the last two bytes of the first `usaCount - 1` sectors. -/
def savedPosition (sector usaOffset usaCount pos : Nat) : Option Nat :=
  if sector ≤ pos % sector + 2 ∧ pos / sector + 1 < usaCount then
    some (usaOffset + (pos / sector + 1) * 2 + (pos % sector + 2 - sector))
  else none

/-- Where byte `pos` of the fixed-up record comes from in the raw record. -/
def sourcePosition (raw : Bytes) (sector pos : Nat) : Nat :=
  (savedPosition sector (usaOffsetOf raw) (usaCountOf raw) pos).getD pos

variable {sector usaOffset : Nat} {raw data : Bytes}

/-- Byte `j` of the last two bytes of sector `k`. -/
theorem savedPosition_sectorEnd {k usaCount j : Nat} (hsector : 2 ≤ sector) (hj : j < 2)
    (hk : k + 1 < usaCount) :
    savedPosition sector usaOffset usaCount ((k + 1) * sector - 2 + j) =
      some (usaOffset + (k + 1) * 2 + j) := by
  have hmul : (k + 1) * sector = k * sector + sector := Nat.succ_mul k sector
  have hdiv : ((k + 1) * sector - 2 + j) / sector = k :=
    Nat.div_eq_of_lt_le (by omega) (by omega)
  have hmod := Nat.div_add_mod ((k + 1) * sector - 2 + j) sector
  rw [hdiv, Nat.mul_comm] at hmod
  rw [savedPosition, hdiv, if_pos ⟨by omega, hk⟩]
  congr 1
  omega

/-- One more sector does not matter outside its last two bytes. -/
theorem savedPosition_succ {k pos : Nat} (hsector : 2 ≤ sector)
    (hfirst : pos ≠ (k + 1) * sector - 2)
    (hsecond : pos ≠ (k + 1) * sector - 1) :
    savedPosition sector usaOffset (k + 2) pos = savedPosition sector usaOffset (k + 1) pos := by
  simp only [savedPosition]
  by_cases hk : pos / sector = k
  · have hmul : (k + 1) * sector = k * sector + sector := Nat.succ_mul k sector
    have hmod := Nat.div_add_mod pos sector
    have hlt := Nat.mod_lt pos (show 0 < sector by omega)
    rw [hk, Nat.mul_comm] at hmod
    rw [if_neg (by omega), if_neg (by omega)]
  · have hiff : (sector ≤ pos % sector + 2 ∧ pos / sector + 1 < k + 2) ↔
        (sector ≤ pos % sector + 2 ∧ pos / sector + 1 < k + 1) := by omega
    simp only [hiff]

/-- The record after the fixups of its first `count` sectors. -/
theorem foldlM_applyFixup {count : Nat} (hsector : 2 ≤ sector)
    (h : (List.range' 1 count).foldlM (applyFixup raw sector usaOffset) raw = .ok data) :
    data.length = raw.length ∧ ∀ pos < raw.length, data[pos]? =
      some (raw.getD ((savedPosition sector usaOffset (count + 1) pos).getD pos) 0) := by
  induction count generalizing data with
  | zero =>
    cases h
    refine ⟨rfl, fun pos hpos => ?_⟩
    simp [savedPosition, hpos]
  | succ count ih =>
    rw [List.range'_1_concat, List.foldlM_append, bind_eq_ok] at h
    obtain ⟨before, hbefore, hlast⟩ := h
    obtain ⟨hlength, hbytes⟩ := ih hbefore
    simp only [List.foldlM_cons, List.foldlM_nil, bind_eq_ok, pure_eq_ok, applyFixup] at hlast
    obtain ⟨_, hstep, rfl⟩ := hlast
    split at hstep
    · cases hstep
    · next hinside =>
      split at hstep
      · cases hstep
      · cases hstep
        rw [Nat.add_comm 1 count] at hinside ⊢
        have hend : 2 ≤ (count + 1) * sector :=
          Nat.le_trans hsector (Nat.le_mul_of_pos_left _ (Nat.succ_pos count))
        refine ⟨by simp [hlength], fun pos hpos => ?_⟩
        rw [List.getElem?_set, List.getElem?_set, List.length_set]
        by_cases hsecond : (count + 1) * sector - 1 = pos
        · have hsaved := @savedPosition_sectorEnd sector usaOffset count (count + 2) 1 hsector
            (by omega) (by omega)
          rw [show (count + 1) * sector - 2 + 1 = pos by omega] at hsaved
          rw [if_pos hsecond, if_pos (by omega), hsaved, Option.getD_some]
        · rw [if_neg hsecond]
          by_cases hfirst : (count + 1) * sector - 2 = pos
          · have hsaved := @savedPosition_sectorEnd sector usaOffset count (count + 2) 0 hsector
              (by omega) (by omega)
            simp only [Nat.add_zero, hfirst] at hsaved
            rw [if_pos hfirst, if_pos (by omega), hsaved, Option.getD_some, Nat.add_zero]
          · rw [if_neg hfirst, hbytes pos hpos,
              savedPosition_succ hsector (Ne.symm hfirst) (Ne.symm hsecond)]

/-- A byte of the fixed-up record is the raw byte at its source position. -/
theorem parseFileRecord_data {record : FileRecord} (hsector : 2 ≤ sector)
    (h : parseFileRecord raw sector = .ok record) :
    record.data.length = raw.length ∧ ∀ pos < raw.length,
      sourcePosition raw sector pos < raw.length ∧
      record.data[pos]? = raw[sourcePosition raw sector pos]? := by
  simp only [parseFileRecord, bind_eq_ok, throw_bind, ite_throw_eq_ok, pure_eq_ok] at h
  obtain ⟨_, hcount, husa, data, hdata, _, rfl⟩ := h
  obtain ⟨hlength, hbytes⟩ := foldlM_applyFixup hsector hdata
  refine ⟨hlength, fun pos hpos => ?_⟩
  have hcount : usaCountOf raw - 1 + 1 = usaCountOf raw := by omega
  have hlt : sourcePosition raw sector pos < raw.length := by
    rw [sourcePosition, savedPosition]
    have hmod := Nat.mod_lt pos (show 0 < sector by omega)
    split
    · rw [Option.getD_some]; omega
    · exact hpos
  refine ⟨hlt, ?_⟩
  rw [hbytes pos hpos, hcount, ← sourcePosition, List.getD_eq_getElem?_getD,
    List.getElem?_eq_getElem hlt, Option.getD_some]

/-! ## Checked blocks -/

/-- The last two bytes of block `i`; blocks count from one. -/
def blockEnd (b : Bytes) (sector i : Nat) : Bytes := b.slice (i * sector - 2) (i * sector)

/-- The fixups before block `count + 1` leave its last two bytes alone. -/
theorem blockEnd_of_foldlM {count : Nat} (hsector : 2 ≤ sector)
    (h : (List.range' 1 count).foldlM (applyFixup raw sector usaOffset) raw = .ok data)
    (hinside : (count + 1) * sector ≤ raw.length) :
    blockEnd data sector (count + 1) = blockEnd raw sector (count + 1) := by
  obtain ⟨_, hbytes⟩ := foldlM_applyFixup hsector h
  apply Bytes.slice_congr
  intro pos hstart hstop
  have hmul : (count + 1) * sector = count * sector + sector := Nat.succ_mul count sector
  have hdiv : pos / sector = count := Nat.div_eq_of_lt_le (by omega) (by omega)
  have hsaved : savedPosition sector usaOffset (count + 1) pos = none := by
    rw [savedPosition, if_neg (by omega)]
  have hpos : pos < raw.length := by omega
  rw [hbytes pos hpos, hsaved, Option.getD_none, List.getD_eq_getElem?_getD,
    List.getElem?_eq_getElem hpos, Option.getD_some]

/-- The fixups of the first `count` blocks succeed exactly when each of them lies in the
    record and ends with the update sequence number. -/
theorem foldlM_applyFixup_isOk {count : Nat} (hsector : 2 ≤ sector) :
    (∃ data, (List.range' 1 count).foldlM (applyFixup raw sector usaOffset) raw = .ok data) ↔
      ∀ i, 1 ≤ i → i ≤ count → i * sector ≤ raw.length ∧
        blockEnd raw sector i = raw.slice usaOffset (usaOffset + 2) := by
  induction count with
  | zero =>
    constructor
    · intro _ i hone hle
      omega
    · intro _
      exact ⟨raw, rfl⟩
  | succ count ih =>
    rw [List.range'_1_concat, Nat.add_comm 1 count]
    constructor
    · rintro ⟨data, h⟩ i hone hle
      rw [List.foldlM_append, bind_eq_ok] at h
      obtain ⟨before, hbefore, hlast⟩ := h
      obtain ⟨hlength, _⟩ := foldlM_applyFixup hsector hbefore
      rcases Nat.lt_or_ge count i with hlt | hge
      · obtain rfl : i = count + 1 := by omega
        simp only [List.foldlM_cons, List.foldlM_nil, bind_eq_ok, applyFixup] at hlast
        obtain ⟨_, hstep, _⟩ := hlast
        split at hstep
        · cases hstep
        · next hinside =>
          split at hstep
          · cases hstep
          · next hend =>
            rw [hlength, Nat.not_lt] at hinside
            rw [Decidable.not_not] at hend
            exact ⟨hinside, (blockEnd_of_foldlM hsector hbefore hinside).symm.trans hend⟩
      · exact ih.mp ⟨before, hbefore⟩ i hone hge
    · intro h
      obtain ⟨before, hbefore⟩ := ih.mpr fun i hone hle => h i hone (by omega)
      obtain ⟨hlength, _⟩ := foldlM_applyFixup hsector hbefore
      obtain ⟨hinside, hend⟩ := h (count + 1) (by omega) (Nat.le_refl _)
      have hcheck : before.slice ((count + 1) * sector - 2) ((count + 1) * sector) =
          raw.slice usaOffset (usaOffset + 2) :=
        (blockEnd_of_foldlM hsector hbefore hinside).trans hend
      rw [List.foldlM_append, hbefore, bind_ok, List.foldlM_cons, applyFixup, if_neg (by omega),
        if_neg (by rw [hcheck]; exact fun hne => hne rfl), bind_ok]
      exact ⟨_, rfl⟩

/-- The blocks that the array of a parsed record covers ended with its number. -/
theorem parseFileRecord_checked {record : FileRecord} (hsector : 2 ≤ sector)
    (h : parseFileRecord raw sector = .ok record) :
    usaCountOf raw ≤ raw.length / sector + 1 ∧
      ∀ i, 1 ≤ i → i < usaCountOf raw → i * sector ≤ raw.length ∧
        blockEnd raw sector i = raw.slice (usaOffsetOf raw) (usaOffsetOf raw + 2) := by
  simp only [parseFileRecord, bind_eq_ok, throw_bind, ite_throw_eq_ok, pure_eq_ok] at h
  obtain ⟨_, hcount, _, data, hdata, _, rfl⟩ := h
  refine ⟨by omega, fun i hone hlt => ?_⟩
  exact (foldlM_applyFixup_isOk hsector).mp ⟨data, hdata⟩ i hone (by omega)

/-! ## Restored records -/

/-- The entry of the update sequence array for block `i`. -/
def usaEntry? (raw : Bytes) (i : Nat) : Option Bytes :=
  if i < usaCountOf raw then
    some (raw.slice (usaOffsetOf raw + i * 2) (usaOffsetOf raw + i * 2 + 2))
  else none

/-- `data` is the raw record with the last two bytes of every block replaced by its entry of
    the update sequence array, and every block ended with the update sequence number. -/
structure Restores (raw : Bytes) (sector : Nat) (data : Bytes) : Prop where
  length_eq : data.length = raw.length
  checked : ∀ i, 1 ≤ i → i * sector ≤ raw.length →
    blockEnd raw sector i = raw.slice (usaOffsetOf raw) (usaOffsetOf raw + 2)
  replaced : ∀ i, 1 ≤ i → i * sector ≤ raw.length →
    usaEntry? raw i = some (blockEnd data sector i)
  frame : ∀ pos, (∀ i, 1 ≤ i → i * sector ≤ raw.length → pos < i * sector - 2 ∨ i * sector ≤ pos) →
    data[pos]? = raw[pos]?

/-- A block inside the record is one of the record's blocks. -/
theorem le_div_of_block {n i : Nat} (hsector : 2 ≤ sector) (h : i * sector ≤ n) :
    i ≤ n / sector :=
  (Nat.le_div_iff_mul_le (by omega)).mpr h

/-- A covered block ends with its entry after the fixups. -/
theorem blockEnd_of_parse {record : FileRecord} {i : Nat} (hsector : 2 ≤ sector)
    (h : parseFileRecord raw sector = .ok record) (hone : 1 ≤ i) (hlt : i < usaCountOf raw)
    (hinside : i * sector ≤ raw.length) :
    blockEnd record.data sector i =
      raw.slice (usaOffsetOf raw + i * 2) (usaOffsetOf raw + i * 2 + 2) := by
  obtain ⟨_, hbytes⟩ := parseFileRecord_data hsector h
  have hend : 2 ≤ i * sector := Nat.le_trans hsector (Nat.le_mul_of_pos_left _ hone)
  apply List.ext_getElem?
  intro j
  rw [blockEnd, Bytes.getElem?_slice, Bytes.getElem?_slice]
  by_cases hj : j < 2
  · rw [if_pos (by omega), if_pos (by omega)]
    obtain ⟨_, hget⟩ := hbytes (i * sector - 2 + j) (by omega)
    have hsaved : savedPosition sector (usaOffsetOf raw) (usaCountOf raw) (i * sector - 2 + j) =
        some (usaOffsetOf raw + i * 2 + j) := by
      have hk : i - 1 + 1 = i := by omega
      have := @savedPosition_sectorEnd sector (usaOffsetOf raw) (i - 1) (usaCountOf raw) j hsector
        hj (by omega)
      rwa [hk] at this
    rw [hget, sourcePosition, hsaved, Option.getD_some]
  · rw [if_neg (by omega), if_neg (by omega)]

/-- The fixups change nothing outside the last two bytes of the blocks. -/
theorem frame_of_parse {record : FileRecord} {pos : Nat} (hsector : 2 ≤ sector)
    (h : parseFileRecord raw sector = .ok record)
    (hpos : ∀ i, 1 ≤ i → i < usaCountOf raw → pos < i * sector - 2 ∨ i * sector ≤ pos) :
    record.data[pos]? = raw[pos]? := by
  obtain ⟨hlength, hbytes⟩ := parseFileRecord_data hsector h
  rcases Nat.lt_or_ge pos raw.length with hlt | hge
  · obtain ⟨_, hget⟩ := hbytes pos hlt
    rw [hget, sourcePosition, savedPosition, if_neg, Option.getD_none]
    intro ⟨hmod, hcount⟩
    have hmul : (pos / sector + 1) * sector = pos / sector * sector + sector := Nat.succ_mul _ _
    have hdiv := Nat.div_add_mod pos sector
    rw [Nat.mul_comm] at hdiv
    have hlt := Nat.mod_lt pos (show 0 < sector by omega)
    have := hpos (pos / sector + 1) (Nat.le_add_left 1 _) hcount
    omega
  · rw [List.getElem?_eq_none (by omega), List.getElem?_eq_none hge]

/-- A parsed record is restored exactly when its array has an entry for every block. -/
theorem restores_of_parse {record : FileRecord} (hsector : 2 ≤ sector)
    (h : parseFileRecord raw sector = .ok record) :
    Restores raw sector record.data ↔ usaCountOf raw = raw.length / sector + 1 := by
  obtain ⟨hcount, hchecked⟩ := parseFileRecord_checked hsector h
  constructor
  · intro hrestores
    rcases Nat.eq_zero_or_pos (raw.length / sector) with hzero | hpos
    · -- without a block only the number itself has to be there
      simp only [parseFileRecord, throw_bind, ite_throw_eq_ok] at h
      omega
    · have hentry := hrestores.replaced (raw.length / sector) hpos (Nat.div_mul_le_self _ _)
      simp only [ usaEntry?, Option.ite_none_right_eq_some] at hentry
      omega
  · intro hcovers
    have hcovered : ∀ i, i * sector ≤ raw.length → i < usaCountOf raw := by
      intro i hinside
      have := le_div_of_block hsector hinside
      omega
    refine ⟨(parseFileRecord_data hsector h).1, ?_, ?_, ?_⟩
    · intro i hone hinside
      exact (hchecked i hone (hcovered i hinside)).2
    · intro i hone hinside
      rw [ usaEntry?, if_pos (hcovered i hinside),
        blockEnd_of_parse hsector h hone (hcovered i hinside) hinside]
    · intro pos hpos
      apply frame_of_parse hsector h
      intro i hone hlt
      exact hpos i hone (hchecked i hone hlt).1

/-! ## Protected records -/

/-- The update sequence array of a record: the number, then for each block its last two
    bytes. -/
def sequenceArray (sector : Nat) (usn content : Bytes) : Bytes :=
  (List.range (2 * (content.length / sector + 1))).map fun k =>
    if k < 2 then usn.getD k 0 else content.getD (k / 2 * sector - 2 + k % 2) 0

/-- The content of a record with its update sequence array filled in. -/
def fillArray (sector : Nat) (usn content : Bytes) : Bytes :=
  let usaOffset := usaOffsetOf content
  let array := sequenceArray sector usn content
  content.take usaOffset ++ array ++ content.drop (usaOffset + array.length)

/-- The on-disk form of a record: the array keeps the last two bytes of each block, which
    the update sequence number takes the place of. -/
def protect (sector : Nat) (usn content : Bytes) : Bytes :=
  (fillArray sector usn content).mapIdx fun pos byte =>
    if sector ≤ pos % sector + 2 ∧ pos / sector < content.length / sector then
      usn.getD (pos % sector + 2 - sector) 0
    else byte

/-- The content of a record with an on-disk form: a FILE header that the parser admits, and
    behind it room for an array with an entry for each block, away from the bytes that the
    array keeps. -/
structure Protectable (sector : Nat) (content : Bytes) : Prop where
  length_ge : 42 ≤ content.length
  signature : content.slice 0 4 = fileSignature
  count_eq : usaCountOf content = content.length / sector + 1
  offset_ge : 42 ≤ usaOffsetOf content
  inside : usaOffsetOf content + usaCountOf content * 2 ≤ content.length
  apart : ∀ i, 1 ≤ i → i * sector ≤ content.length →
    usaOffsetOf content + usaCountOf content * 2 ≤ i * sector - 2 ∨
      i * sector ≤ usaOffsetOf content
  attrsOffset_lt : (Le.u16At content 20).getD 0 < content.length
  bytesUsed_le : (Le.u32At content 24).getD 0 ≤ content.length

variable {usn content : Bytes}

theorem length_sequenceArray (sector : Nat) (usn content : Bytes) :
    (sequenceArray sector usn content).length = 2 * (content.length / sector + 1) := by
  simp [sequenceArray]

theorem Protectable.length_fillArray (h : Protectable sector content) :
    (fillArray sector usn content).length = content.length := by
  have hinside := h.inside
  rw [h.count_eq] at hinside
  simp only [fillArray, List.length_append, List.length_take, List.length_drop,
    length_sequenceArray]
  omega

/-- Filling the array in changes nothing outside it. -/
theorem Protectable.fillArray_outside (h : Protectable sector content) {pos : Nat}
    (hpos : pos < usaOffsetOf content ∨ usaOffsetOf content + usaCountOf content * 2 ≤ pos) :
    (fillArray sector usn content)[pos]? = content[pos]? := by
  have hinside := h.inside
  have hlength := length_sequenceArray sector usn content
  rw [h.count_eq] at hinside hpos
  simp only [fillArray]
  rcases hpos with hlt | hge
  · rw [List.append_assoc, List.getElem?_append_left (by rw [List.length_take]; omega),
      List.getElem?_take_of_lt hlt]
  · have hfront : (content.take (usaOffsetOf content) ++ sequenceArray sector usn content).length =
        usaOffsetOf content + (sequenceArray sector usn content).length := by
      rw [List.length_append, List.length_take]
      omega
    rw [List.getElem?_append_right (by omega), hfront, List.getElem?_drop]
    congr 1
    omega

/-- Byte `k` of the array that was filled in. -/
theorem Protectable.fillArray_array (h : Protectable sector content) {k : Nat}
    (hk : k < usaCountOf content * 2) :
    (fillArray sector usn content)[usaOffsetOf content + k]? =
      some (if k < 2 then usn.getD k 0 else content.getD (k / 2 * sector - 2 + k % 2) 0) := by
  have hinside := h.inside
  have hlength := length_sequenceArray sector usn content
  have htake : (content.take (usaOffsetOf content)).length = usaOffsetOf content := by
    rw [List.length_take]
    omega
  rw [h.count_eq] at hk
  simp only [fillArray]
  rw [List.append_assoc, List.getElem?_append_right (by omega), htake, Nat.add_sub_cancel_left,
    List.getElem?_append_left (by omega), sequenceArray, List.getElem?_map,
    List.getElem?_range (by omega), Option.map_some]

theorem Protectable.length_protect (h : Protectable sector content) :
    (protect sector usn content).length = content.length := by
  rw [protect, List.length_mapIdx, h.length_fillArray]

/-- Byte `j` of the end of block `i` on disk. -/
theorem Protectable.protect_blockEnd (h : Protectable sector content) (hsector : 2 ≤ sector)
    {i j : Nat} (hone : 1 ≤ i) (hinside : i * sector ≤ content.length) (hj : j < 2) :
    (protect sector usn content)[i * sector - 2 + j]? = some (usn.getD j 0) := by
  have hend : 2 ≤ i * sector := Nat.le_trans hsector (Nat.le_mul_of_pos_left _ hone)
  have hmul : (i - 1) * sector + sector = i * sector := by
    rw [← Nat.succ_mul, Nat.succ_eq_add_one, Nat.sub_add_cancel hone]
  have hdiv : (i * sector - 2 + j) / sector = i - 1 := by
    apply Nat.div_eq_of_lt_le
    · omega
    · rw [Nat.sub_add_cancel hone]
      omega
  have hmod := Nat.div_add_mod (i * sector - 2 + j) sector
  rw [hdiv, Nat.mul_comm] at hmod
  have hle := le_div_of_block hsector hinside
  have hlt : i * sector - 2 + j < (fillArray sector usn content).length := by
    rw [h.length_fillArray]
    omega
  rw [protect, List.getElem?_mapIdx, List.getElem?_eq_getElem hlt, Option.map_some, hdiv,
    if_pos ⟨by omega, by omega⟩]
  congr 2
  omega

/-- The other bytes on disk are those of the content with its array. -/
theorem protect_frame (hsector : 2 ≤ sector) {pos : Nat}
    (hpos : ∀ i, 1 ≤ i → i * sector ≤ content.length →
      pos < i * sector - 2 ∨ i * sector ≤ pos) :
    (protect sector usn content)[pos]? = (fillArray sector usn content)[pos]? := by
  have hkeep : ¬(sector ≤ pos % sector + 2 ∧ pos / sector < content.length / sector) := by
    intro ⟨hmod, hcount⟩
    have hmul : (pos / sector + 1) * sector = pos / sector * sector + sector := Nat.succ_mul _ _
    have hdiv := Nat.div_add_mod pos sector
    rw [Nat.mul_comm] at hdiv
    have hlt := Nat.mod_lt pos (show 0 < sector by omega)
    have hinside : (pos / sector + 1) * sector ≤ content.length :=
      Nat.le_trans (Nat.mul_le_mul_right _ hcount) (Nat.div_mul_le_self _ _)
    have := hpos (pos / sector + 1) (Nat.le_add_left 1 _) hinside
    omega
  rw [protect, List.getElem?_mapIdx]
  simp only [if_neg hkeep, Option.map_id']

/-- Protection leaves the header alone. -/
theorem Protectable.protect_header (h : Protectable sector content) (hsector : 256 ≤ sector)
    {pos : Nat} (hpos : pos < 42) :
    (protect sector usn content)[pos]? = content[pos]? := by
  have hoffset := h.offset_ge
  rw [protect_frame (by omega) fun i hone _ => ?_]
  · exact h.fillArray_outside (by omega)
  · have := Nat.le_mul_of_pos_left sector hone
    omega

theorem Protectable.u16At_fillArray (h : Protectable sector content) {off : Nat}
    (hoff : off + 2 ≤ 42) : Le.u16At (fillArray sector usn content) off = Le.u16At content off := by
  have hoffset := h.offset_ge
  rw [Le.u16At, Le.u16At, Bytes.getRange?_congr h.length_fillArray]
  intro i _ hi
  exact h.fillArray_outside (by omega)

theorem Protectable.u16At_protect (h : Protectable sector content) (hsector : 256 ≤ sector)
    {off : Nat} (hoff : off + 2 ≤ 42) :
    Le.u16At (protect sector usn content) off = Le.u16At content off := by
  rw [Le.u16At, Le.u16At, Bytes.getRange?_congr h.length_protect]
  intro i _ hi
  exact h.protect_header hsector (by omega)

/-- The array of a protected record: the number, and behind it the ends of the blocks. -/
theorem Protectable.protect_array (h : Protectable sector content) (hsector : 2 ≤ sector)
    {k : Nat} (hk : k < usaCountOf content * 2) :
    (protect sector usn content)[usaOffsetOf content + k]? =
      some (if k < 2 then usn.getD k 0 else content.getD (k / 2 * sector - 2 + k % 2) 0) := by
  rw [protect_frame hsector fun i hone hinside => ?_, h.fillArray_array hk]
  have := h.apart i hone hinside
  omega

/-- Every block of a protected record ends with the number. -/
theorem Protectable.protect_checked (h : Protectable sector content) (hsector : 256 ≤ sector)
    {i : Nat} (hone : 1 ≤ i) (hinside : i * sector ≤ content.length) :
    blockEnd (protect sector usn content) sector i =
      (protect sector usn content).slice (usaOffsetOf content) (usaOffsetOf content + 2) := by
  have hcount := h.count_eq
  have hle := le_div_of_block (show 2 ≤ sector by omega) hinside
  have hend : 2 ≤ i * sector :=
    Nat.le_trans (by omega) (Nat.le_mul_of_pos_left sector hone)
  apply List.ext_getElem?
  intro j
  rw [blockEnd, Bytes.getElem?_slice, Bytes.getElem?_slice]
  by_cases hj : j < 2
  · rw [if_pos (by omega), if_pos (by omega), h.protect_blockEnd (by omega) hone hinside hj,
      h.protect_array (by omega) (by omega), if_pos hj]
  · rw [if_neg (by omega), if_neg (by omega)]

/-- The fixups of a protected record give the content with its array. -/
theorem Protectable.applyFixups_protect (h : Protectable sector content)
    (hsector : 256 ≤ sector) :
    applyFixups (protect sector usn content) sector (usaOffsetOf content) (usaCountOf content) =
      .ok (fillArray sector usn content) := by
  have hcount := h.count_eq
  have hlength : (protect sector usn content).length = content.length := h.length_protect
  have hblocks := Nat.zero_le (content.length / sector)
  have hsucc : usaCountOf content - 1 + 1 = usaCountOf content := by omega
  obtain ⟨data, hdata⟩ := (@foldlM_applyFixup_isOk sector (usaOffsetOf content)
    (protect sector usn content) (usaCountOf content - 1) (by omega)).mpr fun i hone hle => by
      have hinside : i * sector ≤ content.length :=
        Nat.le_trans (Nat.mul_le_mul_right _ (by omega)) (Nat.div_mul_le_self _ sector)
      exact ⟨by rw [hlength]; exact hinside, h.protect_checked hsector hone hinside⟩
  obtain ⟨hdata_length, hbytes⟩ := foldlM_applyFixup (by omega) hdata
  rw [applyFixups, hdata]
  congr 1
  apply List.ext_getElem?
  intro pos
  rcases Nat.lt_or_ge pos content.length with hlt | hge
  · rw [hbytes pos (by omega), hsucc, savedPosition]
    split
    · next hsaved =>
      -- a byte that the array keeps
      obtain ⟨hmod, hblock⟩ := hsaved
      have hindex := Nat.zero_le (pos / sector)
      have hmul : (pos / sector + 1) * sector = pos / sector * sector + sector :=
        Nat.succ_mul _ _
      have hdiv := Nat.div_add_mod pos sector
      rw [Nat.mul_comm] at hdiv
      have hmod_lt := Nat.mod_lt pos (show 0 < sector by omega)
      have hinside : (pos / sector + 1) * sector ≤ content.length :=
        Nat.le_trans (Nat.mul_le_mul_right _ (by omega)) (Nat.div_mul_le_self _ _)
      have hapart := h.apart _ (Nat.le_add_left 1 _) hinside
      rw [Option.getD_some, h.fillArray_outside (by omega), Nat.add_assoc,
        List.getD_eq_getElem?_getD, h.protect_array (by omega) (by omega), if_neg (by omega),
        Option.getD_some, List.getD_eq_getElem?_getD]
      have hpos : ((pos / sector + 1) * 2 + (pos % sector + 2 - sector)) / 2 * sector - 2 +
          ((pos / sector + 1) * 2 + (pos % sector + 2 - sector)) % 2 = pos := by
        have hhalf : ((pos / sector + 1) * 2 + (pos % sector + 2 - sector)) / 2 =
            pos / sector + 1 := by omega
        rw [hhalf]
        omega
      rw [hpos, List.getElem?_eq_getElem hlt, Option.getD_some]
    · next hsaved =>
      have hframe : (protect sector usn content)[pos]? = (fillArray sector usn content)[pos]? := by
        rw [protect, List.getElem?_mapIdx]
        have hkeep : ¬(sector ≤ pos % sector + 2 ∧ pos / sector < content.length / sector) := by
          omega
        simp only [if_neg hkeep, Option.map_id']
      rw [Option.getD_none, List.getD_eq_getElem?_getD, hframe,
        List.getElem?_eq_getElem (by rw [h.length_fillArray]; exact hlt), Option.getD_some]
  · rw [List.getElem?_eq_none (by omega),
      List.getElem?_eq_none (by rw [h.length_fillArray]; exact hge)]

/-- A protected record parses to its content. -/
theorem Protectable.parseFileRecord_protect (h : Protectable sector content) (usn : Bytes)
    (hsector : 256 ≤ sector) :
    ∃ record, parseFileRecord (protect sector usn content) sector = .ok record ∧
      record.data = fillArray sector usn content := by
  have hlength : (protect sector usn content).length = content.length := h.length_protect
  have hfill : (fillArray sector usn content).length = content.length := h.length_fillArray
  have hge := h.length_ge
  have hcount := h.count_eq
  have hblocks := Nat.zero_le (content.length / sector)
  have hinside := h.inside
  have hoffset : usaOffsetOf (protect sector usn content) = usaOffsetOf content := by
    rw [usaOffsetOf, h.u16At_protect hsector (by decide), ← usaOffsetOf]
  have hcount' : usaCountOf (protect sector usn content) = usaCountOf content := by
    rw [usaCountOf, h.u16At_protect hsector (by decide), ← usaCountOf]
  have hsignature : (protect sector usn content).slice 0 4 = fileSignature := by
    rw [← h.signature]
    apply Bytes.slice_congr
    intro i _ hi
    exact h.protect_header hsector (by omega)
  have hattrs := h.attrsOffset_lt
  have hused := h.bytesUsed_le
  have hu32 : Le.u32At (fillArray sector usn content) 24 = Le.u32At content 24 := by
    have hoffset_ge := h.offset_ge
    rw [Le.u32At, Le.u32At, Bytes.getRange?_congr hfill]
    intro i _ hi
    exact h.fillArray_outside (by omega)
  simp only [parseFileRecord, hoffset, hcount', hlength, throw_bind]
  rw [if_neg (by rw [hsignature]; simp; omega), if_neg (by omega), if_neg (by omega),
    h.applyFixups_protect hsector, bind_ok]
  simp only [h.u16At_fillArray (show 20 + 2 ≤ 42 by decide), hu32, hfill]
  rw [if_neg (by omega)]
  exact ⟨_, rfl, rfl⟩

/-! ## Exact frame of the parser -/

/-- A parsed record is restored exactly when its array has an entry for each of its blocks;
    then a record with a torn block is never accepted, and the on-disk form of a record
    parses to its content. -/
theorem parseFileRecord_restores_iff (sector : Nat) (hsector : 256 ≤ sector) :
    (∀ (raw : Bytes) (record : FileRecord), parseFileRecord raw sector = .ok record →
        (Restores raw sector record.data ↔ usaCountOf raw = raw.length / sector + 1)) ∧
    (∀ (raw : Bytes) (i : Nat),
      usaCountOf raw = raw.length / sector + 1 → 1 ≤ i → i * sector ≤ raw.length →
      blockEnd raw sector i ≠ raw.slice (usaOffsetOf raw) (usaOffsetOf raw + 2) →
        ∀ record, parseFileRecord raw sector ≠ .ok record) ∧
    (∀ (content usn : Bytes), Protectable sector content →
      ∃ record, parseFileRecord (protect sector usn content) sector = .ok record ∧
        record.data = fillArray sector usn content ∧
        ∀ pos, pos < usaOffsetOf content ∨
            usaOffsetOf content + usaCountOf content * 2 ≤ pos →
          record.data[pos]? = content[pos]?) := by
  refine ⟨?_, ?_, ?_⟩
  · intro raw record h
    exact restores_of_parse (by omega) h
  · intro raw i hcovers hone hinside htorn record h
    have hrestores := (restores_of_parse (by omega) h).mpr hcovers
    exact htorn (hrestores.checked i hone hinside)
  · intro content usn hcontent
    obtain ⟨record, hparse, hdata⟩ := hcontent.parseFileRecord_protect usn hsector
    refine ⟨record, hparse, hdata, fun pos hpos => ?_⟩
    rw [hdata]
    exact hcontent.fillArray_outside hpos

/-- A deleted record of two 512-byte blocks, with its array at byte 48 still empty. -/
def plainRecord (usaCount : UInt8) : Bytes :=
  fileSignature ++ [48, 0, usaCount, 0] ++ List.replicate 8 0 ++ [7, 0, 0, 0, 56, 0, 0, 0] ++
    [64, 0, 0, 0] ++ List.replicate 28 0 ++ List.replicate 4 0xFF ++ List.replicate 964 0

/-- The plain record with the number 1 on disk; the second block ends with byte `last`. -/
def stampedRecord (usaCount last : UInt8) : Bytes :=
  (((plainRecord usaCount).set 48 1).set 510 1).set 1022 last

theorem parseFileRecord_restores_iff_plain :
    (∃ record, parseFileRecord (stampedRecord 3 1) 512 = .ok record ∧
      Restores (stampedRecord 3 1) 512 record.data) ∧
    (∀ record, parseFileRecord (stampedRecord 3 0xFF) 512 ≠ .ok record) ∧
    ∃ record, parseFileRecord (protect 512 [1, 0] (plainRecord 3)) 512 = .ok record ∧
      record.data = fillArray 512 [1, 0] (plainRecord 3) := by
  obtain ⟨hexact, htorn, hprotect⟩ := parseFileRecord_restores_iff 512 (by decide)
  refine ⟨?_, ?_, ?_⟩
  · have hok : (parseFileRecord (stampedRecord 3 1) 512).isOk = true := by decide +kernel
    obtain ⟨record, hparse⟩ := exists_of_isOk hok
    exact ⟨record, hparse, (hexact _ record hparse).mpr (by decide +kernel)⟩
  · exact htorn _ 2 (by decide +kernel) (by decide) (by decide +kernel)
      (by decide +kernel)
  · have hcontent : Protectable 512 (plainRecord 3) := by
      refine ⟨by decide +kernel, by decide +kernel, by decide +kernel, by decide +kernel,
        by decide +kernel, ?_, by decide +kernel, by decide +kernel⟩
      intro i hone hinside
      have hend : usaOffsetOf (plainRecord 3) + usaCountOf (plainRecord 3) * 2 = 54 := by
        decide +kernel
      omega
    obtain ⟨record, hparse, hdata, _⟩ := hprotect _ [1, 0] hcontent
    exact ⟨record, hparse, hdata⟩

/-- The parser accepts a record whose array covers the first of its two blocks only, with
    the second one torn. -/
theorem parseFileRecord_accepts_torn :
    ¬ ∀ (raw : Bytes) (sector : Nat) (record : FileRecord), 256 ≤ sector →
      parseFileRecord raw sector = .ok record → Restores raw sector record.data := by
  intro h
  have hok : (parseFileRecord (stampedRecord 2 0xFF) 512).isOk = true := by decide +kernel
  obtain ⟨record, hrecord⟩ := exists_of_isOk hok
  have hchecked := (h _ _ _ (by decide) hrecord).checked 2 (by decide) (by decide +kernel)
  have htorn : blockEnd (stampedRecord 2 0xFF) 512 2 ≠
      (stampedRecord 2 0xFF).slice (usaOffsetOf (stampedRecord 2 0xFF))
        (usaOffsetOf (stampedRecord 2 0xFF) + 2) := by
    decide +kernel
  exact htorn hchecked

end Undelete.Ntfs
