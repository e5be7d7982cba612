import Undelete.Native.Ntfs.Scan
import Undelete.Spec.StreamReadCorrect

/-!
# The MFT pass is record by record

Pass 1 reads the MFT in batches, skips all-zero batches and re-reads a failed batch
record by record. Its effect is that of processing the records one after the other
(`mftPass_eq_deliverRecords`), each with the bytes its batch delivered for it. On a
source with a fixed content these are the bytes of a read of the record alone, so the
batch size does not matter (`mftPass_eq_recordwisePass`).
-/

namespace Undelete.Ntfs

open Except

/-! ## One record -/

/-- What the pass does with a record for which the source delivered `raw`. -/
def deliverRecord (boot : NtfsBoot) (mftRuns : List RunElement) (raws : Nat → Option Bytes)
    (st : MftState) (recordNo : Nat) : MftState :=
  match raws recordNo with
  | some raw => processMftRecord raw recordNo (recordNo * boot.fileRecordSize) boot mftRuns st
  | none => st.markIncomplete (.recordUnreadable recordNo)

/-- The records `start ≤ recordNo < start + count`, one after the other. -/
def deliverRecords (boot : NtfsBoot) (mftRuns : List RunElement) (raws : Nat → Option Bytes)
    (start count : Nat) (st : MftState) : MftState :=
  (List.range' start count).foldl (deliverRecord boot mftRuns raws) st

theorem deliverRecords_add {boot : NtfsBoot} {mftRuns : List RunElement}
    {raws : Nat → Option Bytes} (start a b : Nat) (st : MftState) :
    deliverRecords boot mftRuns raws start (a + b) st =
      deliverRecords boot mftRuns raws (start + a) b
        (deliverRecords boot mftRuns raws start a st) := by
  simp [deliverRecords, ← List.range'_append_1]

theorem deliverRecords_congr {boot : NtfsBoot} {mftRuns : List RunElement}
    {raws raws' : Nat → Option Bytes} {start count : Nat}
    (h : ∀ i, start ≤ i → i < start + count → raws i = raws' i) (st : MftState) :
    deliverRecords boot mftRuns raws start count st =
      deliverRecords boot mftRuns raws' start count st := by
  apply List.foldl_ext
  intro st' i hi
  obtain ⟨hlo, hhi⟩ := List.mem_range'_1.mp hi
  rw [deliverRecord, deliverRecord, h i hlo hhi]

theorem isZeroed_slice {bytes : Bytes} (h : isZeroed bytes = true) (start stop : Nat) :
    isZeroed (bytes.slice start stop) = true := by
  simp only [isZeroed, List.all_eq_true] at h ⊢
  exact fun b hb => h b (List.mem_of_mem_drop (List.mem_of_mem_take hb))

/-- A blank record has no signature. -/
theorem parseFileRecord_isZeroed {raw : Bytes} (h : isZeroed raw = true) (bytesPerSector : Nat) :
    parseFileRecord raw bytesPerSector = .error .notAFileRecord := by
  have hsignature : raw.length < 42 ∨ raw.slice 0 4 ≠ fileSignature := by
    by_cases hlength : raw.length < 42
    · exact .inl hlength
    · right
      intro hslice
      have hfirst : (0x46 : UInt8) ∈ raw.slice 0 4 := by rw [hslice]; decide
      have hzero := isZeroed_slice h 0 4
      simp only [isZeroed, List.all_eq_true] at hzero
      exact absurd (hzero _ hfirst) (by decide)
  simp only [parseFileRecord, throw_bind, if_pos hsignature]
  rfl

/-- A blank record leaves the state alone. -/
theorem processMftRecord_isZeroed {raw : Bytes} (h : isZeroed raw = true)
    (recordNo logicalOffset : Nat) (boot : NtfsBoot) (mftRuns : List RunElement) (st : MftState) :
    processMftRecord raw recordNo logicalOffset boot mftRuns st = st := by
  simp only [processMftRecord, parseFileRecord_isZeroed h, h, if_true]

/-! ## Batches -/

/-- What a batch delivers for one of its records. -/
def batchRaw (reader : SourceReader) (boot : NtfsBoot) (mftRuns : List RunElement)
    (batchStart batchCount recordNo : Nat) : Option Bytes :=
  match readStreamRange reader mftRuns boot.clusterSize (batchStart * boot.fileRecordSize)
      (batchCount * boot.fileRecordSize) with
  | .ok batch =>
    some (batch.slice ((recordNo - batchStart) * boot.fileRecordSize)
      ((recordNo - batchStart) * boot.fileRecordSize + boot.fileRecordSize))
  | .error _ =>
    (readStreamRange reader mftRuns boot.clusterSize (recordNo * boot.fileRecordSize)
      boot.fileRecordSize).toOption

/-- What the pass delivers for a record when every batch but the last has
    `recordsPerBatch` records. -/
def passRaw (reader : SourceReader) (boot : NtfsBoot) (mftRuns : List RunElement)
    (recordCount recordsPerBatch recordNo : Nat) : Option Bytes :=
  let batchStart := recordNo / recordsPerBatch * recordsPerBatch
  batchRaw reader boot mftRuns batchStart (min (recordCount - batchStart) recordsPerBatch) recordNo

variable {reader : SourceReader} {boot : NtfsBoot} {mftRuns : List RunElement}

theorem processBatch_eq {batchStart batchCount : Nat}
    (hsize : (batchStart + batchCount) * boot.fileRecordSize < 2 ^ 64) (st : MftState) :
    processBatch reader boot mftRuns batchStart batchCount st =
      .ok (deliverRecords boot mftRuns (batchRaw reader boot mftRuns batchStart batchCount)
        batchStart batchCount st) := by
  have hmono : ∀ i, i ≤ batchStart + batchCount → i * boot.fileRecordSize < 2 ^ 64 :=
    fun i hi => Nat.lt_of_le_of_lt (Nat.mul_le_mul_right _ hi) hsize
  have hrange : List.range' batchStart batchCount =
      (List.range batchCount).map (batchStart + ·) := by
    rw [List.range_eq_range', List.map_add_range']; simp
  simp only [processBatch, U64.checkedMul_of_lt (hmono batchStart (by omega)),
    U64.checkedMul_of_lt (hmono batchCount (by omega)), okOr, bind_ok, deliverRecords]
  split
  · next batch hread =>
    have hdeliver : ∀ k st', deliverRecord boot mftRuns
        (batchRaw reader boot mftRuns batchStart batchCount) st' (batchStart + k) =
        processMftRecord (batch.slice (k * boot.fileRecordSize)
          (k * boot.fileRecordSize + boot.fileRecordSize)) (batchStart + k)
          ((batchStart + k) * boot.fileRecordSize) boot mftRuns st' := by
      intro k st'
      simp only [deliverRecord, batchRaw, hread, Nat.add_sub_cancel_left]
    rw [hrange, List.foldl_map]
    split
    · next hzero =>
      -- an all-zero batch: every record of it is blank
      have hskip : ∀ k st', deliverRecord boot mftRuns
          (batchRaw reader boot mftRuns batchStart batchCount) st' (batchStart + k) = st' :=
        fun k st' => (hdeliver k st').trans
          (processMftRecord_isZeroed (isZeroed_slice hzero _ _) _ _ _ _ _)
      simp only [hskip, List.foldl_fixed]
      rfl
    · rw [List.foldl_ext _ _ st fun st' k _ => hdeliver k st']
      apply foldlM_eq_ok
      intro k hk st'
      have hk := List.mem_range.mp hk
      have hlogical : U64.checkedAdd (batchStart * boot.fileRecordSize)
          (k * boot.fileRecordSize) = some ((batchStart + k) * boot.fileRecordSize) :=
        U64.checkedAdd_eq_some.mpr
          ⟨by rw [← Nat.add_mul]; exact hmono _ (by omega), (Nat.add_mul _ _ _).symm⟩
      have hnext := hmono (k + 1) (by omega)
      rw [Nat.add_mul, Nat.one_mul] at hnext
      simp only [processBatchRecord, U64.checkedMul_of_lt (hmono k (by omega)), okOr, bind_ok,
        U64.checkedAdd_of_lt hnext, hlogical]
      rfl
  · next e hread =>
    rw [← hrange]
    apply foldlM_eq_ok
    intro i hi st'
    obtain ⟨hlo, hhi⟩ := List.mem_range'_1.mp hi
    simp only [isolateRecord, U64.checkedMul_of_lt (hmono i (by omega)), okOr, bind_ok,
      deliverRecord, batchRaw, hread]
    cases readStreamRange reader mftRuns boot.clusterSize (i * boot.fileRecordSize)
      boot.fileRecordSize <;> rfl

/-- The batch loop from the start of a batch on. -/
theorem mftBatches_eq {recordCount recordsPerBatch fuel batchStart : Nat}
    (hbatch : 0 < recordsPerBatch) (hsize : recordCount * boot.fileRecordSize < 2 ^ 64)
    (hrecord : 0 < boot.fileRecordSize) (hle : batchStart ≤ recordCount)
    (haligned : batchStart < recordCount → recordsPerBatch ∣ batchStart)
    (hfuel : recordCount - batchStart ≤ fuel) (st : MftState) :
    mftBatches reader boot mftRuns recordCount recordsPerBatch fuel batchStart st =
      .ok (deliverRecords boot mftRuns (passRaw reader boot mftRuns recordCount recordsPerBatch)
        batchStart (recordCount - batchStart) st) := by
  induction fuel generalizing batchStart st with
  | zero =>
    rw [show recordCount - batchStart = 0 by omega]
    rfl
  | succ fuel ih =>
    simp only [mftBatches]
    split
    · next hlt =>
      generalize hcount : min (recordCount - batchStart) recordsPerBatch = batchCount
      have hbounds : (batchStart + batchCount) * boot.fileRecordSize ≤
          recordCount * boot.fileRecordSize := Nat.mul_le_mul_right _ (by omega)
      have hnext : batchStart + batchCount ≤ (batchStart + batchCount) * boot.fileRecordSize :=
        Nat.le_mul_of_pos_right _ hrecord
      obtain ⟨q, rfl⟩ := haligned hlt
      -- within the batch, `passRaw` is what this batch delivers
      have hraw : ∀ i, recordsPerBatch * q ≤ i → i < recordsPerBatch * q + batchCount →
          batchRaw reader boot mftRuns (recordsPerBatch * q) batchCount i =
            passRaw reader boot mftRuns recordCount recordsPerBatch i := by
        intro i hlo hhi
        have hdiv : i / recordsPerBatch * recordsPerBatch = recordsPerBatch * q := by
          have : i / recordsPerBatch = q := by
            apply Nat.div_eq_of_lt_le
            · rw [Nat.mul_comm]; exact hlo
            · rw [Nat.add_mul, Nat.mul_comm]; omega
          rw [this, Nat.mul_comm]
        simp only [passRaw, hdiv, hcount]
      rw [processBatch_eq (by omega), bind_ok, U64.checkedAdd_of_lt (by omega)]
      simp only [okOr, bind_ok]
      rw [ih (by omega) ?_ (by omega), deliverRecords_congr hraw, ← deliverRecords_add]
      · congr 2
        omega
      · intro hmore
        exact ⟨q + 1, by rw [Nat.mul_add]; omega⟩
    · next hge =>
      rw [show recordCount - batchStart = 0 by omega]
      rfl

/-- Pass 1 processes the records in order, each with what its batch delivered. -/
theorem mftPass_eq_deliverRecords {recordCount recordsPerBatch : Nat}
    (hbatch : 0 < recordsPerBatch) (hsize : recordCount * boot.fileRecordSize < 2 ^ 64)
    (hrecord : 0 < boot.fileRecordSize) (st : MftState) :
    mftPass reader boot mftRuns recordCount recordsPerBatch st =
      .ok (deliverRecords boot mftRuns (passRaw reader boot mftRuns recordCount recordsPerBatch)
        0 recordCount st) :=
  mftBatches_eq hbatch hsize hrecord (Nat.zero_le _) (fun _ => ⟨0, rfl⟩) (Nat.le_refl _) st

/-! ## Sources with a fixed content -/

/-- Pass 1 without batches: every record is read alone, and processed before the next
    one is read. -/
def recordwisePass (reader : SourceReader) (boot : NtfsBoot) (mftRuns : List RunElement)
    (recordCount : Nat) (st : MftState) : MftState :=
  (List.range recordCount).foldl (fun st recordNo =>
    match readStreamRange reader mftRuns boot.clusterSize (recordNo * boot.fileRecordSize)
        boot.fileRecordSize with
    | .ok raw => processMftRecord raw recordNo (recordNo * boot.fileRecordSize) boot mftRuns st
    | .error _ => st.markIncomplete (.recordUnreadable recordNo)) st

/-- What a read of record `recordNo` alone delivers. -/
def recordRaw (reader : SourceReader) (boot : NtfsBoot) (mftRuns : List RunElement)
    (recordNo : Nat) : Option Bytes :=
  (readStreamRange reader mftRuns boot.clusterSize (recordNo * boot.fileRecordSize)
    boot.fileRecordSize).toOption

theorem recordwisePass_eq (recordCount : Nat) (st : MftState) :
    recordwisePass reader boot mftRuns recordCount st =
      deliverRecords boot mftRuns (recordRaw reader boot mftRuns) 0 recordCount st := by
  rw [recordwisePass, deliverRecords, List.range_eq_range']
  apply List.foldl_ext
  intro st' i _
  simp only [deliverRecord, recordRaw]
  cases readStreamRange reader mftRuns boot.clusterSize (i * boot.fileRecordSize)
    boot.fileRecordSize <;> rfl

/-- A batch delivers what reads of its records alone would. -/
theorem batchRaw_eq_recordRaw {src : FaultySource} {batchStart batchCount recordNo : Nat}
    (hvalid : boot.Valid) (hfit : RunsFit boot.totalClusters mftRuns)
    (hrecord : 0 < boot.fileRecordSize)
    (hsize : (batchStart + batchCount) * boot.fileRecordSize < 2 ^ 64)
    (hlo : batchStart ≤ recordNo) (hhi : recordNo < batchStart + batchCount) :
    batchRaw src.toSourceReader boot mftRuns batchStart batchCount recordNo =
      recordRaw src.toSourceReader boot mftRuns recordNo := by
  rw [Nat.add_mul] at hsize
  have hend : (recordNo - batchStart) * boot.fileRecordSize + boot.fileRecordSize ≤
      batchCount * boot.fileRecordSize := by
    rw [← Nat.succ_mul]; exact Nat.mul_le_mul_right _ (by omega)
  have hstart : batchStart * boot.fileRecordSize + (recordNo - batchStart) * boot.fileRecordSize =
      recordNo * boot.fileRecordSize := by
    rw [← Nat.add_mul, Nat.add_sub_cancel' hlo]
  simp only [batchRaw, recordRaw]
  split
  · next batch hread =>
    have hsub := readStreamRange_sub hfit hvalid.volume_lt hsize hrecord hend hread
    rw [hstart] at hsub
    rw [hsub]
    rfl
  · rfl

theorem passRaw_eq_recordRaw {src : FaultySource} {recordCount recordsPerBatch recordNo : Nat}
    (hvalid : boot.Valid) (hfit : RunsFit boot.totalClusters mftRuns)
    (hrecord : 0 < boot.fileRecordSize) (hsize : recordCount * boot.fileRecordSize < 2 ^ 64)
    (hbatch : 0 < recordsPerBatch) (hlt : recordNo < recordCount) :
    passRaw src.toSourceReader boot mftRuns recordCount recordsPerBatch recordNo =
      recordRaw src.toSourceReader boot mftRuns recordNo := by
  have hlo : recordNo / recordsPerBatch * recordsPerBatch ≤ recordNo := Nat.div_mul_le_self _ _
  have hhi : recordNo < (recordNo / recordsPerBatch + 1) * recordsPerBatch := by
    rw [Nat.mul_comm]; exact Nat.lt_mul_div_succ recordNo hbatch
  rw [Nat.add_mul, Nat.one_mul] at hhi
  rw [passRaw]
  generalize recordNo / recordsPerBatch * recordsPerBatch = batchStart at *
  refine batchRaw_eq_recordRaw hvalid hfit hrecord ?_ hlo (by omega)
  exact Nat.lt_of_le_of_lt (Nat.mul_le_mul_right _ (by omega)) hsize

/-- On a source with a fixed content, pass 1 with any batch size is the pass that reads
    and processes each record alone. -/
theorem mftPass_eq_recordwisePass {src : FaultySource} {recordCount recordsPerBatch : Nat}
    (hvalid : boot.Valid) (hfit : RunsFit boot.totalClusters mftRuns)
    (hrecord : 0 < boot.fileRecordSize) (hsize : recordCount * boot.fileRecordSize < 2 ^ 64)
    (hbatch : 0 < recordsPerBatch) (st : MftState) :
    mftPass src.toSourceReader boot mftRuns recordCount recordsPerBatch st =
      .ok (recordwisePass src.toSourceReader boot mftRuns recordCount st) := by
  rw [mftPass_eq_deliverRecords hbatch hsize hrecord, recordwisePass_eq]
  congr 1
  exact deliverRecords_congr (fun i _ hi =>
    passRaw_eq_recordRaw hvalid hfit hrecord hsize hbatch (by omega)) st

end Undelete.Ntfs
