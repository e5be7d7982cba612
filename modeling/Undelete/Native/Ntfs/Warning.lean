import Undelete.Native.Ntfs.Runs

/-!
# Warnings of the NTFS scanner

The scanner reports non-fatal findings as formatted strings. Each message is one
constructor here, and `NtfsWarning.text` is the string the source pushes.
-/

namespace Undelete.Ntfs

def maxMftRecords : Nat := 8 * 1024 * 1024
def maxRetainedDeletedEntries : Nat := 100000
def maxRetainedDirectoryEntries : Nat := 100000
def maxRetainedExtensionReferences : Nat := 100000
def maxRetainedExtensionStreams : Nat := 100000
def maxRetainedEntryNames : Nat := 400000
def maxRetainedEntryStreams : Nat := 200000
def maxRetainedEntryRunElements : Nat := 1000000
def maxBitmapReadBytes : Nat := 64 * 1024 * 1024
def maxNamespacePaths : Nat := 65536
def maxNamespaceComponents : Nat := 1048576

inductive NtfsWarning where
  -- `scan_ntfs_with_progress`
  | mftStoppedAtSparseRun (len : Nat)
  | mftStoppedAtUntrustedRun (len : Nat)
  | mftBoundedToInitialized (len declared : Nat)
  | recordUnreadable (record : Nat)
  | extensionOffsetOverflow (record : Nat)
  | extensionIncomplete (record : Nat)
  | extensionUnusableStreams (record : Nat)
  | extensionCorrupt (record : Nat)
  | extensionUnreadable (record : Nat)
  -- `bounded_mft_record_count`, `bounded_bitmap_read_len`
  | mftWorkBudget (bounded available : Nat)
  | bitmapReadBudget (expected : Nat)
  -- `MftWarningBudget::finish`
  | recordWarningsSuppressed (count : Nat)
  -- `MftRetentionBudget`
  | deletedEntryBudget
  | directoryBudget
  | extensionReferenceBudget
  | extensionStreamOverflow
  | extensionStreamBudget
  | entryEvidenceBudget
  -- `process_mft_record`
  | recordNoSignature (record : Nat)
  | recordTorn (record : Nat)
  | recordCorrupt (record : Nat) (message : String)
  | recordIncomplete (record : Nat)
  -- `parse_entry`, `extract_data_streams`
  | attributeListMalformed
  | hasAttributeList (extensions : Nat)
  | hasNonResidentAttributeList
  | malformedRunlist (error : RunlistError)
  -- `load_allocation_map`
  | bitmapBeyondPrefix
  | bitmapOffsetOverflow
  | bitmapRecordUnreadable
  | bitmapRecordUnusable
  | bitmapMalformedAttributes
  | bitmapUntrusted
  | bitmapBoundsInvalid
  | bitmapNoTrustedData
  | bitmapStoppedAtSparseRun (len : Nat)
  | bitmapStoppedAtUntrustedRun (len : Nat)
  | bitmapDataUnreadable
  | bitmapTruncated (expected read : Nat)
  -- `build_namespace`
  | namespaceBudget
  -- `reconstruct_path`
  | rootNotFound
  | rootNotActiveDirectory
  | rootReused (expected found : Nat)
  | pathCycle
  | parentNotFound (record : Nat)
  | parentReused (record expected found : Nat)
  | parentNotDirectory (record : Nat)
  | ancestorDeleted (record : Nat)
  | parentNoName (record : Nat)
  | pathTooDeep
  -- `build_extents`
  | alternateDataStreams (count : Nat)
  | encryptedContent
  | compressedContent
deriving DecidableEq, Repr

/-- The message of the source. -/
def NtfsWarning.text : NtfsWarning → String
  | .mftStoppedAtSparseRun len =>
    s!"MFT trusted prefix stopped before sparse run at {len} bytes; remaining records ignored"
  | .mftStoppedAtUntrustedRun len =>
    s!"MFT trusted prefix stopped at {len} source-bounded bytes; remaining records ignored"
  | .mftBoundedToInitialized len declared =>
    s!"MFT scan bounded to {len} initialized bytes from declared {declared}"
  | .recordUnreadable record => s!"MFT record {record} unreadable; skipped"
  | .extensionOffsetOverflow record =>
    s!"MFT extension record {record} offset overflow; data streams may be incomplete"
  | .extensionIncomplete record =>
    s!"MFT extension record {record} has incomplete or unresolved attributes; " ++
      "data streams may be incomplete"
  | .extensionUnusableStreams record =>
    s!"MFT extension record {record} contains unusable data streams; " ++
      "candidate extents may be incomplete"
  | .extensionCorrupt record =>
    s!"MFT extension record {record} corrupt on merge; data streams may be incomplete"
  | .extensionUnreadable record =>
    s!"MFT extension record {record} unreadable on merge; data streams may be incomplete"
  | .mftWorkBudget bounded available =>
    s!"MFT scan work budget capped parsing at {bounded} of {available} records " ++
      s!"({maxMftRecords} records maximum)"
  | .bitmapReadBudget expected =>
    s!"$Bitmap read budget capped data at {maxBitmapReadBytes} of {expected} " ++
      "expected bytes; later bits unknown"
  | .recordWarningsSuppressed count =>
    s!"MFT record warnings suppressed: {count} additional record error(s)"
  | .deletedEntryBudget =>
    s!"MFT deleted-entry retention budget reached {maxRetainedDeletedEntries}; " ++
      "later candidates were not retained"
  | .directoryBudget =>
    s!"MFT directory retention budget reached {maxRetainedDirectoryEntries}; " ++
      "later path evidence was not retained"
  | .extensionReferenceBudget =>
    s!"MFT extension-reference retention budget reached {maxRetainedExtensionReferences}; " ++
      "later data streams were not retained"
  | .extensionStreamOverflow =>
    "MFT extension-stream retention budget overflowed; later data streams were not retained"
  | .extensionStreamBudget =>
    s!"MFT extension-stream retention budget reached {maxRetainedExtensionStreams}; " ++
      "later data streams were not retained"
  | .entryEvidenceBudget =>
    s!"MFT retained-entry evidence budget reached (names {maxRetainedEntryNames}, " ++
      s!"streams {maxRetainedEntryStreams}, run elements {maxRetainedEntryRunElements}); " ++
      "over-budget records or streams were not retained"
  | .recordNoSignature record => s!"MFT record {record} has no FILE signature; skipped"
  | .recordTorn record => s!"MFT record {record} has torn sectors (fixup mismatch); skipped"
  | .recordCorrupt record message => s!"MFT record {record} corrupt: {message}"
  | .recordIncomplete record =>
    s!"MFT record {record} has incomplete or unresolved attributes; metadata may be incomplete"
  | .attributeListMalformed => "attribute list value is malformed"
  | .hasAttributeList extensions =>
    s!"has attribute list with {extensions} extension reference(s)"
  | .hasNonResidentAttributeList => "has non-resident attribute list; extents may be incomplete"
  | .malformedRunlist error => "malformed runlist ignored: " ++ error.text
  | .bitmapBeyondPrefix =>
    "$Bitmap record lies beyond trusted MFT prefix; extent availability unknown"
  | .bitmapOffsetOverflow => "$Bitmap record offset overflow; extent availability unknown"
  | .bitmapRecordUnreadable => "$Bitmap record unreadable; extent availability unknown"
  | .bitmapRecordUnusable => "$Bitmap record unusable; extent availability unknown"
  | .bitmapMalformedAttributes =>
    "$Bitmap record has malformed attributes; extent availability unknown"
  | .bitmapUntrusted =>
    "$Bitmap record or stream semantics are not trustworthy; extent availability unknown"
  | .bitmapBoundsInvalid => "$Bitmap stream bounds invalid; extent availability unknown"
  | .bitmapNoTrustedData => "$Bitmap has no trusted physical data; extent availability unknown"
  | .bitmapStoppedAtSparseRun len =>
    s!"$Bitmap trusted prefix stopped before sparse run at {len} bytes; later bits unknown"
  | .bitmapStoppedAtUntrustedRun len =>
    s!"$Bitmap trusted prefix stopped at {len} source-bounded bytes; later bits unknown"
  | .bitmapDataUnreadable => "$Bitmap data unreadable; extent availability unknown"
  | .bitmapTruncated expected read =>
    s!"$Bitmap data truncated: expected {expected} bytes, read {read}"
  | .namespaceBudget =>
    s!"NTFS namespace evidence reached its bounded path/component budget ({maxNamespacePaths} " ++
      s!"paths, {maxNamespaceComponents} components); folder scope is incomplete"
  | .rootNotFound => "root directory record not found; treating as orphan"
  | .rootNotActiveDirectory =>
    "root directory record is not an active directory; treating as orphan"
  | .rootReused expected found =>
    s!"root directory record was reused (expected seq {expected}, found {found}); path unreliable"
  | .pathCycle => "path reconstruction hit a cycle; treating as orphan"
  | .parentNotFound record => s!"parent record {record} not found; treating as orphan"
  | .parentReused record expected found =>
    s!"parent record {record} was reused (expected seq {expected}, found {found}); path unreliable"
  | .parentNotDirectory record =>
    s!"parent record {record} is not a directory; treating as orphan"
  | .ancestorDeleted record => s!"ancestor directory (record {record}) is deleted"
  | .parentNoName record =>
    s!"parent record {record} has no recoverable name; treating as orphan"
  | .pathTooDeep => "path deeper than limit; treating as orphan"
  | .alternateDataStreams count =>
    s!"file has {count} alternate data stream(s); only the main stream is recovered"
  | .encryptedContent =>
    "content is EFS-encrypted; bytes are recoverable but unusable without the key"
  | .compressedContent =>
    "content is NTFS-compressed; transparent decompression is not yet supported"

/-- `warning.starts_with("has attribute list")`. -/
def NtfsWarning.startsWithHasAttributeList (w : NtfsWarning) : Bool :=
  "has attribute list".toList.isPrefixOf w.text.toList

end Undelete.Ntfs
