import Undelete.Native.Restore.Plan

/-!
# Errors of a restore job

The variants of `RestoreError` in `crates/restore/src/error.rs` that concern paths,
the destination and the journal; the variants of planning and streaming are
`RestoreError`. `Fault` adds the other way a Rust call can end: a panic.
-/

namespace Undelete.Restore

/-- The kinds of `std::io::ErrorKind` a restore job tells apart. -/
inductive IoErrorKind where
  | alreadyExists | notFound | unsupported | invalidInput
  | other (code : Nat)
deriving DecidableEq, Repr

structure IoError where
  kind : IoErrorKind
  message : String
deriving DecidableEq, Repr

inductive JobError where
  | content (error : RestoreError)
  | destinationRootNotDirectory
  | destinationRootIdentityChanged
  | invalidJobId (maximum : Nat)
  | invalidJobItemCount (actual maximum : Nat)
  | jobPathComponentLimit (actual maximum : Nat)
  | jobPathEvidenceLimit (actual maximum : Nat)
  | destinationIo (operation : String) (kind : IoErrorKind) (message : String)
  | temporaryNotRegularFile
  | temporaryIdentityChanged
  | temporaryLengthMismatch (expected actual : Nat)
  | collisionLimitExceeded (maximum : Nat)
  | hardLinkPublication (kind : IoErrorKind) (message : String)
  | needsReconciliation (message : String)
  | journalIo (operation : String) (kind : IoErrorKind) (message : String)
  | journalSerialization (message : String)
  | journalPayloadTooLarge (actual maximum : Nat)
  | journalRecordTooLarge (actual maximum : Nat)
  | journalRecordLimit (maximum : Nat)
  | journalSequenceOverflow (sequence : Nat)
  | journalPoisoned
  | journalAudit (message : String)
  | manifestSerialization (message : String)
deriving DecidableEq, Repr

/-- What a call ends with when it returns no value: an error, or a panic. -/
inductive Fault where
  | error (error : JobError)
  | panic
deriving DecidableEq, Repr

end Undelete.Restore
