import Undelete.ForStd.Lines
import Undelete.Native.Restore.Error

/-!
# The recovery journal

Model of `crates/restore/src/journal.rs`: the append side, a hash chain of JSON lines
written to a sink that may fail, and the auditor that reads such a file back.
`serde_json` and SHA-256 are parameters. A call on the sink that fails says so in the
`SinkFault` of the append.
-/

namespace Undelete.Restore

def journalVersion : Nat := 1
def maxJournalPayloadBytes : Nat := 1024 * 1024
def maxJournalRecordBytes : Nat := maxJournalPayloadBytes + 4096
def maxJournalRecords : Nat := 1000000
def zeroHash : String := "0000000000000000000000000000000000000000000000000000000000000000"

/-- `b"undelete-master-journal-record-v1\0"` -/
def hashDomain : Bytes := Bytes.ofString "undelete-master-journal-record-v1" ++ [0]

structure JournalRecord (Value : Type) where
  version : Nat
  jobIdSha256 : String
  sequence : Nat
  previousHash : String
  kind : String
  payloadLength : Nat
  payload : Value
  recordHash : String
deriving DecidableEq

/-- The functions of `serde_json` the journal uses; an error is its text. -/
structure Json (Value : Type) where
  valueToVec : Value → Except String Bytes
  recordToVec : JournalRecord Value → Except String Bytes
  recordFromSlice : Bytes → Except String (JournalRecord Value)

variable {Value : Type}

/-! ## Hashes -/

def hexDigit (n : UInt8) : Char :=
  if n < 10 then Char.ofNat (48 + n.toNat) else Char.ofNat (87 + n.toNat)

def hexLower (bytes : Bytes) : String :=
  String.ofList (bytes.flatMap fun (byte : UInt8) =>
    [hexDigit (byte >>> 4), hexDigit (byte &&& 0x0f)])

/-- `str::is_char_boundary`, on the UTF-8 bytes. -/
def isCharBoundary (text : Bytes) (index : Nat) : Bool :=
  index == text.length || (text[index]?.any fun byte => byte &&& 0xc0 != 0x80)

/-- `&text[start..stop]`, which panics when an end is not a character boundary. -/
def sliceStr (text : Bytes) (start stop : Nat) : Except Fault Bytes :=
  if start ≤ stop && isCharBoundary text start && isCharBoundary text stop then
    .ok (text.slice start stop)
  else .error .panic

/-- `char::to_digit(16)` of a byte. -/
def toDigit16 (byte : UInt8) : Option Nat :=
  if 48 ≤ byte && byte ≤ 57 then some (byte.toNat - 48)
  else if 97 ≤ byte && byte ≤ 102 then some (byte.toNat - 87)
  else if 65 ≤ byte && byte ≤ 70 then some (byte.toNat - 55)
  else none

/-- `u8::from_str_radix(pair, 16)` for two bytes: a leading `+` is a sign. -/
def fromStrRadix16 : Bytes → Option UInt8
  | [high, low] =>
    if high = 43 then (toDigit16 low).map UInt8.ofNat
    else do
      let h ← toDigit16 high
      let l ← toDigit16 low
      return UInt8.ofNat (16 * h + l)
  | _ => none

def decodePair (text : Bytes) (index : Nat) : Except Fault UInt8 := do
  let pair ← sliceStr text (index * 2) (index * 2 + 2)
  okOr (fromStrRadix16 pair) (.error (.journalAudit "journal hash encoding is invalid"))

def decodeHash (encoded : String) : Except Fault Digest := do
  if encoded.utf8ByteSize ≠ 64 then
    throw (.error (.journalAudit "journal hash length is invalid"))
  let bytes ← (List.range 32).mapM (decodePair (Bytes.ofString encoded))
  return Vector.ofFn fun i => bytes.getD i 0

/-- The bytes `record_hash` feeds to the hasher. -/
def hashInput (jobIdSha256 : Digest) (sequence : Nat) (previous : Digest) (kind : String)
    (payload : Bytes) : Bytes :=
  hashDomain ++ jobIdSha256.toList ++ Bytes.ofLE 8 sequence ++ previous.toList ++
    Bytes.ofLE 4 kind.utf8ByteSize ++ Bytes.ofString kind ++ Bytes.ofLE 8 payload.length ++ payload

def recordHash (sha256 : Bytes → Digest) (jobIdSha256 : Digest) (sequence : Nat)
    (previousHash kind : String) (payload : Bytes) : Except Fault String := do
  let previous ← decodeHash previousHash
  if kind.utf8ByteSize ≥ 2 ^ 32 then
    throw (.error (.journalSerialization "journal kind is too long"))
  if payload.length ≥ 2 ^ 64 then
    throw (.error (.journalSerialization "journal payload is too long"))
  return hexLower (sha256 (hashInput jobIdSha256 sequence previous kind payload)).toList

/-! ## Appending -/

/-- How the sink fails during an append: inside the write, after some of the bytes, at the
    flush, or at the sync. -/
inductive SinkFault where
  | write (written : Nat) (error : IoError)
  | flush (error : IoError)
  | sync (error : IoError)

structure JobJournal where
  sink : Bytes
  jobIdSha256 : Digest
  nextSequence : Nat
  previousHash : String
  poisoned : Bool

/-- `JobJournal::with_sink`, for an empty sink. -/
def JobJournal.withSink (jobIdSha256 : Digest) : JobJournal where
  sink := []
  jobIdSha256
  nextSequence := 0
  previousHash := zeroHash
  poisoned := false

def serialization {α : Type} (x : Except String α) : Except Fault α :=
  x.mapError fun message => .error (.journalSerialization message)

/-- What `append` does before it touches the sink: the line to write and its hash. -/
def prepareRecord (json : Json Value) (sha256 : Bytes → Digest) (journal : JobJournal)
    (kind : String) (payload : Except String Value) : Except Fault (Bytes × String) := do
  if journal.poisoned then
    throw (.error .journalPoisoned)
  if journal.nextSequence ≥ maxJournalRecords then
    throw (.error (.journalRecordLimit maxJournalRecords))
  let payload ← serialization payload
  let payloadBytes ← serialization (json.valueToVec payload)
  if payloadBytes.length > maxJournalPayloadBytes then
    throw (.error (.journalPayloadTooLarge payloadBytes.length maxJournalPayloadBytes))
  let hash ← recordHash sha256 journal.jobIdSha256 journal.nextSequence journal.previousHash kind
    payloadBytes
  let record ← serialization (json.recordToVec
    { version := journalVersion
      jobIdSha256 := hexLower journal.jobIdSha256.toList
      sequence := journal.nextSequence
      previousHash := journal.previousHash
      kind
      payloadLength := payloadBytes.length
      payload
      recordHash := hash })
  let bytes := record ++ [10]
  if bytes.length > maxJournalRecordBytes then
    throw (.error (.journalRecordTooLarge bytes.length maxJournalRecordBytes))
  return (bytes, hash)

def journalIo (operation : String) (error : IoError) : Fault :=
  .error (.journalIo operation error.kind error.message)

/-- `JobJournal::append`; `payload` is what `serde_json::to_value` makes of the argument. -/
def JobJournal.append (json : Json Value) (sha256 : Bytes → Digest) (journal : JobJournal)
    (kind : String) (payload : Except String Value) (fault : Option SinkFault) :
    Except Fault Unit × JobJournal :=
  match prepareRecord json sha256 journal kind payload with
  | .error e => (.error e, journal)
  | .ok (bytes, hash) =>
    match fault with
    | some (.write written error) =>
      (.error (journalIo "write" error),
        { journal with sink := journal.sink ++ bytes.take written, poisoned := true })
    | some (.flush error) =>
      (.error (journalIo "flush" error),
        { journal with sink := journal.sink ++ bytes, poisoned := true })
    | some (.sync error) =>
      (.error (journalIo "sync" error),
        { journal with sink := journal.sink ++ bytes, poisoned := true })
    | none =>
      match U64.checkedAdd journal.nextSequence 1 with
      | none =>
        (.error (.error (.journalSequenceOverflow journal.nextSequence)),
          { journal with sink := journal.sink ++ bytes })
      | some next =>
        (.ok (), { journal with
          sink := journal.sink ++ bytes
          nextSequence := next
          previousHash := hash })

/-! ## Auditing -/

structure JournalAudit (Value : Type) where
  records : List (JournalRecord Value)

def JournalAudit.kinds (audit : JournalAudit Value) : List String := audit.records.map (·.kind)

def JournalAudit.sequences (audit : JournalAudit Value) : List Nat :=
  audit.records.map (·.sequence)

def auditError (message : String) : Fault := .error (.journalAudit message)

/-- What the audit loop carries from line to line. -/
structure AuditState (Value : Type) where
  records : List (JournalRecord Value) := []
  expectedSequence : Nat := 0
  expectedPrevious : String := zeroHash
  expectedJobIdSha256 : Option Digest := none

/-- The checks of one line up to the decoding of its job identity: the record, and the bytes
    of its payload. -/
def auditEnvelope (json : Json Value) (maximumRecords : Nat) (st : AuditState Value)
    (terminatedLine : Bytes) : Except Fault (JournalRecord Value × Bytes) := do
  if st.expectedSequence ≥ maximumRecords then
    throw (.error (.journalRecordLimit maximumRecords))
  if terminatedLine.length > maxJournalRecordBytes then
    throw (.error (.journalRecordTooLarge terminatedLine.length maxJournalRecordBytes))
  let line ← okOr (Bytes.stripSuffix 10 terminatedLine)
    (auditError "journal does not end at a complete JSONL record")
  if line.isEmpty then
    throw (auditError "journal contains an empty JSONL record")
  let record ← (json.recordFromSlice line).mapError auditError
  let canonical ← (json.recordToVec record).mapError auditError
  if canonical ≠ line then
    throw (auditError "journal record bytes are not canonical")
  if record.version ≠ journalVersion || record.sequence ≠ st.expectedSequence ||
      record.previousHash ≠ st.expectedPrevious then
    throw (auditError "journal version, sequence, or previous hash is invalid")
  let payloadBytes ← (json.valueToVec record.payload).mapError auditError
  if payloadBytes.length > maxJournalPayloadBytes then
    throw (.error (.journalPayloadTooLarge payloadBytes.length maxJournalPayloadBytes))
  if payloadBytes.length ≠ record.payloadLength then
    throw (auditError "journal payload length is invalid")
  return (record, payloadBytes)

/-- One turn of the audit loop. -/
def auditRecord (json : Json Value) (sha256 : Bytes → Digest) (maximumRecords : Nat)
    (st : AuditState Value) (terminatedLine : Bytes) : Except Fault (AuditState Value) := do
  let (record, payloadBytes) ← auditEnvelope json maximumRecords st terminatedLine
  let jobIdSha256 ← decodeHash record.jobIdSha256
  if st.expectedJobIdSha256.any fun expected => expected ≠ jobIdSha256 then
    throw (auditError "journal job identity changed inside one hash chain")
  let actualHash ← recordHash sha256 jobIdSha256 record.sequence record.previousHash record.kind
    payloadBytes
  if actualHash ≠ record.recordHash then
    throw (auditError "journal record hash is invalid")
  let expectedSequence ← okOr (U64.checkedAdd st.expectedSequence 1)
    (auditError "journal sequence overflow")
  return {
    records := st.records ++ [record]
    expectedSequence
    expectedPrevious := record.recordHash
    expectedJobIdSha256 := some jobIdSha256 }

def auditJournalWithRecordLimit (json : Json Value) (sha256 : Bytes → Digest) (bytes : Bytes)
    (maximumRecords : Nat) : Except Fault (JournalAudit Value) := do
  if bytes.toString?.isNone then
    -- the text of a `Utf8Error`, without the position
    throw (auditError "invalid utf-8 sequence")
  if !bytes.isEmpty && bytes.getLast? ≠ some 10 then
    throw (auditError "journal does not end at a complete JSONL record")
  let st ← (bytes.splitInclusive 10).foldlM (auditRecord json sha256 maximumRecords) {}
  return { records := st.records }

def auditJournal (json : Json Value) (sha256 : Bytes → Digest) (bytes : Bytes) :
    Except Fault (JournalAudit Value) :=
  auditJournalWithRecordLimit json sha256 bytes maxJournalRecords

end Undelete.Restore
