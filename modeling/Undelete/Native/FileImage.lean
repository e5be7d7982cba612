import Undelete.Native.Broker.Client

/-!
# Readers of image files

Model of `FileImageReader` in `crates/io-common/src/lib.rs`: exact reads in pieces, and
best-effort reads that retry sector by sector. The file is any state machine; opening it, and
the checks on its path, are left out.
-/

namespace Undelete

open Broker (IoError SectorLayout)

/-- `seek_read` on Windows and `read_at` on Unix: `readAt s offset len` answers a call with a
    destination of `len` bytes by the bytes it put there. The number of interruptions before
    another answer is bounded. -/
structure RawFile (σ : Type) where
  readAt : σ → Nat → Nat → Except IoError Bytes × σ
  patience : σ → Nat
  length_readAt : ∀ {s offset len bytes}, (readAt s offset len).1 = .ok bytes → bytes.length ≤ len
  patience_lt : ∀ s offset len e s', readAt s offset len = (.error e, s') →
    e.kind = .interrupted → patience s' < patience s

structure FileImageReader where
  len : Nat
  sectorLayout : SectorLayout
  len_lt : len < 2 ^ 64

namespace FileImageReader

variable {σ : Type} (file : RawFile σ) (reader : FileImageReader)

/-- The loop of `read_exact_at`, with `remaining` bytes of the buffer still to be filled. -/
def readExactAt.go (offset : Nat) (s : σ) (remaining : Nat) (filled : Bytes) :
    Except ReadError Bytes × σ :=
  if remaining = 0 then (.ok filled, s)
  else
    match _ : file.readAt s (offset + filled.length) remaining with
    | (.ok [], s') => (.error (.io (offset + filled.length) "unexpected end of file"), s')
    | (.ok (byte :: bytes), s') =>
      go offset s' (remaining - (bytes.length + 1)) (filled ++ byte :: bytes)
    | (.error error, s') =>
      if _ : error.kind = .interrupted then go offset s' remaining filled
      else (.error (.io (offset + filled.length) error.message), s')
termination_by (remaining, file.patience s)
decreasing_by
  · apply Prod.Lex.left
    omega
  · exact Prod.Lex.right _ (file.patience_lt s _ remaining error s' ‹_› ‹_›)

/-- `SourceReader::read_exact_at`: the bytes that fill the buffer, when it succeeds. -/
def readExactAt (s : σ) (offset length : Nat) : Except ReadError Bytes × σ :=
  match U64.checkedAdd offset length with
  | none => (.error (.outOfBounds offset length reader.len), s)
  | some stop =>
    if stop > reader.len then (.error (.outOfBounds offset length reader.len), s)
    else readExactAt.go file offset s length []

/-- One round of the retry: the bytes of the chunk, when all of it is read at once. -/
def readChunk (s : σ) (offset pos chunk : Nat) : Option Bytes × σ :=
  match (U64.checkedAdd offset pos).bind fun absolute =>
      (U64.checkedAdd absolute chunk).map fun stop => (absolute, stop) with
  | none => (none, s)
  | some (absolute, stop) =>
    if stop > reader.len then (none, s)
    else
      match file.readAt s absolute chunk with
      | (.ok bytes, s') => (if bytes.length = chunk then some bytes else none, s')
      | (.error _, s') => (none, s')

/-- The retry sector by sector, from `pos` on, at most `fuel` chunks: a chunk that is not read is
    filled with zeros. A chunk has at least one byte. -/
def retryChunks (offset length : Nat) : Nat → σ → Nat → Bytes × ReadOutcome × σ
  | 0, s, _ => ([], ⟨0, []⟩, s)
  | fuel + 1, s, pos =>
    if pos < length then
      let chunk := min reader.sectorLayout.logical.toNat (length - pos)
      match readChunk file reader s offset pos chunk with
      | (some bytes, s) =>
        let (rest, outcome, s) := retryChunks offset length fuel s (pos + chunk)
        (bytes ++ rest, ⟨chunk + outcome.bytesValid, outcome.badRanges⟩, s)
      | (none, s) =>
        let (rest, outcome, s) := retryChunks offset length fuel s (pos + chunk)
        (List.replicate chunk 0 ++ rest,
          ⟨outcome.bytesValid, (pos, chunk) :: outcome.badRanges⟩, s)
    else ([], ⟨0, []⟩, s)

/-- `SourceReader::read_best_effort_at`, with a buffer of `length` bytes. -/
def readBestEffortAt (s : σ) (offset length : Nat) : Bytes × ReadOutcome × σ :=
  match readExactAt file reader s offset length with
  | (.ok bytes, s) => (bytes, ⟨length, []⟩, s)
  | (.error _, s) =>
    if reader.sectorLayout.logical = 0 then
      (List.replicate length 0, ⟨0, [(0, length)]⟩, s)
    else retryChunks file reader offset length length s 0

end FileImageReader

end Undelete
