import Undelete.Native.Ntfs.Stream
import Undelete.Native.Source
import Undelete.Spec.RunsCorrect

/-!
# Reading through a run list

On a source with a fixed content, `readStreamRange` succeeds exactly when the
requested range lies in the runs and each of its physical bytes can be read, and it
returns the bytes the runs map there (`readStreamRange_eq_ok`). So whatever a large
read returns, a read of a part of it returns the same part (`readStreamRange_sub`).
-/

namespace Undelete.Ntfs

open Except

/-- The byte the runs show at stream position `i`: sparse bytes are zero. -/
def streamByte (src : FaultySource) (clusterSize : Nat) (runs : List RunElement) (i : Nat) :
    UInt8 :=
  (runOffset clusterSize runs i).elim 0 src.byte

/-- Every physical byte behind the stream positions `start ≤ i < stop` can be read. -/
def StreamReadable (src : FaultySource) (clusterSize : Nat) (runs : List RunElement)
    (start stop : Nat) : Prop :=
  ∀ i, start ≤ i → i < stop → ∀ p ∈ runOffset clusterSize runs i, p < src.len ∧ ¬src.bad p

variable {src : FaultySource} {clusterSize totalClusters : Nat} {runs : List RunElement}

/-! ## Positions behind the first run -/

theorem runOffset_cons_add (run : RunElement) (runs : List RunElement) (i : Nat) :
    runOffset clusterSize (run :: runs) (run.clusterCount * clusterSize + i) =
      runOffset clusterSize runs i := by
  rw [runOffset, if_neg (by omega), Nat.add_sub_cancel_left]

theorem streamReadable_cons_add {run : RunElement} {start stop : Nat} :
    StreamReadable src clusterSize (run :: runs) (run.clusterCount * clusterSize + start)
      (run.clusterCount * clusterSize + stop) ↔
    StreamReadable src clusterSize runs start stop := by
  constructor
  · intro h i hlo hhi
    have := h (run.clusterCount * clusterSize + i) (by omega) (by omega)
    rwa [runOffset_cons_add] at this
  · intro h i hlo hhi
    obtain ⟨j, rfl⟩ : ∃ j, i = run.clusterCount * clusterSize + j :=
      ⟨i - run.clusterCount * clusterSize, by omega⟩
    rw [runOffset_cons_add]
    exact h j (by omega) (by omega)

theorem window_cons_add {run : RunElement} (start n : Nat) :
    Bytes.window (streamByte src clusterSize (run :: runs))
      (run.clusterCount * clusterSize + start) n =
    Bytes.window (streamByte src clusterSize runs) start n :=
  Bytes.window_congr fun i _ => by
    rw [Nat.add_assoc, streamByte, streamByte, runOffset_cons_add]

theorem streamReadable_split {a b c : Nat} (hab : a ≤ b) (hbc : b ≤ c) :
    StreamReadable src clusterSize runs a c ↔
      StreamReadable src clusterSize runs a b ∧ StreamReadable src clusterSize runs b c := by
  constructor
  · intro h
    exact ⟨fun i hlo hhi => h i hlo (by omega), fun i hlo hhi => h i (by omega) hhi⟩
  · rintro ⟨h₁, h₂⟩ i hlo hhi
    by_cases hi : i < b
    · exact h₁ i hlo hi
    · exact h₂ i (by omega) hhi

/-! ## Reading -/

/-- A piece of the first run. -/
theorem readRunPiece_eq_ok {run : RunElement} {start take : Nat} {piece : Bytes}
    (hfit : RunsFit totalClusters (run :: runs)) (hvolume : totalClusters * clusterSize < 2 ^ 64)
    (htake : 0 < take) (hle : start + take ≤ run.clusterCount * clusterSize) :
    readRunPiece src.toSourceReader clusterSize run start take = .ok piece ↔
      StreamReadable src clusterSize (run :: runs) start (start + take) ∧
      piece = Bytes.window (streamByte src clusterSize (run :: runs)) start take := by
  have hoffset : ∀ i < start + take, runOffset clusterSize (run :: runs) i =
      run.lcn.map (· * clusterSize + i) := by
    intro i hi
    rw [runOffset, if_pos (by omega)]
  cases hlcn : run.lcn with
  | none =>
    have hbytes : Bytes.window (streamByte src clusterSize (run :: runs)) start take =
        List.replicate take 0 := by
      apply List.ext_getElem?
      intro i
      rw [Bytes.getElem?_window, List.getElem?_replicate]
      split
      · next hi => rw [streamByte, hoffset _ (by omega), hlcn]; rfl
      · rfl
    simp only [readRunPiece, hlcn, ok.injEq, hbytes]
    constructor
    · rintro rfl
      refine ⟨fun i _ hi p hp => ?_, rfl⟩
      rw [hoffset i hi, hlcn] at hp
      cases hp
    · exact fun h => h.2.symm
  | some lcn =>
    have hinside : (lcn + run.clusterCount) * clusterSize ≤ totalClusters * clusterSize :=
      Nat.mul_le_mul_right _ (hfit.inside run List.mem_cons_self lcn hlcn)
    rw [Nat.add_mul] at hinside
    have hbytes : Bytes.window (streamByte src clusterSize (run :: runs)) start take =
        Bytes.window src.byte (lcn * clusterSize + start) take :=
      Bytes.window_congr fun i hi => by
        rw [streamByte, hoffset _ (by omega), hlcn, Option.map_some, Nat.add_assoc]
        rfl
    simp only [readRunPiece, hlcn, U64.checkedMul_of_lt (show lcn * clusterSize < 2 ^ 64 by omega),
      Option.bind_some, U64.checkedAdd_of_lt (show lcn * clusterSize + start < 2 ^ 64 by omega),
      okOr, bind_ok, mapError_eq_ok, src.readExactAt_eq_ok, hbytes]
    apply and_congr_left
    intro _
    constructor
    · rintro ⟨hlen, hgood⟩ i hlo hhi p hp
      rw [hoffset i hhi, hlcn] at hp
      obtain rfl : lcn * clusterSize + i = p := Option.some.inj hp
      exact ⟨by omega, hgood _ (by omega) (by omega)⟩
    · intro h
      have hread : ∀ i, start ≤ i → i < start + take →
          lcn * clusterSize + i < src.len ∧ ¬src.bad (lcn * clusterSize + i) :=
        fun i hlo hhi => h i hlo hhi _ (by rw [hoffset i hhi, hlcn]; rfl)
      refine ⟨?_, fun i hlo hhi => ?_⟩
      · have := (hread (start + take - 1) (by omega) (by omega)).1
        omega
      · have := (hread (i - lcn * clusterSize) (by omega) (by omega)).2
        rwa [Nat.add_sub_cancel' (by omega)] at this

/-- The loop of `readStreamRange`, with `out` filled and the runs before `streamPos`
    behind it. -/
theorem readRuns_eq_ok {logicalOffset len streamPos : Nat} {out r : Bytes}
    (hfit : RunsFit totalClusters runs) (hvolume : totalClusters * clusterSize < 2 ^ 64)
    (hstream : streamPos + totalRunClusters runs * clusterSize < 2 ^ 64)
    (hrequest : logicalOffset + len < 2 ^ 64) (hout : out.length < len)
    (hstart : streamPos ≤ logicalOffset + out.length) :
    (readRuns src.toSourceReader clusterSize logicalOffset len runs streamPos out = .ok r ∧
      len ≤ r.length) ↔
    logicalOffset + len ≤ streamPos + totalRunClusters runs * clusterSize ∧
    StreamReadable src clusterSize runs (logicalOffset + out.length - streamPos)
      (logicalOffset + len - streamPos) ∧
    r = out ++ Bytes.window (streamByte src clusterSize runs)
      (logicalOffset + out.length - streamPos) (len - out.length) := by
  induction runs generalizing streamPos out with
  | nil =>
    simp only [readRuns, ok.injEq, totalRunClusters, List.map_nil, List.sum_nil, Nat.zero_mul,
      Nat.add_zero]
    constructor
    · rintro ⟨rfl, hlen⟩; omega
    · rintro ⟨hle, _⟩; omega
  | cons run runs ih =>
    rw [totalRunClusters_cons, Nat.add_mul] at hstream ⊢
    simp only [readRuns,
      U64.checkedMul_of_lt (show run.clusterCount * clusterSize < 2 ^ 64 by omega),
      U64.checkedAdd_of_lt (show streamPos + run.clusterCount * clusterSize < 2 ^ 64 by omega),
      U64.checkedAdd_of_lt (show logicalOffset + out.length < 2 ^ 64 by omega), okOr, bind_ok]
    obtain ⟨start, hstartEq⟩ : ∃ start, logicalOffset + out.length = streamPos + start :=
      ⟨logicalOffset + out.length - streamPos, by omega⟩
    have hwithin : logicalOffset + out.length - streamPos = start := by omega
    rw [hwithin]
    by_cases hbehind : logicalOffset + out.length ≥ streamPos + run.clusterCount * clusterSize
    · -- the request starts behind this run
      rw [if_pos (.inl hbehind), ih hfit.tail (by omega) hout hbehind]
      obtain ⟨i, rfl⟩ : ∃ i, start = run.clusterCount * clusterSize + i :=
        ⟨start - run.clusterCount * clusterSize, by omega⟩
      have hi : logicalOffset + out.length - (streamPos + run.clusterCount * clusterSize) = i := by
        omega
      have hstop : logicalOffset + len - streamPos = run.clusterCount * clusterSize +
          (logicalOffset + len - (streamPos + run.clusterCount * clusterSize)) := by omega
      rw [hi, hstop, streamReadable_cons_add, window_cons_add, Nat.add_assoc]
    · rw [if_neg (by omega), if_neg (by omega)]
      generalize htake : min (run.clusterCount * clusterSize - start) (len - out.length) = take
      have hpiece : ∀ piece,
        readRunPiece src.toSourceReader clusterSize run start take = .ok piece ↔
          StreamReadable src clusterSize (run :: runs) start (start + take) ∧
          piece = Bytes.window (streamByte src clusterSize (run :: runs)) start take :=
        fun _ => readRunPiece_eq_ok hfit hvolume (by omega) (by omega)
      have hsplit : StreamReadable src clusterSize (run :: runs) start
            (logicalOffset + len - streamPos) ↔
          StreamReadable src clusterSize (run :: runs) start (start + take) ∧
          StreamReadable src clusterSize (run :: runs) (start + take)
            (logicalOffset + len - streamPos) := streamReadable_split (by omega) (by omega)
      have hwindow : Bytes.window (streamByte src clusterSize (run :: runs)) start
            (len - out.length) =
          Bytes.window (streamByte src clusterSize (run :: runs)) start take ++
          Bytes.window (streamByte src clusterSize (run :: runs)) (start + take)
            (len - out.length - take) := by
        rw [Bytes.window_append, Nat.add_sub_cancel' (by omega)]
      rw [hsplit, hwindow]
      cases hread : readRunPiece src.toSourceReader clusterSize run start take with
      | error e =>
        -- the piece cannot be read, so neither can the range
        have hunreadable : ¬StreamReadable src clusterSize (run :: runs) start (start + take) := by
          intro h
          have := (hpiece _).mpr ⟨h, rfl⟩
          rw [hread] at this
          cases this
        constructor
        · rintro ⟨h, _⟩; cases h
        · rintro ⟨_, ⟨h, _⟩, _⟩; exact absurd h hunreadable
      | ok piece =>
        obtain ⟨hreadable, rfl⟩ := (hpiece piece).mp hread
        rw [bind_ok]
        generalize hfirst :
          Bytes.window (streamByte src clusterSize (run :: runs)) start take = piece
        have hlength : piece.length = take := by rw [← hfirst, Bytes.length_window]
        rw [List.length_append, hlength]
        by_cases hdone : out.length + take ≥ len
        · -- the piece completes the request
          have hrest : len - out.length - take = 0 := by omega
          have hend : logicalOffset + len - streamPos = start + take := by omega
          rw [if_pos hdone, hrest, hend, pure_eq_ok]
          simp only [Bytes.window, List.range_zero, List.map_nil, List.append_nil]
          constructor
          · rintro ⟨rfl, _⟩
            exact ⟨by omega, ⟨hreadable, fun i hlo hhi => by omega⟩, rfl⟩
          · rintro ⟨_, _, rfl⟩
            exact ⟨rfl, by rw [List.length_append, hlength]; exact hdone⟩
        · -- the request goes on at the start of the next run
          have hfilled : (out ++ piece).length = out.length + take := by
            rw [List.length_append, hlength]
          have hnext : start + take = run.clusterCount * clusterSize + 0 := by omega
          have hstop : logicalOffset + len - streamPos = run.clusterCount * clusterSize +
              (logicalOffset + len - (streamPos + run.clusterCount * clusterSize)) := by omega
          rw [if_neg hdone, ih hfit.tail (by omega) (by omega) (by omega), hfilled, hnext, hstop,
            streamReadable_cons_add, window_cons_add, List.append_assoc, Nat.sub_sub,
            show logicalOffset + (out.length + take) -
              (streamPos + run.clusterCount * clusterSize) = 0 by omega]
          have hreadable : StreamReadable src clusterSize (run :: runs) start
              (run.clusterCount * clusterSize + 0) := by rw [← hnext]; exact hreadable
          simp only [hreadable, true_and, Nat.add_assoc]

/-- On a fixed content, reading a range of a stream succeeds exactly when the runs hold
    it and its physical bytes can be read, and returns the bytes the runs map there. -/
theorem readStreamRange_eq_ok {logicalOffset len : Nat} {bytes : Bytes}
    (hfit : RunsFit totalClusters runs) (hvolume : totalClusters * clusterSize < 2 ^ 64)
    (hrequest : logicalOffset + len < 2 ^ 64) (hlen : 0 < len) :
    readStreamRange src.toSourceReader runs clusterSize logicalOffset len = .ok bytes ↔
    logicalOffset + len ≤ totalRunClusters runs * clusterSize ∧
    StreamReadable src clusterSize runs logicalOffset (logicalOffset + len) ∧
    bytes = Bytes.window (streamByte src clusterSize runs) logicalOffset len := by
  have hruns : totalRunClusters runs * clusterSize ≤ totalClusters * clusterSize :=
    Nat.mul_le_mul_right _ hfit.total_le
  have hloop := @readRuns_eq_ok src clusterSize totalClusters runs logicalOffset len 0 []
  simp only [readStreamRange, bind_eq_ok, throw_bind, ite_throw_eq_ok, pure_eq_ok]
  simp only [List.length_nil, Nat.add_zero, Nat.zero_add, Nat.sub_zero, List.nil_append] at hloop
  rw [← hloop hfit hvolume (by omega) hrequest hlen (Nat.zero_le _)]
  constructor
  · rintro ⟨out, hout, hge, rfl⟩
    exact ⟨hout, by omega⟩
  · rintro ⟨hout, hge⟩
    exact ⟨bytes, hout, by omega, rfl⟩

/-- A part of a range that can be read can be read, and is the same part of the bytes. -/
theorem readStreamRange_sub {logicalOffset len start n : Nat} {bytes : Bytes}
    (hfit : RunsFit totalClusters runs) (hvolume : totalClusters * clusterSize < 2 ^ 64)
    (hrequest : logicalOffset + len < 2 ^ 64) (hn : 0 < n) (hle : start + n ≤ len)
    (h : readStreamRange src.toSourceReader runs clusterSize logicalOffset len = .ok bytes) :
    readStreamRange src.toSourceReader runs clusterSize (logicalOffset + start) n =
      .ok (bytes.slice start (start + n)) := by
  obtain ⟨hruns, hreadable, rfl⟩ :=
    (readStreamRange_eq_ok hfit hvolume hrequest (by omega)).mp h
  rw [readStreamRange_eq_ok hfit hvolume (by omega) hn]
  refine ⟨by omega, fun i hlo hhi => hreadable i (by omega) (by omega), ?_⟩
  rw [Bytes.slice_window _ _ hle, Nat.add_sub_cancel_left]

end Undelete.Ntfs
