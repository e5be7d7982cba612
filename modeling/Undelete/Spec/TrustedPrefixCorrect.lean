import Mathlib.Order.Bounds.Defs
import Undelete.Spec.StreamReadCorrect

/-!
# The trusted prefix of a stream

`trustedPhysicalStreamPrefixLen` says how far a stream lies on the source. `readStreamRange` and
`streamPhysOffset` walk over the same runs, but over their whole lengths: where the last run is
clipped, they also need its end to be a 64-bit stream position.

## Key results

- `trustedPrefixFrom_isGreatest`: the prefix ends at the first run that cannot be trusted.
- `physOffsetFrom_trusted`: every position of the prefix has a place on the source.
- `readRuns_trusted`: a range of the prefix can be read exactly when its runs are addressed.
- `decodeRunlist_addressed`: the runs of a decoded run list are.
-/

namespace Undelete.Ntfs

open Except

/-- The stream position behind a run that starts at `pos`. -/
abbrev RunElement.stop (run : RunElement) (clusterSize pos : Nat) : Nat :=
  pos + run.clusterCount * clusterSize

/-- The part of a run below `limit` is stored inside a source of `sourceLen` bytes. -/
def RunElement.Stored (run : RunElement) (clusterSize sourceLen limit pos : Nat) : Prop :=
  ∃ lcn, run.lcn = some lcn ∧
    lcn * clusterSize + min (run.clusterCount * clusterSize) (limit - pos) ≤ sourceLen

/-- The runs reach stream position `v`, and those that start before it are stored inside the
    source, as far as they lie below `limit`. -/
def Trusted (clusterSize sourceLen limit v : Nat) : List RunElement → Nat → Prop
  | [], pos => v ≤ pos
  | run :: runs, pos => v ≤ pos ∨ run.Stored clusterSize sourceLen limit pos ∧
      Trusted clusterSize sourceLen limit v runs (run.stop clusterSize pos)

/-- The runs end at 64-bit stream positions, up to the first one that reaches `stop`. -/
def Addressed (clusterSize stop : Nat) : List RunElement → Nat → Prop
  | [], _ => True
  | run :: runs, pos => run.stop clusterSize pos < 2 ^ 64 ∧
      (run.stop clusterSize pos < stop → Addressed clusterSize stop runs (run.stop clusterSize pos))

/-- How far a read of `n` bytes at `offset` walks: to its end, or over all runs when it reads
    nothing. -/
def walkStop (offset n : Nat) : Nat := if n = 0 then 2 ^ 64 else offset + n

variable {src : FaultySource} {clusterSize sourceLen limit v pos stop : Nat} {run : RunElement}
  {runs : List RunElement} {result : TrustedStreamPrefix}

/-! ## The end of the prefix -/

theorem trustedPrefixFrom_done (h : limit ≤ pos) :
    trustedPrefixFrom clusterSize sourceLen limit runs pos = .ok ⟨pos, false, false⟩ := by
  have hdone : decide (pos < limit) = false := decide_eq_false (by omega)
  cases runs with
  | nil => rw [trustedPrefixFrom, hdone]
  | cons run runs =>
    rw [trustedPrefixFrom, if_pos h, hdone]
    rfl

/-- What the loop checks of a run that starts below the limit. -/
theorem trustedPrefixFrom_cons (hlimit : pos < limit)
    (h : trustedPrefixFrom clusterSize sourceLen limit (run :: runs) pos = .ok result) :
    (result.len = pos ∧ ¬run.Stored clusterSize sourceLen limit pos) ∨
      run.Stored clusterSize sourceLen limit pos ∧
        pos + min (run.clusterCount * clusterSize) (limit - pos) < 2 ^ 64 ∧
        trustedPrefixFrom clusterSize sourceLen limit runs
          (pos + min (run.clusterCount * clusterSize) (limit - pos)) = .ok result := by
  rw [trustedPrefixFrom, if_neg (by omega)] at h
  obtain ⟨runLen, hrunLen, h⟩ := bind_eq_ok.mp h
  obtain ⟨-, rfl⟩ := U64.checkedMul_eq_some.mp (okOr_eq_ok.mp hrunLen)
  unfold RunElement.Stored
  -- a sparse run ends the prefix, a placed one must end inside the source
  cases hlcn : run.lcn with
  | none =>
    rw [hlcn] at h
    cases h
    refine .inl ⟨rfl, ?_⟩
    intro ⟨lcn, heq, _⟩
    cases heq
  | some lcn =>
    rw [hlcn] at h
    obtain ⟨physicalStart, hstart, h⟩ := bind_eq_ok.mp h
    obtain ⟨-, rfl⟩ := U64.checkedMul_eq_some.mp (okOr_eq_ok.mp hstart)
    obtain ⟨physicalEnd, hend, h⟩ := bind_eq_ok.mp h
    obtain ⟨-, rfl⟩ := U64.checkedAdd_eq_some.mp (okOr_eq_ok.mp hend)
    split at h
    · next hbehind =>
      cases h
      refine .inl ⟨rfl, ?_⟩
      intro ⟨lcn', heq, hinside⟩
      obtain rfl := Option.some.inj heq
      omega
    · next hinside =>
      obtain ⟨next, hnext, h⟩ := bind_eq_ok.mp h
      obtain ⟨hlt, rfl⟩ := U64.checkedAdd_eq_some.mp (okOr_eq_ok.mp hnext)
      exact .inr ⟨⟨lcn, rfl, by omega⟩, hlt, h⟩

theorem trusted_of_le (h : v ≤ pos) : Trusted clusterSize sourceLen limit v runs pos := by
  cases runs with
  | nil => exact h
  | cons run runs => exact .inl h

/-- The loop finds the largest position below the limit that can be trusted. -/
theorem trustedPrefixFrom_isGreatest (hlimit : pos ≤ limit)
    (h : trustedPrefixFrom clusterSize sourceLen limit runs pos = .ok result) :
    IsGreatest {v | v ≤ limit ∧ Trusted clusterSize sourceLen limit v runs pos} result.len := by
  -- on the runs, with the prefix so far as the lower bound
  induction runs generalizing pos with
  | nil =>
    cases h
    exact ⟨⟨hlimit, Nat.le_refl _⟩, fun v hv => hv.2⟩
  | cons run runs ih =>
    by_cases hdone : limit ≤ pos
    · rw [trustedPrefixFrom_done hdone] at h
      cases h
      exact ⟨⟨hlimit, .inl (Nat.le_refl _)⟩, fun v hv => Nat.le_trans hv.1 hdone⟩
    · cases trustedPrefixFrom_cons (Nat.lt_of_not_le hdone) h with
      | inl hstopped =>
        rw [hstopped.1]
        refine ⟨⟨hlimit, .inl (Nat.le_refl _)⟩, fun v hv => ?_⟩
        cases hv.2 with
        | inl hle => exact hle
        | inr hstored => exact absurd hstored.1 hstopped.2
      | inr hgoes =>
        obtain ⟨hstored, -, hrest⟩ := hgoes
        by_cases hclipped : run.clusterCount * clusterSize ≤ limit - pos
        · rw [Nat.min_eq_left hclipped] at hrest
          obtain ⟨hmem, hmax⟩ := ih (by omega) hrest
          -- nothing beyond the rest's prefix can be trusted without this run
          refine ⟨⟨hmem.1, .inr ⟨hstored, hmem.2⟩⟩, fun v hv => ?_⟩
          cases hv.2 with
          | inl hle =>
            have hreached := hmax ⟨show pos + run.clusterCount * clusterSize ≤ limit by omega,
              trusted_of_le (Nat.le_refl _)⟩
            omega
          | inr htrusted => exact hmax ⟨hv.1, htrusted.2⟩
        · -- the run is clipped, and the prefix ends at the limit
          rw [Nat.min_eq_right (by omega), Nat.add_sub_cancel' hlimit,
            trustedPrefixFrom_done (Nat.le_refl _)] at hrest
          cases hrest
          have hreached : limit ≤ run.stop clusterSize pos := by
            show limit ≤ pos + run.clusterCount * clusterSize
            omega
          exact ⟨⟨Nat.le_refl _, .inr ⟨hstored, trusted_of_le hreached⟩⟩, fun v hv => hv.1⟩

/-- The prefix ends at a 64-bit stream position. -/
theorem trustedPrefixFrom_lt (hpos : pos < 2 ^ 64)
    (h : trustedPrefixFrom clusterSize sourceLen limit runs pos = .ok result) :
    result.len < 2 ^ 64 := by
  induction runs generalizing pos with
  | nil =>
    cases h
    exact hpos
  | cons run runs ih =>
    by_cases hdone : limit ≤ pos
    · rw [trustedPrefixFrom_done hdone] at h
      cases h
      exact hpos
    · cases trustedPrefixFrom_cons (Nat.lt_of_not_le hdone) h with
      | inl hstopped =>
        rw [hstopped.1]
        exact hpos
      | inr hgoes => exact ih hgoes.2.1 hgoes.2.2

/-! ## Places on the source -/

/-- The byte of a run that is stored, at stream position `i`. -/
theorem RunElement.Stored.place {lcn i : Nat} (hlcn : run.lcn = some lcn)
    (h : run.Stored clusterSize sourceLen limit pos) (hlo : pos ≤ i) (hhi : i < limit)
    (hrun : i < run.stop clusterSize pos) : lcn * clusterSize + (i - pos) < sourceLen := by
  obtain ⟨lcn', heq, hle⟩ := h
  rw [hlcn] at heq
  obtain rfl := Option.some.inj heq
  have hrun : i < pos + run.clusterCount * clusterSize := hrun
  omega

theorem physOffsetFrom_here {lcn i : Nat} (hlcn : run.lcn = some lcn)
    (hstop : run.stop clusterSize pos < 2 ^ 64) (hrun : i < run.stop clusterSize pos)
    (hplace : lcn * clusterSize + (i - pos) < 2 ^ 64) :
    physOffsetFrom clusterSize i (run :: runs) pos = some (lcn * clusterSize + (i - pos)) := by
  have hstop : pos + run.clusterCount * clusterSize < 2 ^ 64 := hstop
  simp only [physOffsetFrom, Option.bind_eq_bind,
    U64.checkedMul_of_lt (show run.clusterCount * clusterSize < 2 ^ 64 by omega),
    U64.checkedAdd_of_lt hstop, Option.bind_some]
  rw [if_pos hrun, hlcn, Option.bind_some, U64.checkedMul_of_lt (by omega), Option.bind_some,
    U64.checkedAdd_of_lt hplace]

theorem physOffsetFrom_behind {i : Nat} (hstop : run.stop clusterSize pos < 2 ^ 64)
    (hrun : run.stop clusterSize pos ≤ i) :
    physOffsetFrom clusterSize i (run :: runs) pos =
      physOffsetFrom clusterSize i runs (run.stop clusterSize pos) := by
  have hstop : pos + run.clusterCount * clusterSize < 2 ^ 64 := hstop
  simp only [physOffsetFrom, Option.bind_eq_bind,
    U64.checkedMul_of_lt (show run.clusterCount * clusterSize < 2 ^ 64 by omega),
    U64.checkedAdd_of_lt hstop, Option.bind_some]
  rw [if_neg (by exact Nat.not_lt.mpr hrun)]

/-- Every position below a trusted one has a place on the source, when the runs up to it are
    addressed. -/
theorem physOffsetFrom_trusted {i : Nat} (hsource : sourceLen < 2 ^ 64) (hv : v ≤ limit)
    (h : Trusted clusterSize sourceLen limit v runs pos) (hlo : pos ≤ i) (hhi : i < v)
    (haddressed : Addressed clusterSize (i + 1) runs pos) :
    ∃ p, physOffsetFrom clusterSize i runs pos = some p ∧ p < sourceLen := by
  induction runs generalizing pos with
  | nil =>
    have h : v ≤ pos := h
    omega
  | cons run runs ih =>
    obtain ⟨hstored, htrusted⟩ := h.resolve_left (by omega)
    obtain ⟨hstop, hnext⟩ := haddressed
    by_cases hrun : i < run.stop clusterSize pos
    · obtain ⟨lcn, hlcn, -⟩ := id hstored
      have hplace := hstored.place hlcn hlo (by omega) hrun
      exact ⟨_, physOffsetFrom_here hlcn hstop hrun (by omega), hplace⟩
    · rw [physOffsetFrom_behind hstop (Nat.le_of_not_lt hrun)]
      exact ih htrusted (Nat.le_of_not_lt hrun) (hnext (Nat.lt_succ_of_le (Nat.le_of_not_lt hrun)))

theorem Addressed.mono {stop' : Nat} (h : Addressed clusterSize stop runs pos)
    (hle : stop' ≤ stop) :
    Addressed clusterSize stop' runs pos := by
  induction runs generalizing pos with
  | nil => trivial
  | cons run runs ih => exact ⟨h.1, fun hlt => ih (h.2 (Nat.lt_of_lt_of_le hlt hle))⟩

/-! ## Reads -/

/-- The source byte at the place of stream position `i`. -/
def placedByte (src : FaultySource) (clusterSize : Nat) (runs : List RunElement) (pos i : Nat) :
    UInt8 :=
  (physOffsetFrom clusterSize i runs pos).elim 0 src.byte

section Reads

variable (hgood : ∀ p, ¬src.bad p) {offset n : Nat} {out r : Bytes}

include hgood

/-- A piece of a stored run is read from its place. -/
theorem readRunPiece_stored {start take : Nat} (hstored : run.Stored clusterSize src.len limit pos)
    (hstop : run.stop clusterSize pos < 2 ^ 64) (hlo : pos ≤ start) (htake : 0 < take)
    (hrun : start + take ≤ run.stop clusterSize pos) (hlimit : start + take ≤ limit) :
    readRunPiece src.toSourceReader clusterSize run (start - pos) take =
      .ok (Bytes.window (placedByte src clusterSize (run :: runs) pos) start take) := by
  obtain ⟨lcn, hlcn, -⟩ := id hstored
  have hplace := fun i (hi : start ≤ i) (hi' : i < start + take) =>
    hstored.place hlcn (Nat.le_trans hlo hi) (by omega) (Nat.lt_of_lt_of_le hi' hrun)
  have hlast := hplace (start + take - 1) (by omega) (by omega)
  have hlen := src.len_lt
  have hwindow : Bytes.window (placedByte src clusterSize (run :: runs) pos) start take =
      Bytes.window src.byte (lcn * clusterSize + (start - pos)) take := by
    apply Bytes.window_congr
    intro i hi
    have hbyte := hplace (start + i) (by omega) (by omega)
    unfold placedByte
    rw [physOffsetFrom_here hlcn hstop (by omega) (by omega), Option.elim_some,
      Nat.add_comm start i, Nat.add_sub_assoc hlo, Nat.add_comm i, ← Nat.add_assoc]
  have hread := (src.readExactAt_eq_ok (lcn * clusterSize + (start - pos)) take _).mpr
    ⟨⟨by omega, fun i _ _ => hgood i⟩, rfl⟩
  rw [hwindow, readRunPiece, hlcn]
  dsimp only
  rw [U64.checkedMul_of_lt (by omega), Option.bind_some, U64.checkedAdd_of_lt (by omega), okOr,
    bind_ok, hread]
  rfl

/-- A range below a trusted position can be read exactly when its runs are addressed, and shows
    the source bytes at the places of its positions. -/
theorem readRuns_trusted (hv : v ≤ limit) (hv64 : v < 2 ^ 64)
    (h : Trusted clusterSize src.len limit v runs pos) (hlo : pos ≤ offset + out.length)
    (hout : out.length < n) (hin : offset + n ≤ v) :
    readRuns src.toSourceReader clusterSize offset n runs pos out = .ok r ↔
      Addressed clusterSize (offset + n) runs pos ∧
        r = out ++ Bytes.window (placedByte src clusterSize runs pos) (offset + out.length)
          (n - out.length) := by
  -- on the runs, with what the read has collected so far
  induction runs generalizing pos out with
  | nil =>
    have h : v ≤ pos := h
    omega
  | cons run runs ih =>
    obtain ⟨hstored, htrusted⟩ := h.resolve_left (by omega)
    by_cases hstop : run.stop clusterSize pos < 2 ^ 64
    · have hstop' : pos + run.clusterCount * clusterSize < 2 ^ 64 := hstop
      simp only [readRuns,
        U64.checkedMul_of_lt (show run.clusterCount * clusterSize < 2 ^ 64 by omega),
        U64.checkedAdd_of_lt hstop',
        U64.checkedAdd_of_lt (show offset + out.length < 2 ^ 64 by omega), okOr, bind_ok]
      by_cases hbehind : run.stop clusterSize pos ≤ offset + out.length
      · -- the request starts behind this run
        have hnext : Addressed clusterSize (offset + n) (run :: runs) pos ↔
            Addressed clusterSize (offset + n) runs (run.stop clusterSize pos) :=
          ⟨fun haddressed => haddressed.2 (by omega), fun haddressed =>
            ⟨hstop, fun _ => haddressed⟩⟩
        have hwindow : Bytes.window (placedByte src clusterSize (run :: runs) pos)
            (offset + out.length) (n - out.length) =
            Bytes.window (placedByte src clusterSize runs (run.stop clusterSize pos))
              (offset + out.length) (n - out.length) := by
          apply Bytes.window_congr
          intro i _
          unfold placedByte
          rw [physOffsetFrom_behind hstop (by omega)]
        rw [if_pos (.inl hbehind), ih htrusted hbehind hout, hnext, hwindow]
      · have hbehind' : ¬pos + run.clusterCount * clusterSize ≤ offset + out.length := hbehind
        rw [if_neg (by omega), if_neg (by omega)]
        generalize htake : min (run.clusterCount * clusterSize - (offset + out.length - pos))
          (n - out.length) = take
        have hrun : offset + out.length + take ≤ run.stop clusterSize pos := by
          show _ ≤ pos + run.clusterCount * clusterSize
          omega
        have hpiece' : readRunPiece src.toSourceReader clusterSize run (offset + out.length - pos)
            take = .ok (Bytes.window (placedByte src clusterSize (run :: runs) pos)
              (offset + out.length) take) :=
          readRunPiece_stored hgood hstored hstop hlo (by omega) hrun (by omega)
        rw [hpiece', bind_ok]
        generalize hpiece : Bytes.window (placedByte src clusterSize (run :: runs) pos)
          (offset + out.length) take = piece
        have hlength : piece.length = take := by rw [← hpiece, Bytes.length_window]
        rw [List.length_append, hlength]
        by_cases hdone : out.length + take ≥ n
        · -- the piece completes the request
          have hreached : ¬run.stop clusterSize pos < offset + n := by
            show ¬pos + run.clusterCount * clusterSize < offset + n
            omega
          have hall : n - out.length = take := by omega
          rw [if_pos hdone, pure_eq_ok, hall, hpiece]
          constructor
          · intro heq
            exact ⟨⟨hstop, fun hlt => absurd hlt hreached⟩, heq.symm⟩
          · intro hread
            exact hread.2.symm
        · -- the request goes on at the start of the next run
          have hnext : offset + (out ++ piece).length = run.stop clusterSize pos := by
            show _ = pos + run.clusterCount * clusterSize
            rw [List.length_append, hlength]
            omega
          have hgoes : run.stop clusterSize pos < offset + n := by
            rw [← hnext, List.length_append, hlength]
            omega
          have haddressed : Addressed clusterSize (offset + n) (run :: runs) pos ↔
              Addressed clusterSize (offset + n) runs (run.stop clusterSize pos) :=
            ⟨fun haddressed => haddressed.2 hgoes, fun haddressed => ⟨hstop, fun _ => haddressed⟩⟩
          have hwindow : Bytes.window (placedByte src clusterSize (run :: runs) pos)
              (offset + out.length) (n - out.length) =
              piece ++ Bytes.window (placedByte src clusterSize runs (run.stop clusterSize pos))
                (run.stop clusterSize pos) (n - (out ++ piece).length) := by
            have hsplit : n - out.length = take + (n - (out ++ piece).length) := by
              rw [List.length_append, hlength]
              omega
            have hstart : offset + out.length + take = run.stop clusterSize pos := by
              rw [← hnext, List.length_append, hlength, Nat.add_assoc]
            rw [hsplit, ← Bytes.window_append, hpiece, hstart]
            congr 1
            apply Bytes.window_congr
            intro i _
            unfold placedByte
            rw [physOffsetFrom_behind hstop (Nat.le_add_right _ _)]
          have hout' : (out ++ piece).length < n := by
            rw [List.length_append, hlength]
            omega
          rw [if_neg hdone, ih htrusted (Nat.le_of_eq hnext.symm) hout', hnext, haddressed, hwindow,
            List.append_assoc]
    -- the end of this run overflows, so the read fails and the run is not addressed
    · constructor
      · intro hread
        rw [readRuns] at hread
        obtain ⟨runLen, hrunLen, hread⟩ := bind_eq_ok.mp hread
        obtain ⟨-, rfl⟩ := U64.checkedMul_eq_some.mp (okOr_eq_ok.mp hrunLen)
        obtain ⟨runEnd, hrunEnd, -⟩ := bind_eq_ok.mp hread
        exact absurd (U64.checkedAdd_eq_some.mp (okOr_eq_ok.mp hrunEnd)).1 hstop
      · intro hread
        exact absurd hread.1.1 hstop

omit hgood

/-- A read of nothing walks over all runs. -/
theorem readRuns_nothing (hoffset : offset < 2 ^ 64) :
    readRuns src.toSourceReader clusterSize offset 0 runs pos [] = .ok r ↔
      Addressed clusterSize (2 ^ 64) runs pos ∧ r = [] := by
  induction runs generalizing pos with
  | nil =>
    rw [readRuns, ok.injEq]
    exact ⟨fun heq => ⟨trivial, heq.symm⟩, fun h => h.2.symm⟩
  | cons run runs ih =>
    by_cases hstop : run.stop clusterSize pos < 2 ^ 64
    · have hstop' : pos + run.clusterCount * clusterSize < 2 ^ 64 := hstop
      simp only [readRuns,
        U64.checkedMul_of_lt (show run.clusterCount * clusterSize < 2 ^ 64 by omega),
        U64.checkedAdd_of_lt hstop', List.length_nil,
        U64.checkedAdd_of_lt (show offset + 0 < 2 ^ 64 from hoffset), okOr, bind_ok]
      rw [if_pos (.inr (Nat.zero_le _)), ih]
      exact ⟨fun h => ⟨⟨hstop, fun _ => h.1⟩, h.2⟩, fun h => ⟨h.1.2 hstop, h.2⟩⟩
    · constructor
      · intro hread
        rw [readRuns] at hread
        obtain ⟨runLen, hrunLen, hread⟩ := bind_eq_ok.mp hread
        obtain ⟨-, rfl⟩ := U64.checkedMul_eq_some.mp (okOr_eq_ok.mp hrunLen)
        obtain ⟨runEnd, hrunEnd, -⟩ := bind_eq_ok.mp hread
        exact absurd (U64.checkedAdd_eq_some.mp (okOr_eq_ok.mp hrunEnd)).1 hstop
      · intro hread
        exact absurd hread.1.1 hstop

end Reads

/-! ## The prefix and the reads in it -/

/-- Reading nothing gives nothing, and still checks the runs that start before the offset. -/
theorem readStreamRange_nothing {offset : Nat} {bytes : Bytes} (hoffset : offset < 2 ^ 64) :
    readStreamRange src.toSourceReader runs clusterSize offset 0 = .ok bytes ↔
      Addressed clusterSize (walkStop offset 0) runs 0 ∧ bytes = [] := by
  have hnothing := @readRuns_nothing src clusterSize 0 runs offset bytes hoffset
  rw [walkStop, if_pos rfl, ← hnothing]
  simp only [readStreamRange, Nat.not_lt_zero, if_false, bind_eq_ok, pure_eq_ok]
  constructor
  · intro h
    obtain ⟨_, hout, heq⟩ := h
    exact heq ▸ hout
  · intro hout
    exact ⟨bytes, hout, rfl⟩

/-- Below a trusted limit the read gives the placed bytes as soon as its runs can be addressed. -/
theorem readStreamRange_trusted {offset n : Nat} {bytes : Bytes} (hgood : ∀ p, ¬src.bad p)
    (hv : v ≤ limit) (hlt : v < 2 ^ 64)
    (htrusted : Trusted clusterSize src.len limit v runs 0) (hpos : 0 < n) (hin : offset + n ≤ v) :
    readStreamRange src.toSourceReader runs clusterSize offset n = .ok bytes ↔
      Addressed clusterSize (walkStop offset n) runs 0 ∧
        bytes = Bytes.window (placedByte src clusterSize runs 0) offset n := by
  have hruns := @readRuns_trusted src clusterSize _ _ 0 runs hgood offset n [] bytes hv hlt
    htrusted (Nat.zero_le _) hpos hin
  simp only [List.length_nil, Nat.add_zero, Nat.sub_zero, List.nil_append] at hruns
  rw [walkStop, if_neg (Nat.ne_of_gt hpos), ← hruns]
  simp only [readStreamRange, bind_eq_ok, throw_bind, ite_throw_eq_ok, pure_eq_ok]
  constructor
  · intro h
    obtain ⟨out, hout, _, heq⟩ := h
    exact heq ▸ hout
  · intro hout
    have hlength : bytes.length = n := by
      rw [(hruns.mp hout).2, Bytes.length_window]
    exact ⟨bytes, hout, by omega, rfl⟩

/-- The prefix is the largest part of the initialized data that the runs reach and store inside
    the source. A range of it can be read exactly when the runs it walks over are addressed, and
    shows the source bytes at the places of its positions. -/
theorem trustedPrefix_reads (hgood : ∀ p, ¬src.bad p) (dataSize initializedSize : Nat)
    (h : trustedPhysicalStreamPrefixLen runs clusterSize src.len dataSize initializedSize =
      .ok result) :
    IsGreatest {v | v ≤ min dataSize initializedSize ∧
      Trusted clusterSize src.len (min dataSize initializedSize) v runs 0} result.len ∧
    ∀ offset n, offset + n ≤ result.len →
      ((∃ bytes, readStreamRange src.toSourceReader runs clusterSize offset n = .ok bytes) ↔
        Addressed clusterSize (walkStop offset n) runs 0) ∧
      ∀ bytes, readStreamRange src.toSourceReader runs clusterSize offset n = .ok bytes →
        bytes.length = n ∧ ∀ i < n, ∃ p, streamPhysOffset runs clusterSize (offset + i) = some p ∧
          p < src.len ∧ bytes[i]? = some (src.byte p) := by
  have hloop : trustedPrefixFrom clusterSize src.len (min dataSize initializedSize) runs 0 =
      .ok result := by
    rw [trustedPhysicalStreamPrefixLen, throw_bind] at h
    exact (ite_throw_eq_ok.mp h).2
  have hgreatest := trustedPrefixFrom_isGreatest (Nat.zero_le _) hloop
  have hlt := trustedPrefixFrom_lt (by decide) hloop
  refine ⟨hgreatest, fun offset n hin => ?_⟩
  obtain ⟨hv, htrusted⟩ := hgreatest.1
  -- an empty range still walks the run list up to its offset
  cases n with
  | zero =>
    have hread := fun bytes => @readStreamRange_nothing src clusterSize runs offset bytes (by omega)
    refine ⟨⟨?_, fun haddressed => ⟨[], (hread []).mpr ⟨haddressed, rfl⟩⟩⟩, ?_⟩
    · intro hexists
      obtain ⟨bytes, hbytes⟩ := hexists
      exact ((hread bytes).mp hbytes).1
    · intro bytes hbytes
      rw [((hread bytes).mp hbytes).2]
      exact ⟨rfl, fun i hi => absurd hi (Nat.not_lt_zero i)⟩
  | succ n =>
    have hread := fun bytes => @readStreamRange_trusted src clusterSize _ _ runs offset (n + 1)
      bytes hgood hv hlt htrusted (Nat.zero_lt_succ n) hin
    refine ⟨⟨?_, fun haddressed => ⟨_, (hread _).mpr ⟨haddressed, rfl⟩⟩⟩, ?_⟩
    · intro hexists
      obtain ⟨bytes, hbytes⟩ := hexists
      exact ((hread bytes).mp hbytes).1
    · intro bytes hbytes
      obtain ⟨haddressed, rfl⟩ := (hread bytes).mp hbytes
      refine ⟨Bytes.length_window _ _ _, fun i hi => ?_⟩
      rw [walkStop, if_neg (Nat.succ_ne_zero n)] at haddressed
      obtain ⟨p, hp, hplace⟩ := physOffsetFrom_trusted src.len_lt hv htrusted (Nat.zero_le _)
        (show offset + i < result.len by omega) (haddressed.mono (by omega))
      refine ⟨p, hp, hplace, ?_⟩
      rw [Bytes.getElem?_window, if_pos hi, placedByte, hp]
      rfl

/-- Runs whose clusters all have 64-bit stream positions are addressed. -/
theorem addressed_of_lt (h : pos + totalRunClusters runs * clusterSize < 2 ^ 64) :
    Addressed clusterSize stop runs pos := by
  induction runs generalizing pos with
  | nil => trivial
  | cons run runs ih =>
    rw [totalRunClusters_cons, Nat.add_mul, ← Nat.add_assoc] at h
    exact ⟨Nat.lt_of_le_of_lt (Nat.le_add_right _ _) h, fun _ => ih h⟩

/-- A decoded run list is addressed, when the volume has 64-bit positions; so every range of a
    prefix of it can be read. -/
theorem decodeRunlist_addressed {buf : Bytes} {totalClusters : Nat}
    (h : decodeRunlist buf totalClusters = .ok runs)
    (hvolume : totalClusters * clusterSize < 2 ^ 64) : Addressed clusterSize stop runs 0 := by
  apply addressed_of_lt
  rw [Nat.zero_add]
  exact Nat.lt_of_le_of_lt (Nat.mul_le_mul_right _ (decodeRunlist_fit h).total_le) hvolume

/-- A source of 16 readable bytes. -/
def sixteenBytes : FaultySource := memImageReader (fun i => UInt8.ofNat i) 16 (by decide)

/-- The second half of a stream of two runs, the second one clipped. -/
theorem trustedPrefix_reads_clipped :
    ∃ bytes, readStreamRange sixteenBytes.toSourceReader [⟨2, some 0⟩, ⟨9, some 2⟩] 4 8 8 =
      .ok bytes := by
  obtain ⟨-, hreads⟩ := @trustedPrefix_reads sixteenBytes 4 [⟨2, some 0⟩, ⟨9, some 2⟩]
    ⟨16, false, false⟩ (fun _ => id) 16 20 rfl
  refine (hreads 8 8 (Nat.le_refl _)).1.mpr ⟨by decide, fun _ => ⟨by decide, fun hlt => ?_⟩⟩
  exact absurd hlt (by decide)

/-- A run can be trusted up to the limit and still end behind the last 64-bit position, so that
    it cannot be read; and a stream whose runs are all stored may be shorter than its data. -/
theorem trustedPrefix_unreadable :
    (trustedPhysicalStreamPrefixLen [⟨8, some 0⟩, ⟨2 ^ 64 - 4, some 8⟩] 1 sixteenBytes.len 16 16 =
        .ok ⟨16, false, false⟩ ∧
      ¬∃ bytes,
        readStreamRange sixteenBytes.toSourceReader [⟨8, some 0⟩, ⟨2 ^ 64 - 4, some 8⟩] 1 8 8 =
        .ok bytes) ∧
    trustedPhysicalStreamPrefixLen [⟨8, some 0⟩] 1 sixteenBytes.len 16 16 = .ok ⟨8, true, false⟩ ∧
      (8 < min 16 16 ∧ ∀ run ∈ [(⟨8, some 0⟩ : RunElement)],
        run.Stored 1 sixteenBytes.len (min 16 16) 0) := by
  refine ⟨⟨rfl, ?_⟩, rfl, by decide, ?_⟩
  · intro ⟨bytes, hbytes⟩
    have herror : readStreamRange sixteenBytes.toSourceReader
        [⟨8, some 0⟩, ⟨2 ^ 64 - 4, some 8⟩] 1 8 8 =
        .error (.corrupt "stream logical range overflow") := rfl
    rw [herror] at hbytes
    cases hbytes
  · intro run hrun
    rw [List.mem_singleton.mp hrun]
    exact ⟨0, rfl, by decide⟩

end Undelete.Ntfs
