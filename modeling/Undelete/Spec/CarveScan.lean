import Undelete.Native.Source
import Undelete.Spec.CarveLog

/-!
# The coverage of a carving run

The scan of a region reads it chunk by chunk; what it sees of the region does not
depend on the report (`regionView`). Unless a budget ends the scan, the log of the run
has exactly the readable signatures of the regions, in order, and unless the coverage
is partial, every byte of the regions was readable.

## Key results

- `scanLoop_spec`: a region that is scanned to its end adds its readable signatures.
- `carve_run`: the same for the whole run, which always succeeds.
- `carve_coverage_honest`: the budgets hold, and a run that is not partial has visited
  every byte and settled every signature.
-/

namespace Undelete.Carve

open Except

/-! ## What a scan reads -/

/-- The bytes of a read, with the unreadable ones left out. -/
def readableBytes (slice : Bytes) (badRanges : List (Nat × Nat)) : List (Option UInt8) :=
  slice.mapIdx fun i byte => if isReadable i badRanges then some byte else none

/-- The bytes of a region as the reads of the scan deliver them, from `relativeOffset`
    on. -/
def scanView (reader : SourceReader) (chunkSize : Nat) (region : Region) :
    Nat → Nat → Bytes → List (Option UInt8)
  | 0, _, _ => []
  | fuel + 1, relativeOffset, buffer =>
    if relativeOffset < region.len then
      let readLen := min chunkSize (region.len - relativeOffset)
      let read := reader.readBestEffortAt (region.offset + relativeOffset) (buffer.take readLen)
      readableBytes read.1 (normalizeBadRanges readLen read.2) ++
        scanView reader chunkSize region fuel (relativeOffset + readLen)
          (read.1 ++ buffer.drop readLen)
    else []

/-- The bytes of a region as the scan sees them; `none` where it finds them unreadable. -/
def regionView (reader : SourceReader) (chunkSize : Nat) (region : Region) :
    List (Option UInt8) :=
  scanView reader chunkSize region region.len 0 (List.replicate (min chunkSize region.len) 0)

/-- A readable FF D8 pair. -/
def pairAt (view : List (Option UInt8)) (i : Nat) : Prop :=
  view[i]? = some (some 0xFF) ∧ view[i + 1]? = some (some 0xD8)

instance (view : List (Option UInt8)) : DecidablePred (pairAt view) :=
  fun _ => inferInstanceAs (Decidable (_ ∧ _))

/-- The offsets of the readable FF D8 pairs of a view that starts at `start`. -/
def signatures (start : Nat) (view : List (Option UInt8)) : List Nat :=
  ((List.range (view.length - 1)).filter fun i => pairAt view i).map (start + ·)

theorem mem_signatures {start o : Nat} {view : List (Option UInt8)} :
    o ∈ signatures start view ↔ ∃ i, pairAt view i ∧ o = start + i := by
  simp only [signatures, List.mem_map, List.mem_filter, List.mem_range, decide_eq_true_eq]
  constructor
  · rintro ⟨i, ⟨-, hi⟩, rfl⟩
    exact ⟨i, hi, rfl⟩
  · rintro ⟨i, hi, rfl⟩
    refine ⟨i, ⟨?_, hi⟩, rfl⟩
    have hlt := (List.getElem?_eq_some_iff.mp hi.2).1
    omega

/-- One more byte: it ends a pair, or the signatures stay as they are. -/
theorem signatures_concat {start : Nat} {xs : List (Option UInt8)} {x y : Option UInt8}
    (hx : xs.getLast? = some x) :
    signatures start (xs ++ [y]) = signatures start xs ++
      if x = some 0xFF ∧ y = some 0xD8 then [start + (xs.length - 1)] else [] := by
  have hne : xs ≠ [] := by
    rintro rfl
    cases hx
  have hpos := List.length_pos_iff.mpr hne
  have hlast : xs[xs.length - 1]? = some x := by rw [← List.getLast?_eq_getElem?, hx]
  -- the one new pair is made of the last byte and the new one
  have hnew : pairAt (xs ++ [y]) (xs.length - 1) ↔ x = some 0xFF ∧ y = some 0xD8 := by
    unfold pairAt
    rw [List.getElem?_append_left (by omega), hlast, show xs.length - 1 + 1 = xs.length by omega,
      List.getElem?_append_right (Nat.le_refl _), Nat.sub_self]
    simp
  -- the pairs before it are those of `xs`
  have hold : ∀ i ∈ List.range (xs.length - 1),
      (decide (pairAt (xs ++ [y]) i)) = decide (pairAt xs i) := by
    intro i hi
    have := List.mem_range.mp hi
    rw [decide_eq_decide]
    unfold pairAt
    rw [List.getElem?_append_left (by omega), List.getElem?_append_left (by omega)]
  simp only [signatures]
  rw [List.length_append, List.length_singleton, Nat.add_sub_cancel,
    show List.range xs.length = List.range (xs.length - 1) ++ [xs.length - 1] by
      rw [← List.range_succ]
      congr 1
      omega]
  rw [List.filter_append, List.map_append, List.filter_congr hold]
  congr 1
  by_cases h : x = some 0xFF ∧ y = some 0xD8
  · rw [if_pos h, List.filter_cons_of_pos (by simpa using hnew.mpr h)]
    rfl
  · rw [if_neg h, List.filter_cons_of_neg (by simpa using fun hp => h (hnew.mp hp))]
    rfl

theorem getElem?_readableBytes (slice : Bytes) (badRanges : List (Nat × Nat)) (i : Nat) :
    (readableBytes slice badRanges)[i]? =
      slice[i]?.map fun byte => if isReadable i badRanges then some byte else none := by
  simp [readableBytes]

@[simp] theorem length_readableBytes (slice : Bytes) (badRanges : List (Nat × Nat)) :
    (readableBytes slice badRanges).length = slice.length := by
  simp [readableBytes]

/-- The test of `processIndex` on one of the two bytes. -/
theorem readableBytes_eq_iff {slice : Bytes} {badRanges : List (Nat × Nat)} {i : Nat}
    {byte : UInt8} (h : i < slice.length) :
    (readableBytes slice badRanges)[i]? = some (some byte) ↔
      slice.getD i 0 = byte ∧ isReadable i badRanges = true := by
  rw [getElem?_readableBytes, List.getD_eq_getElem?_getD, List.getElem?_eq_getElem h]
  simp only [Option.map_some, Option.some.injEq, Option.getD_some]
  by_cases hr : isReadable i badRanges = true <;> simp [hr]

/-! ## The scan of a region -/

/-- The log after the bytes `seen` of a region, and `log` before it. -/
def LoggedTo (reader : SourceReader) (sha256 : Bytes → Vector UInt8 32) (limits : CarveLimits)
    (log : List Attempt) (r : CarveRegion) (seen : List (Option UInt8)) (report : CarveReport) :
    Prop :=
  report.candidates.length < limits.maxCandidates ∧
  ∃ new, Logged reader sha256 limits (log ++ new) report ∧
    new.map (fun a => (a.region, a.offset)) =
      (signatures r.region.offset seen).map fun o => (r, o)

/-- What a part of the scan keeps of the coverage while it attempts signatures. -/
structure KeepsScanned (report report' : CarveReport) : Prop where
  bytesRequested : report'.coverage.bytesRequested = report.coverage.bytesRequested
  bytesScanned : report'.coverage.bytesScanned = report.coverage.bytesScanned
  isPartial : report.coverage.isPartial = true → report'.coverage.isPartial = true

theorem KeepsScanned.refl (report : CarveReport) : KeepsScanned report report := ⟨rfl, rfl, id⟩

theorem KeepsScanned.trans {a b c : CarveReport} (h : KeepsScanned a b) (h' : KeepsScanned b c) :
    KeepsScanned a c :=
  ⟨h'.bytesRequested.trans h.bytesRequested, h'.bytesScanned.trans h.bytesScanned,
    fun hp => h'.isPartial (h.isPartial hp)⟩

/-- A run that a budget ended, with its log. -/
def Ended (reader : SourceReader) (sha256 : Bytes → Vector UInt8 32) (limits : CarveLimits)
    (report : CarveReport) : Prop :=
  Exhausted report ∧ ∃ log, Logged reader sha256 limits log report

/-- Reading one more byte `y` after `x`: a signature is attempted exactly when the two
    are one. -/
theorem loggedTo_concat (reader : SourceReader) (sha256 : Bytes → Vector UInt8 32)
    {limits : CarveLimits} (hlimits : limits.Valid) {log : List Attempt} {r : CarveRegion}
    {seen : List (Option UInt8)} {x y : Option UInt8} {report : CarveReport}
    (h : LoggedTo reader sha256 limits log r seen report) (hx : seen.getLast? = some x)
    (hlen : seen.length ≤ r.region.len) {step : Except CarveError (Bool × CarveReport)}
    (hstep : step = if x = some 0xFF ∧ y = some 0xD8 then
        processSignature reader sha256 r limits (r.region.offset + (seen.length - 1)) report
      else .ok (false, report)) :
    ∃ stop report', step = .ok (stop, report') ∧ KeepsScanned report report' ∧
      if stop then Ended reader sha256 limits report'
      else LoggedTo reader sha256 limits log r (seen ++ [y]) report' := by
  obtain ⟨hcandidates, new, hlogged, hnew⟩ := h
  -- without a signature nothing is attempted, and the log stands
  by_cases hpair : x = some 0xFF ∧ y = some 0xD8
  · rw [if_pos hpair] at hstep
    have hoffset : r.region.offset + (seen.length - 1) ≤ r.region.stop := by
      unfold Region.stop
      omega
    obtain ⟨stop, report', log', hrun, hlogged', hrequested, hscanned, hincomplete, hstop⟩ :=
      processSignature_spec reader sha256 hlimits hoffset hlogged hcandidates
    refine ⟨stop, report', hstep.trans hrun, ⟨hrequested, hscanned, hincomplete⟩, ?_⟩
    cases stop with
    | true => exact ⟨hstop, _, hlogged'⟩
    | false =>
      obtain ⟨⟨verdict, rfl⟩, hcandidates'⟩ := hstop
      refine ⟨hcandidates', new ++ [⟨r, _, verdict⟩], by rwa [← List.append_assoc], ?_⟩
      rw [signatures_concat hx, if_pos hpair, List.map_append, List.map_append, hnew]
      rfl
  · rw [if_neg hpair] at hstep
    refine ⟨false, report, hstep, KeepsScanned.refl report, hcandidates, new, hlogged, ?_⟩
    rw [signatures_concat hx, if_neg hpair, List.append_nil, hnew]

/-- The tail the scan carries is the last byte it has seen. -/
def TailOf (region : Region) (seen : List (Option UInt8)) (tail : Option Tail) : Prop :=
  (seen = [] ∧ tail = none) ∨ ∃ byte valid,
    tail = some ⟨region.offset + (seen.length - 1), byte, valid⟩ ∧
      seen.getLast? = some (if valid then some byte else none)

section Chunk

variable (reader : SourceReader) (sha256 : Bytes → Vector UInt8 32) {limits : CarveLimits}
  {log : List Attempt} {r : CarveRegion} {seen : List (Option UInt8)} {slice : Bytes}
  {badRanges : List (Nat × Nat)} {report : CarveReport}

variable (slice badRanges) in
theorem processTail_spec (hlimits : limits.Valid) {tail : Option Tail}
    (h : LoggedTo reader sha256 limits log r seen report) (htail : TailOf r.region seen tail)
    (hslice : 0 < slice.length) (hlen : seen.length ≤ r.region.len) :
    ∃ stop report',
      processTail (processSignature reader sha256 r limits) tail slice badRanges report =
        .ok (stop, report') ∧
      KeepsScanned report report' ∧
      if stop then Ended reader sha256 limits report'
      else LoggedTo reader sha256 limits log r
        (seen ++ (readableBytes slice badRanges).take 1) report' := by
  have hfirst : (readableBytes slice badRanges).take 1 =
      [if isReadable 0 badRanges then some (slice.getD 0 0) else none] := by
    cases slice with
    | nil => exact absurd hslice (Nat.lt_irrefl 0)
    | cons byte rest => simp [readableBytes]
  rw [hfirst]
  rcases htail with ⟨rfl, rfl⟩ | ⟨byte, valid, rfl, hlast⟩
  · obtain ⟨hcandidates, new, hlogged, hnew⟩ := h
    exact ⟨false, report, rfl, KeepsScanned.refl report, hcandidates, new, hlogged, hnew⟩
  · apply loggedTo_concat reader sha256 hlimits h hlast hlen
    simp only [processTail]
    cases valid <;> cases hr : isReadable 0 badRanges <;> simp

/-- One index of the signature loop. -/
theorem processIndex_spec (hlimits : limits.Valid) {index absolute : Nat}
    (habsolute : absolute = r.region.offset + seen.length)
    (hindex : index + 1 < slice.length) (hlen : seen.length + slice.length ≤ r.region.len)
    (h : LoggedTo reader sha256 limits log r
      (seen ++ (readableBytes slice badRanges).take (index + 1)) report) :
    ∃ stop report',
      processIndex (processSignature reader sha256 r limits) absolute slice badRanges index
        report = .ok (stop, report') ∧
      KeepsScanned report report' ∧
      if stop then Ended reader sha256 limits report'
      else LoggedTo reader sha256 limits log r
        (seen ++ (readableBytes slice badRanges).take (index + 1 + 1)) report' := by
  have hview : ∀ i, i < slice.length →
      (readableBytes slice badRanges)[i]? = some (readableBytes slice badRanges)[i]! := by
    intro i hi
    rw [getElem!_pos _ i (by rwa [length_readableBytes]), List.getElem?_eq_getElem]
  have hlast : (seen ++ (readableBytes slice badRanges).take (index + 1)).getLast? =
      some (readableBytes slice badRanges)[index]! := by
    rw [List.take_add_one, hview index (by omega), ← List.append_assoc, Option.toList_some,
      List.getLast?_concat]
  have hlength : (seen ++ (readableBytes slice badRanges).take (index + 1)).length =
      seen.length + (index + 1) := by
    rw [List.length_append, List.length_take, length_readableBytes, Nat.min_eq_left (by omega)]
  have hnext : (readableBytes slice badRanges).take (index + 1 + 1) =
      (readableBytes slice badRanges).take (index + 1) ++
        [(readableBytes slice badRanges)[index + 1]!] := by
    rw [List.take_add_one, hview (index + 1) hindex, Option.toList_some]
  rw [hnext, ← List.append_assoc]
  apply loggedTo_concat reader sha256 hlimits h hlast (by omega)
  -- the check of the source looks at the bytes and at their ranges; together it is the pair
  have hpair : ((readableBytes slice badRanges)[index]! = some 0xFF ∧
      (readableBytes slice badRanges)[index + 1]! = some 0xD8) ↔
      (slice.getD index 0 == 0xFF && slice.getD (index + 1) 0 == 0xD8 &&
        isReadable index badRanges && isReadable (index + 1) badRanges) = true := by
    have hx : (readableBytes slice badRanges)[index]? = some (some 0xFF) ↔
        slice.getD index 0 = 0xFF ∧ isReadable index badRanges = true :=
      readableBytes_eq_iff (by omega)
    have hy : (readableBytes slice badRanges)[index + 1]? = some (some 0xD8) ↔
        slice.getD (index + 1) 0 = 0xD8 ∧ isReadable (index + 1) badRanges = true :=
      readableBytes_eq_iff hindex
    rw [hview index (by omega), Option.some.injEq] at hx
    rw [hview (index + 1) hindex, Option.some.injEq] at hy
    rw [hx, hy]
    simp only [Bool.and_eq_true, beq_iff_eq]
    tauto
  have hoffset : r.region.offset + (seen.length + (index + 1) - 1) = absolute + index := by omega
  have hfits := r.region.fits
  rw [hlength, hoffset]
  simp only [processIndex, U64.checkedAdd_of_lt (show absolute + index < 2 ^ 64 by omega), okOr,
    bind_ok]
  by_cases hp : (readableBytes slice badRanges)[index]! = some 0xFF ∧
      (readableBytes slice badRanges)[index + 1]! = some 0xD8
  · rw [if_pos hp, if_pos (hpair.mp hp)]
  · rw [if_neg hp, if_neg (fun h => hp (hpair.mpr h))]

/-- The signature loop over one read. -/
theorem untilStop_processIndex_spec (hlimits : limits.Valid) {absolute : Nat}
    (habsolute : absolute = r.region.offset + seen.length) (hslice : 0 < slice.length)
    (hlen : seen.length + slice.length ≤ r.region.len)
    (h : LoggedTo reader sha256 limits log r
      (seen ++ (readableBytes slice badRanges).take 1) report) :
    ∃ stop report',
      untilStop (processIndex (processSignature reader sha256 r limits) absolute slice badRanges)
        (List.range (slice.length - 1)) report = .ok (stop, report') ∧
      if stop then KeepsScanned report report' ∧ Ended reader sha256 limits report'
      else KeepsScanned report report' ∧
        LoggedTo reader sha256 limits log r (seen ++ readableBytes slice badRanges) report' := by
  have hall : (readableBytes slice badRanges).take (slice.length - 1 + 1) =
      readableBytes slice badRanges := by
    rw [Nat.sub_add_cancel hslice]
    exact List.take_of_length_le (by rw [length_readableBytes])
  -- behind `done` indices one byte more than those is accounted for
  have hrun := untilStop_spec
    (f := processIndex (processSignature reader sha256 r limits) absolute slice badRanges)
    (fun done report' => KeepsScanned report report' ∧
      LoggedTo reader sha256 limits log r
        (seen ++ (readableBytes slice badRanges).take (done.length + 1)) report')
    (fun report' => KeepsScanned report report' ∧ Ended reader sha256 limits report')
    (List.range (slice.length - 1)) (b := report) ?_ ⟨KeepsScanned.refl report, h⟩
  · rw [List.length_range, hall] at hrun
    exact hrun
  · intro pre index post report₁ hxs hinv
    obtain ⟨hkeeps, hlogged⟩ := hinv
    -- the loop goes over the indices in order
    have hindex : pre.length = index ∧ index < slice.length - 1 := by
      have hget := congrArg (·[pre.length]?) hxs
      have hlength := congrArg List.length hxs
      simp only [List.length_range, List.length_append, List.length_cons] at hlength
      simp only [List.getElem?_append_right (Nat.le_refl _), Nat.sub_self,
        List.getElem?_cons_zero, List.getElem?_range (show pre.length < slice.length - 1 by omega),
        Option.some.injEq] at hget
      omega
    rw [hindex.1] at hlogged
    obtain ⟨stop, report₂, hstep, hkeeps', hnext⟩ :=
      processIndex_spec reader sha256 hlimits habsolute (by omega) hlen hlogged
    refine ⟨stop, report₂, hstep, ?_⟩
    cases stop with
    | true => exact ⟨hkeeps.trans hkeeps', hnext⟩
    | false =>
      rw [if_neg Bool.false_ne_true, List.length_append, List.length_singleton, hindex.1]
      exact ⟨hkeeps.trans hkeeps', hnext⟩

end Chunk

/-- Where the scan of a region stands: the log is that of the bytes `seen`, and unless the
    coverage is partial, these were all readable and are all counted. -/
structure Scanned (reader : SourceReader) (sha256 : Bytes → Vector UInt8 32)
    (limits : CarveLimits) (log : List Attempt) (base : Nat) (r : CarveRegion)
    (seen : List (Option UInt8)) (report : CarveReport) : Prop where
  logged : LoggedTo reader sha256 limits log r seen report
  scanned_le : report.coverage.bytesScanned ≤ base + seen.length
  complete : report.coverage.isPartial = false →
    report.coverage.bytesScanned = base + seen.length ∧ ∀ b ∈ seen, b.isSome = true

/-- What holds after a part of the scan of a region: it was ended, or it stands at `seen`. -/
def ScannedOr (reader : SourceReader) (sha256 : Bytes → Vector UInt8 32) (limits : CarveLimits)
    (log : List Attempt) (base : Nat) (r : CarveRegion) (seen : List (Option UInt8))
    (report : CarveReport) (stop : Bool) (report' : CarveReport) : Prop :=
  report'.coverage.bytesRequested = report.coverage.bytesRequested ∧
  if stop then Ended reader sha256 limits report'
  else (report.coverage.isPartial = true → report'.coverage.isPartial = true) ∧
    Scanned reader sha256 limits log base r seen report'

theorem rangesLen_nil : rangesLen [] = 0 := rfl

theorem readableBytes_isSome {slice : Bytes} {b : Option UInt8} (h : b ∈ readableBytes slice []) :
    b.isSome = true := by
  simp only [readableBytes, List.mem_mapIdx] at h
  obtain ⟨i, hi, rfl⟩ := h
  rfl

/-- Counting a read and reporting its bad ranges. -/
theorem Scanned.read {reader : SourceReader} {sha256 : Bytes → Vector UInt8 32}
    {limits : CarveLimits} {log : List Attempt} {base : Nat} {r : CarveRegion}
    {seen : List (Option UInt8)} {report : CarveReport}
    (h : Scanned reader sha256 limits log base r seen report) (slice : Bytes)
    (badRanges : List (Nat × Nat)) (absolute : Nat) :
    let report' : CarveReport := { report with coverage :=
      (pushReadIssues { report.coverage with
        bytesScanned := report.coverage.bytesScanned + (slice.length - rangesLen badRanges) }
        absolute badRanges) }
    LoggedTo reader sha256 limits log r seen report' ∧
      report'.coverage.bytesRequested = report.coverage.bytesRequested ∧
      (report.coverage.isPartial = true → report'.coverage.isPartial = true) ∧
      report'.coverage.bytesScanned ≤ base + (seen ++ readableBytes slice badRanges).length ∧
      (report'.coverage.isPartial = false →
        report'.coverage.bytesScanned = base + (seen ++ readableBytes slice badRanges).length ∧
        ∀ b ∈ seen ++ readableBytes slice badRanges, b.isSome = true) := by
  obtain ⟨⟨hcandidates, new, hlogged, hnew⟩, hscanned, hcomplete⟩ := h
  obtain ⟨hissues, hbad⟩ := issues_pushReadIssues { report.coverage with
    bytesScanned := report.coverage.bytesScanned + (slice.length - rangesLen badRanges) }
    absolute badRanges
  have hlogged' := hlogged.issues _ hissues
  intro report'
  obtain ⟨p, e, o, rs, heq, hp⟩ := hissues
  have hreport : report'.coverage.bytesScanned =
      report.coverage.bytesScanned + (slice.length - rangesLen badRanges) ∧
      report'.coverage.bytesRequested = report.coverage.bytesRequested ∧
      report'.coverage.isPartial = p := by
    simp only [report', heq, and_self]
  simp only at hp
  refine ⟨⟨hcandidates, new, hlogged', hnew⟩, hreport.2.1, ?_, ?_, ?_⟩
  · rw [hreport.2.2]
    exact hp
  · rw [hreport.1, List.length_append, length_readableBytes]
    omega
  · intro hincomplete
    -- a read that reports a bad range makes the coverage partial
    have hnil : badRanges = [] := by
      by_contra hne
      have htrue := hbad hne
      rw [show (pushReadIssues _ absolute badRanges).isPartial = report'.coverage.isPartial
        from rfl,
        hincomplete] at htrue
      exact Bool.false_ne_true htrue
    have hold : report.coverage.isPartial = false := by
      rw [hreport.2.2] at hincomplete
      rw [hincomplete] at hp
      simpa using hp
    obtain ⟨hcount, hsome⟩ := hcomplete hold
    subst hnil
    rw [hreport.1, hcount, rangesLen_nil, List.length_append, length_readableBytes]
    refine ⟨by omega, ?_⟩
    intro b hb
    rcases List.mem_append.mp hb with hb | hb
    · exact hsome b hb
    · exact readableBytes_isSome hb

theorem getLast?_append_readableBytes {seen : List (Option UInt8)} {slice : Bytes}
    {badRanges : List (Nat × Nat)} {readLen : Nat} (hslice : slice.length = readLen)
    (hpos : 0 < readLen) :
    (seen ++ readableBytes slice badRanges).getLast? = some
      (if isReadable (readLen - 1) badRanges then some (slice.getD (readLen - 1) 0) else none) := by
  have hlast : (readableBytes slice badRanges).getLast? = some
      (if isReadable (readLen - 1) badRanges then some (slice.getD (readLen - 1) 0) else none) := by
    rw [List.getLast?_eq_getElem?, length_readableBytes, hslice, getElem?_readableBytes,
      List.getD_eq_getElem?_getD, List.getElem?_eq_getElem (by omega)]
    rfl
  rw [List.getLast?_append, hlast]
  rfl

/-- The scan of a region from where it stands to its end. -/
theorem scanLoop_spec (reader : SourceReader) (sha256 : Bytes → Vector UInt8 32)
    {limits : CarveLimits} (hlimits : limits.Valid) {log : List Attempt} {base : Nat}
    {r : CarveRegion} (hbase : base + r.region.len < 2 ^ 64) {fuel : Nat}
    (st : ScanState) {seen : List (Option UInt8)} {report : CarveReport}
    (h : Scanned reader sha256 limits log base r seen report)
    (hoffset : st.relativeOffset = seen.length) (hlen : seen.length ≤ r.region.len)
    (htail : TailOf r.region seen st.tail)
    (hbuffer : st.buffer.length = min limits.chunkSize r.region.len)
    (hfuel : r.region.len - seen.length ≤ fuel) :
    ∃ stop report', scanLoop reader sha256 r limits fuel st report = .ok (stop, report') ∧
      ScannedOr reader sha256 limits log base r
        (seen ++ scanView reader limits.chunkSize r.region fuel seen.length st.buffer)
        report stop report' := by
  -- one chunk for each unit of fuel; `seen` is the part of the region that is behind the loop
  induction fuel generalizing st seen report with
  | zero =>
    refine ⟨false, report, rfl, rfl, id, ?_⟩
    rwa [scanView, List.append_nil]
  | succ fuel ih =>
    rw [scanLoop, scanView, hoffset]
    by_cases hlt : seen.length < r.region.len
    swap
    · rw [if_neg hlt, if_neg hlt, List.append_nil]
      exact ⟨false, report, rfl, rfl, id, h⟩
    rw [if_pos hlt, if_pos hlt]
    have hchunk := hlimits.chunkSize_ge
    have hfits := r.region.fits
    simp only
    obtain ⟨readLen, hreadLen⟩ : ∃ n, n = min limits.chunkSize (r.region.len - seen.length) :=
      ⟨_, rfl⟩
    rw [← hreadLen]
    -- the chunk is read into the front of the buffer
    generalize hread : reader.readBestEffortAt (r.region.offset + seen.length)
      (st.buffer.take readLen) = read
    obtain ⟨slice, outcome⟩ := read
    have hslice : slice.length = readLen := by
      have := reader.length_readBestEffortAt (r.region.offset + seen.length)
        (st.buffer.take readLen)
      simp only [hread, List.length_take, hbuffer] at this
      omega
    have hscanned := h.scanned_le
    obtain ⟨hlogged, hrequested, hincomplete, hle, hcomplete⟩ := h.read slice
      (normalizeBadRanges readLen outcome) (r.region.offset + seen.length)
    simp only [U64.checkedAdd_of_lt (show r.region.offset + seen.length < 2 ^ 64 by omega),
      U64.checkedAdd_of_lt (show report.coverage.bytesScanned +
        (readLen - rangesLen (normalizeBadRanges readLen outcome)) < 2 ^ 64 by omega),
      U64.checkedAdd_of_lt (show seen.length + readLen < 2 ^ 64 by omega), okOr, bind_ok, hread]
    rw [hslice] at hlogged hrequested hincomplete hle hcomplete
    -- first the pair across the border of the chunks
    obtain ⟨stop, report₁, hrunTail, hkeeps₁, hnext₁⟩ := processTail_spec reader sha256 slice
      (normalizeBadRanges readLen outcome) hlimits hlogged htail (by omega) hlen
    rw [hrunTail, bind_ok]
    cases stop with
    | true => exact ⟨true, report₁, rfl, hkeeps₁.bytesRequested.trans hrequested, hnext₁⟩
    | false =>
      rw [if_neg Bool.false_ne_true]
      -- then the pairs inside the chunk
      obtain ⟨stop, report₂, hrunIndex, hnext₂⟩ := untilStop_processIndex_spec reader sha256 hlimits
        rfl (by omega) (by omega) hnext₁
      rw [hslice] at hrunIndex
      rw [hrunIndex, bind_ok]
      cases stop with
      | true =>
        have hkeeps := hkeeps₁.trans hnext₂.1
        exact ⟨true, report₂, rfl, hkeeps.bytesRequested.trans hrequested, hnext₂.2⟩
      | false =>
        obtain ⟨hkeeps₂, hlogged₂⟩ := hnext₂
        have hkeeps := hkeeps₁.trans hkeeps₂
        -- neither touches the count of the scanned bytes
        have hstands : Scanned reader sha256 limits log base r
            (seen ++ readableBytes slice (normalizeBadRanges readLen outcome)) report₂ := by
          refine ⟨hlogged₂, ?_, ?_⟩
          · rw [hkeeps.bytesScanned]
            exact hle
          · intro hp
            rw [hkeeps.bytesScanned]
            apply hcomplete
            have hmono := hkeeps.isPartial
            rw [hp] at hmono
            simpa using hmono
        have hseen : (seen ++ readableBytes slice (normalizeBadRanges readLen outcome)).length =
            seen.length + readLen := by
          rw [List.length_append, length_readableBytes, hslice]
        rw [if_neg Bool.false_ne_true]
        -- the last byte of this chunk is the tail for the next one
        have htail' : TailOf r.region
            (seen ++ readableBytes slice (normalizeBadRanges readLen outcome))
            (some ⟨r.region.offset + seen.length + (readLen - 1), slice.getD (readLen - 1) 0,
              isReadable (readLen - 1) (normalizeBadRanges readLen outcome)⟩) := by
          refine Or.inr ⟨_, _, ?_, getLast?_append_readableBytes hslice (by omega)⟩
          rw [hseen, show seen.length + readLen - 1 = seen.length + (readLen - 1) by omega,
            ← Nat.add_assoc]
        have hbuffer' : (slice ++ st.buffer.drop readLen).length =
            min limits.chunkSize r.region.len := by
          rw [List.length_append, hslice, List.length_drop, hbuffer]
          omega
        obtain ⟨stop, report₃, hrun, hrequested₃, hnext₃⟩ := @ih
          ⟨seen.length + readLen, _, slice ++ st.buffer.drop readLen⟩ _ _ hstands hseen.symm
          (by omega) htail' hbuffer' (by omega)
        refine ⟨stop, report₃, hrun, ?_, ?_⟩
        · rw [hrequested₃, hkeeps.bytesRequested]
          exact hrequested
        · rw [hseen, List.append_assoc] at hnext₃
          cases stop with
          | true => exact hnext₃
          | false => exact ⟨fun hp => hnext₃.1 (hkeeps.isPartial (hincomplete hp)), hnext₃.2⟩

theorem length_scanView (reader : SourceReader) {chunkSize : Nat} (hchunk : 0 < chunkSize)
    (region : Region) {fuel relativeOffset : Nat} {buffer : Bytes}
    (hbuffer : buffer.length = min chunkSize region.len) (hle : relativeOffset ≤ region.len)
    (hfuel : region.len - relativeOffset ≤ fuel) :
    (scanView reader chunkSize region fuel relativeOffset buffer).length =
      region.len - relativeOffset := by
  -- a chunk is as long as asked for, whatever the reader answers
  induction fuel generalizing relativeOffset buffer with
  | zero =>
    rw [scanView, List.length_nil]
    omega
  | succ fuel ih =>
    rw [scanView]
    by_cases hlt : relativeOffset < region.len
    swap
    · rw [if_neg hlt, List.length_nil]
      omega
    rw [if_pos hlt]
    obtain ⟨readLen, hreadLen⟩ : ∃ n, n = min chunkSize (region.len - relativeOffset) := ⟨_, rfl⟩
    have hslice := reader.length_readBestEffortAt (region.offset + relativeOffset)
      (buffer.take readLen)
    rw [List.length_take, hbuffer] at hslice
    simp only [← hreadLen]
    rw [List.length_append, length_readableBytes, ih _ (by omega) (by omega)]
    · omega
    · rw [List.length_append, List.length_drop]
      omega

theorem length_regionView (reader : SourceReader) {chunkSize : Nat} (hchunk : 0 < chunkSize)
    (region : Region) : (regionView reader chunkSize region).length = region.len :=
  length_scanView reader hchunk region (List.length_replicate ..) (Nat.zero_le _) (Nat.sub_le _ _)

/-- The scan of a whole region. -/
theorem scanRegion_spec (reader : SourceReader) (sha256 : Bytes → Vector UInt8 32)
    {limits : CarveLimits} (hlimits : limits.Valid) {log : List Attempt} {base : Nat}
    {r : CarveRegion} (hbase : base + r.region.len < 2 ^ 64) {report : CarveReport}
    (h : Scanned reader sha256 limits log base r [] report) :
    ∃ stop report', scanRegion reader sha256 limits r report = .ok (stop, report') ∧
      ScannedOr reader sha256 limits log base r (regionView reader limits.chunkSize r.region)
        report stop report' := by
  unfold scanRegion
  by_cases hempty : r.region.len = 0
  · rw [if_pos hempty]
    have hview : regionView reader limits.chunkSize r.region = [] := by
      apply List.eq_nil_of_length_eq_zero
      rw [length_regionView reader (by have := hlimits.chunkSize_ge; omega), hempty]
    rw [hview]
    exact ⟨false, report, rfl, rfl, id, h⟩
  · rw [if_neg hempty]
    exact scanLoop_spec reader sha256 hlimits hbase ⟨0, none, _⟩ h rfl (Nat.zero_le _)
      (Or.inl ⟨rfl, rfl⟩) (List.length_replicate ..) (Nat.sub_le _ _)

/-! ## The run -/

/-- The bytes of a list of regions. -/
def totalLen (regions : List CarveRegion) : Nat := (regions.map fun r => r.region.len).sum

theorem measureRegions_eq_ok {reader : SourceReader} {index requested total : Nat}
    {regions : List CarveRegion} {ordered : List OrderedRegion}
    (h : measureRegions reader index requested regions = .ok (total, ordered))
    (hlt : requested < 2 ^ 64) :
    total = requested + totalLen regions ∧ total < 2 ^ 64 ∧
      ∀ r ∈ regions, r.region.stop ≤ reader.len := by
  induction regions generalizing index requested total ordered with
  | nil =>
    cases h
    exact ⟨rfl, hlt, by simp⟩
  | cons r rest ih =>
    simp only [measureRegions, throw_bind, ite_throw_eq_ok, bind_eq_ok, okOr_eq_ok, pure_eq_ok,
      Prod.exists, Prod.mk.injEq, U64.checkedAdd_eq_some] at h
    obtain ⟨hstop, _, ⟨hsum, rfl⟩, total', ordered', hrest, rfl, -⟩ := h
    obtain ⟨htotal, hlt', hin⟩ := ih hrest hsum
    refine ⟨?_, hlt', ?_⟩
    · rw [htotal, totalLen, totalLen, List.map_cons, List.sum_cons, Nat.add_assoc]
    · intro r' hr'
      rcases List.mem_cons.mp hr' with rfl | hr'
      · exact Nat.le_of_not_lt hstop
      · exact hin r' hr'

theorem validateRegions_eq_ok {reader : SourceReader} {regions : List CarveRegion}
    {limits : CarveLimits} {requested : Nat}
    (h : validateRegions reader regions limits = .ok requested) :
    requested = totalLen regions ∧ requested < 2 ^ 64 ∧
      ∀ r ∈ regions, r.region.stop ≤ reader.len := by
  simp only [validateRegions, throw_bind, ite_throw_eq_ok, bind_eq_ok, pure_eq_ok,
    Prod.exists] at h
  obtain ⟨-, total, ordered, hmeasure, -, -, -, rfl⟩ := h
  have := measureRegions_eq_ok hmeasure (by decide)
  rwa [Nat.zero_add] at this

/-- The signatures of a list of regions, as the scan sees them. -/
def signaturesOf (reader : SourceReader) (limits : CarveLimits) (regions : List CarveRegion) :
    List (CarveRegion × Nat) :=
  regions.flatMap fun r =>
    (signatures r.region.offset (regionView reader limits.chunkSize r.region)).map fun o => (r, o)

/-- The run after the regions `done`: the log is that of their signatures, and unless the
    coverage is partial, they were readable and are counted. -/
structure Carved (reader : SourceReader) (sha256 : Bytes → Vector UInt8 32)
    (limits : CarveLimits) (done : List CarveRegion) (report : CarveReport) : Prop where
  candidates_lt : report.candidates.length < limits.maxCandidates
  logged : ∃ log, Logged reader sha256 limits log report ∧
    log.map (fun a => (a.region, a.offset)) = signaturesOf reader limits done
  scanned_le : report.coverage.bytesScanned ≤ totalLen done
  complete : report.coverage.isPartial = false →
    report.coverage.bytesScanned = totalLen done ∧
    ∀ r ∈ done, ∀ b ∈ regionView reader limits.chunkSize r.region, b.isSome = true

theorem totalLen_append (a b : List CarveRegion) : totalLen (a ++ b) = totalLen a + totalLen b := by
  simp [totalLen]

/-- One more region. -/
theorem carved_scanRegion (reader : SourceReader) (sha256 : Bytes → Vector UInt8 32)
    {limits : CarveLimits} (hlimits : limits.Valid) {done : List CarveRegion} {r : CarveRegion}
    (hlt : totalLen (done ++ [r]) < 2 ^ 64) {report : CarveReport}
    (h : Carved reader sha256 limits done report) :
    ∃ stop report', scanRegion reader sha256 limits r report = .ok (stop, report') ∧
      report'.coverage.bytesRequested = report.coverage.bytesRequested ∧
      if stop then Ended reader sha256 limits report'
      else Carved reader sha256 limits (done ++ [r]) report' := by
  obtain ⟨log, hlogged, hlog⟩ := h.logged
  have hr : totalLen [r] = r.region.len := by simp [totalLen]
  rw [totalLen_append, hr] at hlt
  -- nothing of the region is seen yet
  have hstart : Scanned reader sha256 limits log (totalLen done) r [] report :=
    ⟨⟨h.candidates_lt, [], by rwa [List.append_nil], rfl⟩, h.scanned_le,
      fun hp => ⟨(h.complete hp).1, by simp⟩⟩
  obtain ⟨stop, report', hrun, hrequested, hnext⟩ :=
    scanRegion_spec reader sha256 hlimits hlt hstart
  refine ⟨stop, report', hrun, hrequested, ?_⟩
  cases stop with
  | true => exact hnext
  | false =>
    obtain ⟨hincomplete, ⟨hcandidates, new, hlogged', hnew⟩, hscanned, hcomplete⟩ := hnext
    rw [length_regionView reader (by have := hlimits.chunkSize_ge; omega)] at hscanned hcomplete
    refine ⟨hcandidates, ⟨log ++ new, hlogged', ?_⟩, ?_, ?_⟩
    · rw [List.map_append, hlog, hnew, signaturesOf, signaturesOf, List.flatMap_append,
        List.flatMap_singleton]
    · rw [totalLen_append, hr]
      exact hscanned
    · intro hp
      have hold : report.coverage.isPartial = false := by
        rw [hp] at hincomplete
        simpa using hincomplete
      obtain ⟨hcount, hsome⟩ := hcomplete hp
      refine ⟨by rw [hcount, totalLen_append, hr], ?_⟩
      intro r' hr'
      rcases List.mem_append.mp hr' with hr' | hr'
      · exact (h.complete hold).2 r' hr'
      · rw [List.mem_singleton.mp hr']
        exact hsome

/-- With valid limits and regions the run succeeds, and either a budget ended it or it
    went through all regions. -/
theorem carve_run (reader : SourceReader) (sha256 : Bytes → Vector UInt8 32)
    {regions : List CarveRegion} {limits : CarveLimits} {requested : Nat}
    (hlimits : validateLimits limits = .ok ())
    (hregions : validateRegions reader regions limits = .ok requested) :
    ∃ report, carveJpegsWithEvidence reader sha256 regions limits = .ok report ∧
      report.coverage.bytesRequested = totalLen regions ∧
      (Ended reader sha256 limits report ∨ Carved reader sha256 limits regions report) := by
  have hvalid := validateLimits_valid hlimits
  obtain ⟨rfl, hlt, -⟩ := validateRegions_eq_ok hregions
  -- before the first region nothing is attempted
  have hinit : Carved reader sha256 limits []
      ⟨[], [], { bytesRequested := totalLen regions }⟩ := by
    refine ⟨hvalid.candidates_pos, ⟨[], ?_, rfl⟩, Nat.le_refl _, fun _ => ⟨rfl, by simp⟩⟩
    refine ⟨by simp, rfl, Nat.zero_le _, Nat.zero_le _, rfl, rfl, Nat.zero_le _, by simp, rfl, rfl,
      rfl, by simp⟩
  -- the regions are scanned in order until a limit ends the run
  have hloop := untilStop_spec (f := scanRegion reader sha256 limits)
    (fun done report => report.coverage.bytesRequested = totalLen regions ∧
      Carved reader sha256 limits done report)
    (fun report => report.coverage.bytesRequested = totalLen regions ∧
      Ended reader sha256 limits report)
    regions ?_ ⟨rfl, hinit⟩
  · obtain ⟨stop, report, hrun, hend⟩ := hloop
    refine ⟨report, ?_, ?_⟩
    · simp only [carveJpegsWithEvidence, hlimits, hregions, bind_ok, hrun]
      rfl
    · cases stop with
      | true => exact ⟨hend.1, Or.inl hend.2⟩
      | false => exact ⟨hend.1, Or.inr hend.2⟩
  · intro pre r post report₁ hxs hinv
    have hlt' : totalLen (pre ++ [r]) < 2 ^ 64 := by
      rw [hxs, List.append_cons, totalLen_append] at hlt
      omega
    obtain ⟨stop₁, report₂, hstep, hrequested, hnext⟩ :=
      carved_scanRegion reader sha256 hvalid hlt' hinv.2
    refine ⟨stop₁, report₂, hstep, ?_⟩
    cases stop₁ with
    | true => exact ⟨hrequested.trans hinv.1, hnext⟩
    | false => exact ⟨hrequested.trans hinv.1, hnext⟩

theorem carve_spec {reader : SourceReader} {sha256 : Bytes → Vector UInt8 32}
    {regions : List CarveRegion} {limits : CarveLimits} {report : CarveReport}
    (h : carveJpegsWithEvidence reader sha256 regions limits = .ok report) :
    report.coverage.bytesRequested = totalLen regions ∧
      (Ended reader sha256 limits report ∨ Carved reader sha256 limits regions report) := by
  have hvalidated := h
  simp only [carveJpegsWithEvidence, bind_eq_ok] at hvalidated
  obtain ⟨_, hlimits, requested, hregions, -⟩ := hvalidated
  obtain ⟨report', hrun, hspec⟩ := carve_run reader sha256 hlimits hregions
  rw [h, ok.injEq] at hrun
  rwa [hrun]

/-- The budgets hold on every run, and a run whose coverage is not partial has visited
    every byte of its regions, all readable, and settled every signature in them. -/
theorem carve_coverage_honest {reader : SourceReader} {sha256 : Bytes → Vector UInt8 32}
    {regions : List CarveRegion} {limits : CarveLimits} {report : CarveReport}
    (h : carveJpegsWithEvidence reader sha256 regions limits = .ok report) :
    report.coverage.signaturesAttempted ≤ limits.maxSignatureAttempts ∧
    report.coverage.validationBytesRead ≤ limits.maxValidationBytes ∧
    report.candidates.length ≤ limits.maxCandidates ∧
    (∀ cand ∈ report.candidates, cand.size ≤ limits.maxCandidateBytes) ∧
    (report.coverage.isPartial = false →
      report.coverage.bytesScanned = report.coverage.bytesRequested ∧
      (∀ r ∈ regions, ∀ b ∈ regionView reader limits.chunkSize r.region, b.isSome = true) ∧
      ∃ log, Logged reader sha256 limits log report ∧
        log.map (fun a => (a.region, a.offset)) = signaturesOf reader limits regions ∧
        ∀ r ∈ regions, ∀ i, pairAt (regionView reader limits.chunkSize r.region) i →
          ∃ a ∈ log, a.region = r ∧ a.offset = r.region.offset + i ∧ a.verdict.Final) := by
  obtain ⟨hrequested, hend⟩ := carve_spec h
  have hlog : ∃ log, Logged reader sha256 limits log report := by
    rcases hend with ⟨-, log, hlogged⟩ | hcarved
    · exact ⟨log, hlogged⟩
    · obtain ⟨log, hlogged, -⟩ := hcarved.logged
      exact ⟨log, hlogged⟩
  obtain ⟨log, hlogged⟩ := hlog
  refine ⟨hlogged.attempted ▸ hlogged.attempted_le, hlogged.validation_le, hlogged.candidates_le,
    hlogged.size_le, ?_⟩
  intro hincomplete
  -- a run that ended at a limit says that it is partial
  rcases hend with ⟨⟨hexhausted, -⟩, -⟩ | hcarved
  · rw [hincomplete] at hexhausted
    exact absurd hexhausted Bool.false_ne_true
  · obtain ⟨hcount, hreadable⟩ := hcarved.complete hincomplete
    obtain ⟨log, hlogged, hmap⟩ := hcarved.logged
    refine ⟨hcount.trans hrequested.symm, hreadable, log, hlogged, hmap, ?_⟩
    intro r hr i hi
    -- the pair is a signature, and every signature was attempted
    have hmem : (r, r.region.offset + i) ∈ signaturesOf reader limits regions :=
      List.mem_flatMap.mpr ⟨r, hr, List.mem_map_of_mem (mem_signatures.mpr ⟨i, hi, rfl⟩)⟩
    rw [← hmap] at hmem
    obtain ⟨a, ha, heq⟩ := List.mem_map.mp hmem
    rw [Prod.mk.injEq] at heq
    exact ⟨a, ha, heq.1, heq.2, hlogged.final hincomplete a ha⟩

/-- A smallest image, with a signature in front of it that is none. -/
def smallestImage : Bytes :=
  [0xFF, 0xD8, 0xFF, 0xC0, 0, 11, 8, 0, 1, 0, 1, 1, 1, 0x11, 0, 0xFF, 0xDA, 0, 8, 1, 1, 0, 0, 63,
    0, 0x42, 0xFF, 0xD9]

def smallReader : SourceReader :=
  (memImageReader (patched [(0, [0xFF, 0xD8, 0x00]), (5, smallestImage)]) 40
    (by decide)).toSourceReader

def smallRegions : List CarveRegion := [⟨⟨0, 40, by decide⟩, .freeInSnapshot⟩]

def smallLimits (chunkSize : Nat) : CarveLimits := ⟨chunkSize, 64, 4, 4, 64, 8, 256⟩

theorem carve_coverage_honest_small :
    ∃ report log,
      carveJpegsWithEvidence smallReader (fun _ => Vector.replicate 32 0) smallRegions
        (smallLimits 8) = .ok report ∧
      report.coverage.bytesScanned = report.coverage.bytesRequested ∧
      Logged smallReader (fun _ => Vector.replicate 32 0) (smallLimits 8) log report := by
  have heval : ((carveJpegsWithEvidence smallReader (fun _ => Vector.replicate 32 0) smallRegions
      (smallLimits 8)).toOption.map fun report => report.coverage.isPartial) = some false := by
    decide +kernel
  obtain ⟨report, hrun, hincomplete⟩ := Option.map_eq_some_iff.mp heval
  have hok := toOption_eq_some.mp hrun
  obtain ⟨hcount, -, log, hlogged, -⟩ := (carve_coverage_honest hok).2.2.2.2 hincomplete
  exact ⟨report, log, hok, hcount, hlogged⟩

end Undelete.Carve
