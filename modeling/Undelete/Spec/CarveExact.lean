import Mathlib.Data.List.Pairwise
import Undelete.Spec.CarveScan
import Undelete.Spec.InspectExact

/-!
# What a carving run reports

On a source with a fixed set of unreadable bytes, and below the budgets, a run reports
the images of its regions that are readable together with the rest of the last read
that validates them.

## Key results

- `regionView_eq_iff`: what the scan sees of a region.
- `validateRegions_disjoint`: accepted regions are disjoint.
- `carve_reports_iff`: the images a run reports.
- `carve_exact_iff`: when these are all images of the regions.
-/

namespace Undelete.Carve

open Except IntervalLike

/-! ## What the scan sees -/

/-- The start, in its region, of the scan read that delivers the byte at `p`. -/
def scanReadStart (chunkSize p : Nat) : Nat := p / chunkSize * chunkSize

/-- The scan sees the byte at `p` of the region: it can be read, and the read that
    delivers it reports at most 8192 ranges. -/
def Seen (source : ReportingSource) (chunkSize : Nat) (region : Region) (p : Nat) : Prop :=
  ¬source.bad (region.offset + p) ∧
    (source.report (region.offset + scanReadStart chunkSize p)
      (min chunkSize (region.len - scanReadStart chunkSize p))).length ≤ maxBadRangesPerRead

variable {source : ReportingSource}

theorem readableBytes_eq_some_iff {offset n i : Nat} {buffer : Bytes}
    (hbuffer : buffer.length = n) (hin : offset + n ≤ source.len) (hi : i < n) {b : UInt8} :
    (readableBytes (source.readBestEffortAt offset buffer).1
        (normalizeBadRanges n (source.readBestEffortAt offset buffer).2))[i]? = some (some b) ↔
      (¬source.bad (offset + i) ∧ (source.report offset n).length ≤ maxBadRangesPerRead) ∧
        b = source.byte (offset + i) := by
  have hsource := source.len_lt
  have hdelivers := source.delivers offset buffer (by omega)
  have hranges := source.badRanges_eq offset buffer (by omega)
  have hslice := source.length_readBestEffortAt offset buffer
  rw [hbuffer] at hslice hranges
  rw [readableBytes_eq_iff (by omega), isReadable_iff, ← hranges]
  -- too many reported ranges make the whole read unreadable
  by_cases hcount : (source.readBestEffortAt offset buffer).2.badRanges.length ≤
      maxBadRangesPerRead
  · have hcovered := normalizeBadRanges_coveredBy hdelivers (by omega) hcount (i := i) (by omega)
    rw [hslice] at hcovered
    rw [hcovered]
    constructor
    · rintro ⟨hget, hgood⟩
      have := hdelivers.good i (by omega) hgood
      rw [List.getD_eq_getElem?_getD, this, Option.getD_some] at hget
      exact ⟨⟨hgood, hcount⟩, hget.symm⟩
    · rintro ⟨⟨hgood, -⟩, rfl⟩
      have := hdelivers.good i (by omega) hgood
      rw [List.getD_eq_getElem?_getD, this, Option.getD_some]
      exact ⟨rfl, hgood⟩
  · rw [normalizeBadRanges_overloaded hcount]
    constructor
    · rintro ⟨-, h⟩
      exact absurd ⟨(0, n), List.mem_singleton.mpr rfl, Nat.zero_le i, by
        simp only [stop, start, len]
        omega⟩ h
    · rintro ⟨⟨-, h⟩, -⟩
      exact absurd h hcount

theorem scanView_eq_iff {chunkSize : Nat} (hchunk : 0 < chunkSize) {region : Region}
    (hregion : region.stop ≤ source.len) (fuel relativeOffset : Nat) {i : Nat} (buffer : Bytes)
    (hbuffer : buffer.length = min chunkSize region.len)
    (hmultiple : relativeOffset < region.len → chunkSize ∣ relativeOffset)
    (hi : relativeOffset + i < region.len) (hfuel : region.len - relativeOffset ≤ fuel)
    {b : UInt8} :
    (scanView source.toSourceReader chunkSize region fuel relativeOffset buffer)[i]? =
        some (some b) ↔
      Seen source chunkSize region (relativeOffset + i) ∧
        b = source.byte (region.offset + (relativeOffset + i)) := by
  -- on the fuel, one chunk of the region each
  induction fuel generalizing relativeOffset buffer i with
  | zero => omega
  | succ fuel ih =>
    unfold Region.stop at hregion
    have hlt : relativeOffset < region.len := by omega
    obtain ⟨k, hk⟩ := hmultiple hlt
    rw [scanView, if_pos hlt]
    obtain ⟨readLen, hreadLen⟩ : ∃ n, n = min chunkSize (region.len - relativeOffset) := ⟨_, rfl⟩
    simp only [← hreadLen]
    have htake : (buffer.take readLen).length = readLen := by
      rw [List.length_take, hbuffer]
      omega
    have hslice := source.length_readBestEffortAt (region.offset + relativeOffset)
      (buffer.take readLen)
    rw [htake] at hslice
    -- the byte lies in this chunk or in a later one
    by_cases hin : i < readLen
    · rw [List.getElem?_append_left (by rw [length_readableBytes]; omega),
        readableBytes_eq_some_iff htake (by omega) hin]
      have hstart : scanReadStart chunkSize (relativeOffset + i) = relativeOffset := by
        rw [scanReadStart, hk, Nat.mul_add_div hchunk, Nat.div_eq_of_lt (by omega), Nat.add_zero,
          Nat.mul_comm]
      rw [Seen, hstart, ← hreadLen, Nat.add_assoc]
    · have hfull : readLen = chunkSize := by omega
      rw [List.getElem?_append_right (by rw [length_readableBytes]; omega), length_readableBytes,
        hslice, ih _ _ (by rw [List.length_append, List.length_drop]; omega)
          (fun _ => ⟨k + 1, by rw [hk, hfull, Nat.mul_add, Nat.mul_one]⟩) (by omega) (by omega),
        Nat.add_assoc, Nat.add_sub_of_le (by omega)]

/-- The bytes of a region the scan sees. -/
theorem regionView_eq_iff {chunkSize : Nat} (hchunk : 0 < chunkSize) {region : Region}
    (hregion : region.stop ≤ source.len) {i : Nat} (hi : i < region.len) {b : UInt8} :
    (regionView source.toSourceReader chunkSize region)[i]? = some (some b) ↔
      Seen source chunkSize region i ∧ b = source.byte (region.offset + i) := by
  have := scanView_eq_iff hchunk hregion region.len 0 (i := i)
    (List.replicate (min chunkSize region.len) 0) (List.length_replicate ..)
    (fun _ => ⟨0, rfl⟩) (by omega) (Nat.sub_le _ _) (b := b)
  rwa [Nat.zero_add] at this

/-! ## Accepted regions are disjoint -/

/-- Two regions without a common byte. -/
def Apart (a b : CarveRegion) : Prop :=
  a.region.stop ≤ b.region.offset ∨ b.region.stop ≤ a.region.offset

theorem checkOverlaps_pairwise {ordered : List OrderedRegion}
    (h : checkOverlaps ordered = .ok ()) (hle : ∀ o ∈ ordered, o.start ≤ o.stop) :
    ordered.Pairwise fun a b => a.stop ≤ b.start := by
  induction ordered with
  | nil => exact List.Pairwise.nil
  | cons a rest ih =>
    cases rest with
    | nil => exact List.pairwise_singleton ..
    | cons b rest =>
      simp only [checkOverlaps, throw_bind, ite_throw_eq_ok] at h
      have htail := ih h.2 fun o ho => hle o (List.mem_cons_of_mem a ho)
      refine List.pairwise_cons.mpr ⟨?_, htail⟩
      intro c hc
      rcases List.mem_cons.mp hc with rfl | hc
      · exact Nat.le_of_not_lt h.1
      · have := (List.pairwise_cons.mp htail).1 c hc
        have := hle b (List.mem_cons_of_mem a List.mem_cons_self)
        omega

theorem measureRegions_ordered {reader : SourceReader} {index requested total : Nat}
    {regions : List CarveRegion} {ordered : List OrderedRegion}
    (h : measureRegions reader index requested regions = .ok (total, ordered)) :
    ordered.map (fun o => (o.start, o.stop)) =
      regions.map fun r => (r.region.offset, r.region.stop) := by
  induction regions generalizing index requested total ordered with
  | nil =>
    cases h
    rfl
  | cons r rest ih =>
    simp only [measureRegions, throw_bind, ite_throw_eq_ok, bind_eq_ok, pure_eq_ok, Prod.exists,
      Prod.mk.injEq] at h
    obtain ⟨-, _, -, total', ordered', hrest, -, rfl⟩ := h
    rw [List.map_cons, List.map_cons, ih hrest]

theorem validateRegions_disjoint {reader : SourceReader} {regions : List CarveRegion}
    {limits : CarveLimits} {requested : Nat}
    (h : validateRegions reader regions limits = .ok requested) : regions.Pairwise Apart := by
  simp only [validateRegions, throw_bind, ite_throw_eq_ok, bind_eq_ok, pure_eq_ok,
    Prod.exists] at h
  obtain ⟨-, total, ordered, hmeasure, -, _, hcheck, -⟩ := h
  have hmap := measureRegions_ordered hmeasure
  have hperm := List.perm_insertionSort regionOrder ordered
  have hle : ∀ o ∈ ordered, o.start ≤ o.stop := by
    intro o ho
    have hmem := List.mem_map_of_mem (f := fun o : OrderedRegion => (o.start, o.stop)) ho
    rw [hmap] at hmem
    obtain ⟨r, -, heq⟩ := List.mem_map.mp hmem
    rw [Prod.mk.injEq] at heq
    unfold Region.stop at heq
    omega
  have hsorted := checkOverlaps_pairwise hcheck fun o ho => hle o (hperm.mem_iff.mp ho)
  have hordered : ordered.Pairwise fun a b => a.stop ≤ b.start ∨ b.stop ≤ a.start := by
    apply (hperm.pairwise_iff fun hab => hab.symm).mp
    exact hsorted.imp Or.inl
  have hpairs : (ordered.map fun o => (o.start, o.stop)).Pairwise
      fun a b => a.2 ≤ b.1 ∨ b.2 ≤ a.1 := List.pairwise_map.mpr hordered
  rw [hmap, List.pairwise_map] at hpairs
  exact hpairs

instance : Std.Symm Apart := ⟨fun _ _ h => h.symm⟩

/-- A byte lies in one region only. -/
theorem eq_of_mem_regions {regions : List CarveRegion} (h : regions.Pairwise Apart)
    {r s : CarveRegion} (hr : r ∈ regions) (hs : s ∈ regions) {o : Nat}
    (hro : r.region.offset ≤ o ∧ o < r.region.stop)
    (hso : s.region.offset ≤ o ∧ o < s.region.stop) :
    r = s := by
  by_contra hne
  have hapart := h.forall hr hs hne
  unfold Apart at hapart
  omega

/-! ## Reported images -/

/-- An image of a region: readable, inside the region, and accepted by the validator
    after its last byte. -/
structure Carvable (source : ReportingSource) (r : CarveRegion) (o n : Nat) : Prop where
  start : r.region.offset ≤ o
  stop : o + n ≤ r.region.stop
  readable : ReadableFrom source o 0 n
  accepted : (JpegValidator.new.feed (Bytes.window source.byte o n)).1 = ⟨n, .valid⟩

/-- No unreadable byte disturbs the reads of the image: the scan reads that deliver its
    first two bytes report at most 8192 ranges, and all bytes up to the end of the read
    that delivers its last byte can be read. -/
structure Undisturbed (source : ReportingSource) (limits : CarveLimits) (r : CarveRegion)
    (o n : Nat) : Prop where
  scan : ∀ p, p = o - r.region.offset ∨ p = o - r.region.offset + 1 →
    (source.report (r.region.offset + scanReadStart limits.chunkSize p)
      (min limits.chunkSize (r.region.len - scanReadStart limits.chunkSize p))).length ≤
        maxBadRangesPerRead
  validation : ReadableFrom source o 0
    (validationReadEnd limits.chunkSize (clipOf limits o r.region.stop) n)

/-- The evidence of a report has this image. -/
def Reports (report : CarveReport) (o n : Nat) (digest : Vector UInt8 32) : Prop :=
  ∃ e ∈ report.evidence, e.physicalOffset = o ∧ e.len = n ∧ e.contentSha256 = digest

/-- No budget was reached. -/
structure BelowBudgets (limits : CarveLimits) (report : CarveReport) : Prop where
  candidates : report.coverage.candidateLimitReached = false
  candidateBytes : report.coverage.candidateByteLimitHits = 0
  attempts : report.coverage.signatureAttemptLimitReached = false
  validation : report.coverage.validationByteLimitReached = false
  validationBytes : report.coverage.validationBytesRead < limits.maxValidationBytes

theorem Parsed.head {entropy sof sos : Bool} {w : Bytes} (h : Parsed entropy sof sos w) :
    ∃ rest, w = 0xFF :: 0xD8 :: rest := by
  induction h with
  | soi => exact ⟨[], rfl⟩
  | tem _ _ ih | segment _ _ _ _ _ ih | frame _ _ _ _ _ ih | scan _ _ _ _ ih | data _ _ ih
  | escape _ _ _ ih =>
    obtain ⟨rest, rfl⟩ := ih
    exact ⟨_, rfl⟩

theorem IsImage.head {w : Bytes} (h : IsImage w) : ∃ rest, w = 0xFF :: 0xD8 :: rest := by
  obtain ⟨entropy, u, fill, hu, rfl⟩ := h
  obtain ⟨rest, rfl⟩ := hu.head
  exact ⟨_, rfl⟩

/-- The first two bytes of an image are a signature. -/
theorem isImage_window_head {byte : Nat → UInt8} {o n : Nat}
    (h : IsImage (Bytes.window byte o n)) : 2 ≤ n ∧ byte o = 0xFF ∧ byte (o + 1) = 0xD8 := by
  obtain ⟨rest, heq⟩ := h.head
  have hlen := congrArg List.length heq
  rw [Bytes.length_window, List.length_cons, List.length_cons] at hlen
  have h₀ := Bytes.getElem?_window byte o n 0
  have h₁ := Bytes.getElem?_window byte o n 1
  rw [heq, if_pos (by omega)] at h₀ h₁
  exact ⟨by omega, (Option.some.inj h₀).symm, (Option.some.inj h₁).symm⟩

theorem IsImage.lt_of_window {byte : Nat → UInt8} {o n len : Nat} (hlen : len < 2 ^ 64)
    (hin : o + n ≤ len) :
    (JpegValidator.new.feed (Bytes.window byte o n)).1 = ⟨n, .valid⟩ ↔
      IsImage (Bytes.window byte o n) := by
  have := feed_eq_valid_iff (w := Bytes.window byte o n) (by rw [Bytes.length_window]; omega)
  rwa [Bytes.length_window] at this

/-- The evidence of a run is that of the attempts in its log. -/
theorem reports_iff {reader : SourceReader} {sha256 : Bytes → Vector UInt8 32}
    {limits : CarveLimits} {log : List Attempt} {report : CarveReport}
    (h : Logged reader sha256 limits log report) (o n : Nat) (digest : Vector UInt8 32) :
    Reports report o n digest ↔ ∃ a ∈ log, a.offset = o ∧ a.verdict = .valid n digest := by
  unfold Reports
  rw [h.evidence]
  constructor
  · rintro ⟨e, he, rfl, rfl, rfl⟩
    obtain ⟨a, ha, heq⟩ := List.mem_filterMap.mp he
    refine ⟨a, ha, ?_⟩
    unfold Attempt.evidence? at heq
    split at heq
    · next len digest hverdict =>
      cases heq
      exact ⟨rfl, hverdict⟩
    · cases heq
  · rintro ⟨a, ha, rfl, hverdict⟩
    exact ⟨_, List.mem_filterMap.mpr ⟨a, ha, by simp only [Attempt.evidence?, hverdict]; rfl⟩,
      rfl, rfl, rfl⟩

theorem mem_signaturesOf {reader : SourceReader} {limits : CarveLimits}
    {regions : List CarveRegion} {r : CarveRegion} {o : Nat} :
    (r, o) ∈ signaturesOf reader limits regions ↔
      r ∈ regions ∧ ∃ i, pairAt (regionView reader limits.chunkSize r.region) i ∧
        o = r.region.offset + i := by
  simp only [signaturesOf, List.mem_flatMap, List.mem_map, Prod.mk.injEq]
  constructor
  · rintro ⟨s, hs, o', ho', rfl, rfl⟩
    exact ⟨hs, mem_signatures.mp ho'⟩
  · rintro ⟨hr, hi⟩
    exact ⟨r, hr, o, mem_signatures.mpr hi, rfl, rfl⟩

/-- The images a run below the budgets reports. -/
theorem carve_reports_iff {sha256 : Bytes → Vector UInt8 32} {regions : List CarveRegion}
    {limits : CarveLimits} (hlimits : limits.Valid)
    (hregions : ∀ r ∈ regions, r.region.stop ≤ source.len) {report : CarveReport}
    (hcarved : Carved source.toSourceReader sha256 limits regions report)
    (hbudget : BelowBudgets limits report) (o n : Nat) (digest : Vector UInt8 32) :
    Reports report o n digest ↔ ∃ r ∈ regions, Carvable source r o n ∧
      Undisturbed source limits r o n ∧ digest = sha256 (Bytes.window source.byte o n) := by
  have hsource := source.len_lt
  have hchunk : 0 < limits.chunkSize := by
    have := hlimits.chunkSize_ge
    omega
  obtain ⟨log, hlogged, hmap⟩ := hcarved.logged
  have hlog : ∀ a : Attempt, a ∈ log → (a.region, a.offset) ∈
      signaturesOf source.toSourceReader limits regions := by
    intro a ha
    rw [← hmap]
    exact List.mem_map_of_mem (f := fun a : Attempt => (a.region, a.offset)) ha
  rw [reports_iff hlogged]
  constructor
  · rintro ⟨⟨r, o', verdict⟩, ha, heq, hverdict⟩
    obtain rfl : o = o' := heq.symm
    obtain rfl : CandidateRead.valid n digest = verdict := hverdict.symm
    obtain ⟨hr, i, hpair, ho⟩ := mem_signaturesOf.mp (hlog _ ha)
    simp only at ho hr hpair
    have hstop := hregions r hr
    have hview := length_regionView source.toSourceReader hchunk r.region
    have hi : i + 1 < r.region.len := by
      rw [← hview]
      exact (List.getElem?_eq_some_iff.mp hpair.2).1
    obtain ⟨c, c', hrun, hc'⟩ := hlogged.genuine _ ha
    have hor : o ≤ r.region.stop := by
      unfold Region.stop
      omega
    obtain ⟨hn, himage, hreadable, hdigest⟩ := (valid_verdict_iff hlimits hor hstop
      (Nat.lt_of_le_of_lt hc' hbudget.validationBytes) hrun n digest).mp rfl
    have hclip : o + n ≤ r.region.stop := by
      unfold clipOf at hn
      omega
    refine ⟨r, hr, ⟨by omega, hclip, ?_, ?_⟩, ⟨?_, hreadable⟩, hdigest⟩
    · intro j hj hjn
      exact hreadable j hj (Nat.lt_of_lt_of_le hjn (le_validationReadEnd hchunk hn))
    · exact (IsImage.lt_of_window hsource (by omega)).mpr himage
    · intro p hp
      have hseen : Seen source limits.chunkSize r.region p := by
        rcases hp with rfl | rfl
        · rw [ho, Nat.add_sub_cancel_left]
          exact ((regionView_eq_iff hchunk hstop (by omega)).mp hpair.1).1
        · rw [ho, Nat.add_sub_cancel_left]
          exact ((regionView_eq_iff hchunk hstop hi).mp hpair.2).1
      exact hseen.2
  · rintro ⟨r, hr, ⟨hstart, hstop, hreadable, haccepted⟩, ⟨hscan, hreads⟩, hdigest⟩
    have hin := hregions r hr
    have himage := (IsImage.lt_of_window hsource (by omega)).mp haccepted
    obtain ⟨hn, hff, hd8⟩ := isImage_window_head himage
    obtain ⟨i, rfl⟩ : ∃ i, o = r.region.offset + i := ⟨_, (Nat.add_sub_of_le hstart).symm⟩
    rw [Nat.add_sub_cancel_left] at hscan
    have hi : i + 1 < r.region.len := by
      unfold Region.stop at hstop
      omega
    have hpair : pairAt (regionView source.toSourceReader limits.chunkSize r.region) i := by
      constructor
      · apply (regionView_eq_iff hchunk hin (by omega)).mpr
        exact ⟨⟨hreadable 0 (Nat.le_refl 0) (by omega), hscan i (Or.inl rfl)⟩, hff.symm⟩
      · apply (regionView_eq_iff hchunk hin hi).mpr
        exact ⟨⟨hreadable 1 (Nat.zero_le 1) (by omega), hscan (i + 1) (Or.inr rfl)⟩, hd8.symm⟩
    have hmem := mem_signaturesOf.mpr ⟨hr, i, hpair, rfl⟩
    rw [← hmap] at hmem
    obtain ⟨a, ha, heq⟩ := List.mem_map.mp hmem
    rw [Prod.mk.injEq] at heq
    obtain ⟨c, c', hrun, hc'⟩ := hlogged.genuine a ha
    rw [heq.1, heq.2] at hrun
    have hbelow := Nat.lt_of_le_of_lt hc' hbudget.validationBytes
    refine ⟨a, ha, heq.2, ?_⟩
    apply (valid_verdict_iff hlimits (by omega) hin hbelow hrun n digest).mpr
    refine ⟨?_, himage, hreads, hdigest⟩
    by_contra hlong
    -- the image is longer than a candidate may be, which would have been counted
    have hlimit := byteLimit_verdict hlimits hstop hin hbelow hrun himage hreadable (by
      unfold clipOf at hlong
      omega)
    have hhits := hlogged.byteLimit
    rw [hbudget.candidateBytes] at hhits
    have := List.countP_eq_zero.mp hhits.symm a ha
    simp only [hlimit, decide_true, not_true_eq_false] at this

/-! ## Every image once -/

theorem signatures_nodup (start : Nat) (view : List (Option UInt8)) :
    (signatures start view).Nodup := by
  apply List.Nodup.map
  · intro a b hab
    exact Nat.add_left_cancel hab
  · exact List.nodup_range.filter _

theorem signaturesOf_nodup {reader : SourceReader} {limits : CarveLimits} (hlimits : limits.Valid)
    {regions : List CarveRegion} (hapart : regions.Pairwise Apart) :
    ((signaturesOf reader limits regions).map Prod.snd).Nodup := by
  have hchunk : 0 < limits.chunkSize := by
    have := hlimits.chunkSize_ge
    omega
  -- each signature lies in its region, and regions are apart
  have hbounds : ∀ (r : CarveRegion) (o : Nat),
      o ∈ signatures r.region.offset (regionView reader limits.chunkSize r.region) →
      r.region.offset ≤ o ∧ o < r.region.stop := by
    intro r o ho
    obtain ⟨i, hpair, rfl⟩ := mem_signatures.mp ho
    have hlt := (List.getElem?_eq_some_iff.mp hpair.1).1
    rw [length_regionView reader hchunk] at hlt
    exact ⟨Nat.le_add_right _ _, Nat.add_lt_add_left hlt _⟩
  have hmap : (signaturesOf reader limits regions).map Prod.snd = regions.flatMap fun r =>
      signatures r.region.offset (regionView reader limits.chunkSize r.region) := by
    rw [signaturesOf, List.map_flatMap]
    congr 1
    funext r
    rw [List.map_map]
    exact List.map_id _
  rw [hmap, List.nodup_flatMap]
  refine ⟨fun r _ => signatures_nodup _ _, hapart.imp ?_⟩
  intro r s hrs o hro hso
  have := hbounds r o hro
  have := hbounds s o hso
  unfold Apart at hrs
  omega

theorem evidence_sublist (log : List Attempt) :
    ((log.filterMap Attempt.evidence?).map (·.physicalOffset)).Sublist (log.map (·.offset)) := by
  induction log with
  | nil => exact List.Sublist.slnil
  | cons a log ih =>
    cases h : a.evidence? with
    | none =>
      rw [List.filterMap_cons_none h, List.map_cons]
      exact ih.cons _
    | some e =>
      have he : e.physicalOffset = a.offset := by
        unfold Attempt.evidence? at h
        split at h
        · cases h
          rfl
        · cases h
      rw [List.filterMap_cons_some h, List.map_cons, List.map_cons, he]
      exact ih.cons_cons _

/-- The evidence of a run names every offset once. -/
theorem evidence_nodup {reader : SourceReader} {sha256 : Bytes → Vector UInt8 32}
    {regions : List CarveRegion} {limits : CarveLimits} (hlimits : limits.Valid)
    (hapart : regions.Pairwise Apart) {report : CarveReport}
    (h : Carved reader sha256 limits regions report) :
    (report.evidence.map (·.physicalOffset)).Nodup := by
  obtain ⟨log, hlogged, hmap⟩ := h.logged
  have hoffsets : log.map (·.offset) = (signaturesOf reader limits regions).map Prod.snd := by
    rw [← hmap, List.map_map]
    rfl
  rw [hlogged.evidence]
  apply (evidence_sublist log).nodup
  rw [hoffsets]
  exact signaturesOf_nodup hlimits hapart

/-- Candidates and evidence of a run go together. -/
theorem candidates_evidence {reader : SourceReader} {sha256 : Bytes → Vector UInt8 32}
    {limits : CarveLimits} {log : List Attempt} {report : CarveReport}
    (h : Logged reader sha256 limits log report) :
    report.candidates.map (fun cand => (cand.id, cand.size)) =
      report.evidence.map fun e => (e.physicalOffset, e.len) := by
  rw [h.candidates, h.evidence, List.map_filterMap, List.map_filterMap]
  congr 1
  funext a
  unfold Attempt.candidate? Attempt.evidence?
  split
  · rfl
  · rfl

/-! ## The exact condition -/

/-- A run below the budgets reports exactly the images of its regions, each once and with
    its digest, exactly when no unreadable byte disturbs the reads of one of them. -/
theorem carve_exact_iff (source : ReportingSource) (sha256 : Bytes → Vector UInt8 32)
    {regions : List CarveRegion} {limits : CarveLimits} {requested : Nat}
    (hlimits : validateLimits limits = .ok ())
    (hregions : validateRegions source.toSourceReader regions limits = .ok requested) :
    ∃ report, carveJpegsWithEvidence source.toSourceReader sha256 regions limits = .ok report ∧
      report.candidates.map (fun cand => (cand.id, cand.size)) =
        report.evidence.map (fun e => (e.physicalOffset, e.len)) ∧
      (BelowBudgets limits report →
        (((report.evidence.map (·.physicalOffset)).Nodup ∧
          ∀ o n digest, Reports report o n digest ↔
            (∃ r ∈ regions, Carvable source r o n) ∧
              digest = sha256 (Bytes.window source.byte o n)) ↔
        ∀ r ∈ regions, ∀ o n, Carvable source r o n → Undisturbed source limits r o n)) := by
  have hvalid := validateLimits_valid hlimits
  obtain ⟨-, -, hin⟩ := validateRegions_eq_ok hregions
  have hapart := validateRegions_disjoint hregions
  obtain ⟨report, hrun, -, hend⟩ := carve_run source.toSourceReader sha256 hlimits hregions
  have hlog : ∃ log, Logged source.toSourceReader sha256 limits log report := by
    rcases hend with ⟨-, log, hlogged⟩ | hcarved
    · exact ⟨log, hlogged⟩
    · obtain ⟨log, hlogged, -⟩ := hcarved.logged
      exact ⟨log, hlogged⟩
  obtain ⟨log, hlogged⟩ := hlog
  refine ⟨report, hrun, candidates_evidence hlogged, ?_⟩
  intro hbudget
  -- within the budgets the scan reached the end of every region
  have hcarved : Carved source.toSourceReader sha256 limits regions report := by
    rcases hend with ⟨⟨-, hflag⟩, -⟩ | hcarved
    · rw [hbudget.candidates, hbudget.attempts, hbudget.validation] at hflag
      simp at hflag
    · exact hcarved
  have hreports := carve_reports_iff hvalid hin hcarved hbudget
  constructor
  · rintro ⟨-, hexact⟩ r hr o n himage
    obtain ⟨s, hs, himage', hundisturbed, -⟩ := (hreports o n _).mp
      ((hexact o n _).mpr ⟨⟨r, hr, himage⟩, rfl⟩)
    have hn : 0 < n := by
      have := source.len_lt
      have := hin r hr
      have := himage.stop
      have := isImage_window_head
        ((IsImage.lt_of_window source.len_lt (by omega)).mp himage.accepted)
      omega
    have hr' := himage.stop
    have hs' := himage'.stop
    -- an image starts in one region only
    obtain rfl := eq_of_mem_regions hapart hr hs ⟨himage.start, by omega⟩
      ⟨himage'.start, by omega⟩
    exact hundisturbed
  · intro hall
    refine ⟨evidence_nodup hvalid hapart hcarved, ?_⟩
    intro o n digest
    rw [hreports]
    constructor
    · rintro ⟨r, hr, himage, -, hdigest⟩
      exact ⟨⟨r, hr, himage⟩, hdigest⟩
    · rintro ⟨⟨r, hr, himage⟩, hdigest⟩
      exact ⟨r, hr, himage, hall r hr o n himage, hdigest⟩

theorem damagedSource_lt : 40 < 2 ^ 64 := by decide

/-- The smallest image at the start of a source of 40 bytes, of which those from `low` to
    `high` cannot be read. -/
def damagedSource (low high : Nat) : ReportingSource :=
  damagedReader (patched [(0, smallestImage)]) low high 40 damagedSource_lt

def imageRegion (len : Nat) (h : 0 + len < 2 ^ 64) : CarveRegion := ⟨⟨0, len, h⟩, .freeInSnapshot⟩

/-- An intact image is lost when the read that delivers its last byte also touches an
    unreadable byte behind it. -/
theorem carve_drops_intact_image :
    ∃ report, carveJpegsWithEvidence (damagedSource 28 29).toSourceReader
        (fun _ => Vector.replicate 32 0) [imageRegion 40 (by decide)] (smallLimits 32) =
        .ok report ∧
      BelowBudgets (smallLimits 32) report ∧
      Carvable (damagedSource 28 29) (imageRegion 40 (by decide)) 0 28 ∧
      report.evidence = [] := by
  have heval : ((carveJpegsWithEvidence (damagedSource 28 29).toSourceReader
      (fun _ => Vector.replicate 32 0) [imageRegion 40 (by decide)] (smallLimits 32)).toOption.map
        fun report => (report.coverage.candidateLimitReached,
          report.coverage.candidateByteLimitHits,
          report.coverage.signatureAttemptLimitReached, report.coverage.validationByteLimitReached,
          decide (report.coverage.validationBytesRead < 256), report.evidence.length)) =
      some (false, 0, false, false, true, 0) := by
    decide +kernel
  obtain ⟨report, hrun, hvalues⟩ := Option.map_eq_some_iff.mp heval
  simp only [Prod.mk.injEq, decide_eq_true_eq, List.length_eq_zero_iff] at hvalues
  obtain ⟨hcandidates, hbytes, hattempts, hvalidation, hread, hevidence⟩ := hvalues
  refine ⟨report, toOption_eq_some.mp hrun, ⟨hcandidates, hbytes, hattempts, hvalidation, hread⟩,
    ⟨Nat.le_refl 0, by decide, ?_, by decide +kernel⟩, hevidence⟩
  intro j _ hj
  show ¬(28 ≤ 0 + j ∧ 0 + j < 29)
  omega

theorem carve_exact_at_region_end :
    ∃ report, carveJpegsWithEvidence (damagedSource 28 29).toSourceReader
        (fun _ => Vector.replicate 32 0) [imageRegion 28 (by decide)] (smallLimits 32) =
        .ok report ∧
      Reports report 0 28 (Vector.replicate 32 0) := by
  have hregions : validateRegions (damagedSource 28 29).toSourceReader
      [imageRegion 28 (by decide)] (smallLimits 32) = .ok 28 := by
    apply toOption_eq_some.mp
    decide +kernel
  obtain ⟨report, hrun, -, hexact⟩ := carve_exact_iff (damagedSource 28 29)
    (fun _ => Vector.replicate 32 0) (toOption_eq_some.mp (by decide +kernel)) hregions
  have heval : ((carveJpegsWithEvidence (damagedSource 28 29).toSourceReader
      (fun _ => Vector.replicate 32 0) [imageRegion 28 (by decide)] (smallLimits 32)).toOption.map
        fun report => (report.coverage.candidateLimitReached,
          report.coverage.candidateByteLimitHits,
          report.coverage.signatureAttemptLimitReached, report.coverage.validationByteLimitReached,
          decide (report.coverage.validationBytesRead < 256))) =
      some (false, 0, false, false, true) := by
    decide +kernel
  rw [hrun] at heval
  simp only [Except.toOption, Option.map_some, Option.some.injEq, Prod.mk.injEq,
    decide_eq_true_eq] at heval
  obtain ⟨hcandidates, hbytes, hattempts, hvalidation, hread⟩ := heval
  have hundisturbed : ∀ r ∈ [imageRegion 28 (by decide)], ∀ o n,
      Carvable (damagedSource 28 29) r o n →
        Undisturbed (damagedSource 28 29) (smallLimits 32) r o n := by
    intro r hr o n himage
    obtain rfl := List.mem_singleton.mp hr
    have hstop : o + n ≤ 28 := by
      have := himage.stop
      exact this
    constructor
    · intro p _
      show (damagedRanges 28 29 _ _).length ≤ 8192
      unfold damagedRanges
      split <;> simp
    · intro j _ hj
      have hclip : validationReadEnd (smallLimits 32).chunkSize
          (clipOf (smallLimits 32) o (imageRegion 28 (by decide)).region.stop) n ≤ 28 - o := by
        apply Nat.le_trans (Nat.min_le_left _ _)
        exact Nat.min_le_left _ _
      show ¬(28 ≤ o + j ∧ o + j < 29)
      omega
  obtain ⟨-, hreports⟩ := (hexact ⟨hcandidates, hbytes, hattempts, hvalidation, hread⟩).mpr
    hundisturbed
  refine ⟨report, hrun, (hreports 0 28 _).mpr ⟨⟨_, List.mem_singleton.mpr rfl, ?_⟩, rfl⟩⟩
  refine ⟨Nat.le_refl 0, by decide, ?_, by decide +kernel⟩
  intro j _ hj
  show ¬(28 ≤ 0 + j ∧ 0 + j < 29)
  omega

end Undelete.Carve
