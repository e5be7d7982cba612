import Undelete.Spec.ChunkingCorrect
import Undelete.Spec.FileImageCorrect
import Undelete.Spec.StreamTargets

/-!
# What bad sectors cost a stream

A stream loses the bytes that its reader reports. When the reader answers every request of the
stream with exactly the readable bytes, the stream loses the bad bytes of the source and no
other ones. For an image file this holds when no chunk of the retry holds bytes of both kinds,
so when every request starts at a sector.

## Key results

- `ReadsExactly.exactAnswer`: an exact read is an exact answer to a stream.
- `streamCandidate_loses`: what a stream loses.
- `streamCandidate_image`, `streamCandidate_sectors`: over an image file.
-/

namespace Undelete

open IntervalLike

variable {σ τ : Type}

/-- An exact read reports the bad bytes, and counts the others. -/
theorem ReadsExactly.exactAnswer {byte : Nat → UInt8} {bad : Nat → Bool} {offset n : Nat}
    {out : Bytes} {outcome : ReadOutcome}
    (h : ReadsExactly byte (bad · = true) offset n out outcome) :
    ExactAnswer byte bad offset n (out, outcome) := by
  have hinside : ∀ r ∈ outcome.badRanges, 0 < r.2 ∧ r.1 + r.2 ≤ n := by
    intro r hr
    rw [← h.filled]
    exact h.inside r hr
  have hreported : ∀ i < n, Restore.ReportedBad outcome.badRanges i ↔ bad (offset + i) = true :=
    fun i hi => (h.covers i (by rw [h.filled]; exact hi)).symm
  -- as intervals, the reported ranges are ascending
  have hascending : Ascending (outcome.badRanges.map fun r => (r.1, r.1 + r.2)) 0 n := by
    apply ascending_of_sorted (Nat.zero_le _)
    · rw [List.pairwise_map]
      exact h.sorted.imp fun {r s} hle => by
        show r.1 ≤ s.1
        omega
    · rw [List.pairwise_map]
      exact h.sorted.imp fun {r s} hle => .inl (by simp only [stop, start, len]; omega)
    · intro x hx
      obtain ⟨r, hr, rfl⟩ := List.mem_map.mp hx
      have := hinside r hr
      simp only [stop, start, len]
      omega
  have hcovered : ∀ i, CoveredBy (outcome.badRanges.map fun r => (r.1, r.1 + r.2)) i ↔
      Restore.ReportedBad outcome.badRanges i := by
    intro i
    simp only [CoveredBy, Restore.ReportedBad, List.mem_map, exists_exists_and_eq_and, Covers, stop,
      start, len, Nat.add_sub_cancel_left]
  have htotal : total (outcome.badRanges.map fun r => (r.1, r.1 + r.2)) =
      (outcome.badRanges.map Prod.snd).sum := by
    rw [total, List.map_map]
    congr 1
    apply List.map_congr_left
    intro r _
    exact Nat.add_sub_cancel_left r.1 r.2
  have hcount : (outcome.badRanges.map Prod.snd).sum =
      (List.range n).countP fun i => bad (offset + i) := by
    rw [← htotal, List.range_eq_range', ← Nat.sub_zero n]
    exact hascending.total_eq_countP fun i _ hi => by rw [hcovered, hreported i hi]
  refine ⟨fun i hi => ?_, hinside, ?_, hreported, ?_⟩
  · split
    · next hbad => exact h.zero i hi hbad
    · next hgood => exact h.good i (by rw [h.filled]; exact hi) hgood
  · have hlength := hascending.length_le_total
    have hle := hascending.total_le
    rw [List.length_map] at hlength
    dsimp only
    omega
  · have hsplit := List.length_eq_countP_add_countP (fun i => bad (offset + i))
      (l := List.range n)
    have hvalid := h.bytesValid
    rw [List.length_range, ← hcount] at hsplit
    rw [h.filled] at hvalid
    simp only [Bool.not_eq_true, Bool.decide_eq_false] at hsplit
    dsimp only
    omega

namespace Restore

variable {env : StreamEnv σ} {plan : ContentPlan} {byte : Nat → UInt8} {bad : Nat → Bool}

/-- A plan that passes `preflight` can be streamed unless it must be complete. -/
theorem streamable_of_preflight {sourceLen scratchLen : Nat}
    (h : preflight sourceLen plan scratchLen = .ok ()) (hpolicy : plan.policy ≠ .completeOnly) :
    Streamable plan sourceLen := by
  obtain ⟨htiles, hsize, hinside⟩ := preflight_passed h
  refine ⟨hsize, htiles, fun s hs => ?_, hpolicy⟩
  cases s with
  | read o p n => exact hinside o p n hs
  | zero o n reason => trivial

/-- Where every request is answered exactly, the bad bytes are lost and the others are
    delivered. -/
theorem streamCandidate_loses (sha256 : Bytes → Digest) {scratch : Bytes} {s : σ}
    {outcome : StreamOutcome} {st : StreamState σ}
    (hanswers : env.Answers plan scratch.length byte bad) (hpolicy : plan.policy ≠ .completeOnly)
    (h : streamCandidate env sha256 plan scratch s = .ok (outcome, st))
    {logicalOffset physicalOffset len i : Nat}
    (hmem : .read logicalOffset physicalOffset len ∈ plan.segments) (hi : i < len) :
    (LostAt outcome.zeroFilledRanges (logicalOffset + i) ↔ bad (physicalOffset + i) = true) ∧
      st.output[logicalOffset + i]? =
        some (if bad (physicalOffset + i) then 0 else byte (physicalOffset + i)) := by
  have hpreflight := (streamCandidate_ok h).1
  have hplan := streamable_of_preflight hpreflight hpolicy
  obtain ⟨hranges, hst⟩ :=
    (streamCandidate_attempt sha256 s hanswers hplan hpreflight).1 outcome st h
  have hcovers :
      Covers (ContentSegment.read logicalOffset physicalOffset len) (logicalOffset + i) :=
    ⟨Nat.le_add_right _ _, by show _ < logicalOffset + len; omega⟩
  have hlt : logicalOffset + i < plan.logicalSize :=
    Nat.lt_of_lt_of_le hcovers.2 (hplan.stop_le hmem)
  have hlost := hst.lost _ hlt _ hmem hcovers
  have hbyte := hst.bytes _ hlt _ hmem hcovers
  simp only [ContentSegment.lostAt, ContentSegment.byteAt, Nat.add_sub_cancel_left] at hlost hbyte
  rw [hranges]
  exact ⟨hlost, hbyte⟩

/-- The environment reads the image file `file`. -/
structure StreamEnv.ReadsImage (env : StreamEnv σ) (file : RawFile τ) (reader : FileImageReader) :
    Prop where
  sourceLen_eq : env.sourceLen = reader.len
  read_eq : ∀ s offset buffer, ∃ x, (env.readBestEffortAt s offset buffer).1 =
    ((FileImageReader.readBestEffortAt file reader x offset buffer.length).1,
      (FileImageReader.readBestEffortAt file reader x offset buffer.length).2.1)

/-- A stream from an image file loses the bad bytes only, when no chunk of a request's retry holds
    bytes of both kinds. -/
theorem streamCandidate_image {file : RawFile τ} {reader : FileImageReader}
    (hfile : file.Faulty reader.len byte (bad · = true)) (hreads : env.ReadsImage file reader)
    (sha256 : Bytes → Digest) {scratch : Bytes} {s : σ} {outcome : StreamOutcome}
    {st : StreamState σ} (hpolicy : plan.policy ≠ .completeOnly)
    (hwhole : ∀ offset n, plan.Requests scratch.length offset n → ∀ i < n, ∀ j < n,
      j / reader.sectorLayout.logical.toNat = i / reader.sectorLayout.logical.toNat →
      bad (offset + j) = true → bad (offset + i) = true)
    (h : streamCandidate env sha256 plan scratch s = .ok (outcome, st))
    {logicalOffset physicalOffset len i : Nat}
    (hmem : .read logicalOffset physicalOffset len ∈ plan.segments) (hi : i < len) :
    (LostAt outcome.zeroFilledRanges (logicalOffset + i) ↔ bad (physicalOffset + i) = true) ∧
      st.output[logicalOffset + i]? =
        some (if bad (physicalOffset + i) then 0 else byte (physicalOffset + i)) := by
  refine streamCandidate_loses sha256 (fun s offset buffer hrequest hin => ?_) hpolicy h hmem hi
  obtain ⟨x, hread⟩ := hreads.read_eq s offset buffer
  rw [hread]
  rw [hreads.sourceLen_eq] at hin
  exact ((FileImageReader.readBestEffortAt_exact_iff hfile x hin).mpr
    (hwhole offset buffer.length hrequest)).exactAnswer

/-- Streaming segments that start at sectors through a buffer of whole sectors, the readable bytes
    around a bad sector are delivered. -/
theorem streamCandidate_sectors {file : RawFile τ} {reader : FileImageReader}
    {badSector : Nat → Bool}
    (hfile : file.Faulty reader.len byte
      fun k => badSector (k / reader.sectorLayout.logical.toNat) = true)
    (hreads : env.ReadsImage file reader) (sha256 : Bytes → Digest) {scratch : Bytes} {s : σ}
    {outcome : StreamOutcome} {st : StreamState σ} (hpolicy : plan.policy ≠ .completeOnly)
    (hscratch : scratch.length % reader.sectorLayout.logical.toNat = 0)
    (hstarts : ∀ logicalOffset physicalOffset len,
      .read logicalOffset physicalOffset len ∈ plan.segments →
      physicalOffset % reader.sectorLayout.logical.toNat = 0)
    (h : streamCandidate env sha256 plan scratch s = .ok (outcome, st))
    {logicalOffset physicalOffset len i : Nat}
    (hmem : .read logicalOffset physicalOffset len ∈ plan.segments) (hi : i < len) :
    (LostAt outcome.zeroFilledRanges (logicalOffset + i) ↔
        badSector ((physicalOffset + i) / reader.sectorLayout.logical.toNat) = true) ∧
      st.output[logicalOffset + i]? =
        some (if badSector ((physicalOffset + i) / reader.sectorLayout.logical.toNat) then 0
          else byte (physicalOffset + i)) := by
  refine @streamCandidate_image σ τ env plan byte
    (fun k => badSector (k / reader.sectorLayout.logical.toNat)) file reader hfile hreads sha256
    scratch s outcome st hpolicy (fun offset n hrequest i _ j _ hsame hbad => ?_) h _ _ _ _ hmem hi
  -- every request starts at a sector, so its chunks are those of the image
  obtain ⟨_, p, _, k, hsegment, _, hoffset, _⟩ := hrequest
  have haligned : offset % reader.sectorLayout.logical.toNat = 0 := by
    rw [hoffset, Nat.add_mod, hstarts _ _ _ hsegment, Nat.mul_mod, hscratch, Nat.mul_zero,
      Nat.zero_mod, Nat.zero_mod]
  rw [FileImageReader.sector_eq_of_aligned haligned hsame] at hbad
  exact hbad

end Restore

end Undelete
