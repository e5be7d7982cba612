import Undelete.Spec.JobOrderCorrect
import Undelete.Spec.StreamCorrect

/-!
# Sidecars come first

A file with unavailable ranges is never visible without the list of these ranges: the sidecar that
describes the streamed output is linked into the same directory before the file is.

## Key results

- `describes_of_streams`: the sidecar of a streamed output describes it.
- `jobTrace_sidecarFirst`: it is visible before the output.
-/

namespace Undelete.Restore

open Except EStateM Trace IntervalLike

variable {σ Value : Type} {env : JobEnv σ Value} {root : DestinationRoot} {plan : RestoreJobPlan}
  {past : List (Event Value)} {e : Event Value}

/-! ## Ranges of a sidecar -/

instance : IntervalLike ManifestZeroRange where
  start r := r.logicalOffset
  len r := r.length

theorem coveredBy_map_manifestZeroRange (ranges : List ZeroFilledRange) (i : Nat) :
    CoveredBy (ranges.map manifestZeroRange) i ↔ CoveredBy ranges i := by
  constructor
  · rintro ⟨_, hmem, hcovers⟩
    obtain ⟨range, hrange, rfl⟩ := List.mem_map.mp hmem
    exact ⟨range, hrange, hcovers⟩
  · rintro ⟨range, hrange, hcovers⟩
    exact ⟨_, List.mem_map_of_mem hrange, hcovers⟩

theorem coveredBy_filteredRanges (ranges : List ZeroFilledRange) (reason : ZeroFillReason)
    (i : Nat) :
    CoveredBy (filteredRanges ranges reason) i ↔
      ∃ range ∈ ranges, range.reason = reason ∧ Covers range i := by
  constructor
  · rintro ⟨_, hmem, hcovers⟩
    obtain ⟨range, hrange, rfl⟩ := List.mem_map.mp hmem
    obtain ⟨hrange, hreason⟩ := List.mem_filter.mp hrange
    exact ⟨range, hrange, of_decide_eq_true hreason, hcovers⟩
  · rintro ⟨range, hrange, hreason, hcovers⟩
    exact ⟨_, List.mem_map_of_mem (List.mem_filter.mpr ⟨hrange, decide_eq_true hreason⟩), hcovers⟩

theorem reasonName_eq_sparse {reason : ZeroFillReason} :
    reasonName reason = "sparse" ↔ reason = .sparse := by
  cases reason <;> decide

/-- A sidecar that describes an output: its length, its hash, and for each byte whether it was read;
    what was not read is zero, and is missing, in use by another file, or unreadable. -/
structure Describes (sha256 : Bytes → Digest) (sidecar : PartialSidecar) (output : Bytes) :
    Prop where
  logicalSize : sidecar.logicalSize = output.length
  outputSha256 : sidecar.outputSha256 = hexDigest (sha256 output)
  partition : ∀ i, i < output.length ↔
    CoveredBy sidecar.readableRanges i ∨ CoveredBy sidecar.zeroFilledRanges i
  apart : ∀ i, ¬(CoveredBy sidecar.readableRanges i ∧ CoveredBy sidecar.zeroFilledRanges i)
  zeros : ∀ i, CoveredBy sidecar.zeroFilledRanges i → output[i]? = some 0
  reasons : ∀ i, CoveredBy sidecar.zeroFilledRanges i ↔
    CoveredBy sidecar.zeroFilledMissingRanges i ∨ CoveredBy sidecar.conflictRanges i ∨
      CoveredBy sidecar.sourceReadErrors i
  lossy : ∃ range ∈ sidecar.zeroFilledRanges, range.reason ≠ "sparse"

/-! ## Streamed outputs -/

/-- What a streaming that succeeds leaves. -/
theorem streamed_of_streams {file : File} {content : ContentPlan} {outcome : StreamOutcome}
    {output : Bytes} (h : env.Streams file content (.ok (outcome, output))) :
    output.length = content.logicalSize ∧ content.logicalSize < 2 ^ 64 ∧
      outcome.sha256 = env.sha256 output ∧ EvidenceOk outcome.zeroFilledRanges content.logicalSize ∧
      (∀ i, CoveredBy outcome.zeroFilledRanges i → output[i]? = some 0) ∧
      (outcome.requiresBestEffort = true ↔ LossyEvidence outcome.zeroFilledRanges) := by
  obtain ⟨s, h⟩ := h
  obtain ⟨⟨outcome', st⟩, hrun, heq⟩ := map_eq_ok.mp h
  obtain ⟨rfl, rfl⟩ := Prod.mk.inj heq
  obtain ⟨_, _, rfl⟩ := streamCandidate_ok hrun
  obtain ⟨hsize, hinv, hflag⟩ := streamCandidate_streamed hrun
  refine ⟨hinv.output_length, hsize, congrArg env.sha256 hinv.hashed_eq, hinv.evidence, ?_, hflag⟩
  intro i hi
  apply hinv.zero_filled i _ hi
  rw [hinv.output_length]
  exact (hinv.evidence.ascending.lt_of_coveredBy hi).2

/-- The sidecar of a streamed output describes it; an output whose zeros are all sparse has none. -/
theorem describes_of_streams {file : File} {content : ContentPlan} {outcome : StreamOutcome}
    {output : Bytes} {itemKey : String} {warnings : List String} {record : PartialSidecar}
    (h : env.Streams file content (.ok (outcome, output)))
    (hrecord : partialSidecar itemKey content.candidateId content.logicalSize outcome
      content.expectedSha256 warnings = some record) :
    record.itemKey = itemKey ∧ Describes env.sha256 record output := by
  obtain ⟨hlength, hsize, hsha256, hevidence, hzeros, hlossy⟩ := streamed_of_streams h
  unfold partialSidecar at hrecord
  split at hrecord
  · cases hrecord
  next hneeds =>
  cases hrecord
  rw [Bool.not_eq_true, Bool.not_eq_false'] at hneeds
  have hcovered := readableRanges_coveredBy hsize hevidence.ascending
  refine ⟨rfl, ?_, ?_, ?_, ?_, ?_, ?_, ?_⟩
  · exact hlength.symm
  · exact congrArg hexDigest hsha256
  · intro i
    dsimp only
    rw [coveredBy_map_manifestZeroRange, hcovered, hlength]
    constructor
    · intro hi
      by_cases hzero : CoveredBy outcome.zeroFilledRanges i
      · exact .inr hzero
      · exact .inl ⟨hi, hzero⟩
    · intro h
      rcases h with ⟨hi, _⟩ | hzero
      · exact hi
      · exact (hevidence.ascending.lt_of_coveredBy hzero).2
  · intro i hboth
    dsimp only at hboth
    rw [coveredBy_map_manifestZeroRange, hcovered] at hboth
    exact hboth.1.2 hboth.2
  · intro i hi
    dsimp only at hi
    rw [coveredBy_map_manifestZeroRange] at hi
    exact hzeros i hi
  · intro i
    dsimp only
    rw [coveredBy_map_manifestZeroRange, coveredBy_map_manifestZeroRange, coveredBy_filteredRanges,
      coveredBy_filteredRanges]
    constructor
    · intro h
      obtain ⟨range, hrange, hcovers⟩ := h
      by_cases hconflict : range.reason = .currentlyAllocated
      · exact .inr (.inl ⟨range, hrange, hconflict, hcovers⟩)
      by_cases herror : range.reason = .previouslyReadFailed
      · exact .inr (.inr ⟨range, hrange, herror, hcovers⟩)
      · refine .inl ⟨range, List.mem_filter.mpr ⟨hrange, ?_⟩, hcovers⟩
        rw [Bool.and_eq_true, decide_eq_true_eq, decide_eq_true_eq]
        exact ⟨hconflict, herror⟩
    · intro h
      rcases h with ⟨range, hrange, hcovers⟩ | ⟨range, hrange, _, hcovers⟩ |
        ⟨range, hrange, _, hcovers⟩
      · exact ⟨range, (List.mem_filter.mp hrange).1, hcovers⟩
      · exact ⟨range, hrange, hcovers⟩
      · exact ⟨range, hrange, hcovers⟩
  · obtain ⟨range, hrange, hreason⟩ := hlossy.mp hneeds
    refine ⟨manifestZeroRange range, List.mem_map_of_mem hrange, ?_⟩
    intro hsparse
    exact hreason (reasonName_eq_sparse.mp hsparse)

/-! ## The order of the links -/

/-- The content of a file item was streamed into the temporary file, which is synced. -/
def OutputOf (env : JobEnv σ Value) (past : List (Event Value)) (dir : Dir) (content : ContentPlan)
    (temporary : PreparedFile) (output : Bytes) : Prop :=
  env.Streams temporary.file content (.ok (temporary.outcome, output)) ∧
    [.call (.createNew dir temporary.name) (.ok temporary.file),
      .streamed temporary.file content (.ok (temporary.outcome, output)),
      .call (.flush temporary.file) (.ok ()),
      .call (.syncAll temporary.file) (.ok ())].Sublist past

/-- The sidecar that describes the output is written and synced. -/
def SidecarOf (env : JobEnv σ Value) (past : List (Event Value)) (dir : Dir) (itemKey : String)
    (output : Bytes) (sidecar : PreparedFile) : Prop :=
  ∃ record bytes, record.itemKey = itemKey ∧ Describes env.sha256 record output ∧
    env.json.sidecarToVec record = .ok bytes ∧ FileWritten past dir bytes sidecar ∧
    sidecar.outcome.sha256 = env.sha256 bytes

/-- A link of a file of the plan, whose output is `output`. -/
def LinksOutput (env : JobEnv σ Value) (plan : RestoreJobPlan) (past : List (Event Value))
    (dir : Dir) (itemKey : String) (temporary : PreparedFile) (output : Bytes) : Prop :=
  ∃ i item content, plan.items[i]? = some item ∧ item.item = .file content ∧
    itemKey = restoreItemKey i item.candidateId ∧ OutputOf env past dir content temporary output

/-- A data name becomes visible only behind the sidecar of its output, where this has unavailable
    ranges; a sidecar becomes visible only for such an output. -/
def SidecarFirst (env : JobEnv σ Value) (plan : RestoreJobPlan) (past : List (Event Value)) :
    Event Value → Prop
  | .call (.hardLink dir temporaryName _ .data) _ => ∃ itemKey temporary output,
    temporary.name = temporaryName ∧ LinksOutput env plan past dir itemKey temporary output ∧
    Rebound past dir temporary ∧
    (LossyEvidence temporary.outcome.zeroFilledRanges → ∃ sidecar name,
      SidecarOf env past dir itemKey output sidecar ∧
      linkEvent dir sidecar name .partialSidecar ∈ past)
  | .call (.hardLink dir temporaryName _ .partialSidecar) _ => ∃ itemKey temporary output sidecar,
    sidecar.name = temporaryName ∧ LinksOutput env plan past dir itemKey temporary output ∧
    Rebound past dir sidecar ∧ LossyEvidence temporary.outcome.zeroFilledRanges ∧
    SidecarOf env past dir itemKey output sidecar
  | _ => True

/-- The streamings of a trace are those of `stream_candidate`. -/
theorem streams_of_mem (hpast : Guarded (JobStep env root plan) [] past) {file : File}
    {content : ContentPlan} {result : Except RestoreError (StreamOutcome × Bytes)}
    (h : .streamed file content result ∈ past) : env.Streams file content result := by
  obtain ⟨before, hstep⟩ := hpast.allowed h
  cases hstep with
  | temporary hjobDir hhealthy h =>
    cases h with
    | streamed h => exact h
  | item hjobDir hitem h =>
    cases h with
    | streamed h => exact h

theorem linksOutput_of_readied (hpast : Guarded (JobStep env root plan) [] past)
    {jobDir parent : Dir} {item : FileRestorePlan} {i : Nat} {content : ContentPlan}
    {temporary : PreparedFile} {sidecarTemp : Option PreparedFile}
    (hitem : plan.items[i]? = some item)
    (h : Readied env (siteOf jobDir item i) content parent temporary sidecarTemp past) :
    ∃ output,
      LinksOutput env plan past parent (restoreItemKey i item.candidateId) temporary output ∧
      env.Streams temporary.file content (.ok (temporary.outcome, output)) := by
  obtain ⟨output, hevents⟩ := h.streamed
  have hstreams := streams_of_mem hpast
    (hevents.subset (List.mem_cons_of_mem _ List.mem_cons_self))
  exact ⟨output, ⟨i, item, content, hitem, h.kind, rfl, ⟨hstreams, hevents⟩⟩, hstreams⟩

/-- The sidecar that is ready for an output with unavailable ranges. -/
theorem sidecarOf_of_ready {jobDir parent : Dir} {item : FileRestorePlan} {i : Nat}
    {content : ContentPlan} {temporary sidecar : PreparedFile} {output : Bytes}
    (hstreams : env.Streams temporary.file content (.ok (temporary.outcome, output)))
    (h : SidecarReady env (siteOf jobDir item i) content parent temporary.outcome (some sidecar)
      past) :
    LossyEvidence temporary.outcome.zeroFilledRanges ∧
      SidecarOf env past parent (restoreItemKey i item.candidateId) output sidecar := by
  rcases h with ⟨_, hnone⟩ | ⟨record, bytes, prepared, hrecord, hbytes, hprepared, hwritten,
    hsha256⟩
  · cases hnone
  · cases hprepared
    obtain ⟨hkey, hdescribes⟩ := describes_of_streams hstreams hrecord
    refine ⟨?_, record, bytes, hkey, hdescribes, hbytes, hwritten, hsha256⟩
    apply (streamed_of_streams hstreams).2.2.2.2.2.mp
    unfold partialSidecar at hrecord
    split at hrecord
    · cases hrecord
    · next hneeds =>
      rwa [Bool.not_eq_true, Bool.not_eq_false'] at hneeds

/-- An output that needs no sidecar has no unavailable range. -/
theorem not_lossy_of_ready {site : Site} {parent : Dir} {content : ContentPlan}
    {temporary : PreparedFile} {output : Bytes}
    (hstreams : env.Streams temporary.file content (.ok (temporary.outcome, output)))
    (h : SidecarReady env site content parent temporary.outcome none past) :
    ¬LossyEvidence temporary.outcome.zeroFilledRanges := by
  rcases h with ⟨hrecord, _⟩ | ⟨record, bytes, prepared, _, _, hprepared, _⟩
  · intro hlossy
    unfold partialSidecar at hrecord
    rw [(streamed_of_streams hstreams).2.2.2.2.2.mpr hlossy] at hrecord
    cases hrecord
  · cases hprepared

/-- In every run of a job, wherever it is cut off and whatever its calls answer: when the data
    file of an item becomes visible, its bytes are those that were streamed for the item, they are
    synced, and if some of them are unavailable then the sidecar that describes exactly these
    bytes is visible in the same directory before; and a sidecar becomes visible only for such a
    file. -/
theorem jobTrace_sidecarFirst (env : JobEnv σ Value) (root : DestinationRoot)
    (plan : RestoreJobPlan) (s₀ : σ) :
    Guarded (SidecarFirst env plan) [] (env.jobTrace root plan s₀) := by
  have hhandle : ∀ {past} {call : Call Value} (answer : call.Answer), call.isHandle = true →
      SidecarFirst env plan past (.call call answer) := by
    intro past call answer h
    cases call with
    | hardLink dir temporaryName finalName boundary => cases h
    | _ => exact trivial
  apply (jobTrace_guarded env root plan s₀).imp
  intro past e hpast h
  cases h with
  | @temporary jobDir e hjobDir hhealthy h =>
    cases h with
    | handle answer h => exact hhandle answer h
    | _ => exact trivial
  | @item jobDir i item e hjobDir hitem h =>
    cases h with
    | handle answer h => exact hhandle answer h
    | @linkedSidecar content parent temporary sidecar collisionIndex answer hhealthy hannounced
        hrebound =>
      obtain ⟨output, hlinks, hstreams⟩ := linksOutput_of_readied hpast hitem hannounced.toReadied
      obtain ⟨hlossy, hsidecar⟩ := sidecarOf_of_ready hstreams hannounced.sidecar
      exact ⟨_, temporary, output, sidecar, rfl, hlinks, hrebound, hlossy, hsidecar⟩
    | @linkedData content parent temporary sidecarTemp evidence durability collisionIndex answer
        hhealthy hannounced hvisible hrebound =>
      obtain ⟨output, hlinks, hstreams⟩ := linksOutput_of_readied hpast hitem hannounced.toReadied
      refine ⟨_, temporary, output, rfl, hlinks, hrebound, fun hlossy => ?_⟩
      have hready := hannounced.sidecar
      rcases hvisible with ⟨hnone, _⟩ | ⟨sidecar, name, hsome, _, hlinked⟩
      · rw [hnone] at hready
        exact absurd hlossy (not_lossy_of_ready hstreams hready)
      · rw [hsome] at hready
        exact ⟨sidecar, name.name, (sidecarOf_of_ready hstreams hready).2,
          hlinked.linked.subset List.mem_cons_self⟩
    | _ => exact trivial
  | linked answer => exact trivial
  | _ => exact trivial

end Undelete.Restore
