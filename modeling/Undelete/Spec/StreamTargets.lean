import Undelete.Native.Source
import Undelete.Spec.ExtractCorrect

/-!
# The two extraction engines agree

Streaming a plan and extracting a candidate directly give the same bytes, and the same
evidence of loss, on a source with a fixed set of bad bytes. Streaming has limits of its own;
with a writer that takes what it is given it fails for no other reason.

`Attempt` carries both halves through a run: what a success means, and which errors a willing
environment leaves.

## Key results

- `readChunk_attempt`, `streamRead_attempt`, `streamZero_attempt`: one segment.
- `streamCandidate_attempt`: a whole stream.
- `extractCandidate_eq_stream`: the two engines agree.
-/

namespace Undelete.Restore

open Except IntervalLike

/-! ## Environments -/

variable {σ : Type} {env : StreamEnv σ} {plan : ContentPlan} {byte : Nat → UInt8}
  {bad : Nat → Bool}

/-- The environment reads from `reader`. -/
structure StreamEnv.Reads (env : StreamEnv σ) (reader : SourceReader) : Prop where
  sourceLen_eq : env.sourceLen = reader.len
  read_eq : ∀ s offset buffer,
    (env.readBestEffortAt s offset buffer).1 = reader.readBestEffortAt offset buffer

/-- Nobody cancels, and the writer takes at least one byte of what it is given. -/
structure StreamEnv.Willing (env : StreamEnv σ) : Prop where
  never_cancelled : ∀ s, (env.isCancelled s).1 = false
  writes : ∀ s bytes, bytes ≠ [] →
    ∃ written s', env.write s bytes = (.ok written, s') ∧ 0 < written ∧ written ≤ bytes.length

/-- The requests of a stream of `plan` through a buffer of `scratchLen` bytes: each read segment,
    in pieces of the length of the buffer. -/
def ContentPlan.Requests (plan : ContentPlan) (scratchLen offset n : Nat) : Prop :=
  ∃ logicalOffset physicalOffset len k, .read logicalOffset physicalOffset len ∈ plan.segments ∧
    k * scratchLen < len ∧ offset = physicalOffset + k * scratchLen ∧
    n = min (len - k * scratchLen) scratchLen

/-- The source answers the requests of a stream of `plan` exactly. -/
def StreamEnv.Answers (env : StreamEnv σ) (plan : ContentPlan) (scratchLen : Nat)
    (byte : Nat → UInt8) (bad : Nat → Bool) : Prop :=
  ∀ s offset buffer, plan.Requests scratchLen offset buffer.length →
    offset + buffer.length ≤ env.sourceLen →
    ExactAnswer byte bad offset buffer.length (env.readBestEffortAt s offset buffer).1

theorem StreamEnv.Reads.answers {reader : SourceReader} (hreads : env.Reads reader)
    (hexact : reader.Exact byte bad) (plan : ContentPlan) (scratchLen : Nat) :
    env.Answers plan scratchLen byte bad := by
  intro s offset buffer _ hin
  rw [hreads.read_eq]
  exact hexact offset buffer (hreads.sourceLen_eq ▸ hin)

/-- A success has `P`; an environment that is `willing` leaves only the limit on zero-filled
    ranges to fail at. -/
structure Attempt {α : Type} (willing : Prop) (x : Except RestoreError α) (P : α → Prop) :
    Prop where
  ok : ∀ a, x = .ok a → P a
  error : willing → ∀ e, x = .error e → e = .zeroFillRangeLimitExceeded maxZeroFilledRanges

section Attempt

variable {α β : Type} {willing : Prop} {x : Except RestoreError α} {P Q : α → Prop}

theorem Attempt.bind {f : α → Except RestoreError β} {R : β → Prop} (hx : Attempt willing x P)
    (hf : ∀ a, P a → Attempt willing (f a) R) : Attempt willing (x >>= f) R where
  ok b h := by
    obtain ⟨a, ha, hb⟩ := bind_eq_ok.mp h
    exact (hf a (hx.ok a ha)).ok b hb
  error hw e h := by
    rcases bind_eq_error.mp h with h | ⟨a, ha, h⟩
    · exact hx.error hw e h
    · exact (hf a (hx.ok a ha)).error hw e h

theorem Attempt.pure {a : α} (h : P a) : Attempt willing (.ok a) P where
  ok b hb := by
    cases hb
    exact h
  error _ e he := by cases he

theorem Attempt.mono (hx : Attempt willing x P) (h : ∀ a, P a → Q a) : Attempt willing x Q where
  ok a ha := h a (hx.ok a ha)
  error := hx.error

end Attempt

/-! ## Evidence of loss -/

/-- Byte `i` was filled with zeros for a reason other than sparseness. -/
def LostAt (ranges : List ZeroFilledRange) (i : Nat) : Prop :=
  ∃ r ∈ ranges, r.reason ≠ .sparse ∧ Covers r i

theorem appendZeroRange_lostAt {ranges ranges' : List ZeroFilledRange} {next : ZeroFilledRange}
    (h : appendZeroRange ranges next = .ok ranges') (i : Nat) :
    LostAt ranges' i ↔ LostAt ranges i ∨ next.reason ≠ .sparse ∧ Covers next i := by
  rcases appendZeroRange_cases h with ⟨init, last, rfl, hjoin, hreason, rfl⟩ | ⟨_, rfl⟩
  · have hjoin : last.logicalOffset + last.len = next.logicalOffset := hjoin
    simp only [LostAt, List.mem_append, List.mem_singleton, or_and_right, exists_or,
      exists_eq_left, or_assoc]
    apply or_congr_right
    rw [hreason, ← and_or_left]
    apply and_congr_right
    intro _
    simp only [Covers, stop, start, len]
    omega
  · simp only [LostAt, List.mem_append, List.mem_singleton, or_and_right, exists_or,
      exists_eq_left]

theorem appendZeroRange_attempt (ranges : List ZeroFilledRange) (next : ZeroFilledRange)
    (willing : Prop) :
    Attempt willing (appendZeroRange ranges next) fun ranges' =>
      appendZeroRange ranges next = .ok ranges' where
  ok _ h := h
  error _ e h := by
    simp only [appendZeroRange] at h
    split at h
    · cases h
    · split at h
      · cases h
        rfl
      · cases h

theorem fillBadRanges_lostAt {chunkLogical a finish : Nat} {badRanges : List (Nat × Nat)}
    {st st' : StreamState σ} (h : fillBadRanges chunkLogical badRanges st = .ok st')
    (hascending : Ascending badRanges a finish) (i : Nat) :
    LostAt st'.zeroFilledRanges i ↔ LostAt st.zeroFilledRanges i ∨
      chunkLogical ≤ i ∧ CoveredBy badRanges (i - chunkLogical) := by
  induction badRanges generalizing a st with
  | nil =>
    cases h
    simp
  | cons range ranges ih =>
    obtain ⟨badStart, badEnd⟩ := range
    obtain ⟨_, hlen, hrest⟩ := hascending
    simp only [fillBadRanges, bind_eq_ok] at h
    obtain ⟨evidence, happend, hfill⟩ := h
    rw [ih hfill hrest, appendZeroRange_lostAt happend, coveredBy_cons, and_or_left, or_assoc]
    apply or_congr_right
    apply or_congr_left
    simp only [len] at hlen
    simp only [Covers, stop, start, len, ne_eq, reduceCtorEq, not_false_eq_true, true_and]
    omega

theorem fillBadRanges_attempt {chunkLogical : Nat} {badRanges : List (Nat × Nat)}
    {st : StreamState σ} (willing : Prop) :
    Attempt willing (fillBadRanges chunkLogical badRanges st) fun st' =>
      fillBadRanges chunkLogical badRanges st = .ok st' where
  ok _ h := h
  error hw e h := by
    induction badRanges generalizing st with
    | nil => cases h
    | cons range ranges ih =>
      rw [fillBadRanges, bind_eq_error] at h
      rcases h with h | ⟨evidence, _, h⟩
      · exact (appendZeroRange_attempt _ _ willing).error hw e h
      · exact ih h

/-! ## Writing -/

theorem checkCancel_attempt (st : StreamState σ) :
    Attempt env.Willing (checkCancel env st) (Wrote [] st) where
  ok _ h := checkCancel_wrote h
  error hw e h := by
    simp only [checkCancel, hw.never_cancelled st.env, Bool.false_eq_true, if_false] at h
    cases h

theorem writeCommittedFrom_attempt {logicalSize fuel : Nat} {bytes : Bytes} {st : StreamState σ}
    (hfuel : bytes.length ≤ fuel) (hfits : st.bytesWritten + bytes.length < 2 ^ 64) :
    Attempt env.Willing (writeCommittedFrom env logicalSize fuel bytes st) (Wrote bytes st) where
  ok _ h := writeCommittedFrom_wrote h hfuel
  error hw e h := by
    -- on the fuel; each round that goes on has written a byte
    induction fuel generalizing bytes st with
    | zero => cases h
    | succ fuel ih =>
      rw [writeCommittedFrom] at h
      split at h
      · cases h
      · next hne =>
        have hne : bytes ≠ [] := by simpa using hne
        -- the round fails in the poll, the write, the commit or the rest
        simp only [bind_eq_error, Prod.exists] at h
        rcases h with h | ⟨st₁, hcancel, h | ⟨written, st₂, hwrite, h | ⟨st₃, hcommit, h⟩⟩⟩
        · exact (checkCancel_attempt st).error hw e h
        · obtain ⟨written, s', hwrite, hpos, hle⟩ := hw.writes st₁.env bytes hne
          simp only [writeOnce, hwrite] at h
          split at h
          · next hzero => cases hzero; omega
          · next hok => cases hok; rw [if_pos hle] at h; cases h
          · next herror => cases herror
        · obtain ⟨_, hle, hwrote⟩ := writeOnce_wrote hwrite
          have hpolled := (checkCancel_wrote hcancel).bytesWritten
          have hsent := hwrote.bytesWritten
          simp only [List.length_nil, Nat.add_zero] at hpolled hsent
          have hadd : U64.checkedAdd st₂.bytesWritten (bytes.take written).length =
              some (st₂.bytesWritten + (bytes.take written).length) :=
            U64.checkedAdd_of_lt (by rw [List.length_take]; omega)
          simp only [commit, hadd, okOr, bind_ok] at h
          cases h
        · obtain ⟨hpos, hle, hwrote⟩ := writeOnce_wrote hwrite
          have hall := ((checkCancel_wrote hcancel).trans hwrote).trans (commit_wrote hcommit)
          have hwritten := hall.bytesWritten
          simp only [List.nil_append, List.length_take] at hwritten
          exact ih (by rw [List.length_drop]; omega) (by rw [List.length_drop]; omega) h

theorem writeCommitted_attempt {logicalSize : Nat} {bytes : Bytes} {st : StreamState σ}
    (hfits : st.bytesWritten + bytes.length < 2 ^ 64) :
    Attempt env.Willing (writeCommitted env logicalSize bytes st) (Wrote bytes st) :=
  writeCommittedFrom_attempt (Nat.le_refl _) hfits

/-! ## The invariant -/

/-- Byte `i` of the file, as a segment that covers it delivers it. -/
def ContentSegment.byteAt (byte : Nat → UInt8) (bad : Nat → Bool) (s : ContentSegment)
    (i : Nat) : UInt8 :=
  match s with
  | .read logicalOffset physicalOffset _ =>
    if bad (physicalOffset + (i - logicalOffset)) then 0
    else byte (physicalOffset + (i - logicalOffset))
  | .zero .. => 0

/-- Byte `i` is lost: its source byte is bad, or it is no byte of the source and not sparse. -/
def ContentSegment.lostAt (bad : Nat → Bool) (s : ContentSegment) (i : Nat) : Bool :=
  match s with
  | .read logicalOffset physicalOffset _ => bad (physicalOffset + (i - logicalOffset))
  | .zero _ _ reason => reason ≠ .sparse

/-- The state with the bytes before `offset` written and the evidence complete up to `limit`. -/
structure StreamedExact (byte : Nat → UInt8) (bad : Nat → Bool) (plan : ContentPlan)
    (scratchLen limit offset : Nat) (st : StreamState σ) : Prop where
  scratch_length : st.scratch.length = scratchLen
  bytesWritten_eq : st.bytesWritten = offset
  output_length : st.output.length = offset
  evidence : EvidenceOk st.zeroFilledRanges limit
  bytes : ∀ i < offset, ∀ s ∈ plan.segments, Covers s i →
    st.output[i]? = some (s.byteAt byte bad i)
  lost : ∀ i < limit, ∀ s ∈ plan.segments, Covers s i →
    (LostAt st.zeroFilledRanges i ↔ s.lostAt bad i = true)

/-- A plan that streaming accepts: its segments tile a file of machine size, read inside the
    source, and may be filled with zeros. -/
structure Streamable (plan : ContentPlan) (sourceLen : Nat) : Prop where
  size_lt : plan.logicalSize < 2 ^ 64
  tiles : Tiles plan.segments 0 plan.logicalSize
  inside : ∀ s ∈ plan.segments, s.ReadsInside sourceLen
  policy : plan.policy ≠ .completeOnly

variable {reader : SourceReader} {scratchLen : Nat} {st st' : StreamState σ}

theorem Streamable.unique {sourceLen i : Nat} (h : Streamable plan sourceLen)
    {s t : ContentSegment} (hs : s ∈ plan.segments) (ht : t ∈ plan.segments) (hsi : Covers s i)
    (hti : Covers t i) : s = t := by
  by_cases hne : s = t
  · exact hne
  · have hapart : plan.segments.Pairwise Apart := h.tiles.ascending.pairwise.imp fun hle => .inl hle
    have hsymm : Std.Symm (Apart (α := ContentSegment)) := ⟨fun x y hxy => hxy.symm⟩
    have := hapart.forall hs ht hne
    simp only [Covers, Apart] at hsi hti this
    omega

theorem Streamable.stop_le {sourceLen : Nat} (h : Streamable plan sourceLen) {s : ContentSegment}
    (hs : s ∈ plan.segments) : stop s ≤ plan.logicalSize :=
  (h.tiles.ascending.bounds hs).2.2

/-- Writing the bytes of a segment that are next. -/
theorem StreamedExact.write {sourceLen limit offset : Nat} {bytes : Bytes} {s : ContentSegment}
    (hplan : Streamable plan sourceLen)
    (h : StreamedExact byte bad plan scratchLen limit offset st) (hwrote : Wrote bytes st st')
    (hs : s ∈ plan.segments) (hlo : start s ≤ offset) (hhi : offset + bytes.length ≤ stop s)
    (hbytes : ∀ j < bytes.length, bytes[j]? = some (s.byteAt byte bad (offset + j))) :
    StreamedExact byte bad plan scratchLen limit (offset + bytes.length) st' where
  scratch_length := hwrote.scratch.symm ▸ h.scratch_length
  bytesWritten_eq := by rw [hwrote.bytesWritten, h.bytesWritten_eq]
  output_length := by rw [hwrote.output, List.length_append, h.output_length]
  evidence := by
    rw [hwrote.zeroFilledRanges]
    exact h.evidence
  bytes i hi t ht hcovers := by
    rw [hwrote.output]
    by_cases hold : i < offset
    · rw [List.getElem?_append_left (by rw [h.output_length]; exact hold)]
      exact h.bytes i hold t ht hcovers
    · obtain rfl := hplan.unique hs ht ⟨by omega, by omega⟩ hcovers
      rw [List.getElem?_append_right (by rw [h.output_length]; omega), h.output_length,
        hbytes (i - offset) (by omega), Nat.add_sub_cancel' (by omega)]
  lost := by
    rw [hwrote.zeroFilledRanges]
    exact h.lost

/-- A step that writes nothing. -/
theorem StreamedExact.poll {limit offset : Nat}
    (h : StreamedExact byte bad plan scratchLen limit offset st) (hwrote : Wrote [] st st') :
    StreamedExact byte bad plan scratchLen limit offset st' where
  scratch_length := hwrote.scratch.symm ▸ h.scratch_length
  bytesWritten_eq := by rw [hwrote.bytesWritten, h.bytesWritten_eq]; rfl
  output_length := by rw [hwrote.output, List.append_nil, h.output_length]
  evidence := by
    rw [hwrote.zeroFilledRanges]
    exact h.evidence
  bytes := by
    rw [hwrote.output, List.append_nil]
    exact h.bytes
  lost := by
    rw [hwrote.zeroFilledRanges]
    exact h.lost

/-! ## Segments -/

/-- The evidence of a chunk whose bad bytes are `ranges`. -/
theorem recordBadRanges_attempt {chunkLogical chunkLen : Nat} {ranges : List (Nat × Nat)}
    (willing : Prop) (hpolicy : plan.policy ≠ .completeOnly)
    (hascending : Ascending ranges 0 chunkLen) :
    Attempt willing (recordBadRanges plan chunkLogical ranges st) fun st' =>
      recordBadRanges plan chunkLogical ranges st = .ok st' ∧
      ∀ i, LostAt st'.zeroFilledRanges i ↔ LostAt st.zeroFilledRanges i ∨
        chunkLogical ≤ i ∧ CoveredBy ranges (i - chunkLogical) where
  ok st' h := by
    refine ⟨h, fun i => ?_⟩
    cases ranges with
    | nil =>
      cases h
      simp
    | cons range ranges =>
      simp only [recordBadRanges, bind_eq_ok, throw_bind, ite_throw_eq_ok, pure_eq_ok] at h
      obtain ⟨_, st₁, hfill, rfl⟩ := h
      exact fillBadRanges_lostAt hfill hascending i
  error hw e h := by
    cases ranges with
    | nil => cases h
    | cons range ranges =>
      simp only [recordBadRanges, throw_bind, if_neg hpolicy] at h
      rcases bind_eq_error.mp h with h | ⟨st₁, _, h⟩
      · exact (fillBadRanges_attempt willing).error hw e h
      · cases h

/-- One chunk of a read segment. -/
theorem readChunk_attempt {logicalOffset physicalOffset len position chunkLen : Nat}
    (hanswers : env.Answers plan scratchLen byte bad) (hplan : Streamable plan env.sourceLen)
    (hmem : .read logicalOffset physicalOffset len ∈ plan.segments)
    (hle : position + chunkLen ≤ len) (hchunk : chunkLen ≤ scratchLen)
    (hrequest : plan.Requests scratchLen (physicalOffset + position) chunkLen)
    (hinv : StreamedExact byte bad plan scratchLen (logicalOffset + position)
      (logicalOffset + position) st) :
    Attempt env.Willing
      (readChunk env plan (logicalOffset + position) (physicalOffset + position) chunkLen st)
      (StreamedExact byte bad plan scratchLen (logicalOffset + position + chunkLen)
        (logicalOffset + position + chunkLen)) := by
  have hstop : logicalOffset + len ≤ plan.logicalSize := hplan.stop_le hmem
  have hsize := hplan.size_lt
  have hinside : physicalOffset + len ≤ env.sourceLen := hplan.inside _ hmem
  have htake : (st.scratch.take chunkLen).length = chunkLen := by
    rw [List.length_take, hinv.scratch_length]
    omega
  have hanswer := hanswers st.env (physicalOffset + position) (st.scratch.take chunkLen)
    (htake.symm ▸ hrequest) (by omega)
  have hlength := env.length_readBestEffortAt st.env (physicalOffset + position)
    (st.scratch.take chunkLen)
  rw [htake] at hanswer hlength
  rw [readChunk]
  generalize env.readBestEffortAt st.env (physicalOffset + position) (st.scratch.take chunkLen)
    = answer at hanswer hlength ⊢
  obtain ⟨ranges, hnormalize, hascending, hbad⟩ :=
    normalizeBadRanges_reports hanswer.reports (by omega)
  simp only [hnormalize, bind_ok]
  have hread : StreamedExact byte bad plan scratchLen (logicalOffset + position)
      (logicalOffset + position)
      { st with env := answer.2, scratch := answer.1.1 ++ st.scratch.drop chunkLen } :=
    { hinv with
      scratch_length := by
        have := hinv.scratch_length
        simp only [List.length_append, List.length_drop, hlength]
        omega }
  refine (recordBadRanges_attempt env.Willing hplan.policy hascending).bind fun st₁ hst₁ => ?_
  obtain ⟨hrecord, hlost⟩ := hst₁
  obtain ⟨hfilled, _, _⟩ := recordBadRanges_ok hrecord hascending
    (by rw [hread.scratch_length]; exact hchunk) hread.evidence
  have houtput : st₁.output.length = logicalOffset + position := by
    rw [hfilled.output]
    exact hinv.output_length
  -- the evidence now reaches to the end of the chunk
  have hrecorded : StreamedExact byte bad plan scratchLen (logicalOffset + position + chunkLen)
      (logicalOffset + position) st₁ := by
    refine ⟨hfilled.scratch_length.trans hread.scratch_length,
      hfilled.bytesWritten.trans hread.bytesWritten_eq, houtput, hfilled.evidence, ?_, ?_⟩
    · rw [hfilled.output]
      exact hread.bytes
    · intro i hi s hs hcovers
      rw [hlost]
      by_cases hold : i < logicalOffset + position
      · rw [← hinv.lost i hold s hs hcovers]
        exact ⟨fun h => h.elim id fun h => absurd h.1 (by omega), .inl⟩
      · obtain rfl := hplan.unique hmem hs
          (show Covers (ContentSegment.read logicalOffset physicalOffset len) i from
            ⟨by show logicalOffset ≤ i; omega, by show i < logicalOffset + len; omega⟩) hcovers
        have hnone : ¬LostAt st.zeroFilledRanges i := by
          rintro ⟨r, hr, _, hri⟩
          exact hold (hinv.evidence.ascending.lt_of_coveredBy ⟨r, hr, hri⟩).2
        have hshift : physicalOffset + position + (i - (logicalOffset + position)) =
            physicalOffset + (i - logicalOffset) := by omega
        rw [hbad _ (by omega), hshift]
        exact ⟨fun h => h.elim (fun h => absurd h hnone) And.right, fun h => .inr ⟨by omega, h⟩⟩
  have hbytes : (st₁.scratch.take chunkLen).length = chunkLen := by
    rw [List.length_take, hrecorded.scratch_length]
    omega
  have hwritten := hrecorded.bytesWritten_eq
  refine (writeCommitted_attempt (by omega)).mono fun st₂ hwrote => ?_
  have hnext := hrecorded.write hplan hwrote hmem (Nat.le_add_right _ _)
    (show logicalOffset + position + _ ≤ logicalOffset + len by omega) ?_
  · rwa [hbytes] at hnext
  · intro j hj
    rw [hbytes] at hj
    have hshift : physicalOffset + (logicalOffset + position + j - logicalOffset) =
        physicalOffset + position + j := by omega
    rw [List.getElem?_take_of_lt hj, ContentSegment.byteAt, hshift]
    obtain ⟨hzero, hkeep⟩ := hfilled.scratch j
    by_cases hcovered : CoveredBy ranges j
    · rw [hzero hcovered, if_pos ((hbad j hj).mp hcovered)]
    · rw [hkeep hcovered, if_neg (mt (hbad j hj).mpr hcovered)]
      show (answer.1.1 ++ st.scratch.drop chunkLen)[j]? = _
      rw [List.getElem?_append_left (by omega), hanswer.data j hj,
        if_neg (mt (hbad j hj).mpr hcovered)]

theorem streamRead_attempt {logicalOffset physicalOffset len fuel position : Nat}
    (hanswers : env.Answers plan scratchLen byte bad) (hplan : Streamable plan env.sourceLen)
    (hmem : .read logicalOffset physicalOffset len ∈ plan.segments) (hscratch : 0 < scratchLen)
    (hle : position ≤ len) (hpiece : position = len ∨ ∃ k, position = k * scratchLen)
    (hfuel : len - position ≤ fuel)
    (hinv : StreamedExact byte bad plan scratchLen (logicalOffset + position)
      (logicalOffset + position) st) :
    Attempt env.Willing (streamRead env plan logicalOffset physicalOffset len fuel position st)
      (StreamedExact byte bad plan scratchLen (logicalOffset + len) (logicalOffset + len)) := by
  induction fuel generalizing position st with
  | zero =>
    obtain rfl : position = len := by omega
    exact Attempt.pure hinv
  | succ fuel ih =>
    rw [streamRead]
    split
    · obtain rfl : position = len := by omega
      exact Attempt.pure hinv
    · refine (checkCancel_attempt st).bind fun st₁ hpolled => ?_
      have hinv₁ := hinv.poll hpolled
      have hlength := hinv₁.scratch_length
      obtain ⟨k, hk⟩ := hpiece.resolve_left (by omega)
      have hrequest : plan.Requests scratchLen (physicalOffset + position)
          (min (len - position) st₁.scratch.length) :=
        ⟨logicalOffset, physicalOffset, len, k, hmem, by omega, by rw [hk], by rw [hk, hlength]⟩
      refine (readChunk_attempt hanswers hplan hmem (by omega) (by omega) hrequest hinv₁).bind
        fun st₂ hinv₂ => ?_
      rw [Nat.add_assoc] at hinv₂
      refine ih (by omega) ?_ (by omega) hinv₂
      -- the next piece is behind a whole buffer, or nothing is left
      by_cases hlast : len - position ≤ scratchLen
      · exact .inl (by omega)
      · exact .inr ⟨k + 1, by rw [Nat.add_mul, Nat.one_mul, ← hk]; omega⟩

/-- The chunk loop of a zero segment whose evidence is complete. -/
theorem streamZero_attempt {logicalOffset len fuel position sourceLen : Nat}
    {reason : ZeroFillReason} (hplan : Streamable plan sourceLen)
    (hmem : .zero logicalOffset len reason ∈ plan.segments) (hscratch : 0 < scratchLen)
    (hle : position ≤ len) (hfuel : len - position ≤ fuel)
    (hinv : StreamedExact byte bad plan scratchLen (logicalOffset + len)
      (logicalOffset + position) st) :
    Attempt env.Willing (streamZero env plan len fuel position st)
      (StreamedExact byte bad plan scratchLen (logicalOffset + len) (logicalOffset + len)) := by
  have hstop : logicalOffset + len ≤ plan.logicalSize := hplan.stop_le hmem
  have hsize := hplan.size_lt
  -- on the fuel, one chunk of zeros each
  induction fuel generalizing position st with
  | zero =>
    obtain rfl : position = len := by omega
    exact Attempt.pure hinv
  | succ fuel ih =>
    rw [streamZero]
    split
    · obtain rfl : position = len := by omega
      exact Attempt.pure hinv
    · refine (checkCancel_attempt st).bind fun st₁ hpolled => ?_
      have hinv₁ := hinv.poll hpolled
      have hlength := hinv₁.scratch_length
      have hchunk : min (len - position) st₁.scratch.length ≤ st₁.scratch.length :=
        Nat.min_le_right _ _
      have hchunkLen : position + min (len - position) st₁.scratch.length ≤ len := by omega
      have hprogress : 0 < min (len - position) st₁.scratch.length := by omega
      dsimp only
      generalize min (len - position) st₁.scratch.length = chunkLen at hchunk hchunkLen hprogress ⊢
      have hfilledLength := length_zeroFill st₁.scratch (Nat.zero_le _) hchunk
      -- clearing the scratch buffer leaves the delivered bytes alone
      have hzeroed : StreamedExact byte bad plan scratchLen (logicalOffset + len)
          (logicalOffset + position) { st₁ with scratch := zeroFill st₁.scratch 0 chunkLen } :=
        { hinv₁ with scratch_length := hfilledLength.trans hlength }
      have hbytes : ((zeroFill st₁.scratch 0 chunkLen).take chunkLen).length = chunkLen := by
        rw [List.length_take, hfilledLength]
        omega
      have hwritten := hzeroed.bytesWritten_eq
      refine (writeCommitted_attempt (by rw [hbytes]; omega)).bind fun st₂ hwrote => ?_
      have hnext := hzeroed.write hplan hwrote hmem (Nat.le_add_right _ _)
        (show logicalOffset + position + _ ≤ logicalOffset + len by rw [hbytes]; omega) ?_
      · rw [hbytes, Nat.add_assoc] at hnext
        exact ih (by omega) (by omega) hnext
      · intro j hj
        rw [hbytes] at hj
        rw [List.getElem?_take_of_lt hj, getElem?_zeroFill st₁.scratch (Nat.zero_le _) hchunk,
          if_pos ⟨Nat.zero_le _, hj⟩]
        rfl

/-- One segment that starts where the output ends. -/
theorem streamSegment_attempt {s : ContentSegment}
    (hanswers : env.Answers plan scratchLen byte bad) (hplan : Streamable plan env.sourceLen)
    (hmem : s ∈ plan.segments) (hlen : 0 < len s) (hscratch : 0 < scratchLen)
    (hinv : StreamedExact byte bad plan scratchLen (start s) (start s) st) :
    Attempt env.Willing (streamSegment env plan s st)
      (StreamedExact byte bad plan scratchLen (stop s) (stop s)) := by
  -- a read segment may lose bytes, a zero segment is recorded before it is written
  cases s with
  | read logicalOffset physicalOffset n =>
    exact streamRead_attempt hanswers hplan hmem hscratch (Nat.zero_le _)
      (.inr ⟨0, (Nat.zero_mul _).symm⟩) (Nat.le_refl _) hinv
  | zero logicalOffset n reason =>
    rw [streamSegment]
    refine (appendZeroRange_attempt _ _ env.Willing).bind fun ranges happend => ?_
    refine streamZero_attempt hplan hmem hscratch (Nat.zero_le _) (Nat.le_refl _) ?_
    refine ⟨hinv.scratch_length, hinv.bytesWritten_eq, hinv.output_length,
      appendZeroRange_ok happend hinv.evidence (Nat.le_refl _) hlen, hinv.bytes, ?_⟩
    intro i hi t ht hcovers
    have hi : i < logicalOffset + n := hi
    show LostAt ranges i ↔ _
    rw [appendZeroRange_lostAt happend]
    have hcovers_iff : Covers (⟨logicalOffset, n, reason⟩ : ZeroFilledRange) i ↔
        logicalOffset ≤ i ∧ i < logicalOffset + n := Iff.rfl
    -- the new range says nothing about earlier targets
    by_cases hold : i < logicalOffset
    · rw [← hinv.lost i hold t ht hcovers, hcovers_iff]
      exact ⟨fun h => h.elim id fun h => absurd hold (Nat.not_lt.mpr h.2.1), .inl⟩
    · obtain rfl := hplan.unique hmem ht
        (show Covers (ContentSegment.zero logicalOffset n reason) i from
          ⟨by show logicalOffset ≤ i; omega, by show i < logicalOffset + n; omega⟩) hcovers
      have hnone : ¬LostAt st.zeroFilledRanges i := by
        rintro ⟨r, hr, _, hri⟩
        exact hold (hinv.evidence.ascending.lt_of_coveredBy ⟨r, hr, hri⟩).2
      simp only [ContentSegment.lostAt, decide_eq_true_eq]
      exact ⟨fun h => h.elim (fun h => absurd h hnone) And.left,
        fun h => .inr ⟨h, hcovers_iff.mpr ⟨Nat.not_lt.mp hold, hi⟩⟩⟩

theorem streamSegments_attempt {segments : List ContentSegment} {offset finish : Nat}
    (hanswers : env.Answers plan scratchLen byte bad) (hplan : Streamable plan env.sourceLen)
    (htiles : Tiles segments offset finish)
    (hmem : ∀ s ∈ segments, s ∈ plan.segments) (hscratch : 0 < scratchLen)
    (hinv : StreamedExact byte bad plan scratchLen offset offset st) :
    Attempt env.Willing (streamSegments env plan segments st)
      (StreamedExact byte bad plan scratchLen finish finish) := by
  induction segments generalizing offset st with
  | nil =>
    obtain rfl : offset = finish := htiles
    exact Attempt.pure hinv
  | cons s segments ih =>
    obtain ⟨rfl, hlen, hrest⟩ := htiles
    rw [streamSegments]
    refine (streamSegment_attempt hanswers hplan (hmem s List.mem_cons_self) hlen hscratch
      hinv).bind fun st₁ hinv₁ => ?_
    exact ih hrest (fun t ht => hmem t (List.mem_cons_of_mem s ht)) hinv₁

theorem plannedZeroRangesFrom_attempt {segments : List ContentSegment}
    {ranges : List ZeroFilledRange} (willing : Prop) :
    Attempt willing (plannedZeroRangesFrom segments ranges) fun _ => True where
  ok _ _ := trivial
  error hw e h := by
    induction segments generalizing ranges with
    | nil => cases h
    | cons s segments ih =>
      cases s with
      | read o p n => exact ih h
      | zero o n reason =>
        rw [plannedZeroRangesFrom, bind_eq_error] at h
        rcases h with h | ⟨ranges', _, h⟩
        · exact (appendZeroRange_attempt _ _ willing).error hw e h
        · exact ih h

/-- A stream of an accepted plan delivers its segments byte by byte; a willing environment
    leaves the limit on zero-filled ranges and a wrong digest to fail at. -/
theorem streamCandidate_attempt (sha256 : Bytes → Digest) {scratch : Bytes} (s : σ)
    (hanswers : env.Answers plan scratch.length byte bad) (hplan : Streamable plan env.sourceLen)
    (hpreflight : preflight env.sourceLen plan scratch.length = .ok ()) :
    (∀ outcome st, streamCandidate env sha256 plan scratch s = .ok (outcome, st) →
      outcome.zeroFilledRanges = st.zeroFilledRanges ∧
      StreamedExact byte bad plan scratch.length plan.logicalSize plan.logicalSize st) ∧
    (env.Willing → ∀ e, streamCandidate env sha256 plan scratch s = .error e →
      e = .zeroFillRangeLimitExceeded maxZeroFilledRanges ∨
      ∃ expected actual, plan.expectedSha256 = some expected ∧ expected ≠ actual ∧
        e = .hashMismatch expected actual) := by
  have hscratch := (preflight_ok hpreflight).1
  have hinit : StreamedExact byte bad plan scratch.length 0 0
      { env := s, scratch, requiresBestEffort := plan.requiresBestEffort } :=
    ⟨rfl, rfl, rfl, ⟨Nat.le_refl 0, List.Pairwise.nil⟩, fun i hi => absurd hi (Nat.not_lt_zero i),
      fun i hi => absurd hi (Nat.not_lt_zero i)⟩
  have hsegments := streamSegments_attempt hanswers hplan hplan.tiles (fun _ hs => hs)
    hscratch hinit
  constructor
  · intro outcome st h
    obtain ⟨_, hrun, rfl⟩ := streamCandidate_ok h
    exact ⟨rfl, hsegments.ok st hrun⟩
  · intro hw e h
    rw [streamCandidate, hpreflight, bind_ok, bind_eq_error] at h
    -- planned ranges, then the segments, then the digest
    rcases h with h | ⟨ranges, _, h⟩
    · exact .inl ((plannedZeroRangesFrom_attempt env.Willing).error hw e h)
    · rcases bind_eq_error.mp h with h | ⟨st', hrun, h⟩
      · exact .inl (hsegments.error hw e h)
      · have hwritten := (hsegments.ok st' hrun).bytesWritten_eq
        simp only [throw_bind, if_neg (fun hne => hne hwritten : ¬st'.bytesWritten ≠ _)] at h
        split at h
        · next expected hsha =>
          split at h
          · next hne =>
            cases h
            exact .inr ⟨expected, _, hsha, hne, rfl⟩
          · cases h
        · cases h

/-! ## The two engines -/

/-- The segment that covers a byte delivers its target. -/
theorem ContentSegment.Renders.byteAt {extents : List ExtentRun} {sourceLen i : Nat}
    {s : ContentSegment} (h : s.Renders extents sourceLen i) (byte : Nat → UInt8)
    (bad : Nat → Bool) :
    ∃ t, Target extents i t ∧ s.byteAt byte bad i = t.value byte bad ∧
      s.lostAt bad i = !t.present bad := by
  cases s with
  | read o p n =>
    obtain ⟨availability, _, htarget, _⟩ := h
    refine ⟨_, htarget, rfl, ?_⟩
    simp [ContentSegment.lostAt, ByteTarget.present]
  | zero o n reason =>
    refine ⟨_, h, rfl, ?_⟩
    simp [ContentSegment.lostAt, ByteTarget.present]

/-- A file whose content both engines can take: non-empty disjoint extents inside the file, each
    free, resident or sparse, and inside the source where they are stored. -/
structure Recoverable (candidate : Candidate) (reader : SourceReader) : Prop where
  file : candidate.kind = .file
  size_lt : candidate.size < 2 ^ 64
  nonempty : ∀ e ∈ candidate.extents, 0 < e.len
  extractable : ∀ e ∈ candidate.extents, Extractable reader candidate.size e
  disjoint : candidate.extents.Pairwise Apart

/-- A stream of `plan` through one scratch buffer, against what direct extraction gave. -/
structure StreamAgrees (env : StreamEnv σ) (sha256 : Bytes → Digest) (plan : ContentPlan)
    (scratch : Bytes) (s : σ) (extraction : Extraction) : Prop where
  error : env.Willing → ∀ e, streamCandidate env sha256 plan scratch s = .error e →
    e = .zeroFillRangeLimitExceeded maxZeroFilledRanges ∨
    ∃ expected actual, plan.expectedSha256 = some expected ∧ expected ≠ actual ∧
      e = .hashMismatch expected actual
  bytes : ∀ outcome st, streamCandidate env sha256 plan scratch s = .ok (outcome, st) →
    st.output = extraction.bytes
  missing : ∀ outcome st, streamCandidate env sha256 plan scratch s = .ok (outcome, st) →
    ∀ i, ReportedBad extraction.missingRanges i ↔ LostAt outcome.zeroFilledRanges i

/-- Direct extraction of a candidate, against planning and streaming it. -/
structure EnginesAgree (reader : SourceReader) (candidate : Candidate) (extraction : Extraction) :
    Prop where
  missing_pos : ∀ r ∈ extraction.missingRanges, 0 < r.2
  missing_maximal : extraction.missingRanges.Pairwise fun a b => a.1 + a.2 < b.1
  plans : ∀ (sha : Option Digest) (limits : PlanLimits), 0 < limits.maxSegments →
    limits.maxSegments ≤ maxContentPlanSegments →
    (∃ limit, planCandidate candidate reader.len sha .zeroFillAndMap limits =
      .error (.segmentLimitExceeded limit)) ∨
    ∃ plan, planCandidate candidate reader.len sha .zeroFillAndMap limits = .ok (some plan)
  streams : ∀ (sha : Option Digest) (limits : PlanLimits) (plan : ContentPlan),
    planCandidate candidate reader.len sha .zeroFillAndMap limits = .ok (some plan) →
    plan.expectedSha256 = sha ∧
    ∀ (σ : Type) (env : StreamEnv σ) (sha256 : Bytes → Digest) (scratch : Bytes) (s : σ),
      env.Reads reader → 0 < scratch.length → scratch.length ≤ maxStreamBufferBytes →
      StreamAgrees env sha256 plan scratch s extraction

/-- A plan for a recoverable file can be streamed. -/
theorem PlanExact.streamable {sourceLen : Nat} {candidate : Candidate} {sha : Option Digest}
    {limits : PlanLimits} {plan : ContentPlan}
    (h : PlanExact candidate sourceLen sha .zeroFillAndMap limits plan)
    (hsize : candidate.size < 2 ^ 64) (hpolicy : plan.policy = .zeroFillAndMap) :
    Streamable plan sourceLen := by
  refine ⟨by rw [h.size_eq]; exact hsize, by rw [h.size_eq]; exact h.tiles, fun s hs => ?_,
    by rw [hpolicy]; intro hne; cases hne⟩
  cases s with
  | zero o n reason => trivial
  | read o p n =>
    -- the last byte of the segment lies inside the source
    have hlen : 0 < n := (h.tiles.ascending.bounds hs).2.1
    obtain ⟨_, _, _, hinside⟩ := h.renders _ hs (o + n - 1)
      ⟨by show o ≤ _; omega, by show _ < o + n; omega⟩
    show p + n ≤ sourceLen
    omega

/-- A delivered plan has the bytes of a direct extraction, and loses the ones it misses. -/
theorem StreamedExact.agrees {sourceLen scratchLen : Nat} {candidate : Candidate}
    {sha : Option Digest} {limits : PlanLimits} {plan : ContentPlan} {st : StreamState σ}
    {extraction : Extraction} (hplan : PlanExact candidate sourceLen sha .zeroFillAndMap
      limits plan)
    (hst : StreamedExact byte bad plan scratchLen candidate.size candidate.size st)
    (hlength : extraction.bytes.length = candidate.size)
    (htargets : ∀ i < candidate.size, ∀ t, Target candidate.extents i t →
      extraction.bytes[i]? = some (t.value byte bad) ∧
      (ReportedBad extraction.missingRanges i ↔ t.present bad = false))
    (hbounds : ∀ i, ReportedBad extraction.missingRanges i → i < candidate.size) :
    st.output = extraction.bytes ∧
      ∀ i, ReportedBad extraction.missingRanges i ↔ LostAt st.zeroFilledRanges i := by
  -- a byte of the file lies in one segment, which gives it its target
  have hbyte : ∀ i < candidate.size, ∃ t, Target candidate.extents i t ∧
      st.output[i]? = some (t.value byte bad) ∧
      (LostAt st.zeroFilledRanges i ↔ t.present bad = false) := by
    intro i hi
    obtain ⟨s, hs, hcovers⟩ := hplan.tiles.coveredBy_iff.mpr ⟨Nat.zero_le i, hi⟩
    obtain ⟨t, htarget, hvalue, hlost⟩ := (hplan.renders s hs i hcovers).byteAt byte bad
    refine ⟨t, htarget, ?_, ?_⟩
    · rw [hst.bytes i hi s hs hcovers, hvalue]
    · rw [hst.lost i hi s hs hcovers, hlost]
      simp
  constructor
  · apply List.ext_getElem?
    intro i
    by_cases hi : i < candidate.size
    · obtain ⟨t, htarget, hvalue, _⟩ := hbyte i hi
      rw [hvalue, (htargets i hi t htarget).1]
    · rw [List.getElem?_eq_none (by rw [hst.output_length]; omega),
        List.getElem?_eq_none (by omega)]
  · intro i
    by_cases hi : i < candidate.size
    · obtain ⟨t, htarget, _, hlost⟩ := hbyte i hi
      rw [hlost, (htargets i hi t htarget).2]
    · constructor
      · intro hmissing
        exact absurd (hbounds i hmissing) hi
      · rintro ⟨r, hr, _, hcovers⟩
        exact absurd (hst.evidence.ascending.lt_of_coveredBy ⟨r, hr, hcovers⟩).2 hi

/-- Direct extraction and streaming a plan give the same bytes and lose the same ones. -/
theorem extractCandidate_eq_stream {reader : SourceReader} {byte : Nat → UInt8} {bad : Nat → Bool}
    {candidate : Candidate} (hexact : reader.Exact byte bad) (h : Recoverable candidate reader) :
    ∃ extraction, extractCandidate reader candidate = .ok extraction ∧
      EnginesAgree reader candidate extraction := by
  obtain ⟨extraction, hextract, hlength, htargets, hbounds, hpositive, hmaximal⟩ :=
    extractCandidate_targets hexact h.size_lt h.extractable h.disjoint
  refine ⟨extraction, hextract, hpositive, hmaximal, fun sha limits hlimits hmax => ?_,
    fun sha limits plan hplan => ?_⟩
  -- under `ZeroFillAndMap` no availability is refused
  · have hwell : WellFormed candidate reader.len :=
      ⟨h.file, h.size_lt, reader.len_lt, h.nonempty, fun e he => (h.extractable e he).inside,
        h.disjoint, fun e he => (h.extractable e he).stored⟩
    have houtcome : PlanOutcome candidate .zeroFillAndMap
        (planCandidate candidate reader.len sha .zeroFillAndMap limits) :=
      planCandidate_outcome hwell ⟨hlimits, hmax⟩
    generalize planCandidate candidate reader.len sha .zeroFillAndMap limits = x at houtcome
    cases houtcome with
    | limit limit => exact .inl ⟨limit, rfl⟩
    | refused o n reason hpolicy => cases hpolicy
    | planned plan => exact .inr ⟨plan, rfl⟩
  · have hplanned := planExact_of_planCandidate h.size_lt reader.len_lt hplan
    obtain ⟨_, b, _, hb⟩ := (planCandidate_eq_ok.mp hplan).built
    have hsha : plan.expectedSha256 = sha := by rw [hb]
    refine ⟨hsha, fun σ env sha256 scratch s hreads hpos hle => ?_⟩
    have hstreamable := hplanned.streamable h.size_lt (by rw [hb])
    have hpreflight := hplanned.preflight scratch.length hpos hle
    rw [← hreads.sourceLen_eq] at hstreamable hpreflight
    obtain ⟨hok, herror⟩ := streamCandidate_attempt sha256 s
      (hreads.answers hexact plan scratch.length) hstreamable hpreflight
    have hagrees : ∀ outcome st, streamCandidate env sha256 plan scratch s = .ok (outcome, st) →
        st.output = extraction.bytes ∧
        ∀ i, ReportedBad extraction.missingRanges i ↔ LostAt outcome.zeroFilledRanges i := by
      intro outcome st hstream
      obtain ⟨hranges, hdelivered⟩ := hok outcome st hstream
      rw [hplanned.size_eq] at hdelivered
      rw [hranges]
      exact hdelivered.agrees hplanned hlength htargets hbounds
    exact ⟨herror, fun outcome st hstream => (hagrees outcome st hstream).1,
      fun outcome st hstream => (hagrees outcome st hstream).2⟩

/-- The damaged part of a read is as long as its damaged bytes are many. -/
theorem sum_damagedRanges (low high offset n : Nat) :
    ((damagedRanges low high offset n).map Prod.snd).sum =
      (List.range n).countP fun i => decide (low ≤ offset + i ∧ offset + i < high) := by
  unfold damagedRanges
  split
  · next hlt =>
    have hascending : Ascending [(max offset low - offset, min (offset + n) high - offset)] 0 n :=
      ⟨Nat.zero_le _, by simp only [len]; omega, by
        simp only [Ascending, stop, start, len]; omega⟩
    have htotal := @Ascending.total_eq_countP _ _ _ _ _
      (fun i => decide (low ≤ offset + i ∧ offset + i < high)) hascending fun i _ hi => by
        simp only [CoveredBy, List.mem_singleton, exists_eq_left, Covers, stop, start, len,
          decide_eq_true_iff]
        omega
    rw [Nat.sub_zero, ← List.range_eq_range'] at htotal
    rw [← htotal]
    simp only [List.map_cons, List.map_nil, List.sum_cons, List.sum_nil, total_cons, total_nil, len]
    omega
  · rw [List.map_nil, List.sum_nil, eq_comm, List.countP_eq_zero]
    intro i hi
    have := List.mem_range.mp hi
    rw [decide_eq_true_iff]
    omega

/-- A source with one damaged stretch reports exactly its bytes. -/
theorem damagedReader_exact (byte : Nat → UInt8) (low high sourceLen : Nat)
    (hlt : sourceLen < 2 ^ 64) :
    (damagedReader byte low high sourceLen hlt).toSourceReader.Exact byte
      fun i => decide (low ≤ i ∧ i < high) := by
  intro offset buffer hin
  have hdelivers := (damagedReader byte low high sourceLen hlt).delivers offset buffer hin
  have hlength :=
    (damagedReader byte low high sourceLen hlt).length_readBestEffortAt offset buffer
  have hranges : ((damagedReader byte low high sourceLen hlt).readBestEffortAt offset
      buffer).2.badRanges = damagedRanges low high offset buffer.length :=
    (damagedReader byte low high sourceLen hlt).badRanges_eq offset buffer hin
  have hin : offset + buffer.length ≤ sourceLen := hin
  have hinside := hdelivers.inside
  have hcovers := hdelivers.covers
  have hvalid := hdelivers.bytesValid
  rw [hlength] at hinside hcovers hvalid
  -- the damaged bytes are one range, so one reported range is enough
  refine ⟨fun i hi => ?_, hinside, ?_, fun i hi => ?_, ?_⟩
  · have hread : ((damagedReader byte low high sourceLen hlt).readBestEffortAt offset buffer).1 =
        Bytes.window (fun i => if low ≤ i ∧ i < high then 0 else byte i) offset buffer.length := by
      show (if offset + buffer.length ≤ sourceLen then _ else _ : Bytes × ReadOutcome).1 = _
      rw [if_pos hin]
    rw [hread, Bytes.getElem?_window, if_pos hi]
    simp
  · rw [hranges]
    unfold damagedRanges
    split
    · show 1 ≤ _
      omega
    · exact Nat.zero_le _
  · rw [decide_eq_true_iff]
    exact (hcovers i hi).symm
  · rw [hranges, sum_damagedRanges] at hvalid
    have hsplit := List.length_eq_countP_add_countP
      (fun i => decide (low ≤ offset + i ∧ offset + i < high)) (l := List.range buffer.length)
    rw [List.length_range] at hsplit
    simp only [decide_eq_true_eq] at hsplit
    simp only [← decide_not]
    omega

/-- Four stored bytes, a hole behind them and two bytes stored nowhere. -/
def holedCandidate : Candidate :=
  { mixedCandidate with extents := [⟨4, none, 2, .sparse⟩, ⟨0, some 10, 4, .freeInSnapshot⟩] }

theorem extractCandidate_eq_stream_holed :
    ∃ extraction, extractCandidate
        (damagedReader (patched [(10, [1, 2, 3, 4])]) 11 12 16 (by decide)).toSourceReader
        holedCandidate = .ok extraction ∧
      EnginesAgree
        (damagedReader (patched [(10, [1, 2, 3, 4])]) 11 12 16 (by decide)).toSourceReader
        holedCandidate extraction :=
  extractCandidate_eq_stream (damagedReader_exact _ 11 12 16 (by decide))
    { file := rfl
      size_lt := by decide
      nonempty := by decide
      extractable := fun e he => by
        rcases List.mem_cons.mp he with rfl | he
        · exact ⟨by decide, by decide, fun p hp => by cases hp⟩
        · obtain rfl := List.mem_singleton.mp he
          exact ⟨by decide, by decide, fun p hp => by cases hp; decide⟩
      disjoint := List.Pairwise.cons (fun e he => by
        obtain rfl := List.mem_singleton.mp he
        exact .inr (Nat.le_refl 4)) (List.pairwise_singleton _ _) }

/-- An extent without bytes is passed over by direct extraction, but has no plan. -/
theorem planCandidate_refuses_empty_extent :
    ¬ ∀ (candidate : Candidate) (reader : SourceReader) (byte : Nat → UInt8) (bad : Nat → Bool),
      reader.Exact byte bad → candidate.size < 2 ^ 64 →
      (∀ e ∈ candidate.extents, Extractable reader candidate.size e) →
      candidate.extents.Pairwise Apart →
      ∃ extraction plan, extractCandidate reader candidate = .ok extraction ∧
        planCandidate candidate reader.len none .zeroFillAndMap {} = .ok (some plan) := by
  intro h
  obtain ⟨_, plan, _, hplan⟩ := h
    { holedCandidate with extents := [⟨0, some 10, 0, .freeInSnapshot⟩] }
    (damagedReader (patched []) 0 0 16 (by decide)).toSourceReader _ _
    (damagedReader_exact _ 0 0 16 (by decide)) (by decide)
    (fun e he => by
      obtain rfl := List.mem_singleton.mp he
      exact ⟨by decide, by decide, fun p hp => by cases hp; decide⟩)
    (List.pairwise_singleton _ _)
  cases hplan

end Undelete.Restore
