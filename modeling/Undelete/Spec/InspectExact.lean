import Undelete.Spec.BadRangesCorrect
import Undelete.Spec.CarveLog

/-!
# Validating one signature of a reporting source

On a source with a fixed set of unreadable bytes, the validation of a signature reads
the candidate in a fixed sequence of reads, the first one short. It ends with the read
that delivers the byte settling the verdict, or at the first read that touches an
unreadable byte, wherever in the read that byte lies.

## Key results

- `inspectLoop_inspection`: the four ways the validation loop ends.
- `valid_verdict_iff`: a candidate is accepted exactly when its bytes are an image and
  every read up to its last byte is readable.
-/

namespace Undelete.Carve

open Except IntervalLike

/-! ## Images as prefixes -/

/-- An image is no proper beginning of another one. -/
theorem IsImage.eq_nil_of_append {w rest : Bytes} (h : IsImage w) (h' : IsImage (w ++ rest)) :
    rest = [] := by
  obtain ⟨u, byte, v, heq, hu, -⟩ := h'.consume
  rcases List.eq_nil_or_concat rest with rfl | ⟨rest', last, rfl⟩
  · rfl
  · rw [List.concat_eq_append, ← List.append_assoc] at heq
    obtain ⟨rfl, -⟩ := List.append_inj' heq rfl
    exact absurd (alive_append (Option.isSome_iff_exists.mpr ⟨v, hu⟩)) h.not_alive

theorem window_le_append (byte : Nat → UInt8) (o : Nat) {m n : Nat} (h : m ≤ n) :
    ∃ rest, Bytes.window byte o n = Bytes.window byte o m ++ rest ∧ rest.length = n - m := by
  refine ⟨Bytes.window byte (o + m) (n - m), ?_, Bytes.length_window ..⟩
  have := Bytes.window_append byte o m (n - m)
  rw [Nat.add_sub_of_le h] at this
  exact this.symm

theorem eq_window_of_append {byte : Nat → UInt8} {o n : Nat} {a b : Bytes}
    (h : Bytes.window byte o n = a ++ b) : a = Bytes.window byte o a.length := by
  have hlen : n = a.length + b.length := by
    rw [← List.length_append, ← h, Bytes.length_window]
  rw [hlen, ← Bytes.window_append] at h
  exact (List.append_inj_left h (Bytes.length_window ..)).symm

theorem alive_window {byte : Nat → UInt8} {o m n : Nat} (h : Alive (Bytes.window byte o n))
    (hmn : m ≤ n) : Alive (Bytes.window byte o m) := by
  obtain ⟨rest, heq, -⟩ := window_le_append byte o hmn
  rw [heq] at h
  exact alive_append h

/-- At most one length makes the bytes from `o` an image. -/
theorem isImage_window_unique {byte : Nat → UInt8} {o m n : Nat}
    (hm : IsImage (Bytes.window byte o m)) (hn : IsImage (Bytes.window byte o n)) : m = n := by
  wlog hle : m ≤ n generalizing m n
  · exact (this hn hm (by omega)).symm
  obtain ⟨rest, heq, hrest⟩ := window_le_append byte o hle
  rw [heq] at hn
  rw [hm.eq_nil_of_append hn, List.length_nil] at hrest
  omega

/-- `feed` accepts the whole of a byte string exactly when that is an image. -/
theorem feed_eq_valid_iff {w : Bytes} (hlen : w.length < 2 ^ 64) :
    (JpegValidator.new.feed w).1 = ⟨w.length, .valid⟩ ↔ IsImage w := by
  -- no verdict, or one at the byte behind `u`
  rcases feed_new_cases hlen with ⟨hstatus, halive⟩ |
    ⟨u, byte, rest, v, rfl, hu, hsettled, hfeed, -⟩
  · constructor
    · intro h
      rw [h] at hstatus
      exact JpegStatus.noConfusion hstatus
    · intro h
      exact absurd halive h.not_alive
  · rw [hfeed]
    have hsplit : u ++ byte :: rest = u ++ [byte] ++ rest := by simp
    constructor
    · intro h
      rw [JpegFeedResult.mk.injEq] at h
      -- the verdict came at the last byte
      have hrest : rest = [] := by
        apply List.eq_nil_of_length_eq_zero
        have := h.1
        rw [List.length_append, List.length_cons] at this
        omega
      subst hrest
      apply (isImage_concat_iff hu).mpr
      cases hstep : (v.consume byte).1 with
      | «continue» => exact absurd hstep hsettled
      | valid => rfl
      | invalid =>
        rw [hstep] at h
        exact JpegStatus.noConfusion h.2
    · intro h
      cases hstep : (v.consume byte).1 with
      | «continue» => exact absurd hstep hsettled
      | valid =>
        rw [hsplit] at h
        have hrest := ((isImage_concat_iff hu).mpr hstep).eq_nil_of_append h
        subst hrest
        rw [List.length_append]
        rfl
      | invalid =>
        rw [hsplit] at h
        exact absurd (Or.inl ⟨rest, h⟩) (not_viable_of_consume hu hstep)

/-! ## The reads of a validation -/

/-- The places where a read of a validation may start. -/
def ReadStart (chunkSize consumed : Nat) : Prop :=
  consumed = 0 ∨ ∃ k, consumed = min initialValidationReadBytes chunkSize + k * chunkSize

/-- The end of the read that delivers the `n`-th byte of a candidate with `clip` bytes to
    read at most. -/
def validationReadEnd (chunkSize clip n : Nat) : Nat :=
  let first := min initialValidationReadBytes chunkSize
  min clip (if n ≤ first then first
    else first + (n - first + chunkSize - 1) / chunkSize * chunkSize)

theorem le_validationReadEnd {chunkSize clip n : Nat} (hchunk : 0 < chunkSize) (h : n ≤ clip) :
    n ≤ validationReadEnd chunkSize clip n := by
  simp only [validationReadEnd]
  split
  · omega
  · have := Nat.div_add_mod'
      (n - min initialValidationReadBytes chunkSize + chunkSize - 1) chunkSize
    have := Nat.mod_lt (n - min initialValidationReadBytes chunkSize + chunkSize - 1) hchunk
    omega

/-- The read that starts at `consumed` delivers the bytes up to `validationReadEnd`. -/
theorem validationReadEnd_eq {chunkSize clip consumed n : Nat} (hchunk : 0 < chunkSize)
    (hstart : ReadStart chunkSize consumed) (hlt : consumed < n)
    (hn : n ≤ consumed + validationReadLen chunkSize clip consumed) :
    validationReadEnd chunkSize clip n = consumed + validationReadLen chunkSize clip consumed := by
  have hinit : 0 < initialValidationReadBytes := by decide
  simp only [validationReadEnd, validationReadLen] at *
  rcases hstart with rfl | ⟨k, rfl⟩
  · rw [if_pos rfl] at *
    rw [if_pos (by omega)]
    omega
  · generalize hfirst : min initialValidationReadBytes chunkSize = first at *
    have hne : first + k * chunkSize ≠ 0 := by omega
    rw [if_neg hne] at *
    rw [if_neg (by omega)]
    have hdiv : (n - first + chunkSize - 1) / chunkSize = k + 1 := by
      apply Nat.div_eq_of_lt_le
      · rw [Nat.add_mul, Nat.one_mul]
        omega
      · rw [Nat.add_mul, Nat.add_mul, Nat.one_mul]
        omega
    rw [hdiv, Nat.add_mul, Nat.one_mul]
    omega

/-- A read that is not the last one starts the next where it ends. -/
theorem readStart_next {chunkSize permitted consumed : Nat}
    (hstart : ReadStart chunkSize consumed)
    (hlt : consumed + validationReadLen chunkSize permitted consumed < permitted) :
    ReadStart chunkSize (consumed + validationReadLen chunkSize permitted consumed) := by
  simp only [validationReadLen] at *
  rcases hstart with rfl | ⟨k, rfl⟩
  · rw [if_pos rfl] at *
    exact Or.inr ⟨0, by omega⟩
  · by_cases hzero : min initialValidationReadBytes chunkSize + k * chunkSize = 0
    · rw [if_pos hzero] at *
      exact Or.inr ⟨0, by omega⟩
    · rw [if_neg hzero] at *
      refine Or.inr ⟨k + 1, ?_⟩
      rw [Nat.add_mul, Nat.one_mul]
      omega

/-! ## How the validation loop ends -/

variable (source : ReportingSource) (sha256 : Bytes → Vector UInt8 32)

/-- The bytes of the candidate at `start` between two places can be read. -/
def ReadableFrom (start a b : Nat) : Prop := ∀ i, a ≤ i → i < b → ¬source.bad (start + i)

/-- The end of a validation of the `permitted` bytes at `start`, with the number of bytes
    it has read. -/
inductive Inspection (start chunkSize permitted : Nat) : Option CandidateRead → Nat → Prop where
  /-- Every byte was read, and none settled the verdict. -/
  | none : Alive (Bytes.window source.byte start permitted) →
      ReadableFrom source start 0 permitted →
      Inspection start chunkSize permitted none permitted
  /-- The read at `e` touches an unreadable byte. -/
  | failed {e : Nat} : ReadStart chunkSize e → e < permitted →
      Alive (Bytes.window source.byte start e) →
      ¬ReadableFrom source start e (e + validationReadLen chunkSize permitted e) →
      Inspection start chunkSize permitted (some .readFailure)
        (e + validationReadLen chunkSize permitted e)
  /-- The read at `e` delivers the last byte of an image of length `m`. -/
  | valid {e m : Nat} : ReadStart chunkSize e → e < m →
      m ≤ e + validationReadLen chunkSize permitted e →
      ReadableFrom source start 0 (e + validationReadLen chunkSize permitted e) →
      IsImage (Bytes.window source.byte start m) →
      Inspection start chunkSize permitted
        (some (.valid m (sha256 (Bytes.window source.byte start m))))
        (e + validationReadLen chunkSize permitted e)
  /-- The read at `e` delivers a byte that no image allows. -/
  | invalid {e m : Nat} : ReadStart chunkSize e → e < m →
      m ≤ e + validationReadLen chunkSize permitted e →
      ReadableFrom source start 0 (e + validationReadLen chunkSize permitted e) →
      Alive (Bytes.window source.byte start (m - 1)) →
      ¬Viable (Bytes.window source.byte start m) →
      Inspection start chunkSize permitted (some .invalid)
        (e + validationReadLen chunkSize permitted e)

/-- A readable read delivers the bytes of the source. -/
theorem readBestEffortAt_eq_window {offset n : Nat} {buffer : Bytes} (hbuffer : buffer.length = n)
    (hin : offset + n ≤ source.len) (hgood : ∀ i < n, ¬source.bad (offset + i)) :
    (source.readBestEffortAt offset buffer).1 = Bytes.window source.byte offset n := by
  have hdelivers := source.delivers offset buffer (by omega)
  have hlen := source.length_readBestEffortAt offset buffer
  apply List.ext_getElem?
  intro i
  rw [Bytes.getElem?_window]
  by_cases hi : i < n
  · rw [if_pos hi]
    exact hdelivers.good i (by omega) (hgood i hi)
  · rw [if_neg hi, List.getElem?_eq_none (by omega)]

theorem advance_status {v v' : JpegValidator} {w : Bytes} (hv : v.status = .needMore)
    (h : v.advance w = some v') : v'.status = .needMore := by
  induction w generalizing v with
  | nil =>
    cases h
    exact hv
  | cons byte rest ih =>
    obtain ⟨v₁, hstep, h⟩ := advance_cons_eq_some.mp h
    have hv₁ := consume_status hv byte
    rw [hstep] at hv₁
    have hcount : v₁.count.status = .needMore := hv₁
    exact ih hcount h

/-- The validation loop from `consumed` bytes on. -/
theorem inspectLoop_inspection {start chunkSize permitted fuel : Nat} (st : InspectState)
    {c c' : CarveCoverage} {verdict : Option CandidateRead} (hchunk : 0 < chunkSize)
    (hin : start + permitted ≤ source.len)
    (hvalidation : c.validationBytesRead + (permitted - st.consumed) < 2 ^ 64)
    (hfuel : permitted - st.consumed ≤ fuel) (hconsumed : st.consumed ≤ permitted)
    (hstart : st.consumed < permitted → ReadStart chunkSize st.consumed)
    (hbuffer : st.buffer.length = min chunkSize permitted)
    (hvalidator : JpegValidator.new.advance (Bytes.window source.byte start st.consumed) =
      some st.validator)
    (hhashed : st.hashed = Bytes.window source.byte start st.consumed)
    (hreadable : ReadableFrom source start 0 st.consumed)
    (hrun : inspectLoop source.toSourceReader sha256 chunkSize start permitted fuel st c =
      .ok (verdict, c')) :
    ∃ total, Inspection source sha256 start chunkSize permitted verdict total ∧
      c'.validationBytesRead + st.consumed = c.validationBytesRead + total := by
  have hsource := source.len_lt
  -- one read for each unit of fuel; what was consumed is readable, alive and hashed
  induction fuel generalizing st c with
  | zero =>
    rw [inspectLoop, ok.injEq, Prod.mk.injEq] at hrun
    obtain ⟨rfl, rfl⟩ := hrun
    have hend : st.consumed = permitted := by omega
    rw [hend] at hvalidator hreadable
    exact ⟨permitted, .none (Option.isSome_iff_exists.mpr ⟨_, hvalidator⟩) hreadable, by rw [hend]⟩
  | succ fuel ih =>
    rw [inspectLoop] at hrun
    by_cases hlt : st.consumed < permitted
    swap
    · rw [if_neg hlt, ok.injEq, Prod.mk.injEq] at hrun
      obtain ⟨rfl, rfl⟩ := hrun
      have hend : st.consumed = permitted := by omega
      rw [hend] at hvalidator hreadable
      exact ⟨permitted, .none (Option.isSome_iff_exists.mpr ⟨_, hvalidator⟩) hreadable,
        by rw [hend]⟩
    rw [if_pos hlt] at hrun
    obtain ⟨hpos, hle⟩ := validationReadLen_bounds hchunk hlt
    have hchunkLen : validationReadLen chunkSize permitted st.consumed ≤ chunkSize := by
      simp only [validationReadLen]
      split <;> omega
    obtain ⟨readLen, hreadLen⟩ : ∃ n, n = validationReadLen chunkSize permitted st.consumed :=
      ⟨_, rfl⟩
    simp only at hrun
    rw [← hreadLen] at hrun hpos hle hchunkLen
    have hbufferLen : (st.buffer.take readLen).length = readLen := by
      rw [List.length_take, hbuffer]
      omega
    have hdelivers := source.delivers (start + st.consumed) (st.buffer.take readLen) (by omega)
    have hslice := source.length_readBestEffortAt (start + st.consumed) (st.buffer.take readLen)
    rw [hbufferLen] at hslice
    -- the read reports no range exactly when its bytes are readable
    have hgood := normalizeBadRanges_eq_nil_iff hdelivers (by omega)
    rw [hslice] at hgood
    simp only [U64.checkedAdd_of_lt (show start + st.consumed < 2 ^ 64 by omega),
      U64.checkedAdd_of_lt (show c.validationBytesRead + readLen < 2 ^ 64 by omega),
      U64.checkedAdd_of_lt (show st.consumed + readLen < 2 ^ 64 by omega), okOr, bind_ok] at hrun
    by_cases hbad : normalizeBadRanges readLen
        (source.readBestEffortAt (start + st.consumed) (st.buffer.take readLen)).2 = []
    swap
    -- a bad range ends the attempt
    · rw [if_pos hbad, pure_eq_ok, Prod.mk.injEq] at hrun
      obtain ⟨rfl, rfl⟩ := hrun
      refine ⟨_, .failed (hstart hlt) hlt (Option.isSome_iff_exists.mpr ⟨_, hvalidator⟩) ?_, ?_⟩
      · intro hread
        rw [← hreadLen] at hread
        apply hbad
        rw [hgood]
        intro i hi
        rw [Nat.add_assoc]
        exact hread _ (by omega) (by omega)
      · obtain ⟨⟨p, e, o, rs, heq, -⟩, -⟩ := issues_pushReadIssues
          { c with validationBytesRead := c.validationBytesRead + readLen } (start + st.consumed)
          (normalizeBadRanges readLen
            (source.readBestEffortAt (start + st.consumed) (st.buffer.take readLen)).2)
        rw [heq, ← hreadLen]
        simp only
        omega
    rw [if_neg (not_not_intro hbad)] at hrun
    have hclear := hgood.mp hbad
    have hreadable' : ReadableFrom source start 0 (st.consumed + readLen) := by
      intro i _ hi
      by_cases hi' : i < st.consumed
      · exact hreadable i (Nat.zero_le _) hi'
      · have := hclear (i - st.consumed) (by omega)
        rwa [Nat.add_assoc, Nat.add_sub_of_le (by omega)] at this
    -- without one, the bytes of the source enter the validator
    rw [readBestEffortAt_eq_window source hbufferLen (by omega) hclear] at hrun
    have hprocessed := advance_processedBytes hvalidator
    rw [Bytes.length_window, show JpegValidator.new.processedBytes = 0 from rfl,
      Nat.zero_add] at hprocessed
    have hwindow : Bytes.window source.byte start (st.consumed + readLen) =
        Bytes.window source.byte start st.consumed ++
          Bytes.window source.byte (start + st.consumed) readLen :=
      (Bytes.window_append ..).symm
    rw [feed_of_needMore (advance_status rfl hvalidator)] at hrun
    rcases feedFrom_cases st.validator 0 (Bytes.window source.byte (start + st.consumed) readLen)
      (by rw [Bytes.length_window]; omega) with
      ⟨v', hv', heq⟩ | ⟨u, byte, rest, v₁, v', hsplit, hv₁, hsettled, hcount, heq⟩
    · -- no verdict: the next read
      rw [heq] at hrun
      simp only [Nat.zero_add] at hrun
      obtain ⟨total, hinspection, htotal⟩ := @ih
        ⟨st.consumed + readLen, Bytes.window source.byte (start + st.consumed) readLen ++
          st.buffer.drop readLen, v', st.hashed ++ (Bytes.window source.byte (start + st.consumed)
            readLen).take (Bytes.window source.byte (start + st.consumed) readLen).length⟩ _
        (by simp only; omega) (by simp only; omega) (by simp only; omega)
        (fun hnext => by
          rw [hreadLen] at hnext ⊢
          exact readStart_next (hstart hlt) hnext)
        (by
          rw [List.length_append, List.length_drop, Bytes.length_window, hbuffer]
          omega)
        (by
          rw [hwindow, advance_append, hvalidator, Option.bind_some]
          exact hv')
        (by rw [List.take_length, hhashed, hwindow]) hreadable' hrun
      refine ⟨total, hinspection, ?_⟩
      simp only at htotal
      omega
    · -- the byte that settles the verdict is the one after `u`
      have hlength : u.length + 1 ≤ readLen := by
        have := congrArg List.length hsplit
        rw [Bytes.length_window, List.length_append, List.length_cons] at this
        omega
      have hu := eq_window_of_append hsplit
      have hsplit' : Bytes.window source.byte (start + st.consumed) readLen =
          (u ++ [byte]) ++ rest := by
        rw [hsplit, List.append_assoc]
        rfl
      have hbyte := eq_window_of_append hsplit'
      rw [List.length_append, List.length_singleton] at hbyte
      have hbefore : Bytes.window source.byte start (st.consumed + u.length) =
          Bytes.window source.byte start st.consumed ++ u := by
        rw [← Bytes.window_append, ← hu]
      have hat : Bytes.window source.byte start (st.consumed + (u.length + 1)) =
          Bytes.window source.byte start (st.consumed + u.length) ++ [byte] := by
        rw [hbefore, ← Bytes.window_append, ← hbyte, List.append_assoc]
      have hadvance : JpegValidator.new.advance
          (Bytes.window source.byte start (st.consumed + u.length)) = some v₁ := by
        rw [hbefore, advance_append, hvalidator]
        exact hv₁
      rw [heq] at hrun
      rw [hreadLen] at hlength hreadable' hrun
      cases hstep : (v₁.consume byte).1 with
      | «continue» => exact absurd hstep hsettled
      | valid =>
        simp only [hstep, Step.status, pure_eq_ok, Prod.mk.injEq, Nat.zero_add] at hrun
        obtain ⟨rfl, rfl⟩ := hrun
        have himage : IsImage (Bytes.window source.byte start (st.consumed + (u.length + 1))) := by
          rw [hat]
          exact (isImage_concat_iff hadvance).mpr hstep
        have hlen : v'.processedBytes = st.consumed + (u.length + 1) := by
          have := advance_processedBytes hv₁
          omega
        have hdigest : st.hashed ++ (Bytes.window source.byte (start + st.consumed)
            (validationReadLen chunkSize permitted st.consumed)).take (u.length + 1) =
            Bytes.window source.byte start (st.consumed + (u.length + 1)) := by
          rw [← hreadLen, hsplit', List.take_left' (by simp), hhashed, hat, hbefore,
            List.append_assoc]
        rw [hlen, hdigest]
        exact ⟨_, .valid (hstart hlt) (by omega) (by omega) hreadable' himage, by
          simp only
          omega⟩
      | invalid =>
        simp only [hstep, Step.status, pure_eq_ok, Prod.mk.injEq] at hrun
        obtain ⟨rfl, rfl⟩ := hrun
        have hdead : ¬Viable (Bytes.window source.byte start (st.consumed + (u.length + 1))) := by
          rw [hat]
          exact not_viable_of_consume hadvance hstep
        exact ⟨_, .invalid (hstart hlt) (by omega) (by omega) hreadable'
          (Option.isSome_iff_exists.mpr ⟨_, hadvance⟩) hdead, by
            simp only
            omega⟩

/-! ## The verdict -/

variable {source sha256}

/-- The bytes of the candidate at `start` that a validation may read. -/
def clipOf (limits : CarveLimits) (start regionEnd : Nat) : Nat :=
  min (regionEnd - start) limits.maxCandidateBytes

theorem validationReadLen_mono {chunkSize permitted clip e : Nat} (h : permitted ≤ clip) :
    validationReadLen chunkSize permitted e ≤ validationReadLen chunkSize clip e := by
  simp only [validationReadLen]
  omega

/-- A read that the validation budget does not cut short. -/
theorem validationReadLen_eq {chunkSize permitted clip e : Nat} (h : permitted ≤ clip)
    (hfull : permitted = clip ∨ e + validationReadLen chunkSize permitted e < permitted) :
    validationReadLen chunkSize permitted e = validationReadLen chunkSize clip e := by
  rcases hfull with rfl | hfull
  · rfl
  · simp only [validationReadLen] at *
    omega

/-- A validation below the budget ends as an inspection of at most `clipOf` bytes. -/
theorem readAndInspectCandidate_inspection {limits : CarveLimits} (hlimits : limits.Valid)
    {start regionEnd : Nat} {c c' : CarveCoverage} {verdict : CandidateRead}
    (hstart : start ≤ regionEnd) (hin : regionEnd ≤ source.len)
    (hbudget : c'.validationBytesRead < limits.maxValidationBytes)
    (hrun : readAndInspectCandidate source.toSourceReader sha256 start regionEnd limits c =
      .ok (verdict, c')) :
    ∃ permitted total loopVerdict, permitted ≤ clipOf limits start regionEnd ∧
      (permitted = clipOf limits start regionEnd ∨ total < permitted) ∧
      Inspection source sha256 start limits.chunkSize permitted loopVerdict total ∧
      (loopVerdict = some verdict ∨ loopVerdict = none ∧ verdict =
        if permitted < clipOf limits start regionEnd then .validationByteLimit
        else if clipOf limits start regionEnd < regionEnd - start then .byteLimit
        else .truncated) := by
  have hsource := source.len_lt
  have hmax := hlimits.validation_lt
  have hchunk := hlimits.chunkSize_ge
  simp only [readAndInspectCandidate, throw_bind] at hrun
  rw [if_neg (by omega)] at hrun
  -- an exhausted budget contradicts the premise
  by_cases hzero : limits.maxValidationBytes - c.validationBytesRead = 0
  · rw [if_pos hzero, pure_eq_ok, Prod.mk.injEq] at hrun
    obtain ⟨-, rfl⟩ := hrun
    omega
  rw [if_neg hzero] at hrun
  obtain ⟨permitted, hpermitted⟩ : ∃ n, n = min (min (regionEnd - start) limits.maxCandidateBytes)
    (limits.maxValidationBytes - c.validationBytesRead) := ⟨_, rfl⟩
  rw [← hpermitted] at hrun
  obtain ⟨⟨loopVerdict, c₁⟩, hloop, hrun⟩ := bind_eq_ok.mp hrun
  obtain ⟨total, hinspection, htotal⟩ := inspectLoop_inspection source sha256
    ⟨0, List.replicate (min limits.chunkSize permitted) 0, .new, []⟩
    (by omega) (by omega) (by simp only; omega) (by simp only; omega) (Nat.zero_le _)
    (fun _ => Or.inl rfl) (List.length_replicate ..) rfl rfl
    (fun i _ hi => absurd hi (Nat.not_lt_zero i)) hloop
  simp only [Nat.add_zero] at htotal
  -- below the budget the clip is not what stopped the loop
  have hfull : ∀ c₂ : CarveCoverage, c₂ = c₁ → c₂.validationBytesRead < limits.maxValidationBytes →
      permitted = clipOf limits start regionEnd ∨ total < permitted := by
    rintro c₂ rfl hlt
    unfold clipOf
    omega
  refine ⟨permitted, total, loopVerdict, by unfold clipOf; omega, ?_, hinspection, ?_⟩
  · apply hfull c' _ hbudget
    cases loopVerdict with
    | some verdict' => exact (Prod.mk.inj (pure_eq_ok.mp hrun)).2.symm
    | none =>
      simp only at hrun
      split at hrun
      · exact (Prod.mk.inj (pure_eq_ok.mp hrun)).2.symm
      · split at hrun <;> exact (Prod.mk.inj (pure_eq_ok.mp hrun)).2.symm
  · cases loopVerdict with
    | some verdict' => exact Or.inl (congrArg some (Prod.mk.inj (pure_eq_ok.mp hrun)).1)
    | none =>
      refine Or.inr ⟨rfl, ?_⟩
      simp only at hrun
      unfold clipOf
      split at hrun
      · next h => rw [if_pos h, (Prod.mk.inj (pure_eq_ok.mp hrun)).1]
      · next h =>
        rw [if_neg h]
        split at hrun
        · next h' => rw [if_pos h', (Prod.mk.inj (pure_eq_ok.mp hrun)).1]
        · next h' => rw [if_neg h', (Prod.mk.inj (pure_eq_ok.mp hrun)).1]

/-- An image is accepted exactly when every read up to its last byte is readable. -/
theorem valid_verdict_iff {limits : CarveLimits} (hlimits : limits.Valid)
    {start regionEnd : Nat} {c c' : CarveCoverage} {verdict : CandidateRead}
    (hstart : start ≤ regionEnd) (hin : regionEnd ≤ source.len)
    (hbudget : c'.validationBytesRead < limits.maxValidationBytes)
    (hrun : readAndInspectCandidate source.toSourceReader sha256 start regionEnd limits c =
      .ok (verdict, c')) (n : Nat) (digest : Vector UInt8 32) :
    verdict = .valid n digest ↔
      n ≤ clipOf limits start regionEnd ∧ IsImage (Bytes.window source.byte start n) ∧
      ReadableFrom source start 0
        (validationReadEnd limits.chunkSize (clipOf limits start regionEnd) n) ∧
      digest = sha256 (Bytes.window source.byte start n) := by
  have hchunk : 0 < limits.chunkSize := by
    have := hlimits.chunkSize_ge
    omega
  obtain ⟨permitted, total, loopVerdict, hclip, hfull, hinspection, hverdict⟩ :=
    readAndInspectCandidate_inspection hlimits hstart hin hbudget hrun
  -- by what ended the loop
  cases hinspection with
  | none halive hread =>
    have hne : ∀ n digest, verdict ≠ .valid n digest := by
      rcases hverdict with h | ⟨-, rfl⟩
      · cases h
      · intro n digest
        split
        · exact CandidateRead.noConfusion
        · split <;> exact CandidateRead.noConfusion
    constructor
    · intro h
      exact absurd h (hne n digest)
    · rintro ⟨hn, himage, -, -⟩
      exact absurd (alive_window halive (by omega)) himage.not_alive
  | @failed e hread he halive hbad =>
    rcases hverdict with h | ⟨h, -⟩
    swap
    · cases h
    rw [← Option.some.inj h]
    constructor
    · intro h
      cases h
    · rintro ⟨hn, himage, hreadable, -⟩
      exfalso
      -- the loop failed in a read that a shorter image had not reached
      by_cases hlt : n ≤ e
      · exact himage.not_alive (alive_window halive hlt)
      · apply hbad
        intro i _ hi
        apply hreadable i (Nat.zero_le _)
        have hmono : validationReadLen limits.chunkSize permitted e ≤
            validationReadLen limits.chunkSize (clipOf limits start regionEnd) e :=
          validationReadLen_mono hclip
        by_cases hin : n ≤ e + validationReadLen limits.chunkSize
            (clipOf limits start regionEnd) e
        · rw [validationReadEnd_eq hchunk hread (by omega) hin]
          omega
        · have := le_validationReadEnd hchunk hn
          omega
  | @valid e m hread he hm hreadable himage =>
    rcases hverdict with h | ⟨h, -⟩
    swap
    · cases h
    rw [← Option.some.inj h, CandidateRead.valid.injEq]
    have hlen := validationReadLen_eq hclip hfull
    have hmclip : m ≤ clipOf limits start regionEnd := by
      have : validationReadLen limits.chunkSize permitted e ≤ permitted - e :=
        Nat.min_le_right _ _
      omega
    constructor
    · rintro ⟨rfl, rfl⟩
      refine ⟨hmclip, himage, ?_, rfl⟩
      rw [validationReadEnd_eq hchunk hread he (by omega), ← hlen]
      exact hreadable
    · rintro ⟨-, himage', -, rfl⟩
      -- an image has one end
      obtain rfl := isImage_window_unique himage himage'
      exact ⟨rfl, rfl⟩
  | @invalid e m hread he hm hreadable halive hdead =>
    rcases hverdict with h | ⟨h, -⟩
    swap
    · cases h
    rw [← Option.some.inj h]
    constructor
    · intro h
      cases h
    · rintro ⟨-, himage, -, -⟩
      exfalso
      by_cases hlt : n < m
      · exact himage.not_alive (alive_window halive (by omega))
      · obtain ⟨rest, heq, -⟩ := window_le_append source.byte start (Nat.le_of_not_lt hlt)
        rw [heq] at himage
        exact hdead (Or.inl ⟨rest, himage⟩)

/-- A readable image that is longer than the candidate limit hits that limit. -/
theorem byteLimit_verdict {limits : CarveLimits} (hlimits : limits.Valid)
    {start regionEnd n : Nat} {c c' : CarveCoverage} {verdict : CandidateRead}
    (hstart : start + n ≤ regionEnd) (hin : regionEnd ≤ source.len)
    (hbudget : c'.validationBytesRead < limits.maxValidationBytes)
    (hrun : readAndInspectCandidate source.toSourceReader sha256 start regionEnd limits c =
      .ok (verdict, c')) (himage : IsImage (Bytes.window source.byte start n))
    (hreadable : ReadableFrom source start 0 n) (hn : limits.maxCandidateBytes < n) :
    verdict = .byteLimit := by
  have hchunk : 0 < limits.chunkSize := by
    have := hlimits.chunkSize_ge
    omega
  obtain ⟨permitted, total, loopVerdict, hclip, hfull, hinspection, hverdict⟩ :=
    readAndInspectCandidate_inspection hlimits (by omega) hin hbudget hrun
  -- the image does not fit below the limit
  have hclipn : clipOf limits start regionEnd < n := by
    unfold clipOf
    omega
  have hle : ∀ e, e < permitted → validationReadLen limits.chunkSize permitted e ≤ permitted - e :=
    fun e _ => Nat.min_le_right _ _
  -- so the loop ends without a verdict
  cases hinspection with
  | none halive hread =>
    rcases hverdict with h | ⟨-, rfl⟩
    · cases h
    · rw [if_neg (by omega), if_pos]
      unfold clipOf
      omega
  | @failed e hread he halive hbad =>
    exfalso
    apply hbad
    intro i _ hi
    have := hle e he
    exact hreadable i (Nat.zero_le _) (by omega)
  | @valid e m hread he hm _ himage' =>
    exfalso
    have := isImage_window_unique himage himage'
    have : validationReadLen limits.chunkSize permitted e ≤ permitted - e := Nat.min_le_right _ _
    omega
  | @invalid e m hread he hm _ halive hdead =>
    exfalso
    have : validationReadLen limits.chunkSize permitted e ≤ permitted - e := Nat.min_le_right _ _
    obtain ⟨rest, heq, -⟩ := window_le_append source.byte start (show m ≤ n by omega)
    rw [heq] at himage
    exact hdead (Or.inl ⟨rest, himage⟩)

end Undelete.Carve
