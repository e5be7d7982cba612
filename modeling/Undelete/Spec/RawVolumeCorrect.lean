import Undelete.ForStd.Except
import Undelete.Native.RawVolume

/-!
# Raw reads of a volume

On a device that answers every request by a nonempty part of it, a read of a range inside the
volume, of at most four MiB, delivers the bytes of the range. It requests the sectors that the
range touches and nothing else; a request is never longer than a 32-bit word, so where a sector
takes gigabytes the first request may end inside one.

## Key results

- `planAlignedRead_inside`, `planAlignedRead_outside`: the plan, and when there is none.
- `readAligned_spec`: what the loop reads and requests.
- `readExactAt_exact`: what a read delivers and requests.
-/

namespace Undelete.Windows

open Except

/-! ## The plan -/

/-- The start of the sector that holds `offset`. -/
def sectorStart (sector offset : Nat) : Nat := offset - offset % sector

/-- The end of the last sector that begins before `stop`. -/
def sectorStop (sector stop : Nat) : Nat :=
  stop + (sector - 1) - (stop + (sector - 1)) % sector

section Plan

variable {sector offset length sourceLength : Nat}

theorem sectorStart_mod (sector offset : Nat) : sectorStart sector offset % sector = 0 :=
  Nat.sub_mod_eq_zero_of_mod_eq (Nat.mod_mod offset sector).symm

theorem sectorStop_mod (sector stop : Nat) : sectorStop sector stop % sector = 0 :=
  Nat.sub_mod_eq_zero_of_mod_eq (Nat.mod_mod _ sector).symm

theorem le_sectorStop (hsector : 0 < sector) (stop : Nat) : stop ≤ sectorStop sector stop := by
  have hmod := Nat.mod_lt (stop + (sector - 1)) hsector
  unfold sectorStop
  omega

/-- The sectors of a range end inside a source of whole sectors. -/
theorem sectorStop_le {stop : Nat} (hsector : 0 < sector) (hwhole : sourceLength % sector = 0)
    (h : stop ≤ sourceLength) : sectorStop sector stop ≤ sourceLength := by
  have hsplit := Nat.div_add_mod (stop + (sector - 1)) sector
  have hsource := Nat.div_add_mod sourceLength sector
  have hquotient : (stop + (sector - 1)) / sector ≤ sourceLength / sector := by
    apply Nat.lt_succ_iff.mp
    rw [Nat.div_lt_iff_lt_mul hsector, Nat.succ_mul, Nat.mul_comm]
    omega
  have hmul := Nat.mul_le_mul_left sector hquotient
  unfold sectorStop
  omega

/-- Inside the source, the plan covers the sectors of the range. -/
theorem planAlignedRead_inside (hsector : 0 < sector) (hword : sector < 2 ^ 32)
    (hwhole : sourceLength % sector = 0) (hsource : sourceLength < 2 ^ 63)
    (hpos : 0 < length) (hlength : length ≤ maxRawReadBytes)
    (hinside : offset + length ≤ sourceLength) :
    planAlignedRead offset length sourceLength sector = .ok
      { alignedOffset := sectorStart sector offset
        alignedLength := sectorStop sector (offset + length) - sectorStart sector offset
        copyOffset := offset - sectorStart sector offset
        copyLength := length } := by
  have hstart : sectorStart sector offset ≤ offset := Nat.sub_le _ _
  have hstop := le_sectorStop hsector (offset + length)
  have hle := sectorStop_le hsector hwhole hinside
  -- inside the volume no rounding under- or overflows
  have hdown : sub offset (offset % sector) = .ok (sectorStart sector offset) :=
    if_pos (Nat.mod_le _ _)
  have hround : sub sector 1 = .ok (sector - 1) := if_pos hsector
  have hup : sub (offset + length + (sector - 1)) ((offset + length + (sector - 1)) % sector) =
      .ok (sectorStop sector (offset + length)) := if_pos (Nat.mod_le _ _)
  have haligned : checkedSub (sectorStop sector (offset + length)) (sectorStart sector offset) =
      some (sectorStop sector (offset + length) - sectorStart sector offset) := if_pos (by omega)
  have hcopy : checkedSub offset (sectorStart sector offset) =
      some (offset - sectorStart sector offset) := if_pos hstart
  unfold planAlignedRead
  simp only [throw_bind]
  rw [if_neg (Nat.ne_of_gt hsector), if_neg (Nat.not_lt_of_le hlength),
    U64.checkedAdd_of_lt (by omega), okOr, bind_ok, if_neg (Nat.not_lt_of_le hinside),
    if_neg (Nat.ne_of_gt hpos), hdown, bind_ok, hround, bind_ok, U64.checkedAdd_of_lt (by omega),
    okOr, bind_ok, hup, bind_ok, if_neg (Nat.not_lt_of_le hle), haligned, okOr, bind_ok,
    hcopy, okOr,
    bind_ok, U64.checkedAdd_of_lt (by omega), okOr, bind_ok, if_neg (by omega)]
  rfl

/-- Nothing is planned for an empty range. -/
theorem planAlignedRead_empty (hsector : 0 < sector) (hsource : sourceLength < 2 ^ 63)
    (hinside : offset ≤ sourceLength) :
    planAlignedRead offset 0 sourceLength sector =
      .ok { alignedOffset := offset, alignedLength := 0, copyOffset := 0, copyLength := 0 } := by
  unfold planAlignedRead
  simp only [throw_bind]
  rw [if_neg (Nat.ne_of_gt hsector), if_neg (Nat.not_lt_zero _), U64.checkedAdd_of_lt (by omega),
    okOr, bind_ok, Nat.add_zero, if_neg (Nat.not_lt_of_le hinside), if_pos trivial]
  rfl

/-- Outside the source there is no plan. -/
theorem planAlignedRead_outside (hsector : 0 < sector)
    (h : ¬(offset + length ≤ sourceLength ∧ length ≤ maxRawReadBytes)) :
    ∃ error, planAlignedRead offset length sourceLength sector = .error (planFault error) := by
  unfold planAlignedRead
  simp only [throw_bind]
  rw [if_neg (Nat.ne_of_gt hsector)]
  by_cases hlength : length > maxRawReadBytes
  · exact ⟨_, if_pos hlength⟩
  · rw [if_neg hlength]
    cases hstop : U64.checkedAdd offset length with
    | none => exact ⟨_, rfl⟩
    | some stop =>
      obtain ⟨-, rfl⟩ := U64.checkedAdd_eq_some.mp hstop
      have hout : offset + length > sourceLength :=
        Nat.lt_of_not_le fun hle => h ⟨hle, Nat.le_of_not_lt hlength⟩
      exact ⟨_, if_pos hout⟩

end Plan

/-! ## The device -/

/-- A device that holds the bytes `byte` and answers a request with `count` of them, by its
    state, the place and the length of the request. -/
structure PrefixDevice (σ : Type) where
  byte : Nat → UInt8
  count : σ → Nat → Nat → Nat
  next : σ → Nat → Nat → σ
  count_pos : ∀ s place chunk, 0 < chunk → 0 < count s place chunk
  count_le : ∀ s place chunk, count s place chunk ≤ chunk

/-- A handle of the device, with its file pointer and the requests so far: the place and the
    length of each. -/
structure Handle (σ : Type) where
  state : σ
  pointer : Nat
  requests : List (Nat × Nat)

section Device

variable {σ : Type} (device : PrefixDevice σ) {start length : Nat}

theorem PrefixDevice.length_answer {handle handle' : Handle σ} {chunk : Nat} {bytes : Bytes}
    (h : ((.ok (Bytes.window device.byte handle.pointer
        (device.count handle.state handle.pointer chunk)) : Except UInt32 Bytes), handle') =
      (.ok bytes, handle')) : bytes.length ≤ chunk := by
  cases h
  rw [Bytes.length_window]
  exact device.count_le _ _ _

/-- The calls on such a handle. -/
def PrefixDevice.toRawDevice : RawDevice (Handle σ) where
  setFilePointerEx handle place := (.ok (), { handle with pointer := place })
  readFile handle chunk :=
    (.ok (Bytes.window device.byte handle.pointer (device.count handle.state handle.pointer chunk)),
      { state := device.next handle.state handle.pointer chunk
        pointer := handle.pointer + device.count handle.state handle.pointer chunk
        requests := handle.requests ++ [(handle.pointer, chunk)] })
  length_readFile := by
    intro handle chunk bytes handle' h
    obtain rfl := (Prod.mk.inj h).2
    exact device.length_answer h

/-- One round of the loop, on any device. -/
theorem readAligned_step {raw : RawDevice σ} {s s' : σ} {aligned bytes : Bytes} {completed : Nat}
    (hmore : completed < aligned.length)
    (hread : raw.readFile s (min (aligned.length - completed) (2 ^ 32 - 1)) = (.ok bytes, s'))
    (hsome : 0 < bytes.length) (hword : completed + bytes.length < 2 ^ 64) :
    readAligned raw s aligned completed =
      readAligned raw s' (putAt aligned completed bytes) (completed + bytes.length) := by
  rw [readAligned, if_pos hmore]
  split
  · next code s'' herror =>
    rw [hread] at herror
    cases herror
  · next bytes' s'' hread' =>
    rw [hread] at hread'
    cases hread'
    rw [dif_neg (Nat.ne_of_gt hsome)]
    split
    · next hnone =>
      rw [U64.checkedAdd_of_lt hword] at hnone
      cases hnone
    · next next hnext =>
      rw [U64.checkedAdd_of_lt hword] at hnext
      cases hnext
      rfl

theorem take_putAt {aligned bytes : Bytes} {completed : Nat} (h : completed ≤ aligned.length) :
    (putAt aligned completed bytes).take (completed + bytes.length) =
      aligned.take completed ++ bytes := by
  have hlength : (aligned.take completed ++ bytes).length = completed + bytes.length := by
    rw [List.length_append, List.length_take, Nat.min_eq_left h]
  rw [putAt, ← hlength, List.take_left]

/-- The requests of a loop that reads `length` bytes from `start` on and has read `completed`. -/
structure Requests (start length completed : Nat) (requests : List (Nat × Nat)) : Prop where
  inside : ∀ request ∈ requests, start + completed ≤ request.1 ∧ 0 < request.2 ∧
    request.2 < 2 ^ 32 ∧ request.1 + request.2 ≤ start + length
  first : requests.head? = if completed < length then
    some (start + completed, min (length - completed) (2 ^ 32 - 1)) else none

/-- The loop fills the buffer, and requests nothing else. -/
theorem readAligned_spec (hword : length < 2 ^ 64) {handle : Handle σ} {aligned : Bytes}
    {completed : Nat} (hlength : aligned.length = length) (hcompleted : completed ≤ length)
    (hpointer : handle.pointer = start + completed)
    (htake : aligned.take completed = Bytes.window device.byte start completed) :
    ∃ requests handle', readAligned device.toRawDevice handle aligned completed =
        (.ok (Bytes.window device.byte start length), handle') ∧
      handle'.requests = handle.requests ++ requests ∧
      Requests start length completed requests := by
  -- on the bytes that are left; every read returns at least one
  induction hleft : length - completed using Nat.strongRecOn
    generalizing handle aligned completed with
  | ind left ih =>
    by_cases hmore : completed < length
    · generalize hchunk : min (length - completed) (2 ^ 32 - 1) = chunk
      generalize hcount : device.count handle.state handle.pointer chunk = n
      have hpos : 0 < n := hcount ▸ device.count_pos _ _ _ (by omega)
      have hle : n ≤ chunk := hcount ▸ device.count_le _ _ _
      have hbytes := Bytes.length_window device.byte handle.pointer n
      have hstep := @readAligned_step _ device.toRawDevice handle _ aligned _ completed
        (by omega) rfl (by
          show 0 < (Bytes.window _ _ (device.count _ _ _)).length
          rw [hlength, hchunk, hcount, hbytes]
          exact hpos) (by
          show completed + (Bytes.window _ _ (device.count _ _ _)).length < _
          rw [hlength, hchunk, hcount, hbytes]
          omega)
      rw [hlength, hchunk, hcount, hbytes] at hstep
      have hput := @take_putAt aligned (Bytes.window device.byte handle.pointer n) completed
        (by omega)
      have hput' := @length_putAt aligned (Bytes.window device.byte handle.pointer n) completed
        (by omega)
      rw [hbytes, htake, hpointer, Bytes.window_append] at hput
      rw [hpointer] at hput' hstep
      obtain ⟨requests, handle', hread, hrequests, hspec⟩ :=
        @ih (length - (completed + n)) (by omega) ⟨_, _, _⟩ _ _ (hput'.trans hlength) (by omega)
          (Nat.add_assoc _ _ _) hput rfl
      refine ⟨(start + completed, chunk) :: requests, handle', hstep.trans hread, ?_, ⟨?_, ?_⟩⟩
      · rw [hrequests, List.append_assoc]
        rfl
      · intro request hrequest
        cases List.mem_cons.mp hrequest with
        | inl heq =>
          rw [heq]
          exact ⟨Nat.le_refl _, by omega, by omega, by omega⟩
        | inr hmem =>
          obtain ⟨hlow, hsome, hshort, hhigh⟩ := hspec.inside request hmem
          exact ⟨by omega, hsome, hshort, hhigh⟩
      · rw [List.head?_cons, if_pos hmore, hchunk]
    · obtain rfl : completed = length := by omega
      refine ⟨[], handle, ?_, (List.append_nil _).symm, ⟨fun request hmem =>
        absurd hmem List.not_mem_nil, (if_neg hmore).symm⟩⟩
      rw [readAligned, if_neg (by omega), ← htake, List.take_of_length_le (by omega)]

end Device

/-! ## The read -/

section Read

variable {σ : Type} (device : PrefixDevice σ) (volume : RawVolumeInner) (handle : Handle σ)
  {offset length : Nat}

/-- The sector size of the volume. -/
abbrev RawVolumeInner.sector : Nat := volume.layout.logical.toNat

/-- A read that is planned, on any device. -/
theorem readExactAt_eq {σ : Type} {raw : RawDevice σ} {s s₁ s₂ : σ} {plan : AlignedReadPlan}
    {aligned : Bytes}
    (hplan : planAlignedRead offset length volume.length volume.sector = .ok plan)
    (hsome : plan.copyLength ≠ 0) (hplace : plan.alignedOffset < 2 ^ 63)
    (hseek : raw.setFilePointerEx s plan.alignedOffset = (.ok (), s₁))
    (hread : readAligned raw s₁ (List.replicate plan.alignedLength 0) 0 = (.ok aligned, s₂)) :
    volume.readExactAt raw s offset length = (copyOut plan aligned length, s₂) := by
  unfold RawVolumeInner.readExactAt
  rw [hplan]
  dsimp only
  rw [if_neg hsome, if_neg (Nat.not_le_of_lt hplace), hseek]
  dsimp only
  rw [hread]

theorem copyOut_window {byte : Nat → UInt8} {start sectors copyOffset : Nat}
    (hword : sectors < 2 ^ 64) (h : copyOffset + length ≤ sectors) :
    copyOut ⟨start, sectors, copyOffset, length⟩ (Bytes.window byte start sectors) length =
      .ok (Bytes.window byte (start + copyOffset) length) := by
  unfold copyOut
  dsimp only
  rw [U64.checkedAdd_of_lt (by omega), okOr, bind_ok, Bytes.length_window,
    if_pos ⟨Nat.le_add_right _ _, h, Nat.add_sub_cancel_left _ _⟩, Bytes.slice_window _ _ h,
    Nat.add_sub_cancel_left]
  rfl

/-- A range inside the volume is read, by requests for its sectors. -/
theorem readExactAt_inside (hpos : 0 < length) (hlength : length ≤ maxRawReadBytes)
    (hinside : offset + length ≤ volume.length) :
    ∃ requests handle', volume.readExactAt device.toRawDevice handle offset length =
        (.ok (Bytes.window device.byte offset length), handle') ∧
      handle'.requests = handle.requests ++ requests ∧
      Requests (sectorStart volume.sector offset)
        (sectorStop volume.sector (offset + length) - sectorStart volume.sector offset) 0
        requests := by
  have hsource := volume.length_lt
  have hplan := planAlignedRead_inside volume.sector_pos volume.layout.logical.toNat_lt
    volume.wholeSectors hsource hpos hlength hinside
  have hstart : sectorStart volume.sector offset ≤ offset := Nat.sub_le _ _
  have hstop : offset + length ≤ sectorStop volume.sector (offset + length) :=
    le_sectorStop volume.sector_pos (offset + length)
  have hle : sectorStop volume.sector (offset + length) ≤ volume.length :=
    sectorStop_le volume.sector_pos volume.wholeSectors hinside
  change planAlignedRead offset length volume.length volume.sector = .ok ⟨sectorStart volume.sector
    offset, sectorStop volume.sector (offset + length) - sectorStart volume.sector offset,
    offset - sectorStart volume.sector offset, length⟩ at hplan
  generalize sectorStart volume.sector offset = start at *
  generalize sectorStop volume.sector (offset + length) = stop at *
  obtain ⟨requests, handle', hread, hrequests, hspec⟩ := @readAligned_spec _ device start
    (stop - start) (by omega) { handle with pointer := start } (List.replicate (stop - start) 0) 0
    List.length_replicate (Nat.zero_le _) rfl rfl
  refine ⟨requests, handle', ?_, hrequests, hspec⟩
  rw [readExactAt_eq volume hplan (Nat.ne_of_gt hpos) (show start < 2 ^ 63 by omega) rfl hread,
    copyOut_window (by omega) (by omega), Nat.add_sub_cancel' hstart]

/-- An empty range inside the volume is read without a request. -/
theorem readExactAt_empty {raw : RawDevice σ} (s : σ) (hinside : offset ≤ volume.length) :
    volume.readExactAt raw s offset 0 = (.ok [], s) := by
  have hplan := planAlignedRead_empty volume.sector_pos volume.length_lt hinside
  unfold RawVolumeInner.readExactAt
  rw [hplan]
  exact if_pos rfl

/-- Nothing is requested outside the volume, and behind the limit. -/
theorem readExactAt_outside {raw : RawDevice σ} (s : σ)
    (h : ¬(offset + length ≤ volume.length ∧ length ≤ maxRawReadBytes)) :
    ∃ error, volume.readExactAt raw s offset length = (.error (planFault error), s) := by
  obtain ⟨error, herror⟩ := planAlignedRead_outside volume.sector_pos h
  refine ⟨error, ?_⟩
  unfold RawVolumeInner.readExactAt
  rw [herror]

end Read

/-- A read succeeds exactly inside the volume and up to the limit, and then delivers the bytes of
    the range. Nothing panics. The requests stay inside the sectors of the range, so inside the
    volume; the first one begins at a sector and is for whole sectors, unless the sectors of the
    range are too many bytes for one request. -/
theorem readExactAt_exact {σ : Type} (device : PrefixDevice σ) (volume : RawVolumeInner) (s : σ)
    (pointer offset length : Nat) :
    let result := volume.readExactAt device.toRawDevice ⟨s, pointer, []⟩ offset length
    let start := sectorStart volume.sector offset
    let stop := sectorStop volume.sector (offset + length)
    (∀ bytes, result.1 = .ok bytes ↔ (offset + length ≤ volume.length ∧ length ≤ maxRawReadBytes) ∧
      bytes = Bytes.window device.byte offset length) ∧
    result.1 ≠ .error .panic ∧
    (∀ request ∈ result.2.requests, start ≤ request.1 ∧ 0 < request.2 ∧ request.2 < 2 ^ 32 ∧
      request.1 + request.2 ≤ stop ∧ stop ≤ volume.length) ∧
    ∀ first, result.2.requests.head? = some first →
      first.1 = start ∧ first.1 % volume.sector = 0 ∧
        first.2 = min (stop - start) (2 ^ 32 - 1) ∧
          (stop - start < 2 ^ 32 → first.2 % volume.sector = 0) := by
  intro result start stop
  have hnone : ∀ {P : Nat × Nat → Prop}, (∀ request ∈ ([] : List (Nat × Nat)), P request) ∧
      ∀ first, ([] : List (Nat × Nat)).head? = some first → P first := by
    intro P
    refine ⟨fun request hmem => absurd hmem List.not_mem_nil, fun first hfirst => ?_⟩
    cases hfirst
  -- the plan refuses what is outside or too long before the device is used
  by_cases hinside : offset + length ≤ volume.length ∧ length ≤ maxRawReadBytes
  · have hstop : stop ≤ volume.length :=
      sectorStop_le volume.sector_pos volume.wholeSectors hinside.1
    cases Nat.eq_zero_or_pos length with
    | inl hempty =>
      subst hempty
      have hresult : result = (.ok [], ⟨s, pointer, []⟩) :=
        readExactAt_empty volume _ hinside.1
      rw [hresult]
      refine ⟨fun bytes => ?_, fun hpanic => (by cases hpanic), hnone.1, hnone.2⟩
      rw [ok.injEq]
      exact ⟨fun heq => ⟨hinside, heq.symm⟩, fun heq => heq.2.symm⟩
    | inr hpos =>
      obtain ⟨requests, handle', hread, hrequests, hspec⟩ :=
        readExactAt_inside device volume ⟨s, pointer, []⟩ hpos hinside.2 hinside.1
      have hresult : result = (.ok (Bytes.window device.byte offset length), handle') := hread
      rw [hresult]
      dsimp only
      rw [hrequests, List.nil_append]
      refine ⟨fun bytes => ?_, fun hpanic => (by cases hpanic), fun request hmem => ?_,
        fun first hfirst => ?_⟩
      · rw [ok.injEq]
        exact ⟨fun heq => ⟨hinside, heq.symm⟩, fun heq => heq.2.symm⟩
      · obtain ⟨hlow, hsome, hshort, hhigh⟩ := hspec.inside request hmem
        have hhigh : request.1 + request.2 ≤ start + (stop - start) := hhigh
        exact ⟨hlow, hsome, hshort, by omega, hstop⟩
      · have hcover : offset + length ≤ stop := le_sectorStop volume.sector_pos _
        have hstart : start ≤ offset := Nat.sub_le _ _
        have hhead : some first = some (start + 0, min (stop - start - 0) (2 ^ 32 - 1)) := by
          rw [← hfirst, hspec.first]
          exact if_pos (by omega)
        obtain rfl := Option.some.inj hhead
        refine ⟨rfl, sectorStart_mod _ _, rfl, fun hfits => ?_⟩
        have hwhole : min (stop - start - 0) (2 ^ 32 - 1) = stop - start := by omega
        show min (stop - start - 0) (2 ^ 32 - 1) % volume.sector = 0
        rw [hwhole]
        exact Nat.sub_mod_eq_zero_of_mod_eq
          ((sectorStop_mod _ _).trans (sectorStart_mod _ _).symm)
  · obtain ⟨error, herror⟩ := @readExactAt_outside _ volume _ _ device.toRawDevice
      ⟨s, pointer, []⟩ hinside
    have hresult : result = (.error (planFault error), ⟨s, pointer, []⟩) := herror
    rw [hresult]
    refine ⟨fun bytes => ?_, fun hpanic => (by cases hpanic), hnone.1, hnone.2⟩
    exact ⟨fun heq => (by cases heq), fun h => absurd h.1 hinside⟩

/-- A device that answers at most `step` bytes at once. -/
def steppedDevice (step : Nat) (hstep : 0 < step) : PrefixDevice Unit where
  byte place := UInt8.ofNat place
  count _ _ chunk := min step chunk
  next _ _ _ := ()
  count_pos _ _ _ hchunk := Nat.lt_min.mpr ⟨hstep, hchunk⟩
  count_le _ _ _ := Nat.min_le_right _ _

/-- A volume of sixteen sectors. -/
def smallVolume : RawVolumeInner where
  length := 8192
  layout := ⟨512, 512⟩
  length_lt := by decide
  sector_pos := by decide
  wholeSectors := by decide

/-- An unaligned read of a device that answers a hundred bytes at once. -/
theorem readExactAt_exact_small :
    (smallVolume.readExactAt (steppedDevice 100 (by decide)).toRawDevice ⟨(), 0, []⟩ 513 1000).1 =
      .ok (Bytes.window (fun place => UInt8.ofNat place) 513 1000) := by
  obtain ⟨hread, -⟩ := readExactAt_exact (steppedDevice 100 (by decide)) smallVolume () 0 513 1000
  exact (hread _).mpr ⟨⟨by decide, by decide⟩, rfl⟩

/-- A volume of two sectors of two GiB. -/
def hugeSectors : RawVolumeInner where
  length := 2 ^ 32
  layout := ⟨2147483648, 2147483648⟩
  length_lt := by decide
  sector_pos := by decide
  wholeSectors := by decide

/-- A read of two bytes at the border of the two sectors requests all but the last byte of them
    first. -/
theorem readExactAt_partSector :
    ((hugeSectors.readExactAt (steppedDevice 1 (by decide)).toRawDevice ⟨(), 0, []⟩
      (2 ^ 31 - 1) 2).2.requests.head? = some (0, 2 ^ 32 - 1)) ∧
      (2 ^ 32 - 1) % hugeSectors.sector ≠ 0 := by
  refine ⟨?_, by decide⟩
  obtain ⟨requests, handle', hread, hrequests, hspec⟩ :=
    @readExactAt_inside _ (steppedDevice 1 (by decide)) hugeSectors ⟨(), 0, []⟩ (2 ^ 31 - 1) 2
      (by decide) (by decide) (by decide)
  rw [hread, hrequests, List.nil_append, hspec.first]
  decide

end Undelete.Windows
