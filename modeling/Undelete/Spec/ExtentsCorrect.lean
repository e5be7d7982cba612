import Undelete.ForStd.Intervals
import Undelete.Native.Ntfs.Extents
import Undelete.Spec.RunsCorrect

/-!
# Extents of a non-resident stream

`buildExtents` turns a run list into extents in three nested passes: the run walk,
the split by allocation status and the split at the initialized size. Each pass is
described by the same two facts: the extents it returns tile a logical range, and
they place every byte of it where `place` says (`Renders`).

## Key results

- `splitByAllocation_renders`: the groups of a physical run tile it.
- `runExtents_renders`: the walk tiles the stream as far as the runs reach.
- `buildExtents_renders`: the extents of an uncompressed non-resident stream.
-/

namespace Undelete

instance : IntervalLike ExtentRun where
  start e := e.logicalOffset
  len e := e.len

end Undelete

namespace Undelete.Ntfs

open Except IntervalLike
open U64 (wrappingAdd wrappingMul)

/-! ## Where a byte is -/

/-- The availability the bitmap gives to the cluster at physical offset `p`. -/
def availabilityAt (allocation : Option AllocationMap) (clusterSize p : Nat) :
    ExtentAvailability :=
  availabilityOf (allocation.bind (·.isAllocated (p / clusterSize)))

/-- How a byte at `p` is reported: a byte without a physical offset is sparse. -/
def placeOf (allocation : Option AllocationMap) (clusterSize : Nat) (p : Option Nat) :
    Option Nat × ExtentAvailability :=
  match p with
  | none => (none, .sparse)
  | some p => (some p, availabilityAt allocation clusterSize p)

/-- The extents report every byte they cover as `place` does. -/
def Renders (place : Nat → Option Nat × ExtentAvailability) (extents : List ExtentRun) : Prop :=
  ∀ e ∈ extents, ∀ i, Covers e i →
    (e.physicalOffset.map (· + (i - e.logicalOffset)), e.availability) = place i

theorem renders_nil (place : Nat → Option Nat × ExtentAvailability) : Renders place [] := by
  intro e he; cases he

theorem renders_cons {place : Nat → Option Nat × ExtentAvailability} {e : ExtentRun}
    {extents : List ExtentRun} :
    Renders place (e :: extents) ↔
      (∀ i, Covers e i →
        (e.physicalOffset.map (· + (i - e.logicalOffset)), e.availability) = place i) ∧
      Renders place extents := by
  simp [Renders]

theorem renders_append {place : Nat → Option Nat × ExtentAvailability}
    {xs ys : List ExtentRun} : Renders place (xs ++ ys) ↔ Renders place xs ∧ Renders place ys := by
  simp only [Renders, List.mem_append, or_imp, forall_and]

/-- Only the covered bytes matter. -/
theorem Renders.congr {place place' : Nat → Option Nat × ExtentAvailability}
    {extents : List ExtentRun} {a b : Nat} (h : Renders place extents)
    (htiles : Tiles extents a b) (heq : ∀ i, a ≤ i → i < b → place i = place' i) :
    Renders place' extents := by
  intro e he i hi
  obtain ⟨hlo, hhi⟩ := htiles.coveredBy_iff.mp ⟨e, he, hi⟩
  rw [h e he i hi, heq i hlo hhi]

/-! ## Splitting a physical run by allocation status -/

/-- The bounds under which the arithmetic of a physical run does not wrap:
    `clusterCount` clusters hold `byteLen` bytes and no fewer would do. -/
structure RunGeometry (logicalStart lcn byteLen clusterSize clusterCount : Nat) : Prop where
  clusterSize_pos : 0 < clusterSize
  physical_lt : (lcn + clusterCount) * clusterSize < 2 ^ 64
  logical_lt : logicalStart + byteLen < 2 ^ 64
  byteLen_le : byteLen ≤ clusterCount * clusterSize
  lt_byteLen : ∀ k < clusterCount, k * clusterSize < byteLen

variable {map : AllocationMap} {logicalStart lcn byteLen clusterSize clusterCount : Nat}

theorem RunGeometry.groupExtent_eq
    (h : RunGeometry logicalStart lcn byteLen clusterSize clusterCount) {groupStart i : Nat}
    (hstart : groupStart < i) (hi : i ≤ clusterCount) (status : Option Bool) :
    groupExtent logicalStart lcn byteLen clusterSize groupStart i status =
      ⟨logicalStart + groupStart * clusterSize, some ((lcn + groupStart) * clusterSize),
        min (i * clusterSize) byteLen - groupStart * clusterSize, availabilityOf status⟩ := by
  have hpos := h.clusterSize_pos
  have hphysical := h.physical_lt
  have hlogical := h.logical_lt
  have hbyte := h.lt_byteLen groupStart (by omega)
  have hclusters : lcn + clusterCount ≤ (lcn + clusterCount) * clusterSize :=
    Nat.le_mul_of_pos_right _ hpos
  have hgroup : (lcn + groupStart) * clusterSize ≤ (lcn + clusterCount) * clusterSize :=
    Nat.mul_le_mul_right _ (by omega)
  have hcount : clusterCount * clusterSize ≤ (lcn + clusterCount) * clusterSize :=
    Nat.mul_le_mul_right _ (by omega)
  have hi_le : i * clusterSize ≤ clusterCount * clusterSize := Nat.mul_le_mul_right _ hi
  have hstart_le : groupStart * clusterSize ≤ clusterCount * clusterSize :=
    Nat.mul_le_mul_right _ (by omega)
  simp only [groupExtent, U64.wrappingMul_of_lt (show groupStart * clusterSize < 2 ^ 64 by omega),
    U64.wrappingMul_of_lt (show i * clusterSize < 2 ^ 64 by omega),
    U64.wrappingAdd_of_lt (show logicalStart + groupStart * clusterSize < 2 ^ 64 by omega),
    U64.wrappingAdd_of_lt (show lcn + groupStart < 2 ^ 64 by omega),
    U64.wrappingMul_of_lt (show (lcn + groupStart) * clusterSize < 2 ^ 64 by omega)]

/-- The place of byte `i` of the logical range when the run starts at `logicalStart`. -/
def runPlace (allocation : Option AllocationMap) (clusterSize logicalStart lcn i : Nat) :
    Option Nat × ExtentAvailability :=
  placeOf allocation clusterSize (some (lcn * clusterSize + (i - logicalStart)))

/-- A group whose clusters share a status reports each of its bytes correctly. -/
theorem RunGeometry.groupExtent_renders
    (h : RunGeometry logicalStart lcn byteLen clusterSize clusterCount) {groupStart stop : Nat}
    {status : Option Bool} (hstart : groupStart < stop) (hstop : stop ≤ clusterCount)
    (hstatus : ∀ k, groupStart ≤ k → k < stop → map.isAllocated (lcn + k) = status) :
    ∀ i, Covers (groupExtent logicalStart lcn byteLen clusterSize groupStart stop status) i →
      ((groupExtent logicalStart lcn byteLen clusterSize groupStart stop status).physicalOffset.map
          (· + (i - (groupExtent logicalStart lcn byteLen clusterSize groupStart stop
            status).logicalOffset)),
        (groupExtent logicalStart lcn byteLen clusterSize groupStart stop status).availability) =
      runPlace (some map) clusterSize logicalStart lcn i := by
  rw [h.groupExtent_eq hstart hstop]
  intro i hi
  simp only [Covers, IntervalLike.stop, start, len] at hi
  have hpos := h.clusterSize_pos
  obtain ⟨j, rfl⟩ : ∃ j, i = logicalStart + j := ⟨i - logicalStart, by omega⟩
  have hlo : groupStart ≤ j / clusterSize := (Nat.le_div_iff_mul_le hpos).mpr (by omega)
  have hhi : j / clusterSize < stop := (Nat.div_lt_iff_lt_mul hpos).mpr (by omega)
  have hcluster : (lcn * clusterSize + j) / clusterSize = lcn + j / clusterSize := by
    rw [Nat.mul_comm, Nat.mul_add_div hpos]
  have hoffset : (lcn + groupStart) * clusterSize +
      (logicalStart + j - (logicalStart + groupStart * clusterSize)) = lcn * clusterSize + j := by
    rw [Nat.add_mul]; omega
  simp only [runPlace, placeOf, availabilityAt, Nat.add_sub_cancel_left, Option.map_some,
    Option.bind_some, hcluster, hstatus _ hlo hhi, hoffset]

/-- The group loop, with the clusters before `groupStart` flushed. -/
theorem RunGeometry.splitGroups_renders
    (h : RunGeometry logicalStart lcn byteLen clusterSize clusterCount) {left i groupStart : Nat}
    {status : Option Bool} (hleft : left + i = clusterCount + 1) (hstart : groupStart < i)
    (hlast : left = 0 → groupStart = clusterCount)
    (hstatus : ∀ k, groupStart ≤ k → k < i → k < clusterCount →
      map.isAllocated (lcn + k) = status) :
    Tiles (splitGroups map logicalStart lcn byteLen clusterSize clusterCount left i groupStart
        status)
      (logicalStart + min (groupStart * clusterSize) byteLen) (logicalStart + byteLen) ∧
    Renders (runPlace (some map) clusterSize logicalStart lcn)
      (splitGroups map logicalStart lcn byteLen clusterSize clusterCount left i groupStart
        status) := by
  have hpos := h.clusterSize_pos
  have hphysical := h.physical_lt
  have hclusters : lcn + clusterCount ≤ (lcn + clusterCount) * clusterSize :=
    Nat.le_mul_of_pos_right _ hpos
  induction left generalizing i groupStart status with
  | zero =>
    rw [hlast rfl, Nat.min_eq_right h.byteLen_le]
    exact ⟨rfl, renders_nil _⟩
  | succ left ih =>
    simp only [splitGroups]
    generalize hnext : (if i < clusterCount then map.isAllocated (wrappingAdd lcn i) else none)
      = next
    have hnext : i < clusterCount → map.isAllocated (lcn + i) = next := by
      intro hi
      rw [← hnext, if_pos hi, U64.wrappingAdd_of_lt (by omega)]
    split
    · next hflush =>
      -- the group ends before cluster `i`
      have hi : i ≤ clusterCount := by omega
      have hbyte := h.lt_byteLen groupStart (by omega)
      have hgroup : groupStart * clusterSize < i * clusterSize :=
        Nat.mul_lt_mul_of_pos_right hstart hpos
      obtain ⟨htiles, hrenders⟩ := @ih (i + 1) i next (by omega) (by omega) (by omega) (by
        intro k hk hk' hk''
        obtain rfl : k = i := by omega
        exact hnext hk'')
      refine ⟨?_, renders_cons.mpr ⟨?_, hrenders⟩⟩
      · rw [h.groupExtent_eq hstart hi]
        refine ⟨?_, ?_, ?_⟩
        · simp only [start]; omega
        · simp only [len]; omega
        · have hstop : logicalStart + groupStart * clusterSize +
              (min (i * clusterSize) byteLen - groupStart * clusterSize) =
              logicalStart + min (i * clusterSize) byteLen := by omega
          simp only [IntervalLike.stop, start, len, hstop]
          exact htiles
      · exact h.groupExtent_renders hstart hi fun k hk hk' => hstatus k hk hk' (by omega)
    · next hgrow =>
      obtain ⟨hne, hsame⟩ := not_or.mp hgrow
      have hi : i < clusterCount := by omega
      refine ih (by omega) (by omega) (by omega) ?_
      intro k hk hk' hk''
      by_cases hki : k < i
      · exact hstatus k hk hki hk''
      · obtain rfl : k = i := by omega
        exact (hnext hi).trans (Decidable.not_not.mp hsame)

/-- The clusters that hold the first `byteLen` bytes of a run of `count` clusters. -/
theorem RunGeometry.ofBytes {count : Nat} (hpos : 0 < clusterSize) (hbyte : 0 < byteLen)
    (hle : byteLen ≤ count * clusterSize) (hphysical : (lcn + count) * clusterSize < 2 ^ 64)
    (hlogical : logicalStart + byteLen < 2 ^ 64) :
    RunGeometry logicalStart lcn byteLen clusterSize
      ((byteLen + clusterSize - 1) / clusterSize) := by
  have hdiv := Nat.div_add_mod (byteLen + clusterSize - 1) clusterSize
  have hmod := Nat.mod_lt (byteLen + clusterSize - 1) hpos
  generalize (byteLen + clusterSize - 1) / clusterSize = q at *
  rw [Nat.mul_comm] at hdiv
  have hq : q ≤ count := by
    have : q * clusterSize < (count + 1) * clusterSize := by rw [Nat.add_mul]; omega
    exact Nat.le_of_lt_succ (Nat.lt_of_mul_lt_mul_right this)
  refine ⟨hpos, ?_, hlogical, by omega, ?_⟩
  · exact Nat.lt_of_le_of_lt (Nat.mul_le_mul_right _ (by omega)) hphysical
  · intro k hk
    have : (k + 1) * clusterSize ≤ q * clusterSize := Nat.mul_le_mul_right _ hk
    rw [Nat.add_mul] at this
    omega

/-- The groups of the first `byteLen` bytes of a physical run tile them. -/
theorem splitByAllocation_renders {count : Nat} {allocation : Option AllocationMap}
    (hpos : 0 < clusterSize) (hbyte : 0 < byteLen) (hle : byteLen ≤ count * clusterSize)
    (hphysical : (lcn + count) * clusterSize < 2 ^ 64)
    (hlogical : logicalStart + byteLen < 2 ^ 64) :
    Tiles (splitByAllocation logicalStart lcn byteLen clusterSize allocation) logicalStart
      (logicalStart + byteLen) ∧
    Renders (runPlace allocation clusterSize logicalStart lcn)
      (splitByAllocation logicalStart lcn byteLen clusterSize allocation) := by
  cases allocation with
  | none =>
    have hlcn : lcn * clusterSize ≤ (lcn + count) * clusterSize :=
      Nat.mul_le_mul_right _ (Nat.le_add_right _ _)
    simp only [splitByAllocation, U64.wrappingMul_of_lt (Nat.lt_of_le_of_lt hlcn hphysical)]
    exact ⟨⟨rfl, hbyte, rfl⟩, renders_cons.mpr ⟨fun _ _ => rfl, renders_nil _⟩⟩
  | some map =>
    have hgeometry := RunGeometry.ofBytes hpos hbyte hle hphysical hlogical
    have hcount : 0 < (byteLen + clusterSize - 1) / clusterSize :=
      Nat.div_pos (by omega) hpos
    have hfirst : ∀ k, 0 ≤ k → k < 1 → k < (byteLen + clusterSize - 1) / clusterSize →
        map.isAllocated (lcn + k) = map.isAllocated lcn := by
      intro k _ hk _
      rw [show k = 0 by omega, Nat.add_zero]
    have hsplit := hgeometry.splitGroups_renders rfl Nat.one_pos (by omega) hfirst
    simpa [splitByAllocation] using hsplit

/-! ## The run walk -/

/-- The walk from `logical` on tiles the stream up to its size or the end of the runs. -/
theorem runExtents_renders {totalClusters dataSize logical : Nat}
    {allocation : Option AllocationMap} {runs : List RunElement} (hpos : 0 < clusterSize)
    (hvolume : totalClusters * clusterSize < 2 ^ 64) (hfit : RunsFit totalClusters runs)
    (hlogical : logical + totalRunClusters runs * clusterSize < 2 ^ 64)
    (hle : logical ≤ dataSize) :
    Tiles (runExtents clusterSize dataSize allocation runs logical) logical
      (min dataSize (logical + totalRunClusters runs * clusterSize)) ∧
    Renders (fun i => placeOf allocation clusterSize (runOffset clusterSize runs (i - logical)))
      (runExtents clusterSize dataSize allocation runs logical) := by
  induction runs generalizing logical with
  | nil =>
    simp only [runExtents, totalRunClusters, List.map_nil, List.sum_nil, Nat.zero_mul, Nat.add_zero,
      Nat.min_eq_right hle]
    exact ⟨rfl, renders_nil _⟩
  | cons run runs ih =>
    simp only [runExtents]
    split
    · rw [Nat.min_eq_left (by omega)]
      exact ⟨Nat.le_antisymm hle (by omega), renders_nil _⟩
    · next hlt =>
      have hrun := hfit.pos run List.mem_cons_self
      have hrunBytes : 0 < run.clusterCount * clusterSize := Nat.mul_pos hrun hpos
      rw [totalRunClusters_cons, Nat.add_mul] at hlogical ⊢
      rw [U64.wrappingMul_of_lt (show run.clusterCount * clusterSize < 2 ^ 64 by omega)]
      generalize htake : min (run.clusterCount * clusterSize) (dataSize - logical) = take
      rw [U64.wrappingAdd_of_lt (show logical + take < 2 ^ 64 by omega)]
      obtain ⟨hrestTiles, hrestRenders⟩ := @ih (logical + take) hfit.tail (by omega) (by omega)
      -- What is left of the file starts in the next run, or nothing is left.
      have hend : min dataSize (logical + take + totalRunClusters runs * clusterSize) =
          min dataSize (logical + (run.clusterCount * clusterSize +
            totalRunClusters runs * clusterSize)) := by omega
      have hhead : Tiles (match run.lcn with
            | none => [⟨logical, none, take, .sparse⟩]
            | some lcn => splitByAllocation logical lcn take clusterSize allocation)
            logical (logical + take) ∧
          Renders (fun i => placeOf allocation clusterSize
              (runOffset clusterSize (run :: runs) (i - logical)))
            (match run.lcn with
            | none => [⟨logical, none, take, .sparse⟩]
            | some lcn => splitByAllocation logical lcn take clusterSize allocation) := by
        cases hlcn : run.lcn with
        | none =>
          refine ⟨⟨rfl, by simp only [len]; omega, rfl⟩, renders_cons.mpr ⟨?_, renders_nil _⟩⟩
          intro i hi
          simp only [Covers, IntervalLike.stop, start, len] at hi
          simp only [runOffset, if_pos (show i - logical < run.clusterCount * clusterSize by omega),
            hlcn, Option.map_none, placeOf]
        | some lcn =>
          have hinside : (lcn + run.clusterCount) * clusterSize ≤ totalClusters * clusterSize :=
            Nat.mul_le_mul_right _ (hfit.inside run List.mem_cons_self lcn hlcn)
          have hlogicalTake : logical + take < 2 ^ 64 := by omega
          obtain ⟨htiles, hrenders⟩ := @splitByAllocation_renders logical lcn take clusterSize _
            allocation hpos (by omega) (show take ≤ run.clusterCount * clusterSize by omega)
            (Nat.lt_of_le_of_lt hinside hvolume) hlogicalTake
          refine ⟨htiles, hrenders.congr htiles ?_⟩
          intro i hlo hhi
          simp only [runPlace, runOffset, hlcn, Option.map_some,
            if_pos (show i - logical < run.clusterCount * clusterSize by omega)]
      refine ⟨tiles_append.mpr ⟨logical + take, hhead.1, by rw [← hend]; exact hrestTiles⟩,
        renders_append.mpr ⟨hhead.2, hrestRenders.congr hrestTiles ?_⟩⟩
      intro i hlo hhi
      have hskip : i - logical - run.clusterCount * clusterSize = i - (logical + take) := by omega
      simp only [runOffset, hskip,
        if_neg (show ¬i - logical < run.clusterCount * clusterSize by omega)]

/-! ## The initialized size -/

/-- Splitting one extent tiles it, and only bytes from the boundary on change place. -/
theorem splitExtentAtInitialized_renders {place : Nat → Option Nat × ExtentAvailability}
    {initializedEnd dataSize : Nat} {e : ExtentRun} (hlen : 0 < len e) (hstop : stop e ≤ dataSize)
    (hlt : stop e < 2 ^ 64)
    (h : ∀ i, Covers e i →
      (e.physicalOffset.map (· + (i - e.logicalOffset)), e.availability) = place i) :
    Tiles (splitExtentAtInitialized initializedEnd dataSize e) (start e) (stop e) ∧
    Renders (fun i => if i < initializedEnd then place i else (none, .sparse))
      (splitExtentAtInitialized initializedEnd dataSize e) := by
  have hsat : min (U64.saturatingAdd e.logicalOffset e.len) dataSize = stop e := by
    have hadd : U64.saturatingAdd e.logicalOffset e.len = stop e := U64.saturatingAdd_of_lt hlt
    rw [hadd]
    exact Nat.min_eq_left hstop
  have hdef : stop e = e.logicalOffset + e.len := rfl
  have hpos : 0 < e.len := hlen
  simp only [splitExtentAtInitialized, hsat]
  rw [if_neg (by omega)]
  -- The boundary, moved into the extent when it lies outside.
  let boundary := max e.logicalOffset (min (stop e) initializedEnd)
  have hbelow : Tiles (if e.logicalOffset < min (stop e) initializedEnd then
        [{ e with len := min (stop e) initializedEnd - e.logicalOffset }] else [])
        (start e) boundary ∧
      Renders (fun i => if i < initializedEnd then place i else (none, .sparse))
        (if e.logicalOffset < min (stop e) initializedEnd then
          [{ e with len := min (stop e) initializedEnd - e.logicalOffset }] else []) := by
    split
    · refine ⟨⟨rfl, by simp only [len]; omega, ?_⟩, renders_cons.mpr ⟨?_, renders_nil _⟩⟩
      · simp only [Tiles, IntervalLike.stop, start, len, boundary] at *
        omega
      · intro i hi
        simp only [Covers, IntervalLike.stop, start, len] at hi hdef ⊢
        rw [if_pos (by omega)]
        exact h i ⟨hi.1, by simp only [IntervalLike.stop, start, len]; omega⟩
    · refine ⟨?_, renders_nil _⟩
      simp only [Tiles, start, boundary]
      omega
  have habove : Tiles (if max e.logicalOffset initializedEnd < stop e then
        [(⟨max e.logicalOffset initializedEnd, none,
          stop e - max e.logicalOffset initializedEnd, .sparse⟩ : ExtentRun)] else [])
        boundary (stop e) ∧
      Renders (fun i => if i < initializedEnd then place i else (none, .sparse))
        (if max e.logicalOffset initializedEnd < stop e then
          [(⟨max e.logicalOffset initializedEnd, none,
            stop e - max e.logicalOffset initializedEnd, .sparse⟩ : ExtentRun)] else []) := by
    split
    · refine ⟨⟨?_, by simp only [len]; omega, ?_⟩, renders_cons.mpr ⟨?_, renders_nil _⟩⟩
      · simp only [start, boundary]
        omega
      · simp only [Tiles, IntervalLike.stop, start, len] at *
        omega
      · intro i hi
        have hlo : max e.logicalOffset initializedEnd ≤ i := hi.1
        rw [if_neg (by omega)]
        rfl
    · refine ⟨?_, renders_nil _⟩
      simp only [Tiles, boundary]
      omega
  exact ⟨tiles_append.mpr ⟨boundary, hbelow.1, habove.1⟩,
    renders_append.mpr ⟨hbelow.2, habove.2⟩⟩

/-- The split at the initialized size keeps the tiling. -/
theorem splitAtInitializedSize_renders {place : Nat → Option Nat × ExtentAvailability}
    {initializedSize dataSize a b : Nat} {extents : List ExtentRun} (htiles : Tiles extents a b)
    (hb : b ≤ dataSize) (hlt : b < 2 ^ 64) (h : Renders place extents) :
    Tiles (splitAtInitializedSize extents initializedSize dataSize) a b ∧
    Renders (fun i => if i < min initializedSize dataSize then place i else (none, .sparse))
      (splitAtInitializedSize extents initializedSize dataSize) := by
  have hsplit : ∀ e ∈ extents,
      Tiles (splitExtentAtInitialized (min initializedSize dataSize) dataSize e) (start e)
        (stop e) ∧
      Renders (fun i => if i < min initializedSize dataSize then place i else (none, .sparse))
        (splitExtentAtInitialized (min initializedSize dataSize) dataSize e) := by
    intro e he
    obtain ⟨_, hlen, hstop⟩ := htiles.ascending.bounds he
    exact splitExtentAtInitialized_renders hlen (by omega) (by omega) (h e he)
  refine ⟨htiles.flatMap fun e he => (hsplit e he).1, ?_⟩
  intro piece hpiece
  obtain ⟨e, he, hmem⟩ := List.mem_flatMap.mp hpiece
  exact (hsplit e he).2 piece hmem

/-! ## The main stream -/

/-- The place of byte `i` of a stream: its run decides, unless the byte is not
    initialized. -/
def streamPlace (clusterSize initializedSize : Nat) (allocation : Option AllocationMap)
    (runs : List RunElement) (i : Nat) : Option Nat × ExtentAvailability :=
  placeOf allocation clusterSize
    (if i < initializedSize then runOffset clusterSize runs i else none)

theorem streamExtents_nonResident {main : DataStream} {boot : NtfsBoot}
    {allocation : Option AllocationMap} {recordPhysOffset dataSize initializedSize : Nat}
    {runs : List RunElement} (hboot : boot.Valid) (hfit : RunsFit boot.totalClusters runs)
    (hflags : main.flags &&& attrFlagCompressed = 0)
    (hkind : main.kind = .nonResident dataSize initializedSize runs) :
    ∃ extents, streamExtents main recordPhysOffset boot allocation = (dataSize, extents) ∧
      Tiles extents 0 (min dataSize (totalRunClusters runs * boot.clusterSize)) ∧
      Renders (streamPlace boot.clusterSize initializedSize allocation runs) extents := by
  have hruns : totalRunClusters runs * boot.clusterSize ≤
      boot.totalClusters * boot.clusterSize := Nat.mul_le_mul_right _ hfit.total_le
  have hvolume := hboot.volume_lt
  obtain ⟨htiles, hrenders⟩ := @runExtents_renders _ _ dataSize 0 allocation runs
    hboot.clusterSize_pos hvolume hfit (by omega) (Nat.zero_le _)
  rw [Nat.zero_add] at htiles
  obtain ⟨hsplitTiles, hsplitRenders⟩ := @splitAtInitializedSize_renders _ initializedSize dataSize
    _ _ _ htiles (Nat.min_le_left _ _) (by omega) hrenders
  refine ⟨_, by simp only [streamExtents, hflags, hkind, ne_eq, not_true_eq_false, if_false],
    hsplitTiles, hsplitRenders.congr hsplitTiles ?_⟩
  intro i _ hi
  have hbound : i < min initializedSize dataSize ↔ i < initializedSize := by omega
  simp only [streamPlace, hbound, Nat.sub_zero]
  split <;> rfl

/-- `buildExtents` on an uncompressed non-resident unnamed stream: the extents are
    consecutive from 0 and cover what the runs hold of the data, and each byte is
    placed and classified by its run, its cluster and the initialized size. -/
theorem buildExtents_renders (entry : ParsedEntry) (boot : NtfsBoot)
    (allocation : Option AllocationMap) (warnings : List NtfsWarning) (main : DataStream)
    (runlist : Bytes) (dataSize initializedSize : Nat) (runs : List RunElement)
    (hboot : boot.Valid) (hruns : decodeRunlist runlist boot.totalClusters = .ok runs)
    (hmain : mainStream entry = some main) (hflags : main.flags &&& attrFlagCompressed = 0)
    (hkind : main.kind = .nonResident dataSize initializedSize runs) :
    ∃ extents, (buildExtents entry boot allocation warnings).1 = (dataSize, extents) ∧
      Tiles extents 0 (min dataSize (totalRunClusters runs * boot.clusterSize)) ∧
      ∀ e ∈ extents, ∀ i, Covers e i →
        (e.physicalOffset.map (· + (i - e.logicalOffset)), e.availability) =
          streamPlace boot.clusterSize initializedSize allocation runs i := by
  simp only [buildExtents, hmain]
  exact streamExtents_nonResident hboot (decodeRunlist_fit hruns) hflags hkind

/-- A volume of 16 clusters of 512 bytes. -/
def sixteenClusters : NtfsBoot :=
  { bytesPerSector := 512, sectorsPerCluster := 1, clusterSize := 512, totalSectors := 16,
    totalClusters := 16, mftLcn := 4, mftmirrLcn := 8, fileRecordSize := 1024,
    indexRecordSize := 4096, volumeSerial := 0 }

/-- Two clusters at LCN 6, of which 700 bytes are initialized, and a sparse tail; the
    bitmap ends after cluster 7. -/
def sparseTail : ParsedEntry :=
  { sequence := 1, inUse := false, isDirectory := false, bestName := none, names := [],
    attributesComplete := true, stdInfo := {},
    streams := [⟨none, 0, .nonResident 2000 700 [⟨2, some 6⟩, ⟨3, none⟩]⟩],
    recordPhysOffset := 0, warnings := [] }

theorem buildExtents_renders_sparseTail :
    ∃ extents,
      (buildExtents sparseTail sixteenClusters (some ⟨[0x40], 16⟩) []).1 = (2000, extents) ∧
      Tiles extents 0 (min 2000 (5 * 512)) ∧
      ∀ e ∈ extents, ∀ i, Covers e i →
        (e.physicalOffset.map (· + (i - e.logicalOffset)), e.availability) =
          streamPlace 512 700 (some ⟨[0x40], 16⟩) [⟨2, some 6⟩, ⟨3, none⟩] i :=
  buildExtents_renders sparseTail sixteenClusters (some ⟨[0x40], 16⟩) []
    ⟨none, 0, .nonResident 2000 700 [⟨2, some 6⟩, ⟨3, none⟩]⟩
    [0x11, 0x02, 0x06, 0x01, 0x03, 0x00] 2000 700 [⟨2, some 6⟩, ⟨3, none⟩]
    ⟨by decide, by decide⟩ (by decide) rfl (by decide) rfl

end Undelete.Ntfs
