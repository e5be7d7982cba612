import Undelete.Native.Fat.Scan
import Undelete.Spec.PlanCorrect

/-!
# Extents of deleted FAT files

The extents of a deleted file ascend inside its size and lie inside the source, so
every file candidate of a FAT scan can be planned.

## Key results

- `FatBoot.parse_valid`: the data clusters of an accepted boot sector lie inside the volume.
- `buildFileExtents_placed`: the extents of a deleted file ascend inside its size.
- `scanFat_admits`: the file candidates of a scan can be planned.
-/

namespace Undelete.Fat

open Except IntervalLike
open Restore (Admits Readable planCandidate_admits)

/-! ## Boot sector -/

/-- A geometry whose data clusters lie inside the first `volumeLen` bytes. -/
structure FatBoot.Valid (boot : FatBoot) (volumeLen : Nat) : Prop where
  clusterSize_pos : 0 < boot.clusterSize
  data_le : boot.dataOffset + boot.clusterCount * boot.clusterSize ≤ volumeLen

theorem isPowerOfTwo_pos {n : Nat} (h : isPowerOfTwo n = true) : 0 < n := by
  simp only [isPowerOfTwo, Bool.and_eq_true, bne_iff_ne, ne_eq] at h
  exact Nat.pos_of_ne_zero h.1

/-- Whole clusters of the data region. -/
theorem dataRegion_le {fsBytes dataOffset clusterSize volumeLen : Nat}
    (hvolume : ¬fsBytes > volumeLen) (hdata : ¬dataOffset ≥ fsBytes) :
    dataOffset + (fsBytes - dataOffset) / clusterSize * clusterSize ≤ volumeLen := by
  have := Nat.div_mul_le_self (fsBytes - dataOffset) clusterSize
  omega

theorem FatBoot.parse_valid {sector0 : Bytes} {volumeLen : Nat} {boot : FatBoot}
    (h : FatBoot.parse sector0 volumeLen = .ok boot) : boot.Valid volumeLen := by
  simp only [FatBoot.parse, bind_eq_ok, throw_bind, ite_throw_eq_ok, okOr_eq_ok] at h
  obtain ⟨_, _, hsector, hspc, _, _, fsBytes, _, hvolume, _, hdata, _, h⟩ := h
  simp only [Bool.or_eq_true, Bool.not_eq_true', not_or, Bool.not_eq_false] at hsector hspc
  have hpos := Nat.mul_pos (isPowerOfTwo_pos hsector.1) (isPowerOfTwo_pos hspc.1)
  -- both variants return the same geometry
  rcases ite_eq_or h with h | h
  · simp only [ite_throw_eq_ok, pure_eq_ok] at h
    obtain ⟨_, _, rfl⟩ := h
    exact ⟨hpos, dataRegion_le hvolume hdata⟩
  · simp only [ite_throw_eq_ok, pure_eq_ok] at h
    obtain ⟨_, rfl⟩ := h
    exact ⟨hpos, dataRegion_le hvolume hdata⟩

theorem FatBoot.Valid.clusterOffset_le {boot : FatBoot} {volumeLen cluster p : Nat}
    (h : boot.Valid volumeLen) (hp : boot.clusterOffset cluster = some p) :
    p + boot.clusterSize ≤ volumeLen := by
  simp only [clusterOffset, Option.ite_none_left_eq_some, Option.some.injEq] at hp
  obtain ⟨hrange, rfl⟩ := hp
  have hle : (cluster - 2 + 1) * boot.clusterSize ≤ boot.clusterCount * boot.clusterSize :=
    Nat.mul_le_mul_right _ (by omega)
  rw [Nat.add_mul] at hle
  have := h.data_le
  omega

/-! ## Extents -/

/-- The extents ascend up to `logical` and lie inside the source. -/
structure Placed (sourceLen logical : Nat) (extents : List ExtentRun) : Prop where
  ascending : Ascending extents 0 logical
  inside : ∀ e ∈ extents, ∀ p, e.physicalOffset = some p → p + e.len ≤ sourceLen

theorem Placed.mono {sourceLen logical logical' : Nat} {extents : List ExtentRun}
    (h : Placed sourceLen logical extents) (hle : logical ≤ logical') :
    Placed sourceLen logical' extents :=
  ⟨h.ascending.mono_right hle, h.inside⟩

/-- A cluster joins the last extent or gets one of its own. -/
theorem pushCluster_placed {sourceLen logical phys take : Nat} {extents : List ExtentRun}
    (h : Placed sourceLen logical extents) (htake : 0 < take) (hphys : phys + take ≤ sourceLen)
    (availability : ExtentAvailability) :
    Placed sourceLen (logical + take) (pushCluster extents logical phys take availability) := by
  have hown : Placed sourceLen (logical + take)
      (extents ++ [⟨logical, some phys, take, availability⟩]) := by
    refine ⟨ascending_append.mpr ⟨logical, h.ascending, Nat.le_refl _, htake, Nat.le_refl _⟩, ?_⟩
    intro e he p hp
    rcases List.mem_append.mp he with he | he
    · exact h.inside e he p hp
    · obtain rfl := List.mem_singleton.mp he
      cases hp
      exact hphys
  simp only [pushCluster]
  cases hlast : extents.getLast? with
  | none => exact hown
  | some last =>
    simp only
    split
    · next hjoin =>
      obtain ⟨init, rfl⟩ := List.getLast?_eq_some_iff.mp hlast
      obtain ⟨b, hinit, hle, hlen, hstop⟩ := ascending_append.mp h.ascending
      rw [List.dropLast_concat]
      refine ⟨ascending_append.mpr ⟨b, hinit, hle, ?_, ?_⟩, ?_⟩
      · simp only [len] at hlen ⊢; omega
      · simp only [Ascending, stop, start, len] at hstop ⊢; omega
      · intro e he p hp
        rcases List.mem_append.mp he with he | he
        · exact h.inside e (List.mem_append_left _ he) p hp
        · obtain rfl := List.mem_singleton.mp he
          rw [hp] at hjoin
          cases hjoin.2
          simp only at hphys ⊢
          omega
    · exact hown

theorem clusterExtents_placed {boot : FatBoot} {sourceLen : Nat} (hboot : boot.Valid sourceLen)
    (fat : FatTable) (inferred : Bool) {size logical : Nat} {clusters : List Nat}
    {extents : List ExtentRun} (h : Placed sourceLen logical extents) (hle : logical ≤ size) :
    Placed sourceLen size (clusterExtents boot fat size inferred clusters logical extents) := by
  induction clusters generalizing logical extents with
  | nil => exact h.mono hle
  | cons c clusters ih =>
    simp only [clusterExtents]
    split
    · exact h.mono hle
    · next hmore =>
      have hpos := hboot.clusterSize_pos
      refine ih ?_ (by omega)
      cases hoffset : boot.clusterOffset c with
      | none => exact h.mono (Nat.le_add_right _ _)
      | some phys =>
        have := hboot.clusterOffset_le hoffset
        exact pushCluster_placed h (by omega) (by omega) _

/-- The extents of a deleted file ascend inside its size and lie inside the source. -/
theorem buildFileExtents_placed {boot : FatBoot} {sourceLen : Nat} (hboot : boot.Valid sourceLen)
    (fat : FatTable) (entry : DirEntry) :
    Placed sourceLen entry.size (buildFileExtents boot fat entry).1 := by
  have hempty : Placed sourceLen 0 [] := ⟨Nat.le_refl _, by simp⟩
  simp only [buildFileExtents]
  split
  · exact hempty.mono (Nat.zero_le _)
  · split
    · exact hempty.mono (Nat.zero_le _)
    · exact clusterExtents_placed hboot fat _ hempty (Nat.zero_le _)

theorem fileCandidate_admits {boot : FatBoot} {sourceLen : Nat} (hboot : boot.Valid sourceLen)
    (hsource : sourceLen < 2 ^ 64) (fat : FatTable) (id : Nat) {entry : DirEntry}
    (hsize : entry.size < 2 ^ 32) (path : List String) (parentActive : Bool) :
    Admits (fileCandidate boot fat id entry path parentActive) sourceLen := by
  have hplaced := buildFileExtents_placed hboot fat entry
  exact planCandidate_admits rfl hsource hplaced.ascending (Nat.le_refl _) (by omega)
    fun e he _ p hp => hplaced.inside e he p hp

/-! ## Directory entries -/

/-- The size field of a directory entry has 32 bits. -/
theorem parseEntries_size_lt {baseOffset fuel idx : Nat} {data : Bytes} {p : PendingLfn} :
    ∀ e ∈ parseEntries baseOffset fuel data idx p, e.size < 2 ^ 32 := by
  induction fuel generalizing data idx p with
  | zero => intro e he; cases he
  | succ fuel ih =>
    simp only [parseEntries]
    split
    · intro e he; cases he
    · split
      · intro e he; cases he
      · split
        · exact ih
        · split
          · exact ih
          · split
            · exact ih
            · intro e he
              rcases List.mem_cons.mp he with rfl | he
              · exact Le.u32At_lt _ _
              · exact ih e he

/-! ## The directory walk -/

/-- The scan looks at `boot`, and its file candidates can be planned. -/
structure Plannable (boot : FatBoot) (sourceLen : Nat) (ctx : ScanCtx) : Prop where
  boot_eq : ctx.boot = boot
  admits : ∀ c ∈ ctx.candidates, c.kind = .file → Admits c sourceLen

variable {boot : FatBoot} {sourceLen : Nat} {ctx : ScanCtx}

theorem Plannable.markIncomplete (h : Plannable boot sourceLen ctx) (warning : String) :
    Plannable boot sourceLen (ctx.markIncomplete warning) := ⟨h.boot_eq, h.admits⟩

theorem Plannable.emit {candidate : Nat → Candidate} (h : Plannable boot sourceLen ctx)
    (hc : ∀ id, (candidate id).kind = .file → Admits (candidate id) sourceLen) :
    Plannable boot sourceLen (ctx.emit candidate) := by
  refine ⟨h.boot_eq, fun c hmem => ?_⟩
  rcases List.mem_append.mp hmem with hmem | hmem
  · exact h.admits c hmem
  · obtain rfl := List.mem_singleton.mp hmem
    exact hc _

theorem readClustersFrom_plannable {clusters : List Nat} {out data : Bytes} {ctx' : ScanCtx}
    (h : Plannable boot sourceLen ctx)
    (hread : readClustersFrom clusters ctx out = .ok (ctx', data)) :
    Plannable boot sourceLen ctx' := by
  induction clusters generalizing ctx out with
  | nil => cases hread; exact h
  | cons c clusters ih =>
    simp only [readClustersFrom] at hread
    split at hread
    · cases hread; exact h.markIncomplete _
    · split at hread
      · exact ih (h.markIncomplete _) hread
      · split at hread
        · cases hread
        · exact ih h hread

theorem directoryChain_plannable (h : Plannable boot sourceLen ctx) (firstCluster : Nat)
    (bounded broken : String) :
    Plannable boot sourceLen (directoryChain ctx firstCluster bounded broken).1 := by
  simp only [directoryChain]
  split
  · exact h
  · exact h.markIncomplete _

theorem directoryClusters_plannable (h : Plannable boot sourceLen ctx) (entry : DirEntry) :
    Plannable boot sourceLen (directoryClusters ctx entry).1 := by
  simp only [directoryClusters]
  split
  · exact directoryChain_plannable h _ _ _
  · split
    · exact h.markIncomplete _
    · exact directoryChain_plannable h _ _ _
    · exact directoryChain_plannable h _ _ _
    · exact h.markIncomplete _

theorem handleDirectory_plannable {walk : ScanCtx → Bytes → List String → Bool → ScanCtx}
    (hwalk : ∀ ctx data path parentActive, Plannable boot sourceLen ctx →
      Plannable boot sourceLen (walk ctx data path parentActive))
    (h : Plannable boot sourceLen ctx) (entry : DirEntry) (path : List String)
    (parentActive : Bool) :
    Plannable boot sourceLen (handleDirectory walk ctx entry path parentActive) := by
  have hctx : Plannable boot sourceLen (if entry.isDeleted = true then
      ctx.emit fun id => directoryCandidate id entry path parentActive else ctx) := by
    split
    · exact h.emit fun id hkind => by cases hkind
    · exact h
  simp only [handleDirectory]
  generalize (if entry.isDeleted = true then
    ctx.emit fun id => directoryCandidate id entry path parentActive else ctx) = ctx at *
  split
  · exact hctx.markIncomplete _
  · split
    · exact hctx.markIncomplete _
    · have hclusters := directoryClusters_plannable hctx entry
      split
      · next heq => rw [heq] at hclusters; exact hclusters
      · next ctx₁ clusters heq =>
        rw [heq] at hclusters
        have hvisited : Plannable boot sourceLen
            { ctx₁ with visitedDirClusters := clusters ++ ctx₁.visitedDirClusters } :=
          ⟨hclusters.boot_eq, hclusters.admits⟩
        split
        · next hread => exact hwalk _ _ _ _ (readClustersFrom_plannable hvisited hread)
        · exact hvisited.markIncomplete _

/-- The walk keeps the file candidates plannable, by induction on the depth left. -/
theorem walkDirectory_plannable (hboot : boot.Valid sourceLen) (hsource : sourceLen < 2 ^ 64)
    (depthLeft : Nat) (ctx : ScanCtx) (data : Bytes) (path : List String) (parentActive : Bool)
    (h : Plannable boot sourceLen ctx) :
    Plannable boot sourceLen (walkDirectory depthLeft ctx data path parentActive) := by
  induction depthLeft generalizing ctx data path parentActive with
  | zero => exact h.markIncomplete _
  | succ depthLeft ih =>
    simp only [walkDirectory]
    split
    · exact h.markIncomplete _
    · refine List.foldlRecOn (parseDirectory data 0) _ ⟨h.boot_eq, h.admits⟩ ?_
      intro ctx h entry hentry
      split
      · exact h
      · split
        · exact handleDirectory_plannable ih h entry path parentActive
        · split
          · refine h.emit fun id _ => ?_
            rw [h.boot_eq]
            exact fileCandidate_admits hboot hsource _ _ (parseEntries_size_lt entry hentry) _ _
          · exact h

theorem readRootDir_plannable {ctx' : ScanCtx} {data : Bytes} (h : Plannable boot sourceLen ctx)
    (hread : readRootDir ctx = .ok (ctx', data)) : Plannable boot sourceLen ctx' := by
  have hfixed : ∀ x : Except ReadError Bytes,
      (x.mapError ScanError.read).map (fun data => (ctx, data)) = .ok (ctx', data) →
      Plannable boot sourceLen ctx' := by
    intro x hx
    cases x with
    | error e => cases hx
    | ok bytes => cases hx; exact h
  simp only [readRootDir] at hread
  split at hread
  · exact hfixed _ hread
  · exact hfixed _ hread
  · exact readClustersFrom_plannable (directoryChain_plannable h _ _ _) hread

/-- Every file candidate of a FAT scan can be planned. -/
theorem scanFat_admits {reader : SourceReader} {out : FatScanOutput}
    (h : scanFat reader = .ok out) {c : Candidate} (hc : c ∈ out.candidates)
    (hkind : c.kind = .file) : Admits c reader.len := by
  simp only [scanFat, bind_eq_ok, throw_bind, ite_throw_eq_ok, mapError_eq_ok, pure_eq_ok,
    Prod.exists] at h
  obtain ⟨sector0, _, boot, hboot, _, rawFat, _, isComplete, warnings, _, ctx, data, hroot, rfl⟩ :=
    h
  have hroot := @readRootDir_plannable boot reader.len _ ctx data
    ⟨rfl, fun c hc => by cases hc⟩ hroot
  have hwalk := walkDirectory_plannable (FatBoot.parse_valid hboot) reader.len_lt maxDirDepth ctx
    data [] true hroot
  exact hwalk.admits c ((List.mem_insertionSort _).mp hc) hkind

end Undelete.Fat
