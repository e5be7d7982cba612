import Undelete.Spec.ClientContract
import Undelete.Spec.FileImageCorrect

/-!
# What a best-effort read over the broker delivers

On a source whose raw reads fail where they touch an unreadable byte. The reader does not retry:
one unreadable byte loses the whole request.
-/

namespace Undelete.Broker

open Except EStateM ProtocolReadSession

variable {σ Source : Type} {env : BrokerEnv σ Source} {handleId : UInt64} {source : Source}
  {size : Nat} {byte : Nat → UInt8} {bad : Nat → Prop}

section Reads

variable {link : Duplex env} {s : ProtocolReadSession (Peer σ Source)} {reader : BrokerSourceReader}

/-- A best-effort read is exact when the request holds no byte of one of the two kinds. -/
theorem readBestEffortAt_exact_iff (hsource : env.Faulty source size byte bad)
    (hs : Serving link handleId source s) (hhandle : handleId ≠ 0)
    (hreader : reader.handleId = handleId) (hlength : reader.length.toNat = size) {offset : Nat}
    {buffer : Bytes} (hin : offset + buffer.length ≤ size) :
    ReadsExactly byte bad offset buffer.length
        (reader.readBestEffortAt (readSession (link.transport handleId)) offset buffer s).2.1
        (reader.readBestEffortAt (readSession (link.transport handleId)) offset buffer s).1 ↔
      (∀ i < buffer.length, bad (offset + i)) ∨
        (∀ i < buffer.length, ¬bad (offset + i)) ∧ HasRoom s buffer.length := by
  rcases Nat.eq_zero_or_pos buffer.length with hzero | hpos
  · have hnil : buffer = [] := List.eq_nil_of_length_eq_zero hzero
    have hread : reader.readBestEffortAt (readSession (link.transport handleId)) offset [] s =
        (⟨0, []⟩, [], s) := by
      unfold BrokerSourceReader.readBestEffortAt BrokerSourceReader.readExactAt
      unfold BrokerSourceReader.rangeIsValid
      have := reader.length.toNat_lt
      rw [hnil] at hin
      simp only [List.length_nil, Nat.add_zero] at hin
      rw [U64.checkedAdd_of_lt (show offset + ([] : Bytes).length < 2 ^ 64 by
        simp only [List.length_nil]; omega)]
      simp only [List.length_nil, Nat.add_zero]
      rw [show decide (offset ≤ reader.length.toNat) = true from decide_eq_true (by omega)]
      rfl
    rw [hnil, hread]
    refine iff_of_true ?_ (.inl fun i hi => (by simp at hi))
    exact readsExactly_complete fun i hi => (by simp at hi)
  · obtain ⟨result, out, s', hread, _, hends⟩ :=
      readExactAt_faulty hsource hs hhandle hreader hlength offset buffer
    unfold BrokerSourceReader.readBestEffortAt
    rw [hread]
    rcases hends hin hpos with ⟨rfl, rfl, hgood, hroom⟩ | ⟨⟨e, rfl⟩, hreason⟩
    · dsimp only
      rw [Bytes.length_window]
      exact iff_of_true (readsExactly_complete hgood) (.inr ⟨hgood, hroom⟩)
    · dsimp only
      have hout : out.length = buffer.length := by
        have : (reader.readExactAt (readSession (link.transport handleId)) offset buffer
          s).2.1.length =
            buffer.length := length_readExactAt offset buffer s
        rwa [hread] at this
      rw [hout]
      constructor
      · intro hexact
        refine .inl fun i hi => (hexact.covers i (by rw [hexact.filled]; exact hi)).mpr ?_
        exact ⟨_, List.mem_singleton_self _, Nat.zero_le _, by omega⟩
      · rintro (hall | ⟨hgood, hroom⟩)
        · exact readsExactly_nothing hpos hall
        · rcases hreason with ⟨i, hi, hbad⟩ | hno
          · exact absurd hbad (hgood i hi)
          · exact absurd hroom hno

end Reads

/-! ## Best-effort reads -/

/-- Best-effort reads of the reader that was opened are exact for the requests of one kind. -/
def ReadsWhole (link : Duplex env) (handleId : UInt64)
    (s : ProtocolReadSession (Peer σ Source)) : Prop :=
  ∀ ops sourceId reader s', BrokerSourceReader.openReader
      (readSession (link.transport handleId)) sourceId
      (afterOps (link.transport handleId) ops s) = .ok reader s' →
    ∃ source, ServeEvent.acquired sourceId (.ok source) ∈ s'.transport.serve.trace ∧
      ∀ size byte bad, env.Faulty source size byte bad → ∀ reads offset (buffer : Bytes),
        offset + buffer.length ≤ size →
        (ReadsExactly byte bad offset buffer.length
          (reader.readBestEffortAt (readSession (link.transport handleId)) offset buffer
            (afterReads (readSession (link.transport handleId)) reader reads s')).2.1
          (reader.readBestEffortAt (readSession (link.transport handleId)) offset buffer
            (afterReads (readSession (link.transport handleId)) reader reads s')).1 ↔
        (∀ i < buffer.length, bad (offset + i)) ∨
          (∀ i < buffer.length, ¬bad (offset + i)) ∧
            HasRoom (afterReads (readSession (link.transport handleId)) reader reads s')
              buffer.length)

theorem readsWhole {link : Duplex env} {s : ProtocolReadSession (Peer σ Source)}
    (hs : Coherent link handleId s) : ReadsWhole link handleId s := by
  intro ops sourceId reader s' hopen
  obtain ⟨source, n, x, hjoined, hreader, hhandle, hlength, hacquired⟩ :=
    openReader_measured (afterOps_coherent hs ops) hopen
  refine ⟨source, hacquired, fun size byte bad hsource reads offset buffer hin => ?_⟩
  have hlength : reader.length.toNat = size := by rw [hlength, hsource.measured]
  have hserving := afterReads_serving hsource (.inl ⟨n, hjoined⟩) hhandle hreader hlength reads
  exact readBestEffortAt_exact_iff hsource hserving hhandle hreader hlength hin

/-- When a best-effort read returns exactly the readable bytes: over a file, when no chunk of the
    retry holds bytes of both kinds; over the broker, when the whole request holds one kind. -/
theorem bestEffort_exact_iff {σ : Type} :
    (∀ (file : RawFile σ) (reader : FileImageReader) byte bad,
      file.Faulty reader.len byte bad → ∀ s offset length, offset + length ≤ reader.len →
      (ReadsExactly byte bad offset length
          (FileImageReader.readBestEffortAt file reader s offset length).1
          (FileImageReader.readBestEffortAt file reader s offset length).2.1 ↔
        ∀ i < length, ∀ j < length, j / reader.sectorLayout.logical.toNat =
          i / reader.sectorLayout.logical.toNat → bad (offset + j) → bad (offset + i))) ∧
    ∀ {Source : Type} (env : BrokerEnv σ Source) (link : Duplex env) (handleId : UInt64) (x : σ)
      (challenge : Vector UInt8 32) (s : ProtocolReadSession (Peer σ Source)),
      link.requests x = [] → link.replies x = [] →
      connect (link.transport handleId) (Peer.start handleId x) challenge = .ok s →
      ReadsWhole link handleId s := by
  refine ⟨fun file reader byte bad h s offset length hin =>
    FileImageReader.readBestEffortAt_exact_iff h s hin,
    fun env link handleId x challenge s hrequests hreplies hconnect => ?_⟩
  exact readsWhole (.inl ⟨none, 1, connect_joined hrequests hreplies hconnect⟩)

/-! ## A sector that is not readable -/

/-- The second sector of 512 bytes. -/
def secondSector (k : Nat) : Prop := k / 512 = 1

theorem touches_secondSector {offset n : Nat} :
    ((List.range' 512 512).any fun i => offset ≤ i ∧ i < offset + n) = true ↔
      ∃ i < n, secondSector (offset + i) := by
  unfold secondSector
  rw [List.any_eq_true]
  constructor
  · rintro ⟨i, hi, hin⟩
    rw [List.mem_range'_1] at hi
    have hin := of_decide_eq_true hin
    exact ⟨i - offset, by omega, by omega⟩
  · rintro ⟨i, hi, hsector⟩
    exact ⟨offset + i, by rw [List.mem_range'_1]; omega, decide_eq_true (by omega)⟩

/-- A file whose second sector is not readable. -/
def scratchedFile : RawFile Unit where
  readAt _ offset len :=
    if (List.range' 512 512).any fun i => offset ≤ i ∧ i < offset + len then
      (.error ⟨.other 5, "input/output error"⟩, ())
    else (.ok (Bytes.window UInt8.ofNat offset len), ())
  patience _ := 0
  length_readAt := by
    intro s offset len bytes h
    split at h
    · cases h
    · cases h
      exact Nat.le_of_eq (Bytes.length_window ..)
  patience_lt := by
    intro s offset len e s' h hkind
    split at h
    · cases h
      cases hkind
    · cases h

theorem scratchedFile_faulty (len : Nat) :
    scratchedFile.Faulty len UInt8.ofNat secondSector where
  good s offset n _ _ hgood := by
    unfold scratchedFile
    dsimp only
    rw [if_neg]
    rw [touches_secondSector]
    rintro ⟨i, hi, hbad⟩
    exact hgood i hi hbad
  failed s offset n _ hbad := by
    unfold scratchedFile
    dsimp only
    rw [if_pos (touches_secondSector.mpr hbad)]
    exact ⟨_, rfl, IoErrorKind.noConfusion⟩

/-- A disk of eight sectors whose second sector is not readable. -/
abbrev scratched : Duplex (pipeEnv ⟨4096, 512, 512, 0⟩ UInt8.ofNat (List.range' 512 512)) :=
  diskPipe UInt8.ofNat (List.range' 512 512)

theorem scratched_faulty : (pipeEnv ⟨4096, 512, 512, 0⟩ UInt8.ofNat (List.range' 512 512)).Faulty
    () 4096 UInt8.ofNat secondSector :=
  pipeEnv_faulty _ _ fun i => by
    unfold secondSector
    rw [List.mem_range'_1]
    omega

theorem scratched_opens : ∃ s reader s',
    connect (scratched.transport 7) (Peer.start 7 ([], [])) (Vector.replicate 32 1) = .ok s ∧
    BrokerSourceReader.openReader (readSession (scratched.transport 7)) "disk" s = .ok reader s' ∧
    Joined scratched 7 s' (some ()) 2 := by
  obtain ⟨s, reader, s', hconnect, hopen, _, hjoined, _⟩ :=
    diskPipe_opens UInt8.ofNat (List.range' 512 512)
  exact ⟨s, reader, s', hconnect, hopen, hjoined⟩

theorem bestEffort_exact_iff_scratched :
    ReadsExactly UInt8.ofNat secondSector 0 1536
      (FileImageReader.readBestEffortAt scratchedFile ⟨2048, ⟨512, 512⟩, by decide⟩ () 0 1536).1
      (FileImageReader.readBestEffortAt scratchedFile ⟨2048, ⟨512, 512⟩, by decide⟩ () 0 1536).2.1 ∧
    ∃ s reader s',
      connect (scratched.transport 7) (Peer.start 7 ([], [])) (Vector.replicate 32 1) = .ok s ∧
      BrokerSourceReader.openReader (readSession (scratched.transport 7)) "disk" s = .ok reader s' ∧
      ReadsExactly UInt8.ofNat secondSector 1024 1024
        (reader.readBestEffortAt (readSession (scratched.transport 7)) 1024
          (List.replicate 1024 0) s').2.1
        (reader.readBestEffortAt (readSession (scratched.transport 7)) 1024
          (List.replicate 1024 0) s').1 := by
  constructor
  · apply (bestEffort_exact_iff.1 scratchedFile ⟨2048, ⟨512, 512⟩, by decide⟩ _ _
      (scratchedFile_faulty 2048) () 0 1536 (by decide)).mpr
    intro i hi j hj hsame hbad
    unfold secondSector at hbad ⊢
    change j / 512 = i / 512 at hsame
    omega
  · obtain ⟨s, reader, s', hconnect, hopen, hjoined⟩ := scratched_opens
    refine ⟨s, reader, s', hconnect, hopen, ?_⟩
    obtain ⟨source, _, hexact⟩ := bestEffort_exact_iff.2 _ scratched 7
      ([], []) _ s rfl rfl hconnect [] "disk" reader s' hopen
    have hiff := hexact 4096 _ _ scratched_faulty [] 1024 (List.replicate 1024 0)
      (by rw [List.length_replicate]; decide)
    rw [List.length_replicate,
      show afterReads (readSession (scratched.transport 7)) reader [] s' = s' from rfl] at hiff
    rw [hiff]
    refine .inr ⟨fun i hi hbad => ?_, ?_⟩
    · unfold secondSector at hbad
      omega
    · exact (hjoined.hasRoom_iff (by decide)).mpr (by decide)

/-- A request that starts inside a sector loses readable bytes of the file before the unreadable
    sector, and any request over the broker that touches that sector loses all of its bytes. -/
theorem bestEffort_loses :
    ¬ReadsExactly UInt8.ofNat secondSector 256 512
      (FileImageReader.readBestEffortAt scratchedFile ⟨2048, ⟨512, 512⟩, by decide⟩ () 256 512).1
      (FileImageReader.readBestEffortAt scratchedFile ⟨2048, ⟨512, 512⟩, by decide⟩
        () 256 512).2.1 ∧
    ∃ s reader s',
      connect (scratched.transport 7) (Peer.start 7 ([], [])) (Vector.replicate 32 1) = .ok s ∧
      BrokerSourceReader.openReader (readSession (scratched.transport 7)) "disk" s = .ok reader s' ∧
      ¬ReadsExactly UInt8.ofNat secondSector 0 1024
        (reader.readBestEffortAt (readSession (scratched.transport 7)) 0
          (List.replicate 1024 0) s').2.1
        (reader.readBestEffortAt (readSession (scratched.transport 7)) 0
          (List.replicate 1024 0) s').1 := by
  constructor
  · rw [FileImageReader.readBestEffortAt_exact_iff (scratchedFile_faulty 2048) () (by decide)]
    intro hwhole
    have := hwhole 0 (by decide) 256 (by decide) rfl rfl
    exact absurd this (by unfold secondSector; decide)
  · obtain ⟨s, reader, s', hconnect, hopen, hjoined⟩ := scratched_opens
    refine ⟨s, reader, s', hconnect, hopen, ?_⟩
    obtain ⟨source, _, hexact⟩ := readsWhole (.inl ⟨none, 1, connect_joined rfl rfl hconnect⟩)
      [] "disk" reader s' hopen
    have hiff := hexact 4096 _ _ scratched_faulty [] 0 (List.replicate 1024 0)
      (by rw [List.length_replicate]; decide)
    rw [List.length_replicate,
      show afterReads (readSession (scratched.transport 7)) reader [] s' = s' from rfl] at hiff
    rw [hiff]
    rintro (hall | ⟨hnone, _⟩)
    · have := hall 0 (by decide)
      exact absurd this (by unfold secondSector; decide)
    · exact hnone 512 (by decide) rfl

end Undelete.Broker
