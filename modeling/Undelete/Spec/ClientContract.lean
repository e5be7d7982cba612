import Undelete.Spec.ClientFaults

/-!
# The client's contract

What the operations of a client's session and of its source reader guarantee beside
`serve_session`: whose reply they return, which bytes a read returns, and that failures latch.

## Key results

- `sessionContract`: over any transport.
- `readerContract`: beside the broker.
- `client_contract`: the contract, over every sequence of operations.
-/

namespace Undelete.Broker

open Except EStateM ProtocolReadSession

variable {σ Source : Type} {env : BrokerEnv σ Source} {handleId : UInt64}

/-! ## The contract -/

/-- What a session over any transport guarantees: a reply carries the sequence number of its
    request, and failures of the transport and the protocol latch. -/
structure SessionContract {τ : Type} (t : Transport τ) (s : ProtocolReadSession τ) : Prop where
  sequenced : ∀ ops m reply s', exchange t m (afterOps t ops s) = .ok reply s' → ∃ k x y,
    t.writer.writeAll (afterOps t ops s).transport (Frame.mk k m).bytes = (.ok (), x) ∧
    t.flush x = (.ok (), y) ∧ readFrame t.reader y = (.ok ⟨k, reply⟩, s'.transport) ∧
    (afterOps t ops s).codec.nextOutbound = some k ∧
    s'.codec = ⟨SessionCodec.following k, SessionCodec.following k⟩
  latches : ∀ (before after : List SessionOp) (op op' : SessionOp) (e : BrokerClientError),
    (op.run t (afterOps t before s)).1 = .error e → e.Latches →
    (op'.run t (afterOps t (before ++ op :: after) s)).1 = .error .sessionUnavailable
  reader : ∀ (reader : BrokerSourceReader) (offset : Nat) (buffer : Bytes)
    (s' : ProtocolReadSession τ),
    s'.Available → ∃ result out s'', reader.readExactAt (readSession t) offset buffer s' =
      (result, out, s'') ∧ (s''.Available ∨ s''.Latched ∧ ∃ e o n, e.Latches ∧
        result = .error (reader.readFailure e o n))
  latched : ∀ (reader : BrokerSourceReader) (offset : Nat) (buffer : Bytes)
    (s' : ProtocolReadSession τ), s'.Latched → buffer ≠ [] →
    ∃ e out, reader.readExactAt (readSession t) offset buffer s' = (.error e, out, s')

theorem sessionContract {τ : Type} {t : Transport τ} {transport : τ} {challenge : Vector UInt8 32}
    {s : ProtocolReadSession τ} (h : connect t transport challenge = .ok s) :
    SessionContract t s where
  sequenced ops m reply s' hexchange := by
    have hlock := afterOps_lockstep (t := t) (fun _ => connect_lockstep h) ops
    have havailable : (afterOps t ops s).Available := by
      cases hshut : (afterOps t ops s).shutdown with
      | true =>
        rw [exchange_shut hshut] at hexchange
        cases hexchange
      | false =>
        cases hfailed : (afterOps t ops s).failed with
        | true =>
          rw [exchange_latched ⟨hfailed, hshut⟩] at hexchange
          cases hexchange
        | false => exact ⟨hfailed, hshut⟩
    obtain ⟨k, x, y, hwrite, hflush, hread, hk, hcodec, _⟩ :=
      exchange_sequenced havailable (hlock havailable) hexchange
    exact ⟨k, x, y, hwrite, hflush, hread, hk, hcodec⟩
  latches before after op op' e hop he := by
    rw [(runOps_latched hop he after op').2]
  reader reader offset buffer s' hs' := readExactAt_ends hs' offset buffer
  latched reader offset buffer s' hs' hbuffer := readExactAt_latched hs' offset hbuffer

/-- What the source reader guarantees beside the broker: every read that succeeds returns the
    bytes of the source it was opened for. -/
def ReaderContract (link : Duplex env) (handleId : UInt64)
    (s : ProtocolReadSession (Peer σ Source)) : Prop :=
  ∀ ops sourceId reader s', BrokerSourceReader.openReader
      (readSession (link.transport handleId)) sourceId
      (afterOps (link.transport handleId) ops s) = .ok reader s' →
    ∃ source, ServeEvent.acquired sourceId (.ok source) ∈ s'.transport.serve.trace ∧
      ∀ content, ReadsAs env source content → ∀ reads offset buffer out s'',
        reader.readExactAt (readSession (link.transport handleId)) offset buffer
          (afterReads (readSession (link.transport handleId)) reader reads s') =
          (.ok (), out, s'') →
        out = Bytes.window content offset buffer.length

theorem readerContract {link : Duplex env} {s : ProtocolReadSession (Peer σ Source)}
    (hs : Coherent link handleId s) : ReaderContract link handleId s := by
  intro ops sourceId reader s' hopen
  obtain ⟨source, n, hjoined, _, hacquired⟩ := openReader_joined (afterOps_coherent hs ops) hopen
  refine ⟨source, hacquired, fun content hcontent reads offset buffer out s'' hread => ?_⟩
  have hbound := afterReads_bound reader hcontent (.inl ⟨some source, n, hjoined, .inr rfl⟩) reads
  obtain ⟨result, out', s₁, hread', _, hwindow⟩ := readExactAt_bound reader hcontent hbound offset
    buffer
  rw [hread] at hread'
  obtain ⟨rfl, h⟩ := Prod.mk.inj hread'
  obtain ⟨rfl, _⟩ := Prod.mk.inj h
  exact hwindow rfl

/-- A session and a reader that a client connects keep the contract: what an operation returns is
    the broker's reply to its request, the reader returns the bytes of the source it was opened
    for, and a failure of the transport or the protocol is the end of the session. -/
theorem client_contract (env : BrokerEnv σ Source) (link : Duplex env) (handleId : UInt64) (x : σ)
    (challenge : Vector UInt8 32) (s : ProtocolReadSession (Peer σ Source))
    (hrequests : link.requests x = []) (hreplies : link.replies x = [])
    (hconnect : connect (link.transport handleId) (Peer.start handleId x) challenge = .ok s) :
    (∀ ops (op : SessionOp), Attributed env handleId
      (afterOps (link.transport handleId) ops s).transport
      (op.run (link.transport handleId) (afterOps (link.transport handleId) ops s)).2.transport op
      (op.run (link.transport handleId) (afterOps (link.transport handleId) ops s)).1) ∧
    ReaderContract link handleId s ∧
    ∀ {τ : Type} (t : Transport τ) (transport : τ) (challenge : Vector UInt8 32) (s),
      connect t transport challenge = .ok s → SessionContract t s := by
  have hcoherent : Coherent link handleId s :=
    .inl ⟨none, 1, connect_joined hrequests hreplies hconnect⟩
  exact ⟨fun ops op => (run_coherent (afterOps_coherent hcoherent ops) op).2,
    readerContract hcoherent, fun t transport challenge s h => sessionContract h⟩

/-- Two byte strings as the stream, one in each direction, and a source with a fixed content
    whose reads fail where they touch a byte of `bad`. -/
def pipeEnv (geometry : BrokerSourceGeometry) (byte : Nat → UInt8) (bad : List Nat) :
    BrokerEnv (Bytes × Bytes) Unit where
  transport :=
    { reader :=
        { read := fun s n => (.ok (s.1.take n), (s.1.drop n, s.2))
          patience := fun _ => 0
          patience_lt := fun _ _ _ _ h => by cases h }
      writer := { writeAll := fun s b => (.ok (), (s.1, s.2 ++ b)) }
      flush := fun s => (.ok (), s) }
  openSource s _ := (.ok (), s)
  geometry _ _ := geometry
  revalidate s _ := (.ok (), s)
  readExactAt s _ offset length :=
    if bad.any fun i => offset.toNat ≤ i ∧ i < offset.toNat + length then (.error .readFailed, s)
    else (.ok (Bytes.window byte offset.toNat length), s)
  length_readExactAt := by
    intro s source offset length bytes h
    split at h
    · cases h
    · cases h
      exact Bytes.length_window ..

def pipe (geometry : BrokerSourceGeometry) (byte : Nat → UInt8) (bad : List Nat) :
    Duplex (pipeEnv geometry byte bad) where
  client :=
    { reader :=
        { read := fun s n => (.ok (s.2.take n), (s.1, s.2.drop n))
          patience := fun _ => 0
          patience_lt := fun _ _ _ _ h => by cases h }
      writer := { writeAll := fun s b => (.ok (), (s.1 ++ b, s.2)) }
      flush := fun s => (.ok (), s) }
  requests s := s.1
  replies s := s.2
  quiet :=
    { refl := fun _ => ⟨rfl, rfl⟩
      trans := fun h h' => ⟨h'.1.trans h.1, h'.2.trans h.2⟩
      openSource := fun _ _ => ⟨rfl, rfl⟩
      revalidate := fun _ _ => ⟨rfl, rfl⟩
      readExactAt := by
        intro s source offset length
        unfold pipeEnv
        dsimp only
        split <;> exact ⟨rfl, rfl⟩ }
  client_write s b := ⟨_, rfl, rfl, rfl⟩
  client_flush s := ⟨_, rfl, rfl, rfl⟩
  client_read :=
    { ok := by
        intro s len b s' hlen h
        cases h
        refine ⟨List.length_take_le _ _, (List.take_append_drop _ _).symm, fun hnil => ?_⟩
        rcases List.take_eq_nil_iff.mp hnil with hzero | hnil
        · omega
        · exact hnil
      error := by
        intro s len e s' hlen h
        cases h }
  client_reads _ _ := rfl
  broker_write s b := ⟨_, rfl, rfl, rfl⟩
  broker_flush s := ⟨_, rfl, rfl, rfl⟩
  broker_read :=
    { ok := by
        intro s len b s' hlen h
        cases h
        refine ⟨List.length_take_le _ _, (List.take_append_drop _ _).symm, fun hnil => ?_⟩
        rcases List.take_eq_nil_iff.mp hnil with hzero | hnil
        · omega
        · exact hnil
      error := by
        intro s len e s' hlen h
        cases h }
  broker_reads _ _ := rfl

/-- A read over the pipe fails where it touches a byte of `bad`. -/
theorem pipeEnv_faulty (geometry : BrokerSourceGeometry) (byte : Nat → UInt8) {bad : List Nat}
    {p : Nat → Prop} (hbad : ∀ i, i ∈ bad ↔ p i) :
    (pipeEnv geometry byte bad).Faulty () geometry.size.toNat byte p where
  measured _ := rfl
  revalidate _ := rfl
  good x offset n _ hgood := by
    unfold pipeEnv
    dsimp only
    rw [if_neg]
    rw [List.any_eq_true]
    rintro ⟨i, hi, hin⟩
    have hin := of_decide_eq_true hin
    exact hgood (i - offset.toNat) (by omega)
      ((hbad _).mp (by rwa [Nat.add_sub_cancel' hin.1]))
  failed x offset n _ hfault := by
    obtain ⟨i, hi, hp⟩ := hfault
    unfold pipeEnv
    dsimp only
    rw [if_pos]
    rw [List.any_eq_true]
    exact ⟨offset.toNat + i, (hbad _).mpr hp, decide_eq_true (by omega)⟩

/-- A pipe to a disk of eight sectors. -/
abbrev diskPipe (byte : Nat → UInt8) (bad : List Nat) := pipe ⟨4096, 512, 512, 0⟩ byte bad

/-- The disk is opened over the pipe. -/
theorem diskPipe_opens (byte : Nat → UInt8) (bad : List Nat) : ∃ s reader s',
    connect ((diskPipe byte bad).transport 7) (Peer.start 7 ([], [])) (Vector.replicate 32 1) =
      .ok s ∧
    BrokerSourceReader.openReader (readSession ((diskPipe byte bad).transport 7)) "disk" s =
      .ok reader s' ∧
    Joined (diskPipe byte bad) 7 s none 1 ∧ Joined (diskPipe byte bad) 7 s' (some ()) 2 ∧
    reader.handleId = 7 ∧ reader.length = 4096 := by
  obtain ⟨s, hconnect, hjoined⟩ := connect_ready (diskPipe byte bad) ([], [])
    (Vector.replicate 32 1) (show (7 : UInt64) ≠ 0 by decide) (by decide) rfl rfl
  obtain ⟨reader, s', o, hopen, hjoined'⟩ := openReader_ready hjoined
    (show counterAt 1 1 = some 2 by rfl)
    (show (Message.openSource "disk").validate = .ok () by decide +kernel)
    (fun _ => show _ = Except.ok () from rfl)
    (fun _ => show (Message.opened 7 4096 512 512 0).validate = .ok () by decide)
    (fun _ => show (SectorLayout.new 512 512).isSome = true by decide)
    (fun _ => show (7 : UInt64) ≠ 0 ∧ (4096 : UInt64) ≠ 0 by decide)
  obtain ⟨_, _, _, hmeasured, hhandle, _, hlength, _⟩ :=
    openReader_measured (.inl ⟨none, 1, hjoined⟩) hopen
  -- the source that is open is the disk
  have hsame : o = some () := by
    have := hjoined'.opened.symm.trans hmeasured.opened
    cases o with
    | none => cases this
    | some source => rfl
  rw [hsame] at hjoined'
  exact ⟨s, reader, s', hconnect, hopen, hjoined, hjoined', hhandle, hlength⟩

/-- Over the pipe a disk is opened and read, and a request that is not valid ends the session. -/
theorem client_contract_pipe : ∃ s reader s' s'',
    connect ((diskPipe UInt8.ofNat []).transport 7) (Peer.start 7 ([], []))
      (Vector.replicate 32 1) = .ok s ∧
    Attributed (pipeEnv ⟨4096, 512, 512, 0⟩ UInt8.ofNat []) 7 s.transport
      ((SessionOp.openSource "disk").run ((diskPipe UInt8.ofNat []).transport 7) s).2.transport
      (.openSource "disk")
      ((SessionOp.openSource "disk").run ((diskPipe UInt8.ofNat []).transport 7) s).1 ∧
    BrokerSourceReader.openReader (readSession ((diskPipe UInt8.ofNat []).transport 7)) "disk" s =
      .ok reader s' ∧
    reader.readExactAt (readSession ((diskPipe UInt8.ofNat []).transport 7)) 500
      (List.replicate 1000 0) s' = (.ok (), Bytes.window UInt8.ofNat 500 1000, s'') ∧
    ((SessionOp.openSource "disk").run ((diskPipe UInt8.ofNat []).transport 7)
      (afterOps ((diskPipe UInt8.ofNat []).transport 7) [.readAt 7 0 0] s)).1 =
        .error .sessionUnavailable := by
  obtain ⟨s, reader, s', hconnect, hopen, hready, hjoined, hhandle, hlength⟩ :=
    diskPipe_opens UInt8.ofNat []
  obtain ⟨hattributed, hreader, hsession⟩ := client_contract _ (diskPipe UInt8.ofNat []) 7
    ([], []) _ s rfl rfl hconnect
  have hdisk : (pipeEnv ⟨4096, 512, 512, 0⟩ UInt8.ofNat []).Faulty () 4096 UInt8.ofNat
      fun _ => False := pipeEnv_faulty _ _ fun i => by simp
  -- the read succeeds, and what it returns is the content of the disk
  obtain ⟨result, out, s'', hread, _, hends⟩ := readExactAt_faulty hdisk (.inl ⟨2, hjoined⟩)
    (by decide) hhandle (by rw [hlength]; rfl) 500 (List.replicate 1000 0)
  rw [List.length_replicate] at hends
  have hroom : HasRoom s' 1000 := (hjoined.hasRoom_iff (by decide)).mpr (by decide)
  obtain rfl : result = .ok () := by
    rcases hends (by decide) (by decide) with ⟨hok, _⟩ | ⟨_, ⟨_, _, hbad⟩ | hno⟩
    · exact hok
    · exact hbad.elim
    · exact absurd hroom hno
  obtain ⟨source, _, hreads⟩ := hreader [] "disk" reader s' hopen
  have hout : out = Bytes.window UInt8.ofNat 500 1000 := by
    rw [hreads UInt8.ofNat (fun x offset length bytes h => ?_) [] 500 _ out s'' hread,
      List.length_replicate]
    cases h
    rfl
  -- a read of no bytes is not a valid request
  obtain ⟨e, s₁, hrefused, hlatches, _⟩ := @exchange_refused _ _ _ _ _ _ _ (.readAt 7 0 0) _ hready
    (.inl (by decide))
  have hrun := @run_of_error (.readAt 7 0 0) _ _ _ _ _ SessionOp.noConfusion hrefused
  refine ⟨s, reader, s', s'', hconnect, hattributed [] _, hopen, ?_, ?_⟩
  · rw [hread, hout]
  · exact (hsession _ _ _ s hconnect).latches [] [] (.readAt 7 0 0) (.openSource "disk") e
      (congrArg Prod.fst hrun) hlatches

end Undelete.Broker
