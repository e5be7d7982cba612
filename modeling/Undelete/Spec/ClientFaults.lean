import Undelete.Spec.ClientSession

/-!
# A client's reads of a source with unreadable bytes

On a source whose raw reads fail where they touch an unreadable byte: how the turn of the broker
ends that serves a read, how a source is opened, and how the reads of the client end.

## Key results

- `serveTurn_faulty`, `serveTurn_open`: the turns of the broker.
- `openReader_measured`, `openReader_ready`: what is opened, and when.
- `readExactAt_faulty`: how a read ends.
-/

namespace Undelete.Broker

open Except EStateM ProtocolReadSession

variable {σ Source : Type} {env : BrokerEnv σ Source} {handleId : UInt64} {source : Source}
  {size : Nat} {byte : Nat → UInt8} {bad : Nat → Prop}

/-- A source whose identity holds, and whose reads fail where they touch a byte of `bad`, and only
    there. -/
structure BrokerEnv.Faulty (env : BrokerEnv σ Source) (source : Source) (size : Nat)
    (byte : Nat → UInt8) (bad : Nat → Prop) : Prop where
  measured : ∀ x, (env.geometry x source).size.toNat = size
  revalidate : ∀ x, (env.revalidate x source).1 = .ok ()
  good : ∀ x (offset : UInt64) n, offset.toNat + n ≤ size → (∀ i < n, ¬bad (offset.toNat + i)) →
    (env.readExactAt x source offset n).1 = .ok (Bytes.window byte offset.toNat n)
  failed : ∀ x (offset : UInt64) n, offset.toNat + n ≤ size → (∃ i < n, bad (offset.toNat + i)) →
    (env.readExactAt x source offset n).1 = .error .readFailed

/-- The reply to a read of the source. -/
def ReadReply (byte : Nat → UInt8) (bad : Nat → Prop) (offset n : Nat) (reply : Message) : Prop :=
  (∀ i < n, ¬bad (offset + i)) ∧ reply = .readData (Bytes.window byte offset n) ∨
    (∃ i < n, bad (offset + i)) ∧ reply = .error .readFailed

/-! ## The broker's turn -/

theorem serveRead_faulty (link : Duplex env) (hsource : env.Faulty source size byte bad)
    {s : ServeState σ Source} {offset : UInt64} {length : UInt32} {k : UInt64}
    (hopened : s.opened = openedAs handleId (some source)) (hk : s.codec.nextOutbound = some k)
    (hne : k ≠ 0) (hvalid : (Message.readAt handleId offset length).validate = .ok ())
    (hin : offset.toNat + length.toNat ≤ size) (hsize : size < 2 ^ 64) :
    ∃ reply s', env.serveRead handleId offset length s = .ok () s' ∧
      ReadReply byte bad offset.toNat length.toNat reply ∧ (Frame.mk k reply).Valid ∧
      link.replies s'.env = link.replies s.env ++ (Frame.mk k reply).bytes ∧
      link.requests s'.env = link.requests s.env ∧ s'.opened = s.opened ∧
      s'.codec = { s.codec with nextOutbound := SessionCodec.following k } := by
  obtain ⟨s₁, hs₁⟩ : ∃ s₁, s₁ = s.push (.measured source (env.geometry s.env source)) := ⟨_, rfl⟩
  obtain ⟨s₂, hs₂⟩ : ∃ s₂, s₂ = { s₁ with env := (env.revalidate s₁.env source).2 }.push
    (.revalidated source (env.revalidate s₁.env source).1) := ⟨_, rfl⟩
  obtain ⟨s₃, hs₃⟩ : ∃ s₃, s₃ = { s₂ with
    env := (env.readExactAt s₂.env source offset length.toNat).2 }.push
      (.read source offset length.toNat (env.readExactAt s₂.env source offset length.toNat).1) :=
    ⟨_, rfl⟩
  have hmeasure : env.measure source s = .ok (env.geometry s.env source) s₁ := by rw [hs₁]; rfl
  have hidentity : env.checkIdentity source s₁ = .ok (env.revalidate s₁.env source).1 s₂ := by
    rw [hs₂]; rfl
  have hread : env.readSource source offset length.toNat s₂ =
      .ok (env.readExactAt s₂.env source offset length.toNat).1 s₃ := by rw [hs₃]; rfl
  have hcodec₃ : s₃.codec = s.codec := by rw [hs₃, hs₂, hs₁]; rfl
  have hopened₃ : s₃.opened = s.opened := by rw [hs₃, hs₂, hs₁]; rfl
  have hquiet : link.requests s₃.env = link.requests s.env ∧
      link.replies s₃.env = link.replies s.env := by
    rw [hs₃, hs₂, hs₁]
    exact link.quiet.trans (link.quiet.revalidate _ _) (link.quiet.readExactAt _ _ _ _)
  -- the turn is the reply to what the source answered
  have hserve : ∀ turn : Serve σ Source Unit,
      (∃ code, (env.readExactAt s₂.env source offset length.toNat).1 = .error code ∧
        turn = env.failSource code) ∨
      (∃ bytes, (env.readExactAt s₂.env source offset length.toNat).1 = .ok bytes ∧
        turn = env.sendMessage (.readData bytes)) →
      env.serveRead handleId offset length s = turn s₃ := by
    intro turn hturn
    unfold BrokerEnv.serveRead
    rw [bind_of_ok (show (get : Serve σ Source (ServeState σ Source)) s = .ok s s from rfl),
      hopened]
    show (if handleId ≠ handleId then _ else env.measure source >>= _ : Serve σ Source Unit) s = _
    rw [if_neg (not_not.mpr rfl), bind_of_ok hmeasure, U64.checkedAdd_of_lt (by omega)]
    dsimp only
    rw [hsource.measured, if_neg (by omega), bind_of_ok hidentity, hsource.revalidate]
    dsimp only
    rw [bind_of_ok hread]
    rcases hturn with ⟨_, hstep, rfl⟩ | ⟨_, hstep, rfl⟩
    · rw [hstep]
    · rw [hstep]
  have hk₃ : s₃.codec.nextOutbound = some k := by rw [hcodec₃, hk]
  have hsend : ∀ reply : Message, reply.validate = .ok () → ∃ s',
      env.sendMessage reply s₃ = .ok () s' ∧ (Frame.mk k reply).Valid ∧
      link.replies s'.env = link.replies s.env ++ (Frame.mk k reply).bytes ∧
      link.requests s'.env = link.requests s.env ∧ s'.opened = s.opened ∧
      s'.codec = { s.codec with nextOutbound := SessionCodec.following k } := by
    intro reply hreply
    obtain ⟨s', hsent, hreplies, hrequests, hopened', hcodec, _⟩ :=
      sendMessage_flight link hk₃ ⟨hne, hreply⟩
    refine ⟨s', hsent, ⟨hne, hreply⟩, ?_, hrequests.trans hquiet.1, hopened'.trans hopened₃, ?_⟩
    · rw [hreplies, hquiet.2]
    · rw [hcodec, hcodec₃]
  rcases Classical.em (∃ i < length.toNat, bad (offset.toNat + i)) with hbad | hnone
  · obtain ⟨s', hsent, hframe, hrest⟩ := hsend (.error .readFailed) rfl
    refine ⟨_, s', ?_, .inr ⟨hbad, rfl⟩, hframe, hrest⟩
    rw [hserve _ (.inl ⟨_, hsource.failed _ _ _ hin hbad, rfl⟩)]
    exact hsent
  · have hgood : ∀ i < length.toNat, ¬bad (offset.toNat + i) := fun i hi hbad => hnone ⟨i, hi, hbad⟩
    have hmax := readAt_length_le hvalid
    obtain ⟨s', hsent, hframe, hrest⟩ :=
      hsend (.readData (Bytes.window byte offset.toNat length.toNat)) (by
      show (if _ then _ else _) = _
      rw [if_neg (by rw [Bytes.length_window]; omega)])
    refine ⟨_, s', ?_, .inl ⟨hgood, rfl⟩, hframe, hrest⟩
    rw [hserve _ (.inr ⟨_, hsource.good _ _ _ hin hgood, rfl⟩)]
    exact hsent

theorem serveTurn_faulty (link : Duplex env) (hsource : env.Faulty source size byte bad)
    {s : ServeState σ Source} {offset : UInt64} {length : UInt32} {k : UInt64}
    (hcodec : s.codec = ⟨some k, some k⟩) (hne : k ≠ 0)
    (hvalid : (Message.readAt handleId offset length).validate = .ok ())
    (hrequests : link.requests s.env = (Frame.mk k (.readAt handleId offset length)).bytes)
    (hreplies : link.replies s.env = []) (hopened : s.opened = openedAs handleId (some source))
    (hin : offset.toNat + length.toNat ≤ size) (hsize : size < 2 ^ 64) :
    ∃ reply s', env.serveTurn handleId s = .ok true s' ∧
      ReadReply byte bad offset.toNat length.toNat reply ∧
      Turned link handleId k reply (some source) s' := by
  obtain ⟨s₁, hreceive, hempty, hquiet, hopened₁, hcodec₁, _⟩ :=
    receive_flight link (show s.codec.nextInbound = some k by rw [hcodec]) ⟨hne, hvalid⟩ hrequests
  obtain ⟨reply, s', hserved, hreply, hframe, hreplies', hrequests', hopened', hcodec'⟩ :=
    serveRead_faulty link hsource (hopened₁.trans hopened)
      (show s₁.codec.nextOutbound = some k by rw [hcodec₁, hcodec]) hne hvalid hin hsize
  have hturn : env.serveTurn handleId s = .ok true s' := by
    unfold BrokerEnv.serveTurn
    rw [bind_of_ok hreceive]
    exact bind_of_ok hserved
  refine ⟨reply, s', hturn, hreply, hrequests'.trans hempty, ?_, hframe, ?_, ?_⟩
  · rw [hreplies', hquiet, hreplies, List.nil_append]
  · rw [hcodec', hcodec₁, hcodec]
  · rw [hopened', hopened₁, hopened]

/-- The reply that opens a source. -/
def openedReply (env : BrokerEnv σ Source) (handleId : UInt64) (x : σ) (source : Source) :
    Message :=
  let g := env.geometry x source
  .opened handleId g.size g.logicalSector g.physicalSector g.physicalDiskNumber

/-- With `o` open, a request to open a source is answered by `reply` and leaves `o'` open. -/
structure OpensAs (env : BrokerEnv σ Source) (handleId : UInt64) (sourceId : String)
    (o : Option Source) (reply : Message) (o' : Option Source) : Prop where
  measured : ∀ h size l p d, reply = .opened h size l p d →
    ∃ source x, o' = some source ∧ reply = openedReply env handleId x source
  opens : ∀ source, o = none → (∀ x, (env.openSource x sourceId).1 = .ok source) →
    (∀ x, (openedReply env handleId x source).validate = .ok ()) →
    ∃ x, reply = openedReply env handleId x source

/-- The turn that opens a source reports the source's geometry. -/
theorem serveOpen_flight (link : Duplex env) {s : ServeState σ Source} {k : UInt64}
    {o : Option Source} (hopened : s.opened = openedAs handleId o)
    (hk : s.codec.nextOutbound = some k) (hne : k ≠ 0) (sourceId : String) :
    ∃ reply o' s', env.serveOpen handleId sourceId s = .ok () s' ∧ (Frame.mk k reply).Valid ∧
      link.replies s'.env = link.replies s.env ++ (Frame.mk k reply).bytes ∧
      link.requests s'.env = link.requests s.env ∧ s'.opened = openedAs handleId o' ∧
      s'.codec = { s.codec with nextOutbound := SessionCodec.following k } ∧
      OpensAs env handleId sourceId o reply o' := by
  -- every branch below answers with one valid message from a state of this kind
  have hsend : ∀ s₁ : ServeState σ Source, s₁.codec = s.codec →
      link.replies s₁.env = link.replies s.env → link.requests s₁.env = link.requests s.env →
      ∀ reply : Message, reply.validate = .ok () → ∃ s',
        env.sendMessage reply s₁ = .ok () s' ∧ (Frame.mk k reply).Valid ∧
        link.replies s'.env = link.replies s.env ++ (Frame.mk k reply).bytes ∧
        link.requests s'.env = link.requests s.env ∧ s'.opened = s₁.opened ∧
        s'.codec = { s.codec with nextOutbound := SessionCodec.following k } := by
    intro s₁ hcodec hreplies hrequests reply hreply
    obtain ⟨s', hsent, hreplies', hrequests', hopened', hcodec', _⟩ :=
      sendMessage_flight link (show s₁.codec.nextOutbound = some k by rw [hcodec, hk]) ⟨hne, hreply⟩
    refine ⟨s', hsent, ⟨hne, hreply⟩, ?_, hrequests'.trans hrequests, hopened', ?_⟩
    · rw [hreplies', hreplies]
    · rw [hcodec', hcodec]
  have hget : (get : Serve σ Source (ServeState σ Source)) s = .ok s s := rfl
  unfold BrokerEnv.serveOpen
  rw [bind_of_ok hget, hopened]
  -- an open source refuses a second one before the environment is asked
  cases o with
  | some source =>
    obtain ⟨s', hsent, hframe, hreplies, hrequests, hopened', hcodec⟩ :=
      hsend s rfl rfl rfl (.error .invalidRequest) rfl
    exact ⟨_, some source, s', hsent, hframe, hreplies, hrequests, hopened'.trans hopened, hcodec,
      fun _ _ _ _ _ h => (by cases h), fun _ h => (by cases h)⟩
  | none =>
    obtain ⟨hrequests₁, hreplies₁⟩ := link.quiet.openSource s.env sourceId
    obtain ⟨s₁, hs₁⟩ : ∃ s₁, s₁ = { s with env := (env.openSource s.env sourceId).2 }.push
      (.acquired sourceId (env.openSource s.env sourceId).1) := ⟨_, rfl⟩
    have hacquire : env.acquire sourceId s = .ok (env.openSource s.env sourceId).1 s₁ := by
      rw [hs₁]
      rfl
    have hsame : s₁.codec = s.codec ∧ s₁.opened = none ∧
        s₁.env = (env.openSource s.env sourceId).2 := by
      rw [hs₁]
      exact ⟨rfl, hopened, rfl⟩
    show ∃ reply o' s', (env.acquire sourceId >>= _ : Serve σ Source Unit) s = _ ∧ _
    rw [bind_of_ok hacquire]
    -- the factory refuses: its code goes back and the session stays closed
    cases hanswer : (env.openSource s.env sourceId).1 with
    | error code =>
      obtain ⟨s', hsent, hframe, hreplies, hrequests, hopened', hcodec⟩ :=
        hsend s₁ hsame.1 (by rw [hsame.2.2, hreplies₁]) (by rw [hsame.2.2, hrequests₁])
        (.error code) rfl
      refine ⟨_, none, s', hsent, hframe, hreplies, hrequests, hopened'.trans hsame.2.1, hcodec,
        fun _ _ _ _ _ h => (by cases h), fun source _ h _ => ?_⟩
      rw [h] at hanswer
      cases hanswer
    | ok source =>
      obtain ⟨g, hg⟩ : ∃ g, g = env.geometry s₁.env source := ⟨_, rfl⟩
      have hmeasure : env.measure source s₁ = .ok g (s₁.push (.measured source g)) := by
        rw [hg]
        rfl
      dsimp only
      rw [bind_of_ok hmeasure]
      -- the geometry is checked before the source is kept
      cases hvalid : (Message.opened handleId g.size g.logicalSector g.physicalSector
          g.physicalDiskNumber).validate with
      | ok =>
        obtain ⟨s', hsent, hframe, hreplies, hrequests, hopened', hcodec⟩ :=
          hsend (s₁.push (.measured source g)) hsame.1
            (by show link.replies s₁.env = _; rw [hsame.2.2, hreplies₁])
            (by show link.requests s₁.env = _; rw [hsame.2.2, hrequests₁]) _ hvalid
        refine ⟨_, some source, { s' with opened := some ⟨handleId, source⟩ }, ?_, hframe, hreplies,
          hrequests, rfl, hcodec, fun _ _ _ _ _ _ => ⟨source, s₁.env, rfl, ?_⟩,
          fun source' _ h _ => ?_⟩
        -- the source is kept only after the reply went out
        · show (env.sendMessage _ >>= fun _ => modify _ : Serve σ Source Unit) _ = _
          rw [bind_of_ok hsent]
          rfl
        · rw [hg]
          rfl
        · rw [h] at hanswer
          cases hanswer
          exact ⟨s₁.env, by rw [hg]; rfl⟩
      | error e =>
        obtain ⟨s', hsent, hframe, hreplies, hrequests, hopened', hcodec⟩ :=
          hsend (s₁.push (.measured source g)) hsame.1
            (by show link.replies s₁.env = _; rw [hsame.2.2, hreplies₁])
            (by show link.requests s₁.env = _; rw [hsame.2.2, hrequests₁])
            (.error .sourceIdentityMismatch) rfl
        -- a geometry outside the protocol drops the source again
        refine ⟨_, none, s'.push (.released source), ?_, hframe, hreplies, hrequests,
          hopened'.trans hsame.2.1, hcodec, fun _ _ _ _ _ h => (by cases h),
          fun source' _ h hfit => ?_⟩
        · show (env.sendBrokerError _ >>= fun _ =>
            BrokerEnv.drop source : Serve σ Source Unit) _ = _
          exact (bind_of_ok hsent).trans rfl
        · rw [h] at hanswer
          cases hanswer
          have := hfit s₁.env
          rw [show openedReply env handleId s₁.env source = .opened handleId g.size g.logicalSector
            g.physicalSector g.physicalDiskNumber by rw [hg]; rfl, hvalid] at this
          cases this

theorem serveTurn_open (link : Duplex env) {s : ServeState σ Source} {sourceId : String}
    {k : UInt64} {o : Option Source} (hcodec : s.codec = ⟨some k, some k⟩) (hne : k ≠ 0)
    (hvalid : (Message.openSource sourceId).validate = .ok ())
    (hrequests : link.requests s.env = (Frame.mk k (.openSource sourceId)).bytes)
    (hreplies : link.replies s.env = []) (hopened : s.opened = openedAs handleId o) :
    ∃ reply o' s', env.serveTurn handleId s = .ok true s' ∧ Turned link handleId k reply o' s' ∧
      OpensAs env handleId sourceId o reply o' := by
  obtain ⟨s₁, hreceive, hempty, hquiet, hopened₁, hcodec₁, _⟩ :=
    receive_flight link (show s.codec.nextInbound = some k by rw [hcodec]) ⟨hne, hvalid⟩ hrequests
  obtain ⟨reply, o', s', hserved, hframe, hreplies', hrequests', hopened', hcodec', hreply⟩ :=
    serveOpen_flight link (hopened₁.trans hopened)
      (show s₁.codec.nextOutbound = some k by rw [hcodec₁, hcodec]) hne sourceId
  have hturn : env.serveTurn handleId s = .ok true s' := by
    unfold BrokerEnv.serveTurn
    rw [bind_of_ok hreceive]
    exact bind_of_ok hserved
  refine ⟨reply, o', s', hturn, ⟨hrequests'.trans hempty, ?_, hframe, ?_, hopened'⟩, hreply⟩
  · rw [hreplies', hquiet, hreplies, List.nil_append]
  · rw [hcodec', hcodec₁, hcodec]

/-! ## Reads of the client -/

section Buffer

variable {S : Type} {session : ReadSession S} {reader : BrokerSourceReader}

theorem length_readChunks (offset fuel completed : Nat) (buffer : Bytes) (s : S) :
    (reader.readChunks session offset fuel completed buffer s).2.1.length = buffer.length := by
  induction fuel generalizing completed buffer s with
  | zero => rfl
  | succ fuel ih =>
    unfold BrokerSourceReader.readChunks
    by_cases hmore : completed < buffer.length
    · rw [if_pos hmore]
      dsimp only
      cases U64.checkedAdd offset completed with
      | none => rfl
      | some chunkOffset =>
        dsimp only
        split
        · exact List.length_replicate
        · split
          · next hlength =>
            rw [ih]
            simp only [List.length_append, List.length_take, List.length_drop]
            omega
          · exact List.length_replicate
    · rw [if_neg hmore]

/-- The buffer keeps its length. -/
theorem length_readExactAt (offset : Nat) (buffer : Bytes) (s : S) :
    (reader.readExactAt session offset buffer s).2.1.length = buffer.length := by
  unfold BrokerSourceReader.readExactAt
  split
  · rfl
  · split
    · rfl
    · exact length_readChunks ..

end Buffer

section Reads

variable {link : Duplex env} {s : ProtocolReadSession (Peer σ Source)} {n : Nat}

/-- A valid read of a joined session is answered as the source answers it. -/
theorem readAt_faulty (hsource : env.Faulty source size byte bad) (hsize : size < 2 ^ 64)
    (hs : Joined link handleId s (some source) n) {offset : UInt64} {length : UInt32}
    (hvalid : (Message.readAt handleId offset length).validate = .ok ())
    (hin : offset.toNat + length.toNat ≤ size) (hn : 1 + n < 2 ^ 64) :
    ∃ s', Joined link handleId s' (some source) (n + 1) ∧
      ((∀ i < length.toNat, ¬bad (offset.toNat + i)) ∧
          readAt (link.transport handleId) handleId offset length s =
            .ok (Bytes.window byte offset.toNat length.toNat) s' ∨
        (∃ i < length.toNat, bad (offset.toNat + i)) ∧
          readAt (link.transport handleId) handleId offset length s =
            .error (.fromBroker .readFailed) s') := by
  obtain ⟨k, hk⟩ : ∃ k, counterAt 1 n = some k := ⟨_, if_pos hn⟩
  obtain ⟨x, hrequests, hreplies, hturn⟩ := exchange_turned hs hk hvalid
  obtain ⟨reply, served, hserved, hreply, hturned⟩ := serveTurn_faulty link hsource
    (s := { s.transport.serve with env := x })
    (by show s.transport.serve.codec = _; rw [hs.broker, hk]) (counterAt_ne_zero hk) hvalid
    hrequests hreplies hs.opened hin hsize
  obtain ⟨s', hexchange, hjoined, _⟩ := hturn reply (some source) served hserved hturned
  refine ⟨s', hjoined, ?_⟩
  unfold ProtocolReadSession.readAt
  rw [bind_of_ok hexchange]
  -- one bad byte in the range is enough for the broker to answer with an error
  rcases hreply with ⟨hgood, rfl⟩ | ⟨hbad, rfl⟩
  · refine .inl ⟨hgood, ?_⟩
    show (if (Bytes.window byte offset.toNat length.toNat).length ≠ length.toNat then _ else _ :
      Client (Peer σ Source) Bytes) s' = _
    rw [if_neg (not_not.mpr (Bytes.length_window ..))]
    rfl
  · exact .inr ⟨hbad, rfl⟩

/-- The number of chunks that `m` bytes are read in. -/
def chunkCount (m : Nat) : Nat := (m + (maxReadLen - 1)) / maxReadLen

theorem chunkCount_step {m : Nat} (hm : 0 < m) :
    chunkCount m = chunkCount (m - min m maxReadLen) + 1 := by
  have hmax : 0 < maxReadLen := by decide
  unfold chunkCount
  by_cases hle : m ≤ maxReadLen
  · rw [Nat.min_eq_left hle, Nat.sub_self, Nat.zero_add,
      Nat.div_eq_of_lt (by omega : maxReadLen - 1 < _),
      show m + (maxReadLen - 1) = (m - 1) + maxReadLen by omega, Nat.add_div_right _ hmax,
      Nat.div_eq_of_lt (by omega)]
  · rw [Nat.min_eq_right (by omega),
      show m + (maxReadLen - 1) = (m - maxReadLen + (maxReadLen - 1)) + maxReadLen by omega,
      Nat.add_div_right _ hmax]

variable {reader : BrokerSourceReader}

theorem readAt_validate {handleId : UInt64} {offset length : Nat} (hhandle : handleId ≠ 0)
    (hpos : 0 < length) (hmax : length ≤ maxReadLen) (hlt : offset + length < 2 ^ 64) :
    (Message.readAt handleId (UInt64.ofNat offset) (UInt32.ofNat length)).validate = .ok () := by
  have hword : maxReadLen < 2 ^ 32 := by decide
  have hoffset : (UInt64.ofNat offset).toNat = offset :=
    UInt64.toNat_ofNat_of_lt' (show offset < 2 ^ 64 by omega)
  have hlength : (UInt32.ofNat length).toNat = length :=
    UInt32.toNat_ofNat_of_lt' (show length < 2 ^ 32 by omega)
  simp only [Message.validate, throw_bind, bind_eq_ok, ite_throw_eq_ok, hoffset, hlength,
    okOr_eq_ok, U64.checkedAdd_eq_some, pure_eq_ok]
  refine ⟨(), by unfold validateNonzero; rw [if_neg hhandle], ?_, _, ⟨hlt, rfl⟩, trivial⟩
  rw [Bool.or_eq_true, decide_eq_true_eq, decide_eq_true_eq]
  omega

/-- How the loop of an exact read ends. -/
theorem readChunks_faulty (hsource : env.Faulty source size byte bad) (hsize : size < 2 ^ 64)
    (hs : Joined link handleId s (some source) n) (hhandle : handleId ≠ 0)
    (hreader : reader.handleId = handleId) {offset fuel completed : Nat} {buffer : Bytes}
    (hin : offset + buffer.length ≤ size) (hfuel : buffer.length ≤ completed + fuel)
    (hcompleted : completed ≤ buffer.length)
    (hfilled : buffer.take completed = Bytes.window byte offset completed) :
    ∃ result out s', reader.readChunks (readSession (link.transport handleId)) offset fuel completed
        buffer s = (result, out, s') ∧
      (result = .ok () ∧ out = Bytes.window byte offset buffer.length ∧
          (∀ i, completed ≤ i → i < buffer.length → ¬bad (offset + i)) ∧
          (completed < buffer.length → n + chunkCount (buffer.length - completed) < 2 ^ 64) ∧
          (∃ n', Joined link handleId s' (some source) n') ∨
        (∃ e, result = .error e) ∧ ((∃ i, completed ≤ i ∧ i < buffer.length ∧ bad (offset + i)) ∨
          2 ^ 64 ≤ n + chunkCount (buffer.length - completed)) ∧
          ((∃ n', Joined link handleId s' (some source) n') ∨ s'.Latched)) := by
  -- when nothing is left the buffer is the window that was asked for
  have hdone : ∀ {completed : Nat} {buffer : Bytes}, completed = buffer.length →
      buffer.take completed = Bytes.window byte offset completed →
      buffer = Bytes.window byte offset buffer.length := by
    intro completed buffer h hfilled
    rwa [h, List.take_length] at hfilled
  -- on the fuel, one chunk of at most `maxReadLen` bytes each
  induction fuel generalizing completed buffer s n with
  | zero =>
    exact ⟨.ok (), buffer, s, rfl, .inl ⟨rfl, hdone (by omega) hfilled, fun i hi hlt => (by omega),
      fun h => (by omega), n, hs⟩⟩
  | succ fuel ih =>
    unfold BrokerSourceReader.readChunks
    by_cases hmore : completed < buffer.length
    · have hmax : 0 < maxReadLen ∧ maxReadLen < 2 ^ 32 := by decide
      rw [if_pos hmore, U64.checkedAdd_of_lt (by omega)]
      obtain ⟨chunk, hchunk⟩ : ∃ chunk, chunk = min (buffer.length - completed) maxReadLen :=
        ⟨_, rfl⟩
      have hcount := chunkCount_step (show 0 < buffer.length - completed by omega)
      rw [← hchunk] at hcount ⊢
      have hoffset : (UInt64.ofNat (offset + completed)).toNat = offset + completed :=
        UInt64.toNat_ofNat_of_lt' (show offset + completed < 2 ^ 64 by omega)
      have hlength : (UInt32.ofNat chunk).toNat = chunk :=
        UInt32.toNat_ofNat_of_lt' (show chunk < 2 ^ 32 by omega)
      have hvalid : (Message.readAt handleId (UInt64.ofNat (offset + completed))
          (UInt32.ofNat chunk)).validate = .ok () :=
        readAt_validate hhandle (by omega) (by omega) (by omega)
      simp only [readSession, hreader]
      -- each chunk takes one sequence number
      by_cases hn : 1 + n < 2 ^ 64
      · obtain ⟨s', hjoined, hread⟩ := readAt_faulty hsource hsize hs hvalid
          (by rw [hoffset, hlength]; omega) hn
        rw [hoffset, hlength] at hread
        -- a good chunk extends the filled prefix, a bad one ends the read
        rcases hread with ⟨hgood, hread⟩ | ⟨⟨i, hi, hbad⟩, hread⟩
        · rw [hread]
          dsimp only
          rw [if_pos (Bytes.length_window ..)]
          have hnext : (buffer.take completed ++ Bytes.window byte (offset + completed) chunk ++
              buffer.drop (completed + chunk)).length = buffer.length := by
            simp only [List.length_append, List.length_take, List.length_drop, Bytes.length_window]
            omega
          obtain ⟨result, out, s₁, hrest, hends⟩ := ih hjoined (by rw [hnext]; exact hin)
            (show _ ≤ completed + chunk + fuel by rw [hnext]; omega) (by omega)
            (by rw [List.take_left' (by rw [List.length_append, List.length_take,
                  Bytes.length_window]; omega), hfilled, ← Bytes.window_append])
          rw [hnext, show buffer.length - (completed + chunk) = buffer.length - completed - chunk by
            omega] at hends
          refine ⟨result, out, s₁, hrest, ?_⟩
          rcases hends with ⟨hok, hout, hrange, hroom, hlast⟩ | ⟨herror, hreason, hlast⟩
          · refine .inl ⟨hok, hout, fun i hi hlt => ?_, fun _ => ?_, hlast⟩
            · by_cases hin : i < completed + chunk
              · have := hgood (i - completed) (by omega)
                rwa [show offset + completed + (i - completed) = offset + i by omega] at this
              · exact hrange i (by omega) hlt
            · by_cases hend : completed + chunk < buffer.length
              · have := hroom hend
                omega
              · rw [hcount, show buffer.length - completed - chunk = 0 by omega,
                  show chunkCount 0 = 0 by decide]
                omega
          · refine .inr ⟨herror, ?_, hlast⟩
            rcases hreason with ⟨i, hi, hlt, hbad⟩ | hroom
            · exact .inl ⟨i, by omega, hlt, hbad⟩
            · exact .inr (by omega)
        · rw [hread]
          refine ⟨_, _, s', rfl, .inr ⟨⟨_, rfl⟩, .inl ⟨completed + i, by omega, by omega, ?_⟩,
            .inl ⟨_, hjoined⟩⟩⟩
          rwa [← Nat.add_assoc]
      · -- the sequence numbers are used up
        obtain ⟨e, s', hexchange, _, hlatched, _⟩ := exchange_refused (m := .readAt handleId
          (UInt64.ofNat (offset + completed)) (UInt32.ofNat chunk)) hs (.inr (if_neg hn))
        have hread : ProtocolReadSession.readAt (link.transport handleId) handleId
            (UInt64.ofNat (offset + completed)) (UInt32.ofNat chunk) s = .error e s' :=
          bind_of_error hexchange
        rw [hread]
        exact ⟨_, _, s', rfl, .inr ⟨⟨_, rfl⟩, .inr (by omega), .inr hlatched⟩⟩
    · rw [if_neg hmore]
      exact ⟨.ok (), buffer, s, rfl, .inl ⟨rfl, hdone (by omega) hfilled,
        fun i hi hlt => (by omega), fun h => (by omega), n, hs⟩⟩

/-- The reader of an opened source has the length that the source reported. -/
theorem openReader_measured (hs : Coherent link handleId s) {sourceId : String}
    {s' : ProtocolReadSession (Peer σ Source)}
    (h : BrokerSourceReader.openReader (readSession (link.transport handleId)) sourceId s =
      .ok reader s') :
    ∃ source n x, Joined link handleId s' (some source) n ∧ reader.handleId = handleId ∧
      handleId ≠ 0 ∧ reader.length = (env.geometry x source).size ∧
      ServeEvent.acquired sourceId (.ok source) ∈ s'.transport.serve.trace := by
  obtain ⟨source, n, hjoined, hhandle, hacquired⟩ := openReader_joined hs h
  obtain ⟨opened, hopen, hhandle', hlength, hne⟩ := wp_openReader.of_ok h
  rw [← hhandle', hhandle] at hne
  suffices hsize : ∃ x, opened.size = (env.geometry x source).size by
    obtain ⟨x, hsize⟩ := hsize
    exact ⟨source, n, x, hjoined, hhandle, hne, hlength.trans hsize, hacquired⟩
  change ProtocolReadSession.openSource (link.transport handleId) sourceId s = _ at hopen
  unfold ProtocolReadSession.openSource at hopen
  rcases hs with ⟨o, n, hs⟩ | hlatched | hshut
  · by_cases hready : (Message.openSource sourceId).validate ≠ .ok () ∨ counterAt 1 n = none
    · obtain ⟨e, s₁, hexchange, _⟩ := exchange_refused hs hready
      rw [bind_of_error hexchange] at hopen
      cases hopen
    · rw [not_or, not_not] at hready
      obtain ⟨k, hk⟩ := Option.ne_none_iff_exists'.mp hready.2
      obtain ⟨x, hrequests, hreplies, hturn⟩ := exchange_turned hs hk hready.1
      obtain ⟨reply, o', served, hserved, hturned, hreply⟩ := serveTurn_open link
        (s := { s.transport.serve with env := x })
        (by show s.transport.serve.codec = _; rw [hs.broker, hk]) (counterAt_ne_zero hk) hready.1
        hrequests hreplies hs.opened
      obtain ⟨s₁, hexchange, hjoined₁, _⟩ := hturn reply o' served hserved hturned
      rw [bind_of_ok hexchange] at hopen
      cases reply with
      | opened handle size l p d =>
        cases hopen
        obtain ⟨source', x', rfl, hopened⟩ := hreply.measured _ _ _ _ _ rfl
        -- the source that is open is the one that was acquired
        have hsame := hjoined₁.opened.symm.trans hjoined.opened
        cases hsame
        exact ⟨x', (Message.opened.inj hopened).2.1⟩
      | _ => cases hopen
  · rw [bind_of_error (exchange_latched hlatched)] at hopen
    cases hopen
  · rw [bind_of_error (exchange_shut hshut)] at hopen
    cases hopen

/-- A source that the factory finds, and whose geometry is valid, is opened. -/
theorem openReader_ready (hs : Joined link handleId s none n) {k : UInt64}
    (hk : counterAt 1 n = some k) {sourceId : String}
    (hid : (Message.openSource sourceId).validate = .ok ())
    (hsource : ∀ x, (env.openSource x sourceId).1 = .ok source)
    (hreply : ∀ x, (openedReply env handleId x source).validate = .ok ())
    (hlayout : ∀ x, (SectorLayout.new (env.geometry x source).logicalSector
      (env.geometry x source).physicalSector).isSome = true)
    (hne : ∀ x, handleId ≠ 0 ∧ (env.geometry x source).size ≠ 0) :
    ∃ reader s' o',
      BrokerSourceReader.openReader (readSession (link.transport handleId)) sourceId s =
      .ok reader s' ∧ Joined link handleId s' o' (n + 1) := by
  obtain ⟨x, hrequests, hreplies, hturn⟩ := exchange_turned hs hk hid
  obtain ⟨reply, o', served, hserved, hturned, hopens⟩ := serveTurn_open link
    (s := { s.transport.serve with env := x })
    (by show s.transport.serve.codec = _; rw [hs.broker, hk]) (counterAt_ne_zero hk) hid
    hrequests hreplies hs.opened
  obtain ⟨s', hexchange, hjoined, _⟩ := hturn reply o' served hserved hturned
  obtain ⟨y, rfl⟩ := hopens.opens source rfl hsource hreply
  -- the handle of the reply becomes the reader's
  have hopen : (readSession (link.transport handleId)).openSource sourceId s =
      .ok ⟨handleId, (env.geometry y source).size, (env.geometry y source).logicalSector,
        (env.geometry y source).physicalSector, (env.geometry y source).physicalDiskNumber⟩ s' := by
    show ProtocolReadSession.openSource (link.transport handleId) sourceId s = _
    unfold ProtocolReadSession.openSource
    rw [bind_of_ok hexchange]
    rfl
  obtain ⟨layout, hlayout⟩ := Option.isSome_iff_exists.mp (hlayout y)
  have hattempt : (EStateM.attempt ((readSession (link.transport handleId)).openSource sourceId) :
      EStateM BrokerClientError _ _) s = .ok (.ok ⟨handleId, (env.geometry y source).size,
        (env.geometry y source).logicalSector, (env.geometry y source).physicalSector,
        (env.geometry y source).physicalDiskNumber⟩) s' := by
    unfold EStateM.attempt
    rw [hopen]
  unfold BrokerSourceReader.openReader
  rw [hid, show (!(Except.ok () : Except ProtocolError Unit).toBool) = false from rfl,
    if_neg Bool.false_ne_true, bind_of_ok hattempt]
  dsimp only
  -- layout, handle and size pass the checks of `open_reader`
  rw [hlayout, decide_eq_true (hne y)]
  exact ⟨_, s', o', rfl, hjoined⟩

/-- A session that has `source` open, or has failed. -/
def Serving (link : Duplex env) (handleId : UInt64) (source : Source)
    (s : ProtocolReadSession (Peer σ Source)) : Prop :=
  (∃ n, Joined link handleId s (some source) n) ∨ s.Latched

/-- A session with sequence numbers for the chunks of `length` bytes. -/
def HasRoom (s : ProtocolReadSession (Peer σ Source)) (length : Nat) : Prop :=
  s.failed = false ∧ ∃ k, s.codec.nextOutbound = some k ∧ k.toNat + chunkCount length ≤ 2 ^ 64

theorem Joined.hasRoom_iff {o : Option Source} (hs : Joined link handleId s o n) {length : Nat}
    (hlength : 0 < length) : HasRoom s length ↔ n + chunkCount length < 2 ^ 64 := by
  have hcount : 0 < chunkCount length := by
    rw [chunkCount_step hlength]
    omega
  have hvalue : ∀ {k}, counterAt 1 n = some k → 1 + n = k.toNat := counterAt_eq_some.mp
  unfold HasRoom
  rw [hs.client]
  constructor
  · rintro ⟨_, k, hk, hroom⟩
    have := hvalue hk
    omega
  · intro hroom
    obtain ⟨k, hk⟩ : ∃ k, counterAt 1 n = some k :=
      ⟨_, if_pos (show 1 + n < 2 ^ 64 by omega)⟩
    have := hvalue hk
    exact ⟨hs.available.1, k, hk, by omega⟩

/-- How an exact read ends. -/
theorem readExactAt_faulty (hsource : env.Faulty source size byte bad)
    (hs : Serving link handleId source s) (hhandle : handleId ≠ 0)
    (hreader : reader.handleId = handleId) (hlength : reader.length.toNat = size) (offset : Nat)
    (buffer : Bytes) :
    ∃ result out s', reader.readExactAt (readSession (link.transport handleId)) offset buffer s =
        (result, out, s') ∧ Serving link handleId source s' ∧
      (offset + buffer.length ≤ size → 0 < buffer.length →
        result = .ok () ∧ out = Bytes.window byte offset buffer.length ∧
            (∀ i < buffer.length, ¬bad (offset + i)) ∧ HasRoom s buffer.length ∨
          (∃ e, result = .error e) ∧
            ((∃ i < buffer.length, bad (offset + i)) ∨ ¬HasRoom s buffer.length)) := by
  have hsize : size < 2 ^ 64 := by
    rw [← hlength]
    exact reader.length.toNat_lt
  unfold BrokerSourceReader.readExactAt
  -- the range check of the reader decides before any request is sent
  by_cases hin : offset + buffer.length ≤ size
  · have hrange : reader.rangeIsValid offset buffer.length = true := by
      unfold BrokerSourceReader.rangeIsValid
      rw [U64.checkedAdd_of_lt (by omega)]
      exact decide_eq_true (by omega)
    rw [hrange]
    -- an empty buffer sends nothing
    cases hempty : buffer.isEmpty with
    | true =>
      rw [List.isEmpty_iff.mp hempty]
      exact ⟨_, _, s, rfl, hs, fun _ h => (by simp at h)⟩
    | false =>
      have hpos : 0 < buffer.length := by
        apply List.length_pos_iff.mpr
        intro hnil
        rw [hnil] at hempty
        cases hempty
      -- a latched session refuses without a request, so `HasRoom` must fail there
      rcases hs with ⟨n, hs⟩ | hlatched
      · obtain ⟨result, out, s', hread, hends⟩ := readChunks_faulty hsource hsize hs hhandle
          hreader hin (show buffer.length ≤ 0 + buffer.length by omega) (Nat.zero_le _) rfl
        rw [Nat.sub_zero] at hends
        refine ⟨result, out, s', hread, ?_, fun _ _ => ?_⟩
        · rcases hends with ⟨_, _, _, _, n', hjoined⟩ | ⟨_, _, hjoined | hlatched⟩
          · exact .inl ⟨n', hjoined⟩
          · exact .inl hjoined
          · exact .inr hlatched
        · rw [hs.hasRoom_iff hpos]
          rcases hends with ⟨hok, hout, hgood, hroom, _⟩ | ⟨herror, hreason, _⟩
          · exact .inl ⟨hok, hout, fun i hi => hgood i (Nat.zero_le _) hi, hroom hpos⟩
          · refine .inr ⟨herror, ?_⟩
            rcases hreason with ⟨i, _, hi, hbad⟩ | hroom
            · exact .inl ⟨i, hi, hbad⟩
            · exact .inr (by omega)
      · obtain ⟨e, out, hread⟩ : ∃ e out,
            reader.readExactAt (readSession (link.transport handleId)) offset buffer s =
              (.error e, out, s) :=
          readExactAt_latched hlatched offset (List.ne_nil_of_length_pos hpos)
        unfold BrokerSourceReader.readExactAt at hread
        rw [hrange, hempty] at hread
        refine ⟨_, out, s, hread, .inr hlatched, fun _ _ => .inr ⟨⟨e, rfl⟩, .inr fun hroom => ?_⟩⟩
        have := hroom.1.symm.trans hlatched.1
        cases this
  · have hrange : reader.rangeIsValid offset buffer.length = false := by
      unfold BrokerSourceReader.rangeIsValid
      cases hsum : U64.checkedAdd offset buffer.length with
      | none => rfl
      | some stop =>
        obtain ⟨_, rfl⟩ := U64.checkedAdd_eq_some.mp hsum
        exact decide_eq_false (by omega)
    rw [hrange]
    exact ⟨_, _, s, rfl, hs, fun h => absurd h hin⟩

theorem afterReads_serving (hsource : env.Faulty source size byte bad)
    (hs : Serving link handleId source s) (hhandle : handleId ≠ 0)
    (hreader : reader.handleId = handleId) (hlength : reader.length.toNat = size)
    (reads : List (Nat × Bytes)) :
    Serving link handleId source
      (afterReads (readSession (link.transport handleId)) reader reads s) := by
  induction reads generalizing s with
  | nil => exact hs
  | cons read reads ih =>
    obtain ⟨result, out, s', hread, hs', _⟩ :=
      readExactAt_faulty hsource hs hhandle hreader hlength read.1 read.2
    apply ih
    dsimp only
    rw [hread]
    exact hs'

end Reads

end Undelete.Broker
