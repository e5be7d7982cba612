import Undelete.Spec.ClientServe

/-!
# A client's session beside the broker

What the operations of a client's session and of its source reader do beside `serve_session`:
whose reply they return, which bytes a read returns, and that failures latch.

## Key results

- `run_coherent`: one operation keeps the two sides together.
- `exchange_sequenced`: a reply carries the sequence number of its request.
- `readExactAt_bound`: a read returns the bytes of the source that was opened.
-/

namespace Undelete.Broker

open Except EStateM

variable {σ Source : Type} {env : BrokerEnv σ Source} {handleId : UInt64}

/-! ## Operations -/

/-- The request of an operation. -/
def SessionOp.request : SessionOp → Message
  | .openSource sourceId => .openSource sourceId
  | .readAt handleId offset length => .readAt handleId offset length
  | .closeSource handleId => .closeSource handleId
  | .shutdown => .shutdown

/-- What an operation makes of the reply to its request. -/
def SessionOp.answer : SessionOp → Message → Except BrokerClientError SessionAnswer
  | .openSource _, .opened handleId size logicalSector physicalSector physicalDiskNumber =>
    .ok (.opened ⟨handleId, size, logicalSector, physicalSector, physicalDiskNumber⟩)
  | .readAt _ _ length, .readData bytes =>
    if bytes.length ≠ length.toNat then .error .shortRead else .ok (.data bytes)
  | .closeSource handleId, .closed closedHandle =>
    if closedHandle = handleId then .ok .done else .error .unexpectedResponse
  | _, .error code => .error (.fromBroker code)
  | _, _ => .error .unexpectedResponse

section Operations

open ProtocolReadSession

variable {link : Duplex env} {s : ProtocolReadSession (Peer σ Source)} {o : Option Source}
  {op : SessionOp} {n : Nat}

/-- An operation is an exchange of its request, and what it makes of the reply. -/
theorem run_of_exchange {τ : Type} {t : Transport τ} {s s' : ProtocolReadSession τ}
    {reply : Message}
    (hop : op ≠ .shutdown) (h : exchange t op.request s = .ok reply s') :
    (op.run t s).1 = op.answer reply ∧
      ((∀ e, op.answer reply = .error e → ¬e.Latches) → (op.run t s).2 = s') := by
  have hkind : ∀ {P : Prop}, (∀ e, (.error .unexpectedResponse : Except BrokerClientError
      SessionAnswer) = .error e → ¬e.Latches) → P := fun h => absurd trivial (h _ rfl)
  -- a reply of another kind, a short read and a wrong handle latch; any other reply leaves the
  -- session as it was
  cases op with
  | shutdown => exact absurd rfl hop
  | openSource sourceId =>
    simp only [SessionOp.run, SessionOp.perform, ProtocolReadSession.openSource, bind, EStateM.bind,
      show exchange t (.openSource sourceId) s = .ok reply s' from h]
    cases reply with
    | opened => exact ⟨rfl, fun _ => rfl⟩
    | error => exact ⟨rfl, fun _ => rfl⟩
    | _ => exact ⟨rfl, hkind⟩
  | readAt handleId offset length =>
    simp only [SessionOp.run, SessionOp.perform, ProtocolReadSession.readAt, bind, EStateM.bind,
      show exchange t (.readAt handleId offset length) s = .ok reply s' from h]
    cases reply with
    | readData bytes =>
      by_cases hlength : bytes.length ≠ length.toNat
      · simp only [SessionOp.answer, if_pos hlength]
        exact ⟨rfl, fun h => absurd (show BrokerClientError.shortRead.Latches from trivial)
          (h _ rfl)⟩
      · simp only [SessionOp.answer, if_neg hlength]
        exact ⟨rfl, fun _ => rfl⟩
    | error => exact ⟨rfl, fun _ => rfl⟩
    | _ => exact ⟨rfl, hkind⟩
  | closeSource handleId =>
    simp only [SessionOp.run, SessionOp.perform, ProtocolReadSession.closeSource, bind,
      EStateM.bind,
      show exchange t (.closeSource handleId) s = .ok reply s' from h]
    cases reply with
    | closed closedHandle =>
      by_cases hclosed : closedHandle = handleId
      · simp only [SessionOp.answer, if_pos hclosed]
        exact ⟨rfl, fun _ => rfl⟩
      · simp only [SessionOp.answer, if_neg hclosed]
        exact ⟨rfl, hkind⟩
    | error => exact ⟨rfl, fun _ => rfl⟩
    | _ => exact ⟨rfl, hkind⟩

theorem run_of_error {τ : Type} {t : Transport τ} {s s' : ProtocolReadSession τ}
    {e : BrokerClientError} (hop : op ≠ .shutdown) (h : exchange t op.request s = .error e s') :
    op.run t s = (.error e, s') := by
  cases op with
  | shutdown => exact absurd rfl hop
  | openSource sourceId =>
    have : SessionOp.perform t (.openSource sourceId) s = .error e s' :=
      bind_of_error (bind_of_error h)
    unfold SessionOp.run
    rw [this]
  | readAt handleId offset length =>
    have : SessionOp.perform t (.readAt handleId offset length) s = .error e s' :=
      bind_of_error (bind_of_error h)
    unfold SessionOp.run
    rw [this]
  | closeSource handleId =>
    have : SessionOp.perform t (.closeSource handleId) s = .error e s' :=
      bind_of_error (bind_of_error h)
    unfold SessionOp.run
    rw [this]

/-- The broker's replies are of the right kind and length. -/
theorem Answers.answer {o' : Option Source} {calls dropped : List (ServeEvent Source)}
    {reply : Message} (h : Answers env handleId o op.request calls reply dropped o') :
    ∀ e, op.answer reply = .error e → ¬e.Latches := by
  intro e he
  -- an error of the broker is handed on without a latch
  have hcode : ∀ code, op.answer (.error code) = .error (.fromBroker code) := by
    intro code
    cases op <;> rfl
  -- and the broker answers every request in its kind
  cases hop : op with
  | openSource sourceId =>
    rw [hop] at h he hcode
    cases h with
    | opened => cases he
    | _ =>
      rw [hcode] at he
      cases he
      exact not_latches_fromBroker _
  | readAt handleId offset length =>
    rw [hop] at h he hcode
    cases h with
    | read _ hread =>
      simp only [SessionOp.answer, env.length_readExactAt hread, ne_eq, not_true_eq_false,
        if_false] at he
      cases he
    | _ =>
      rw [hcode] at he
      cases he
      exact not_latches_fromBroker _
  | closeSource handle =>
    rw [hop] at h he hcode
    cases h with
    | closed =>
      simp only [SessionOp.answer, if_true] at he
      cases he
    | _ =>
      rw [hcode] at he
      cases he
      exact not_latches_fromBroker _
  | shutdown =>
    rw [hop] at h he hcode
    cases h with
    | unexpected =>
      rw [hcode] at he
      cases he
      exact not_latches_fromBroker _

/-- A shutdown is sent, or leaves the session latched. -/
theorem run_shutdown {τ : Type} {t : Transport τ} {s : ProtocolReadSession τ} (hs : s.Available) :
    (∃ s', SessionOp.shutdown.run t s = (.ok .done, s') ∧ s'.shutdown = true) ∨
      ∃ e s', SessionOp.shutdown.run t s = (.error e, s') ∧ e.Latches ∧ s'.Latched := by
  -- an available session sends the message, and waits for no reply
  have hshutDown : shutDown t s = (send t .shutdown >>= fun _ =>
      modify fun s => { s with shutdown := true } : Client τ Unit) s := by
    show (if s.shutdown = true then _
      else sendWithoutResponse t .shutdown >>= _ : Client τ Unit) s = _
    rw [hs.2, if_neg Bool.false_ne_true]
    simp only [bind, EStateM.bind]
    rw [show sendWithoutResponse t .shutdown s = send t .shutdown s by
      show (if s.shutdown = true then _ else if s.failed = true then _ else _ : Client τ Unit) s = _
      rw [hs.1, hs.2, if_neg Bool.false_ne_true, if_neg Bool.false_ne_true]]
  cases hsend : send t .shutdown s with
  | ok _ s' =>
    have hperform : SessionOp.perform t .shutdown s = .ok .done { s' with shutdown := true } :=
      bind_of_ok (hshutDown.trans (bind_of_ok hsend))
    unfold SessionOp.run
    rw [hperform]
    exact .inl ⟨_, rfl, rfl⟩
  | error e s' =>
    have hperform : SessionOp.perform t .shutdown s = .error e s' :=
      bind_of_error (hshutDown.trans (bind_of_error hsend))
    unfold SessionOp.run
    rw [hperform]
    refine .inr ⟨e, s', rfl, ?_⟩
    unfold send at hsend
    split at hsend
    -- only the transport and the codec can fail here, and both latch
    · cases hsend
      exact ⟨latches_fromProtocol _, rfl, hs.2⟩
    · split at hsend
      · cases hsend
        exact ⟨trivial, rfl, hs.2⟩
      · cases hsend

/-- How an operation of the client ends, beside a broker whose side goes from `p` to `p'`: with
    what it makes of the reply of the turn that served its request, or without a reply. -/
inductive Attributed (env : BrokerEnv σ Source) (handleId : UInt64) (p p' : Peer σ Source)
    (op : SessionOp) : Except BrokerClientError SessionAnswer → Prop
  | answered {o o' : Option Source} {calls dropped : List (ServeEvent Source)} {reply : Message}
      (hanswers : Answers env handleId o op.request calls reply dropped o')
      (htrace : p'.serve.trace =
        p.serve.trace ++ (.received op.request :: (calls ++ .sent reply (.ok ()) :: dropped))) :
      Attributed env handleId p p' op (op.answer reply)
  | unanswered {e : BrokerClientError} (he : e.Latches ∨ e = .sessionUnavailable) :
      Attributed env handleId p p' op (.error e)
  | shut (hop : op = .shutdown) : Attributed env handleId p p' op (.ok .done)

/-- An operation other than the shutdown keeps the two sides together, unless it fails without
    a reply. -/
theorem run_joined (hs : Joined link handleId s o n) (hop : op ≠ .shutdown) :
    (∃ reply o', (op.run (link.transport handleId) s).1 = op.answer reply ∧
      Joined link handleId (op.run (link.transport handleId) s).2 o' (n + 1) ∧ ∃ calls dropped,
        Answers env handleId o op.request calls reply dropped o' ∧
          (op.run (link.transport handleId) s).2.transport.serve.trace = s.transport.serve.trace ++
            (.received op.request :: (calls ++ .sent reply (.ok ()) :: dropped))) ∨
    ∃ e, (op.run (link.transport handleId) s).1 = .error e ∧ e.Latches ∧
      (op.run (link.transport handleId) s).2.Latched ∧
      (op.run (link.transport handleId) s).2.transport = s.transport ∧
      (op.request.validate ≠ .ok () ∨ counterAt 1 n = none) := by
  have hrequest : op.request ≠ .shutdown := by
    intro h
    cases op <;> cases h
    exact hop rfl
  rcases exchange_joined hs hrequest with
    ⟨reply, o', s', hexchange, hjoined, calls, dropped, hanswers, htrace⟩ |
    ⟨e, s', hexchange, he, hlatched, htransport, hreason⟩
  · obtain ⟨hresult, hafter⟩ := run_of_exchange hop hexchange
    -- an answer of the broker never latches, so the session goes on in step with it
    have hafter := hafter hanswers.answer
    refine .inl ⟨reply, o', hresult, ?_, calls, dropped, hanswers, ?_⟩
    · rw [hafter]
      exact hjoined
    · rw [hafter]
      exact htrace
  · rw [run_of_error hop hexchange]
    exact .inr ⟨e, rfl, he, hlatched, htransport, hreason⟩

/-- The sides are together, or the session is not used any more. -/
def Coherent (link : Duplex env) (handleId : UInt64) (s : ProtocolReadSession (Peer σ Source)) :
    Prop :=
  (∃ o n, Joined link handleId s o n) ∨ s.Latched ∨ s.shutdown = true

theorem run_coherent (hs : Coherent link handleId s) (op : SessionOp) :
    Coherent link handleId (op.run (link.transport handleId) s).2 ∧
      Attributed env handleId s.transport (op.run (link.transport handleId) s).2.transport op
        (op.run (link.transport handleId) s).1 := by
  -- in step, latched or shut down
  rcases hs with ⟨o, n, hs⟩ | hlatched | hshut
  · by_cases hop : op = .shutdown
    · rw [hop]
      rcases run_shutdown (t := link.transport handleId) hs.available with
        ⟨s', hrun, hshut⟩ | ⟨e, s', hrun, he, hlatched⟩
      · rw [hrun]
        exact ⟨.inr (.inr hshut), .shut rfl⟩
      · rw [hrun]
        exact ⟨.inr (.inl hlatched), .unanswered (.inl he)⟩
    · rcases run_joined hs hop with
        ⟨reply, o', hresult, hjoined, calls, dropped, hanswers, htrace⟩ |
        ⟨e, hresult, he, hlatched, _⟩
      · rw [hresult]
        exact ⟨.inl ⟨o', n + 1, hjoined⟩, .answered hanswers htrace⟩
      · rw [hresult]
        exact ⟨.inr (.inl hlatched), .unanswered (.inl he)⟩
  · rw [run_latched op hlatched]
    exact ⟨.inr (.inl hlatched), .unanswered (.inr rfl)⟩
  · rcases perform_shut (t := link.transport handleId) op hshut with hperform | hperform
    · unfold SessionOp.run
      rw [hperform]
      exact ⟨.inr (.inr hshut), .unanswered (.inr rfl)⟩
    · unfold SessionOp.run
      rw [hperform]
      refine ⟨.inr (.inr hshut), .shut ?_⟩
      -- a session that is shut down answers nothing but a second shutdown
      have hnone : ∀ {α : Type} {m : Message} {f : Message → Client (Peer σ Source) α}
          {g : α → Client (Peer σ Source) SessionAnswer},
          ((exchange (link.transport handleId) m >>= f) >>= g) s ≠ .ok .done s := by
        intro α m f g h
        rw [bind_of_error (bind_of_error (exchange_shut hshut))] at h
        cases h
      cases op with
      | shutdown => rfl
      | _ => exact absurd hperform hnone

theorem afterOps_coherent (hs : Coherent link handleId s) (ops : List SessionOp) :
    Coherent link handleId (afterOps (link.transport handleId) ops s) := by
  induction ops generalizing s with
  | nil => exact hs
  | cons op ops ih => exact ih (run_coherent hs op).1

end Operations

/-! ## Sequence numbers, over any transport -/

section Sequences

open ProtocolReadSession

variable {τ : Type} {t : Transport τ} {s s' : ProtocolReadSession τ}

theorem exchange_failed {m : Message} {e : BrokerClientError} (hs : s.Available)
    (h : exchange t m s = .error e s') : s'.failed = true := by
  rw [exchange_available hs] at h
  cases hsend : send t m s with
  | error e₁ s₁ =>
    rw [bind_of_error hsend] at h
    cases h
    unfold send at hsend
    split at hsend
    · cases hsend
      rfl
    · split at hsend <;> cases hsend
      rfl
  | ok _ s₁ =>
    rw [bind_of_ok hsend] at h
    unfold ProtocolReadSession.receive at h
    split at h <;> cases h
    rfl

/-- A reply is read from the frame with the sequence number of its request. -/
theorem exchange_sequenced {m reply : Message} (hs : s.Available) (hlock : s.codec.Lockstep)
    (h : exchange t m s = .ok reply s') :
    ∃ k x y, t.writer.writeAll s.transport (Frame.mk k m).bytes = (.ok (), x) ∧
      t.flush x = (.ok (), y) ∧ readFrame t.reader y = (.ok ⟨k, reply⟩, s'.transport) ∧
      s.codec.nextOutbound = some k ∧
      s'.codec = ⟨SessionCodec.following k, SessionCodec.following k⟩ ∧ s'.Available := by
  rw [exchange_available hs] at h
  cases hsend : send t m s with
  | error e₁ s₁ =>
    rw [bind_of_error hsend] at h
    cases h
  | ok _ s₁ =>
    rw [bind_of_ok hsend] at h
    unfold send at hsend
    split at hsend
    · cases hsend
    · next k codec x hwrite =>
      -- the request carries the sequence number that the codec has reached
      obtain ⟨hk, _, hcall, rfl⟩ := writeMessage_ok hwrite
      split at hsend
      · cases hsend
      · next y hflush =>
        cases hsend
        unfold ProtocolReadSession.receive at h
        split at h
        · cases h
        · next frame codec z hread =>
          cases h
          obtain ⟨hframe, hinbound, rfl⟩ := readMessage_ok hread
          -- and the reply must carry the same one
          have hsequence : some frame.sequence = some k := hinbound.symm.trans (hlock.symm.trans hk)
          cases hsequence
          exact ⟨frame.sequence, x, y, hcall, hflush, hframe, hk, rfl, hs⟩

theorem run_lockstep (hs : s.Available → s.codec.Lockstep) (op : SessionOp) :
    (op.run t s).2.Available → (op.run t s).2.codec.Lockstep := by
  intro havailable
  -- a session that is shut down or latched stays as it is
  cases hshut : s.shutdown with
  | true =>
    have hrun : (op.run t s).2 = s := by
      unfold SessionOp.run
      rcases perform_shut (t := t) op hshut with h | h <;> rw [h]
    rw [hrun] at havailable ⊢
    exact hs havailable
  | false =>
    cases hfailed : s.failed with
    | true =>
      rw [run_latched op ⟨hfailed, hshut⟩] at havailable ⊢
      exact hs havailable
    | false =>
      have hbefore : s.Available := ⟨hfailed, hshut⟩
      by_cases hop : op = .shutdown
      · subst hop
        rcases run_shutdown (t := t) hbefore with ⟨s', hrun, h⟩ | ⟨e, s', hrun, _, h⟩
        · rw [hrun] at havailable
          exact absurd havailable.2 (by simp [h])
        · rw [hrun] at havailable
          exact absurd havailable.1 (by simp [h.1])
      · cases hexchange : exchange t op.request s with
        | error e s' =>
          rw [run_of_error hop hexchange] at havailable ⊢
          have := exchange_failed hbefore hexchange
          exact absurd havailable.1 (by simp [this])
        | ok reply s' =>
          obtain ⟨hresult, hafter⟩ := run_of_exchange hop hexchange
          -- a session that is still available has seen no answer that latches
          have hkept : ∀ e, op.answer reply = .error e → ¬e.Latches := by
            intro e he hlatches
            have := run_latches (hresult.trans he) hlatches
            exact absurd havailable.1 (by simp [this.1])
          obtain ⟨_, _, _, _, _, _, _, hcodec, _⟩ :=
            exchange_sequenced hbefore (hs hbefore) hexchange
          rw [hafter hkept]
          unfold SessionCodec.Lockstep
          rw [hcodec]

theorem afterOps_lockstep (hs : s.Available → s.codec.Lockstep) (ops : List SessionOp) :
    (afterOps t ops s).Available → (afterOps t ops s).codec.Lockstep := by
  induction ops generalizing s with
  | nil => exact hs
  | cons op ops ih => exact ih (run_lockstep hs op)

theorem connect_lockstep {transport : τ} {challenge : Vector UInt8 32}
    (h : connect t transport challenge = .ok s) : s.codec.Lockstep := by
  unfold connect at h
  split at h
  · cases h
  · split at h
    · cases h
    · next hexchange =>
      split at h
      · cases h
        have hlock : ({ transport } : ProtocolReadSession τ).codec.Lockstep := rfl
        obtain ⟨_, _, _, _, _, _, _, hcodec, _⟩ := exchange_sequenced ⟨rfl, rfl⟩ hlock hexchange
        unfold SessionCodec.Lockstep
        rw [hcodec]
      · cases h
    · cases h
    · cases h

end Sequences

/-! ## The source reader -/

section Reader

open ProtocolReadSession

variable {link : Duplex env} {s : ProtocolReadSession (Peer σ Source)} {o : Option Source}
  {source : Source} {reader : BrokerSourceReader} {n : Nat}

/-- How a read of a joined session ends: as the turn that served it says, or without a reply. -/
theorem readAt_joined (hs : Joined link handleId s o n) (handle offset : UInt64) (length : UInt32) :
    (∃ reply calls dropped o' s',
      Answers env handleId o (.readAt handle offset length) calls reply dropped o' ∧
      Joined link handleId s' o' (n + 1) ∧
      ((∃ bytes, reply = .readData bytes ∧
        readAt (link.transport handleId) handle offset length s = .ok bytes s') ∨
      ∃ code, reply = .error code ∧
        readAt (link.transport handleId) handle offset length s = .error (.fromBroker code) s')) ∨
    ∃ e s', readAt (link.transport handleId) handle offset length s = .error e s' ∧ e.Latches ∧
      s'.Latched ∧
      ((Message.readAt handle offset length).validate ≠ .ok () ∨ counterAt 1 n = none) := by
  have hrequest : Message.readAt handle offset length ≠ .shutdown := Message.noConfusion
  rcases exchange_joined hs hrequest with
    ⟨reply, o', s', hexchange, hjoined, calls, dropped, hanswers, _⟩ |
    ⟨e, s', hexchange, he, hlatched, _, hreason⟩
  · refine .inl ⟨reply, calls, dropped, o', s', hanswers, hjoined, ?_⟩
    have hcode : ∀ code, exchange (link.transport handleId) (.readAt handle offset length) s =
        .ok (.error code) s' → readAt (link.transport handleId) handle offset length s =
        .error (.fromBroker code) s' := by
      intro code h
      unfold ProtocolReadSession.readAt
      rw [bind_of_ok h]
      rfl
    -- a reply to a read is its bytes or an error
    cases hanswers with
    | @read _ _ _ _ _ bytes _ hbytes =>
      refine .inl ⟨bytes, rfl, ?_⟩
      unfold ProtocolReadSession.readAt
      rw [bind_of_ok hexchange]
      show (if bytes.length ≠ length.toNat then _ else _ : Client (Peer σ Source) Bytes) s' = _
      -- the broker sends as many bytes as it was asked for
      rw [if_neg (not_not.mpr (env.length_readExactAt hbytes))]
      rfl
    | unexpected _ hopcode => exact absurd rfl hopcode
    | _ => exact .inr ⟨_, rfl, hcode _ hexchange⟩
  · exact .inr ⟨e, s', bind_of_error hexchange, he, hlatched, hreason⟩

/-- A session that reads from `source`, or from none. -/
def Bound (link : Duplex env) (handleId : UInt64) (source : Source)
    (s : ProtocolReadSession (Peer σ Source)) : Prop :=
  (∃ o n, Joined link handleId s o n ∧ (o = none ∨ o = some source)) ∨ s.Latched ∨ s.shutdown = true

theorem keptSource_bound (code : BrokerErrorCode) (source : Source) :
    keptSource code source = none ∨ keptSource code source = some source := by
  unfold keptSource
  split
  · exact .inl rfl
  · exact .inr rfl

/-- A read keeps the session bound, and returns what the source returned. -/
theorem readAt_bound (hs : Bound link handleId source s) (handle offset : UInt64)
    (length : UInt32) :
    (readAt (link.transport handleId) handle offset length).Wp s
      (fun bytes s' => Bound link handleId source s' ∧
        ∃ x, (env.readExactAt x source offset length.toNat).1 = .ok bytes)
      (fun _ s' => Bound link handleId source s') := by
  rcases hs with ⟨o, n, hs, ho⟩ | hlatched | hshut
  · rcases readAt_joined hs handle offset length with
      ⟨reply, calls, dropped, o', s', hanswers, hjoined, hread⟩ | ⟨e, s', hread, _, hlatched, _⟩
    -- whatever is answered, no other source comes to be open
    · have ho' : o' = none ∨ o' = some source := by
        cases hanswers with
        | unreadable => exact ho
        | outOfRange => exact ho
        | stale =>
          rcases ho with ho | ho <;> cases ho
          exact keptSource_bound _ source
        | failed =>
          rcases ho with ho | ho <;> cases ho
          exact keptSource_bound _ source
        | read => exact ho
        | unexpected => exact ho
      rcases hread with ⟨bytes, rfl, hread⟩ | ⟨code, rfl, hread⟩
      · apply wp_of_ok hread
        refine ⟨.inl ⟨o', n + 1, hjoined, ho'⟩, ?_⟩
        cases hanswers with
        | @read x _ _ _ _ _ _ hbytes =>
          rcases ho with ho | ho <;> cases ho
          exact ⟨x, hbytes⟩
      · exact wp_of_error hread (.inl ⟨o', n + 1, hjoined, ho'⟩)
    · exact wp_of_error hread (.inr (.inl hlatched))
  · exact wp_of_error (bind_of_error (exchange_latched hlatched)) (.inr (.inl hlatched))
  · exact wp_of_error (bind_of_error (exchange_shut hshut)) (.inr (.inr hshut))

/-- The source reads as `content`. -/
def ReadsAs (env : BrokerEnv σ Source) (source : Source) (content : Nat → UInt8) : Prop :=
  ∀ x offset length bytes, (env.readExactAt x source offset length).1 = .ok bytes →
    bytes = Bytes.window content offset.toNat length

/-- The loop fills the buffer with the content of the source, or fails. -/
theorem readChunks_bound {content : Nat → UInt8} (hcontent : ReadsAs env source content)
    {offset fuel completed : Nat} {buffer : Bytes} (hs : Bound link handleId source s)
    (hlt : offset + buffer.length < 2 ^ 64) (hfuel : buffer.length ≤ completed + fuel)
    (hcompleted : completed ≤ buffer.length)
    (hfilled : buffer.take completed = Bytes.window content offset completed) :
    ∃ result out s', reader.readChunks (readSession (link.transport handleId)) offset fuel completed
        buffer s = (result, out, s') ∧ Bound link handleId source s' ∧
      (result = .ok () → out = Bytes.window content offset buffer.length) := by
  have hdone : ∀ {completed : Nat} {buffer : Bytes}, completed = buffer.length →
      buffer.take completed = Bytes.window content offset completed →
      buffer = Bytes.window content offset buffer.length := by
    intro completed buffer h hfilled
    rwa [h, List.take_length] at hfilled
  -- what is completed is the content; each chunk makes it longer
  induction fuel generalizing completed buffer s with
  | zero =>
    exact ⟨.ok (), buffer, s, rfl, hs, fun _ => hdone (by omega) hfilled⟩
  | succ fuel ih =>
    unfold BrokerSourceReader.readChunks
    by_cases hmore : completed < buffer.length
    · have hmax : 0 < maxReadLen ∧ maxReadLen < 2 ^ 32 := by decide
      rw [if_pos hmore, U64.checkedAdd_of_lt (by omega)]
      have hread := readAt_bound hs reader.handleId (UInt64.ofNat (offset + completed))
        (UInt32.ofNat (min (buffer.length - completed) maxReadLen))
      simp only [readSession]
      rcases hread.cases with ⟨bytes, s', hok, hs', x, hbytes⟩ | ⟨e, s', herror, hs'⟩
      -- the bytes of the chunk are those of the source at its place
      · have hwindow := hcontent _ _ _ _ hbytes
        rw [toNat_chunkLength, UInt64.toNat_ofNat_of_lt' (by show _ < 2 ^ 64; omega)] at hwindow
        have hlength : bytes.length = min (buffer.length - completed) maxReadLen := by
          rw [hwindow, Bytes.length_window]
        have hnext :
          (buffer.take completed ++ bytes ++ buffer.drop (completed + bytes.length)).length =
            buffer.length := by
          simp only [List.length_append, List.length_take, List.length_drop]
          omega
        rw [hok]
        dsimp only
        rw [if_pos hlength, ← hlength]
        rw [← hnext]
        apply ih hs'
        · omega
        · omega
        · omega
        · rw [List.take_left' (by rw [List.length_append, List.length_take]; omega), hfilled,
            hwindow,
            Bytes.length_window, ← Bytes.window_append]
      · rw [herror]
        exact ⟨_, _, s', rfl, hs', fun h => (by cases h)⟩
    · rw [if_neg hmore]
      exact ⟨.ok (), buffer, s, rfl, hs, fun _ => hdone (by omega) hfilled⟩

theorem readExactAt_bound (reader : BrokerSourceReader) {content : Nat → UInt8}
    (hcontent : ReadsAs env source content)
    (hs : Bound link handleId source s) (offset : Nat) (buffer : Bytes) :
    ∃ result out s', reader.readExactAt (readSession (link.transport handleId)) offset buffer s =
        (result, out, s') ∧ Bound link handleId source s' ∧
      (result = .ok () → out = Bytes.window content offset buffer.length) := by
  unfold BrokerSourceReader.readExactAt
  cases hrange : reader.rangeIsValid offset buffer.length with
  | false => exact ⟨_, _, s, rfl, hs, fun h => (by cases h)⟩
  | true =>
    have hlt : offset + buffer.length < 2 ^ 64 := by
      unfold BrokerSourceReader.rangeIsValid at hrange
      split at hrange
      · next hsum => exact (U64.checkedAdd_eq_some.mp hsum).1
      · cases hrange
    cases hempty : buffer.isEmpty with
    | true =>
      rw [List.isEmpty_iff.mp hempty]
      exact ⟨.ok (), [], s, rfl, hs, fun _ => rfl⟩
    | false =>
      exact readChunks_bound hcontent hs hlt (by omega) (Nat.zero_le _) rfl

/-- The session after a sequence of reads. -/
def afterReads {S : Type} (session : ReadSession S) (reader : BrokerSourceReader)
    (reads : List (Nat × Bytes)) (s : S) : S :=
  reads.foldl (fun s read => (reader.readExactAt session read.1 read.2 s).2.2) s

theorem afterReads_bound (reader : BrokerSourceReader) {content : Nat → UInt8}
    (hcontent : ReadsAs env source content)
    (hs : Bound link handleId source s) (reads : List (Nat × Bytes)) :
    Bound link handleId source
      (afterReads (readSession (link.transport handleId)) reader reads s) := by
  induction reads generalizing s with
  | nil => exact hs
  | cons read reads ih =>
    obtain ⟨result, out, s', hread, hs', _⟩ := readExactAt_bound reader hcontent hs read.1
      read.2
    apply ih
    dsimp only
    rw [hread]
    exact hs'

/-- A reader is opened by one exchange, and nothing is exchanged after it. -/
theorem wp_openReader {S : Type} {session : ReadSession S} {sourceId : String} {s : S} :
    (BrokerSourceReader.openReader session sourceId).Wp s
      (fun reader s' => ∃ opened, session.openSource sourceId s = .ok opened s' ∧
        reader.handleId = opened.handleId ∧ reader.length = opened.size ∧ opened.handleId ≠ 0)
      (fun _ _ => True) := by
  -- the paths that give the session up succeed on no reader
  have hdrop : ∀ {β : Type} {Q : BrokerSourceReader → S → Prop} (x : EStateM BrokerClientError S β)
      (e : BrokerClientError) (s : S),
      ((attempt x : EStateM BrokerClientError S _) >>= fun _ => throw e :
        EStateM BrokerClientError S BrokerSourceReader).Wp s Q (fun _ _ => True) := by
    intro β Q x e s
    rw [wp_bind, wp_attempt]
    unfold Wp
    cases x s <;> exact trivial
  unfold BrokerSourceReader.openReader
  split
  · exact hdrop _ _ _
  · rw [wp_bind, wp_attempt]
    cases hopen : session.openSource sourceId s with
    | error e s₁ =>
      apply wp_of_error hopen
      exact hdrop _ _ _
    | ok opened s₁ =>
      apply wp_of_ok hopen
      dsimp only
      split
      -- the handle and the size were checked
      · next hfit => exact ⟨opened, rfl, rfl, rfl, (of_decide_eq_true hfit).1⟩
      · split
        · rw [wp_bind, wp_attempt]
          unfold Wp
          cases session.closeSource opened.handleId s₁ <;> exact hdrop _ _ _
        · exact hdrop _ _ _

/-- A reader that was opened reads from the source that the broker acquired for it. -/
theorem openReader_joined (hs : Coherent link handleId s) {sourceId : String}
    {s' : ProtocolReadSession (Peer σ Source)}
    (h : BrokerSourceReader.openReader (readSession (link.transport handleId)) sourceId s =
      .ok reader s') :
    ∃ source n, Joined link handleId s' (some source) n ∧ reader.handleId = handleId ∧
      ServeEvent.acquired sourceId (.ok source) ∈ s'.transport.serve.trace := by
  obtain ⟨opened, hopen, hhandle, _⟩ := wp_openReader.of_ok h
  change ProtocolReadSession.openSource (link.transport handleId) sourceId s = _ at hopen
  have hrequest : Message.openSource sourceId ≠ .shutdown := Message.noConfusion
  -- only a session in step with the broker opens a source
  rcases hs with ⟨o, n, hs⟩ | hlatched | hshut
  · rcases exchange_joined hs hrequest with
      ⟨reply, o', s₁, hexchange, hjoined, calls, dropped, hanswers, htrace⟩ |
      ⟨e, s₁, hexchange, _⟩
    · unfold ProtocolReadSession.openSource at hopen
      rw [bind_of_ok hexchange] at hopen
      cases hanswers with
      | opened =>
        cases hopen
        refine ⟨_, n + 1, hjoined, hhandle, ?_⟩
        rw [htrace]
        simp
      | unexpected hopcode => exact absurd rfl hopcode
      | _ => cases hopen
    · unfold ProtocolReadSession.openSource at hopen
      rw [bind_of_error hexchange] at hopen
      cases hopen
  · unfold ProtocolReadSession.openSource at hopen
    rw [bind_of_error (exchange_latched hlatched)] at hopen
    cases hopen
  · unfold ProtocolReadSession.openSource at hopen
    rw [bind_of_error (exchange_shut hshut)] at hopen
    cases hopen

end Reader

end Undelete.Broker
