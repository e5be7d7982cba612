import Undelete.Native.Broker.Client

/-!
# Failures of a client session latch

Over any transport, an operation of a `ProtocolReadSession` that fails for another reason
than an error code of the broker leaves the session failed, and a failed session does
nothing any more.

## Key results

- `perform_available`: how an operation of an open session ends.
- `runOps_latched`: behind such a failure every operation fails, and the transport is not
  touched.
-/

namespace Undelete.Broker

open EStateM ProtocolReadSession

variable {τ : Type} {t : Transport τ} {s s' : ProtocolReadSession τ}

/-! ## Failures -/

/-- The failures of the transport and of the protocol, and those of a reply of the wrong kind
    or length. -/
def BrokerClientError.Latches : BrokerClientError → Prop
  | .transportFailure | .protocolFailure | .unexpectedResponse | .shortRead => True
  | _ => False

namespace ProtocolReadSession

/-- A session that can exchange messages. -/
def Available (s : ProtocolReadSession τ) : Prop := s.failed = false ∧ s.shutdown = false

/-- A session that failed before it was shut down. -/
def Latched (s : ProtocolReadSession τ) : Prop := s.failed = true ∧ s.shutdown = false

end ProtocolReadSession

theorem latches_fromProtocol (e : ProtocolError) :
    (BrokerClientError.fromProtocol e).Latches := by
  cases e <;> exact trivial

theorem not_latches_fromBroker (code : BrokerErrorCode) :
    ¬(BrokerClientError.fromBroker code).Latches := by
  cases code <;> exact not_false

/-- How an operation of an available session fails: with an error code of the broker, or for
    good. -/
def FailsWith (e : BrokerClientError) (s' : ProtocolReadSession τ) : Prop :=
  (e.Latches ∧ s'.Latched) ∨ ∃ code, e = .fromBroker code ∧ s'.Available

theorem wp_fail {α : Type} {e : BrokerClientError} {Q : α → ProtocolReadSession τ → Prop}
    (hs : s.Available) (he : e.Latches) : (fail e : Client τ α).Wp s Q FailsWith :=
  .inl ⟨he, rfl, hs.2⟩

theorem wp_send {m : Message} {Q : Unit → ProtocolReadSession τ → Prop} (hs : s.Available)
    (hQ : ∀ s', s'.Available → Q () s') : (send t m).Wp s Q FailsWith := by
  unfold Wp send
  cases s.codec.writeMessage t.writer s.transport m with
  | mk result next =>
    obtain ⟨codec, x⟩ := next
    cases result with
    | error e => exact .inl ⟨latches_fromProtocol e, rfl, hs.2⟩
    | ok =>
      dsimp only
      cases t.flush x with
      | mk result y =>
        cases result with
        | error e => exact .inl ⟨trivial, rfl, hs.2⟩
        | ok => exact hQ _ hs

theorem wp_receiveReply {Q : Message → ProtocolReadSession τ → Prop} (hs : s.Available)
    (hQ : ∀ m s', s'.Available → Q m s') : (ProtocolReadSession.receive t).Wp s Q FailsWith := by
  unfold Wp ProtocolReadSession.receive
  cases s.codec.readMessage t.reader s.transport with
  | mk result next =>
    obtain ⟨codec, x⟩ := next
    cases result with
    | error e => exact .inl ⟨latches_fromProtocol e, rfl, hs.2⟩
    | ok frame => exact hQ _ _ hs

/-- An exchange of an available session ends with a reply, or fails for good. -/
theorem wp_exchange {m : Message} {Q : Message → ProtocolReadSession τ → Prop} (hs : s.Available)
    (hQ : ∀ reply s', s'.Available → Q reply s') : (exchange t m).Wp s Q FailsWith := by
  unfold exchange
  rw [wp_bind, wp_get, hs.1, hs.2]
  show (send t m >>= fun _ => ProtocolReadSession.receive t).Wp s Q FailsWith
  rw [wp_bind]
  apply wp_send hs
  intro s₁ hs₁
  exact wp_receiveReply hs₁ hQ

/-! ## Operations -/

/-- The operations of a session. -/
inductive SessionOp where
  | openSource (sourceId : String)
  | readAt (handleId offset : UInt64) (length : UInt32)
  | closeSource (handleId : UInt64)
  | shutdown

/-- What an operation returns. -/
inductive SessionAnswer where
  | opened (source : OpenedSource)
  | data (bytes : Bytes)
  | done

def SessionOp.perform (t : Transport τ) : SessionOp → Client τ SessionAnswer
  | .openSource sourceId => do return .opened (← ProtocolReadSession.openSource t sourceId)
  | .readAt handleId offset length => do
    return .data (← ProtocolReadSession.readAt t handleId offset length)
  | .closeSource handleId => do
    ProtocolReadSession.closeSource t handleId
    return .done
  | .shutdown => do
    shutDown t
    return .done

theorem wp_openSource {sourceId : String} (hs : s.Available) :
    (ProtocolReadSession.openSource t sourceId).Wp s (fun _ s' => s'.Available) FailsWith := by
  unfold ProtocolReadSession.openSource
  rw [wp_bind]
  apply wp_exchange hs
  intro reply s' hs'
  cases reply with
  | opened => exact hs'
  | error code => exact .inr ⟨code, rfl, hs'⟩
  | _ => exact wp_fail hs' trivial

theorem wp_readAt (hs : s.Available) (handleId offset : UInt64) (length : UInt32) :
    (ProtocolReadSession.readAt t handleId offset length).Wp s
      (fun bytes s' => s'.Available ∧ bytes.length = length.toNat) FailsWith := by
  unfold ProtocolReadSession.readAt
  rw [wp_bind]
  apply wp_exchange hs
  intro reply s' hs'
  cases reply with
  | readData bytes =>
    dsimp only
    split
    · exact wp_fail hs' trivial
    · next hlength => exact ⟨hs', Decidable.not_not.mp hlength⟩
  | error code => exact .inr ⟨code, rfl, hs'⟩
  | _ => exact wp_fail hs' trivial

theorem wp_closeSource {handleId : UInt64} (hs : s.Available) :
    (ProtocolReadSession.closeSource t handleId).Wp s (fun _ s' => s'.Available) FailsWith := by
  unfold ProtocolReadSession.closeSource
  rw [wp_bind]
  apply wp_exchange hs
  intro reply s' hs'
  cases reply with
  | closed handle =>
    dsimp only
    split
    · exact hs'
    · exact wp_fail hs' trivial
  | error code => exact .inr ⟨code, rfl, hs'⟩
  | _ => exact wp_fail hs' trivial

/-- How an operation of an available session ends. -/
theorem perform_available (op : SessionOp) (hs : s.Available) :
    (op.perform t).Wp s (fun _ _ => True) FailsWith := by
  cases op with
  | openSource sourceId =>
    unfold SessionOp.perform
    rw [wp_bind]
    exact (wp_openSource hs).mono (fun _ _ _ => trivial) (fun _ _ h => h)
  | readAt handleId offset length =>
    unfold SessionOp.perform
    rw [wp_bind]
    exact (wp_readAt hs handleId offset length).mono (fun _ _ _ => trivial) (fun _ _ h => h)
  | closeSource handleId =>
    unfold SessionOp.perform
    rw [wp_bind]
    exact (wp_closeSource hs).mono (fun _ _ _ => trivial) (fun _ _ h => h)
  | shutdown =>
    unfold SessionOp.perform shutDown
    rw [wp_bind, wp_bind, wp_get, hs.2]
    show (sendWithoutResponse t .shutdown >>= _).Wp s _ _
    unfold sendWithoutResponse
    rw [wp_bind, wp_bind, wp_get, hs.1, hs.2]
    apply wp_send hs
    intro s' _
    exact trivial

theorem exchange_latched {m : Message} (hs : s.Latched) :
    exchange t m s = .error .sessionUnavailable s := by
  show (if (s.shutdown || s.failed) = true then _ else _ : Client τ Message) s = _
  rw [hs.1, hs.2, if_pos (show (false || true) = true from rfl)]
  rfl

/-- A latched session does nothing. -/
theorem perform_latched (op : SessionOp) (hs : s.Latched) :
    op.perform t s = .error .sessionUnavailable s := by
  cases op with
  | openSource sourceId => exact bind_of_error (bind_of_error (exchange_latched hs))
  | readAt handleId offset length => exact bind_of_error (bind_of_error (exchange_latched hs))
  | closeSource handleId => exact bind_of_error (bind_of_error (exchange_latched hs))
  | shutdown =>
    have hsend : sendWithoutResponse t .shutdown s = .error .sessionUnavailable s := by
      show (if s.shutdown = true then _ else if s.failed = true then _ else _ : Client τ Unit) s = _
      rw [hs.1, hs.2, if_neg Bool.false_ne_true, if_pos rfl]
      rfl
    have hshutDown : shutDown t s = .error .sessionUnavailable s := by
      show (if s.shutdown = true then _ else _ : Client τ Unit) s = _
      rw [hs.2, if_neg Bool.false_ne_true]
      exact bind_of_error hsend
    exact bind_of_error hshutDown

theorem exchange_shut {m : Message} (hs : s.shutdown = true) :
    exchange t m s = .error .sessionUnavailable s := by
  show (if (s.shutdown || s.failed) = true then _ else _ : Client τ Message) s = _
  rw [hs, if_pos (Bool.true_or _)]
  rfl

/-- After its shutdown a session does nothing but accept further shutdowns. -/
theorem perform_shut (op : SessionOp) (hs : s.shutdown = true) :
    op.perform t s = .error .sessionUnavailable s ∨ op.perform t s = .ok .done s := by
  cases op with
  | openSource sourceId => exact .inl (bind_of_error (bind_of_error (exchange_shut hs)))
  | readAt handleId offset length =>
    exact .inl (bind_of_error (bind_of_error (exchange_shut hs)))
  | closeSource handleId => exact .inl (bind_of_error (bind_of_error (exchange_shut hs)))
  | shutdown =>
    have hshutDown : shutDown t s = .ok () s := by
      show (if s.shutdown = true then _ else _ : Client τ Unit) s = _
      rw [hs, if_pos rfl]
      rfl
    exact .inr (bind_of_ok hshutDown)

/-! ## Runs -/

/-- What an operation returns, and the session it leaves. -/
def SessionOp.run (t : Transport τ) (op : SessionOp) (s : ProtocolReadSession τ) :
    Except BrokerClientError SessionAnswer × ProtocolReadSession τ :=
  match op.perform t s with
  | .ok answer s' => (.ok answer, s')
  | .error e s' => (.error e, s')

/-- The session behind a sequence of operations. -/
def afterOps (t : Transport τ) (ops : List SessionOp) (s : ProtocolReadSession τ) :
    ProtocolReadSession τ :=
  ops.foldl (fun s op => (op.run t s).2) s

theorem run_latched (op : SessionOp) (hs : s.Latched) :
    op.run t s = (.error .sessionUnavailable, s) := by
  unfold SessionOp.run
  rw [perform_latched op hs]

theorem afterOps_latched (ops : List SessionOp) (hs : s.Latched) : afterOps t ops s = s := by
  induction ops with
  | nil => rfl
  | cons op ops ih =>
    show afterOps t ops (op.run t s).2 = s
    rw [run_latched op hs]
    exact ih

/-- A failure of the transport or the protocol, or a reply of the wrong kind or length, leaves
    the session latched. -/
theorem run_latches {op : SessionOp} {e : BrokerClientError} (h : (op.run t s).1 = .error e)
    (he : e.Latches) : (op.run t s).2.Latched := by
  cases hshut : s.shutdown with
  | true =>
    unfold SessionOp.run at h
    rcases perform_shut op hshut with heq | heq <;> rw [heq] at h <;> cases h
    exact he.elim
  | false =>
    cases hfailed : s.failed with
    | true =>
      rw [run_latched op ⟨hfailed, hshut⟩] at h
      cases h
      exact he.elim
    | false =>
      have hperform := perform_available (t := t) op ⟨hfailed, hshut⟩
      unfold Wp at hperform
      unfold SessionOp.run at h ⊢
      cases hop : op.perform t s with
      | ok answer s' =>
        rw [hop] at h
        cases h
      | error e' s' =>
        rw [hop] at h hperform
        cases h
        rcases hperform with ⟨-, hlatched⟩ | ⟨code, rfl, -⟩
        · exact hlatched
        · exact absurd he (not_latches_fromBroker code)

/-- Behind such a failure every operation fails, and the session stays as it is. -/
theorem runOps_latched {op : SessionOp} {e : BrokerClientError} {pre : List SessionOp}
    (h : (op.run t (afterOps t pre s)).1 = .error e) (he : e.Latches) (post : List SessionOp)
    (op' : SessionOp) :
    afterOps t (pre ++ op :: post) s = (op.run t (afterOps t pre s)).2 ∧
      op'.run t (afterOps t (pre ++ op :: post) s) =
        (.error .sessionUnavailable, afterOps t (pre ++ op :: post) s) := by
  have hlatched := run_latches h he
  have hafter : afterOps t (pre ++ op :: post) s = (op.run t (afterOps t pre s)).2 := by
    show List.foldl _ s (pre ++ op :: post) = _
    rw [List.foldl_append, List.foldl_cons]
    exact afterOps_latched post hlatched
  refine ⟨hafter, ?_⟩
  rw [hafter]
  exact run_latched op' hlatched

/-! ## The source reader -/

section Reader

variable {reader : BrokerSourceReader} {offset : Nat} {buffer : Bytes}

theorem toNat_chunkLength (n : Nat) :
    (UInt32.ofNat (min n maxReadLen)).toNat = min n maxReadLen := by
  have hmax : maxReadLen < 2 ^ 32 := by decide
  apply UInt32.toNat_ofNat_of_lt'
  show _ < 2 ^ 32
  omega

/-- A read of the reader leaves the session available, or fails and leaves it latched. -/
theorem readChunks_ends (hs : s.Available) (fuel completed : Nat) :
    ∃ result out s', reader.readChunks (readSession t) offset fuel completed buffer s =
        (result, out, s') ∧
      (s'.Available ∨ s'.Latched ∧ ∃ e o n, e.Latches ∧
        result = .error (reader.readFailure e o n)) := by
  induction fuel generalizing completed buffer s with
  | zero => exact ⟨_, _, s, rfl, .inl hs⟩
  | succ fuel ih =>
    unfold BrokerSourceReader.readChunks
    by_cases hlt : completed < buffer.length
    · rw [if_pos hlt]
      cases U64.checkedAdd offset completed with
      | none => exact ⟨_, _, s, rfl, .inl hs⟩
      | some chunkOffset =>
        have hread := wp_readAt (t := t) (s := s) hs
        simp only [readSession]
        rcases (hread _ _ _).cases with ⟨bytes, s', hok, hs', hlength⟩ | ⟨e, s', herror, hfails⟩
        · rw [hok]
          rw [toNat_chunkLength] at hlength
          dsimp only
          rw [if_pos hlength]
          exact ih hs' _
        · rw [herror]
          rcases hfails with ⟨he, hlatched⟩ | ⟨code, -, hs'⟩
          · exact ⟨_, _, s', rfl, .inr ⟨hlatched, e, _, _, he, rfl⟩⟩
          · exact ⟨_, _, s', rfl, .inl hs'⟩
    · rw [if_neg hlt]
      exact ⟨_, _, s, rfl, .inl hs⟩

theorem readExactAt_ends (hs : s.Available) (offset : Nat) (buffer : Bytes) :
    ∃ result out s', reader.readExactAt (readSession t) offset buffer s = (result, out, s') ∧
      (s'.Available ∨ s'.Latched ∧ ∃ e o n, e.Latches ∧
        result = .error (reader.readFailure e o n)) := by
  unfold BrokerSourceReader.readExactAt
  split
  · exact ⟨_, _, s, rfl, .inl hs⟩
  · split
    · exact ⟨_, _, s, rfl, .inl hs⟩
    · exact readChunks_ends hs _ _

/-- A latched session returns no data to the reader. -/
theorem readExactAt_latched (hs : s.Latched) (offset : Nat) (hbuffer : buffer ≠ []) :
    ∃ e out, reader.readExactAt (readSession t) offset buffer s = (.error e, out, s) := by
  unfold BrokerSourceReader.readExactAt
  split
  · exact ⟨_, _, rfl⟩
  · rw [if_neg (by rwa [List.isEmpty_iff])]
    cases hlen : buffer.length with
    | zero => exact absurd (List.eq_nil_of_length_eq_zero hlen) hbuffer
    | succ n =>
      unfold BrokerSourceReader.readChunks
      rw [if_pos (by omega)]
      cases U64.checkedAdd offset 0 with
      | none => exact ⟨_, _, rfl⟩
      | some chunkOffset =>
        have hread : ∀ h o n, ProtocolReadSession.readAt t h o n s =
            .error .sessionUnavailable s := fun _ _ _ => bind_of_error (exchange_latched hs)
        simp only [readSession, hread]
        exact ⟨_, _, rfl⟩

end Reader

end Undelete.Broker
