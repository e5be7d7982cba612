import Undelete.Spec.BrokerFrameCorrect

/-!
# Broker sessions

Two session codecs and what lies between them: the frames one of them puts on the
wire, delivered to the other dropped, duplicated, out of order or damaged. Both
parties may send and receive at any time; the two directions have counters of their
own.

## Key results

- `Party.run_produced`: the frames of a sender carry contiguous sequence numbers.
- `delivery_inOrder`: a receiver accepts a prefix of the sender's messages, a refused
  message changes nothing, and a direction that has used `u64::MAX` is exhausted.
-/

namespace Undelete.Broker

variable {σ : Type}

/-! ## Counters -/

/-- The counter of a direction that began at `start` and has used `n` numbers. -/
def counterAt (start : UInt64) (n : Nat) : Option UInt64 :=
  if start.toNat + n < 2 ^ 64 then some (UInt64.ofNat (start.toNat + n)) else none

@[simp] theorem counterAt_zero (start : UInt64) : counterAt start 0 = some start := by
  rw [counterAt, Nat.add_zero, if_pos start.toNat_lt, UInt64.ofNat_toNat]

theorem counterAt_eq_some {start s : UInt64} {n : Nat} :
    counterAt start n = some s ↔ start.toNat + n = s.toNat := by
  unfold counterAt
  constructor
  · intro h
    split at h
    · next hlt =>
      cases h
      rw [UInt64.toNat_ofNat_of_lt' hlt]
    · cases h
  · intro h
    have hlt := s.toNat_lt
    rw [if_pos (by omega), h, UInt64.ofNat_toNat]

theorem following_counterAt {start s : UInt64} {n : Nat} (h : counterAt start n = some s) :
    SessionCodec.following s = counterAt start (n + 1) := by
  have hs := counterAt_eq_some.mp h
  simp only [SessionCodec.following, U64.checkedAdd, counterAt, ← Nat.add_assoc, hs]
  split <;> rfl

/-- `u64::MAX`, the last sequence number. -/
def maxSequence : UInt64 := 18446744073709551615

theorem following_maxSequence : SessionCodec.following maxSequence = none := by decide

/-! ## Single messages -/

theorem readMessage_error {codec codec' : SessionCodec} {reader : Reader σ} {s s' : σ}
    {e : ProtocolError} (h : codec.readMessage reader s = (.error e, codec', s')) :
    codec' = codec := by
  unfold SessionCodec.readMessage at h
  split at h
  · cases h; rfl
  · split at h
    · cases h; rfl
    · split at h
      · cases h; rfl
      · split at h <;> cases h
        rfl

/-- An accepted frame carries the expected sequence number, and the counter moves on. -/
theorem readMessage_ok {codec codec' : SessionCodec} {reader : Reader σ} {s s' : σ}
    {frame : Frame} (h : codec.readMessage reader s = (.ok frame, codec', s')) :
    readFrame reader s = (.ok frame, s') ∧ codec.nextInbound = some frame.sequence ∧
      codec' = { codec with nextInbound := SessionCodec.following frame.sequence } := by
  unfold SessionCodec.readMessage at h
  split at h
  · cases h
  · next expected hexpected =>
    split at h
    · cases h
    · next f s₁ hread =>
      split at h
      · cases h
      · next hreplay =>
        split at h
        · cases h
        · next hgap =>
          cases h
          have heq : frame.sequence = expected := by
            apply UInt64.toNat_inj.mp
            rw [UInt64.lt_iff_toNat_lt] at hreplay
            rw [gt_iff_lt, UInt64.lt_iff_toNat_lt] at hgap
            omega
          rw [heq]
          exact ⟨hread, hexpected, rfl⟩

/-- A message that is not sent leaves the codec as it was; the writer was not called, or
    its call failed. -/
theorem writeMessage_error {codec codec' : SessionCodec} {writer : Writer σ} {s s' : σ}
    {message : Message} {e : ProtocolError}
    (h : codec.writeMessage writer s message = (.error e, codec', s')) :
    codec' = codec ∧ (s' = s ∨ ∃ frame fault, writer.writeAll s frame = (.error fault, s')) := by
  unfold SessionCodec.writeMessage at h
  split at h
  · cases h
    exact ⟨rfl, .inl rfl⟩
  · split at h
    · next hwrite =>
      cases h
      refine ⟨rfl, ?_⟩
      unfold writeFrame at hwrite
      split at hwrite
      · cases hwrite
        exact .inl rfl
      · next frame _ =>
        cases hcall : writer.writeAll s frame with
        | mk result s₁ =>
          rw [hcall] at hwrite
          cases result with
          | ok => cases hwrite
          | error fault =>
            cases hwrite
            exact .inr ⟨frame, fault, hcall⟩
    · cases h

/-- A sent message was written as the frame with the next sequence number. -/
theorem writeMessage_ok {codec codec' : SessionCodec} {writer : Writer σ} {s s' : σ}
    {message : Message} {sequence : UInt64}
    (h : codec.writeMessage writer s message = (.ok sequence, codec', s')) :
    codec.nextOutbound = some sequence ∧ (Frame.mk sequence message).Valid ∧
      writer.writeAll s (Frame.mk sequence message).bytes = (.ok (), s') ∧
      codec' = { codec with nextOutbound := SessionCodec.following sequence } := by
  unfold SessionCodec.writeMessage at h
  split at h
  · cases h
  · next next hnext =>
    split at h
    · cases h
    · next hwrite =>
      cases h
      unfold writeFrame at hwrite
      split at hwrite
      · cases hwrite
      · next frame hencode =>
        obtain ⟨hvalid, rfl⟩ := encodeFrame_eq_ok.mp hencode
        obtain ⟨hresult, rfl⟩ := Prod.mk.inj hwrite
        exact ⟨hnext, hvalid, Prod.ext (Except.mapError_eq_ok.mp hresult) rfl, rfl⟩

/-- A codec that can send hands the frame of a valid message to the writer. -/
theorem writeMessage_ready {codec : SessionCodec} (writer : Writer σ) (s : σ) {message : Message}
    {k : UInt64} (hk : codec.nextOutbound = some k) (hne : k ≠ 0)
    (hvalid : message.validate = .ok ()) :
    codec.writeMessage writer s message =
      match writer.writeAll s (Frame.mk k message).bytes with
      | (.error fault, x) => (.error (.io fault), codec, x)
      | (.ok (), x) => (.ok k, { codec with nextOutbound := SessionCodec.following k }, x) := by
  have hframe := encodeFrame_eq_ok.mpr ⟨⟨hne, hvalid⟩, rfl⟩
  cases hcall : writer.writeAll s (Frame.mk k message).bytes with
  | mk result x =>
    simp only [SessionCodec.writeMessage, writeFrame, hk, hframe, hcall]
    cases result <;> rfl

/-! ## Parties -/

/-- A writer that puts whole frames on the wire, unless the write fails with `fault`. -/
def Writer.wire (fault : Option IoError) : Writer (List Bytes) where
  writeAll frames frame :=
    match fault with
    | none => (.ok (), frames ++ [frame])
    | some e => (.error e, frames)

/-- A session codec, the frames it has put on the wire, and the messages it has sent and
    accepted. -/
structure Party where
  codec : SessionCodec
  wire : List Bytes := []
  sent : List Message := []
  accepted : List Message := []

inductive SessionEvent where
  | send (message : Message) (fault : Option IoError)
  | deliver (bytes : Bytes)

def Party.step (p : Party) : SessionEvent → Party
  | .send message fault =>
    match p.codec.writeMessage (Writer.wire fault) p.wire message with
    | (.ok _, codec, wire) => { p with codec, wire, sent := p.sent ++ [message] }
    | (.error _, codec, wire) => { p with codec, wire }
  | .deliver bytes =>
    match p.codec.readMessage Reader.cursor bytes with
    | (.ok frame, codec, _) => { p with codec, accepted := p.accepted ++ [frame.message] }
    | (.error _, codec, _) => { p with codec }

def Party.run (p : Party) (events : List SessionEvent) : Party := events.foldl Party.step p

/-- What sending can do: the message is sent as the next frame, or nothing happens. -/
theorem Party.step_send (p : Party) (message : Message) (fault : Option IoError) :
    (∃ sequence, p.codec.nextOutbound = some sequence ∧ (Frame.mk sequence message).Valid ∧
      p.step (.send message fault) =
        { p with
          codec := { p.codec with nextOutbound := SessionCodec.following sequence }
          wire := p.wire ++ [(Frame.mk sequence message).bytes]
          sent := p.sent ++ [message] }) ∨
    p.step (.send message fault) = p := by
  unfold step
  dsimp only
  split
  · next sequence codec wire h =>
    obtain ⟨hnext, hvalid, hwrite, rfl⟩ := writeMessage_ok h
    cases fault with
    | some e => cases hwrite
    | none =>
      obtain rfl := (Prod.mk.inj hwrite).2
      exact .inl ⟨sequence, hnext, hvalid, rfl⟩
  · next codec wire h =>
    obtain ⟨rfl, rfl | ⟨frame, e, hwrite⟩⟩ := writeMessage_error h
    · exact .inr rfl
    · cases fault with
      | none => cases hwrite
      | some e =>
        obtain rfl := (Prod.mk.inj hwrite).2
        exact .inr rfl

/-- What a delivery can do: the expected frame is accepted, or nothing happens. -/
theorem Party.step_deliver (p : Party) (bytes : Bytes) :
    (∃ frame rest, readFrame Reader.cursor bytes = (.ok frame, rest) ∧
      p.codec.nextInbound = some frame.sequence ∧
      p.step (.deliver bytes) =
        { p with
          codec := { p.codec with nextInbound := SessionCodec.following frame.sequence }
          accepted := p.accepted ++ [frame.message] }) ∨
    p.step (.deliver bytes) = p := by
  unfold step
  dsimp only
  split
  · next frame codec rest h =>
    obtain ⟨hread, hnext, rfl⟩ := readMessage_ok h
    exact .inl ⟨frame, rest, hread, hnext, rfl⟩
  · next h =>
    obtain rfl := readMessage_error h
    exact .inr rfl

/-! ## The sender -/

/-- The frames on the wire are those of the messages sent, with contiguous sequence numbers
    from `start`. -/
structure Party.Produced (start : UInt64) (p : Party) : Prop where
  counter : p.codec.nextOutbound = counterAt start p.sent.length
  length : p.wire.length = p.sent.length
  frame : ∀ i message, p.sent[i]? = some message → ∃ sequence,
    counterAt start i = some sequence ∧ (Frame.mk sequence message).Valid ∧
      p.wire[i]? = some (Frame.mk sequence message).bytes

theorem Party.step_produced {start : UInt64} {p : Party} (h : p.Produced start)
    (event : SessionEvent) : (p.step event).Produced start := by
  -- deliveries leave the sending side alone
  cases event with
  | deliver bytes =>
    obtain ⟨_, _, _, _, hstep⟩ | hstep := p.step_deliver bytes
    · rw [hstep]
      exact ⟨h.counter, h.length, h.frame⟩
    · rw [hstep]
      exact h
  | send message fault =>
    obtain ⟨sequence, hnext, hvalid, hstep⟩ | hstep := p.step_send message fault
    · have hsequence := h.counter.symm.trans hnext
      rw [hstep]
      refine ⟨?_, ?_, ?_⟩
      · dsimp only
        rw [List.length_append, List.length_singleton, following_counterAt hsequence]
      · simp only [List.length_append, h.length, List.length_singleton]
      · intro i m hm
        dsimp only at hm ⊢
        -- an earlier message, the new one, or none
        rcases Nat.lt_trichotomy i p.sent.length with hlt | rfl | hgt
        · rw [List.getElem?_append_left hlt] at hm
          rw [List.getElem?_append_left (h.length.symm ▸ hlt)]
          exact h.frame i m hm
        · rw [List.getElem?_concat_length] at hm
          obtain rfl := Option.some.inj hm
          rw [← h.length, List.getElem?_concat_length, h.length]
          exact ⟨sequence, hsequence, hvalid, rfl⟩
        · rw [List.getElem?_eq_none
            (by rw [List.length_append, List.length_singleton]; omega)] at hm
          cases hm
    · rw [hstep]
      exact h

theorem Party.run_produced {start : UInt64} {p : Party} (h : p.Produced start)
    (events : List SessionEvent) : (p.run events).Produced start := by
  induction events generalizing p with
  | nil => exact h
  | cons event events ih => exact ih (p.step_produced h event)

/-! ## The receiver -/

/-- The messages accepted are the first ones of `messages`, and the counter says how many. -/
structure Party.InOrder (start : UInt64) (messages : List Message) (p : Party) (k : Nat) :
    Prop where
  le : k ≤ messages.length
  accepted : p.accepted = messages.take k
  counter : p.codec.nextInbound = counterAt start k

/-- A delivery is a frame on the wire, or bytes that are no frame. -/
def Delivered (wire : List Bytes) (bytes : Bytes) : Prop :=
  bytes ∈ wire ∨ ∃ e rest, readFrame Reader.cursor bytes = (.error e, rest)

theorem Party.step_inOrder {start : UInt64} {sender p : Party} {k : Nat}
    (hsender : sender.Produced start) (h : p.InOrder start sender.sent k) {event : SessionEvent}
    (hevent : ∀ bytes, event = .deliver bytes → Delivered sender.wire bytes) :
    ∃ k', (p.step event).InOrder start sender.sent k' := by
  -- sending leaves the receiving side alone
  cases event with
  | send message fault =>
    refine ⟨k, ?_⟩
    obtain ⟨_, _, _, hstep⟩ | hstep := p.step_send message fault
    · rw [hstep]
      exact ⟨h.le, h.accepted, h.counter⟩
    · rw [hstep]
      exact h
  | deliver bytes =>
    obtain ⟨frame, rest, hread, hnext, hstep⟩ | hstep := p.step_deliver bytes
    · obtain hmem | ⟨e, rest', herror⟩ := hevent bytes rfl
      · -- the bytes are those of the `i`-th message, and its sequence number makes it the next
        obtain ⟨i, hi⟩ := List.mem_iff_getElem?.mp hmem
        have hilt : i < sender.sent.length := by
          rw [← hsender.length]
          exact (List.getElem?_eq_some_iff.mp hi).1
        obtain ⟨sequence, hsequence, hvalid, hbytes⟩ :=
          hsender.frame i sender.sent[i] (List.getElem?_eq_getElem hilt)
        obtain rfl := Option.some.inj (hi.symm.trans hbytes)
        have hframe := readFrame_cursor_eq_ok.mpr ⟨hvalid, (List.append_nil _).symm⟩
        obtain ⟨hframe, -⟩ := Prod.mk.inj (hread.symm.trans hframe)
        obtain rfl := Except.ok.inj hframe
        have hi := counterAt_eq_some.mp hsequence
        have hk := counterAt_eq_some.mp (h.counter.symm.trans hnext)
        obtain rfl : i = k := by dsimp only at hk; omega
        refine ⟨i + 1, hilt, ?_, ?_⟩
        · rw [hstep, List.take_add_one, List.getElem?_eq_getElem hilt, ← h.accepted]
          rfl
        · rw [hstep]
          exact following_counterAt hsequence
      · rw [hread] at herror
        cases herror
    · rw [hstep]
      exact ⟨k, h⟩

theorem Party.run_inOrder {start : UInt64} {sender p : Party} {k : Nat}
    (hsender : sender.Produced start) (h : p.InOrder start sender.sent k)
    {events : List SessionEvent}
    (hevents : ∀ bytes, .deliver bytes ∈ events → Delivered sender.wire bytes) :
    ∃ k', (p.run events).InOrder start sender.sent k' := by
  induction events generalizing p k with
  | nil => exact ⟨k, h⟩
  | cons event events ih =>
    obtain ⟨k', hstep⟩ := Party.step_inOrder hsender h fun bytes hevent =>
      hevents bytes (hevent ▸ List.mem_cons_self)
    exact ih hstep fun bytes hmem => hevents bytes (List.mem_cons_of_mem event hmem)

/-! ## Exhaustion -/

theorem Party.run_exhausted_outbound {p : Party} (h : p.codec.nextOutbound = none)
    (events : List SessionEvent) : (p.run events).codec.nextOutbound = none ∧
      (p.run events).wire = p.wire ∧ (p.run events).sent = p.sent := by
  induction events generalizing p with
  | nil => exact ⟨h, rfl, rfl⟩
  | cons event events ih =>
    have hstep : (p.step event).codec.nextOutbound = none ∧ (p.step event).wire = p.wire ∧
        (p.step event).sent = p.sent := by
      cases event with
      | send message fault =>
        obtain ⟨_, hnext, _⟩ | hstep := p.step_send message fault
        · rw [h] at hnext
          cases hnext
        · rw [hstep]
          exact ⟨h, rfl, rfl⟩
      | deliver bytes =>
        obtain ⟨_, _, _, _, hstep⟩ | hstep := p.step_deliver bytes <;> rw [hstep] <;>
          exact ⟨h, rfl, rfl⟩
    obtain ⟨hnext, hwire, hsent⟩ := ih hstep.1
    exact ⟨hnext, hwire.trans hstep.2.1, hsent.trans hstep.2.2⟩

theorem Party.run_exhausted_inbound {p : Party} (h : p.codec.nextInbound = none)
    (events : List SessionEvent) : (p.run events).codec.nextInbound = none ∧
      (p.run events).accepted = p.accepted := by
  induction events generalizing p with
  | nil => exact ⟨h, rfl⟩
  | cons event events ih =>
    have hstep : (p.step event).codec.nextInbound = none ∧
        (p.step event).accepted = p.accepted := by
      cases event with
      | send message fault =>
        obtain ⟨_, _, _, hstep⟩ | hstep := p.step_send message fault <;> rw [hstep] <;>
          exact ⟨h, rfl⟩
      | deliver bytes =>
        obtain ⟨_, _, _, hnext, _⟩ | hstep := p.step_deliver bytes
        · rw [h] at hnext
          cases hnext
        · rw [hstep]
          exact ⟨h, rfl⟩
    obtain ⟨hnext, haccepted⟩ := ih hstep.1
    exact ⟨hnext, haccepted.trans hstep.2⟩

/-- The messages a receiver accepts are the first `k` of the sender's, whatever is dropped,
    duplicated, reordered or damaged on the way. A refused frame leaves the inbound counter
    as it was and a failed write the outbound one. After `u64::MAX` a direction is exhausted:
    every later call says so, and nothing more is sent or accepted. -/
theorem delivery_inOrder :
    (∀ (sender receiver : SessionCodec) (start : UInt64) (sending delivery : List SessionEvent),
      sender.nextOutbound = some start → receiver.nextInbound = some start →
      (∀ bytes, .deliver bytes ∈ delivery →
        Delivered (Party.run { codec := sender } sending).wire bytes) →
      ∃ k, (Party.run { codec := receiver } delivery).accepted =
        (Party.run { codec := sender } sending).sent.take k) ∧
    (∀ (σ : Type) (codec codec' : SessionCodec) (reader : Reader σ) (s s' : σ) (e : ProtocolError),
      codec.readMessage reader s = (.error e, codec', s') →
        codec'.nextInbound = codec.nextInbound) ∧
    (∀ (σ : Type) (codec codec' : SessionCodec) (writer : Writer σ) (s s' : σ) (message : Message)
      (e : ProtocolError), codec.writeMessage writer s message = (.error e, codec', s') →
        codec'.nextOutbound = codec.nextOutbound) ∧
    (∀ (σ : Type) (codec codec' : SessionCodec) (writer : Writer σ) (s s' : σ) (message : Message),
      codec.writeMessage writer s message = (.ok maxSequence, codec', s') →
        codec'.nextOutbound = none) ∧
    (∀ (σ : Type) (codec codec' : SessionCodec) (reader : Reader σ) (s s' : σ) (frame : Frame),
      codec.readMessage reader s = (.ok frame, codec', s') → frame.sequence = maxSequence →
        codec'.nextInbound = none) ∧
    (∀ (p : Party) (events : List SessionEvent), p.codec.nextOutbound = none →
      ((p.run events).wire = p.wire ∧ (p.run events).sent = p.sent) ∧
      ∀ (σ : Type) (writer : Writer σ) (s : σ) (message : Message),
        (p.run events).codec.writeMessage writer s message =
          (.error (.sequenceExhausted .outbound), (p.run events).codec, s)) ∧
    ∀ (p : Party) (events : List SessionEvent), p.codec.nextInbound = none →
      (p.run events).accepted = p.accepted ∧
      ∀ (σ : Type) (reader : Reader σ) (s : σ),
        (p.run events).codec.readMessage reader s =
          (.error (.sequenceExhausted .inbound), (p.run events).codec, s) := by
  -- delivery order, refused frames, refused sends, and the two exhausted counters
  refine ⟨?_, ?_, ?_, ?_, ?_, ?_, ?_⟩
  · intro sender receiver start sending delivery hsender hreceiver hdelivery
    have hproduced : (Party.run { codec := sender } sending).Produced start :=
      Party.run_produced ⟨hsender.trans (counterAt_zero start).symm, rfl, fun i m h => by cases h⟩ _
    obtain ⟨k, hk⟩ := Party.run_inOrder hproduced
      (show Party.InOrder start _ { codec := receiver } 0 from
        ⟨Nat.zero_le _, rfl, hreceiver.trans (counterAt_zero start).symm⟩) hdelivery
    exact ⟨k, hk.accepted⟩
  · intro σ codec codec' reader s s' e h
    rw [readMessage_error h]
  · intro σ codec codec' writer s s' message e h
    rw [(writeMessage_error h).1]
  · intro σ codec codec' writer s s' message h
    obtain ⟨_, _, _, rfl⟩ := writeMessage_ok h
    exact following_maxSequence
  · intro σ codec codec' reader s s' frame h hmax
    obtain ⟨_, _, rfl⟩ := readMessage_ok h
    dsimp only
    rw [hmax]
    exact following_maxSequence
  · intro p events h
    obtain ⟨hnext, hrun⟩ := Party.run_exhausted_outbound h events
    refine ⟨hrun, fun σ writer s message => ?_⟩
    rw [SessionCodec.writeMessage, hnext]
  · intro p events h
    obtain ⟨hnext, hrun⟩ := Party.run_exhausted_inbound h events
    refine ⟨hrun, fun σ reader s => ?_⟩
    rw [SessionCodec.readMessage, hnext]

/-- Two messages, delivered in the wrong order and twice. -/
theorem delivery_inOrder_replay :
    ∃ k, (Party.run { codec := {} } [.deliver (Frame.mk 2 (.closeSource 1)).bytes,
        .deliver (Frame.mk 1 .shutdown).bytes, .deliver (Frame.mk 1 .shutdown).bytes,
        .deliver (Frame.mk 2 (.closeSource 1)).bytes]).accepted =
      [.shutdown, .closeSource 1].take k := by
  have hsent : (Party.run
    { codec := {} } [.send .shutdown none, .send (.closeSource 1) none]).sent =
      [.shutdown, .closeSource 1] := rfl
  have hwire : (Party.run
    { codec := {} } [.send .shutdown none, .send (.closeSource 1) none]).wire =
      [(Frame.mk 1 .shutdown).bytes, (Frame.mk 2 (.closeSource 1)).bytes] := rfl
  rw [← hsent]
  apply delivery_inOrder.1 {} {} 1 _ _ rfl rfl
  intro bytes hmem
  rw [Delivered, hwire]
  simp only [List.mem_cons, SessionEvent.deliver.injEq, List.not_mem_nil, or_false] at hmem ⊢
  rcases hmem with rfl | rfl | rfl | rfl
  all_goals simp

end Undelete.Broker
