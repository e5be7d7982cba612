import Undelete.ForStd.Wp
import Undelete.Native.Broker.Serve
import Undelete.Spec.BrokerSessionCorrect

/-!
# The broker's session

What `serve_session` leaves in its trace, for any transport, source factory and sources:
a greeting, then turns, each of one request and one reply. `Answers` lists what a turn can
be; everything else is read off the turns of a run.

## Key results

- `serveRequest_spec`: a request is answered as `Answers` says, or the transport fails.
- `serveLoop_turns`: the turns of a session.
-/

namespace Undelete.Broker

open Except EStateM

variable {σ Source : Type}

/-! ## Turns -/

/-- The open source after an error `code` of it. -/
def keptSource (code : BrokerErrorCode) (source : Source) : Option Source :=
  if sourceIdentityFailure code then none else some source

def droppedSource (code : BrokerErrorCode) (source : Source) : List (ServeEvent Source) :=
  if sourceIdentityFailure code then [.released source] else []

/-- `Answers env handleId o m calls reply dropped o'`: with `o` open, a request `m` other
    than `Shutdown` leads to the calls `calls`, to the reply `reply`, then drops the sources
    of `dropped` and leaves `o'` open. -/
inductive Answers (env : BrokerEnv σ Source) (handleId : UInt64) :
    Option Source → Message → List (ServeEvent Source) → Message → List (ServeEvent Source) →
      Option Source → Prop
  | occupied {source sourceId} : Answers env handleId (some source) (.openSource sourceId) []
      (.error .invalidRequest) [] (some source)
  | refused {s sourceId code} : (env.openSource s sourceId).1 = .error code →
      Answers env handleId none (.openSource sourceId) [.acquired sourceId (.error code)]
        (.error code) [] none
  | opened {s sourceId source g} : (env.openSource s sourceId).1 = .ok source →
      (Message.opened handleId g.size g.logicalSector g.physicalSector
        g.physicalDiskNumber).validate = .ok () →
      Answers env handleId none (.openSource sourceId)
        [.acquired sourceId (.ok source), .measured source g]
        (.opened handleId g.size g.logicalSector g.physicalSector g.physicalDiskNumber) []
        (some source)
  | unfit {sourceId source g} : Answers env handleId none (.openSource sourceId)
      [.acquired sourceId (.ok source), .measured source g]
      (.error .sourceIdentityMismatch) [.released source] none
  | unreadable {o handle offset length} : o = none ∨ handle ≠ handleId →
      Answers env handleId o (.readAt handle offset length) [] (.error .invalidHandle) [] o
  | outOfRange {source offset length g} :
      Answers env handleId (some source) (.readAt handleId offset length) [.measured source g]
        (.error .readOutOfRange) [] (some source)
  | stale {source offset length g code} :
      Answers env handleId (some source) (.readAt handleId offset length)
        (.measured source g :: .revalidated source (.error code) :: droppedSource code source)
        (.error code) [] (keptSource code source)
  | failed {source offset} {length : UInt32} {g code} :
      Answers env handleId (some source) (.readAt handleId offset length)
        (.measured source g :: .revalidated source (.ok ()) ::
          .read source offset length.toNat (.error code) :: droppedSource code source)
        (.error code) [] (keptSource code source)
  | read {s source} {offset : UInt64} {length : UInt32} {g bytes} :
      offset.toNat + length.toNat ≤ g.size.toNat →
      (env.readExactAt s source offset length.toNat).1 = .ok bytes →
      Answers env handleId (some source) (.readAt handleId offset length)
        [.measured source g, .revalidated source (.ok ()),
          .read source offset length.toNat (.ok bytes)]
        (.readData bytes) [] (some source)
  | closed {source} : Answers env handleId (some source) (.closeSource handleId)
      [.released source] (.closed handleId) [] none
  | unclosable {o handle} : o = none ∨ handle ≠ handleId →
      Answers env handleId o (.closeSource handle) [] (.error .invalidHandle) [] o
  | unexpected {o m} : m.opcode ≠ .openSource → m.opcode ≠ .readAt → m.opcode ≠ .closeSource →
      Answers env handleId o m [] (.error .invalidRequest) [] o

/-! ## Replies -/

/-- A relation between states of the environment that holds across every call on the
    factory and on a source. -/
structure BrokerEnv.Keeps (env : BrokerEnv σ Source) (R : σ → σ → Prop) : Prop where
  refl : ∀ s, R s s
  trans : ∀ {s s' s''}, R s s' → R s' s'' → R s s''
  openSource : ∀ s sourceId, R s (env.openSource s sourceId).2
  revalidate : ∀ s source, R s (env.revalidate s source).2
  readExactAt : ∀ s source offset length, R s (env.readExactAt s source offset length).2

variable {env : BrokerEnv σ Source} {R : σ → σ → Prop} {handleId : UInt64}
  {s s' s₁ : ServeState σ Source}

/-- The open source of a session with this handle. -/
def openedAs (handleId : UInt64) (o : Option Source) : Option (OpenSource Source) :=
  o.map (OpenSource.mk handleId)

/-- From `s` to `s'` the broker made the calls `calls`, and has `o` open. -/
structure Called (R : σ → σ → Prop) (handleId : UInt64) (s : ServeState σ Source)
    (calls : List (ServeEvent Source)) (o : Option Source) (s' : ServeState σ Source) : Prop where
  trace : s'.trace = s.trace ++ calls
  opened : s'.opened = openedAs handleId o
  codec : s'.codec = s.codec
  env : R s.env s'.env

/-- From `s` to `s'` the message was sent. -/
structure Sent (env : BrokerEnv σ Source) (s : ServeState σ Source) (message : Message)
    (s' : ServeState σ Source) : Prop where
  trace : s'.trace = s.trace ++ [.sent message (.ok ())]
  opened : s'.opened = s.opened
  codec : ∃ k, s.codec.nextOutbound = some k ∧
    s'.codec = { s.codec with nextOutbound := SessionCodec.following k } ∧
    ∃ x, env.transport.writer.writeAll s.env (Frame.mk k message).bytes = (.ok (), x) ∧
      env.transport.flush x = (.ok (), s'.env)

/-- The state of a codec that can send. -/
def SessionCodec.Ready (codec : SessionCodec) : Prop :=
  ∃ k, codec.nextOutbound = some k ∧ k ≠ 0

/-- The transport refuses some frame or flush. -/
def Transport.Fails (t : Transport σ) : Prop :=
  ∃ x fault y, (∃ b, t.writer.writeAll x b = (.error fault, y)) ∨ t.flush x = (.error fault, y)

theorem wp_sendMessage {message : Message} {Q : Unit → ServeState σ Source → Prop}
    {E : SessionError → ServeState σ Source → Prop} (hready : s.codec.Ready)
    (hvalid : message.validate = .ok ()) (hQ : ∀ s', Sent env s message s' → Q () s')
    (hE : ∀ s', env.transport.Fails →
      s'.trace = s.trace ++ [.sent message (.error .transportFailure)] → E .transportFailure s') :
    (env.sendMessage message).Wp s Q E := by
  obtain ⟨k, hk, hne⟩ := hready
  have hwriteMessage := writeMessage_ready env.transport.writer s.env hk hne hvalid
  unfold Wp BrokerEnv.sendMessage
  rw [hwriteMessage]
  -- the write or the flush may fail; only after both the reply counts as sent
  cases hwrite : env.transport.writer.writeAll s.env (Frame.mk k message).bytes with
  | mk result x =>
    cases result with
    | error fault =>
      apply hE
      · exact ⟨s.env, fault, x, .inl ⟨_, hwrite⟩⟩
      · rfl
    | ok =>
      dsimp only
      cases hflush : env.transport.flush x with
      | mk result y =>
        cases result with
        | error fault =>
          apply hE
          · exact ⟨x, fault, y, .inr hflush⟩
          · rfl
        | ok =>
          apply hQ
          exact ⟨rfl, rfl, k, hk, rfl, x, hwrite, hflush⟩

/-- From `s` to `s'` the broker made the calls `calls` and sent `reply`. -/
structure Posted (env : BrokerEnv σ Source) (R : σ → σ → Prop) (s : ServeState σ Source)
    (calls : List (ServeEvent Source)) (reply : Message) (s' : ServeState σ Source) : Prop where
  trace : s'.trace = s.trace ++ (calls ++ [.sent reply (.ok ())])
  codec : ∃ k, s.codec.nextOutbound = some k ∧
    s'.codec = { s.codec with nextOutbound := SessionCodec.following k } ∧
    ∃ x y, R s.env x ∧
      env.transport.writer.writeAll x (Frame.mk k reply).bytes = (.ok (), y) ∧
      env.transport.flush y = (.ok (), s'.env)

/-- From `s` to `s'` the broker answered the request `m`, with `o` open. -/
def Replied (env : BrokerEnv σ Source) (R : σ → σ → Prop) (handleId : UInt64)
    (s : ServeState σ Source) (o : Option Source) (m : Message) (s' : ServeState σ Source) : Prop :=
  ∃ calls reply dropped o', Answers env handleId o m calls reply dropped o' ∧
    s'.opened = openedAs handleId o' ∧
    ∃ t, Posted env R s calls reply { s' with trace := t } ∧ s'.trace = t ++ dropped

/-- From `s` to `s'` the broker answered the request `m`, but the transport failed. -/
def Broken (env : BrokerEnv σ Source) (handleId : UInt64) (s : ServeState σ Source)
    (o : Option Source) (m : Message) (e : SessionError) (s' : ServeState σ Source) : Prop :=
  e = .transportFailure ∧ env.transport.Fails ∧
  ∃ calls reply dropped o', Answers env handleId o m calls reply dropped o' ∧
    s'.trace = s.trace ++ (calls ++ [.sent reply (.error e)])

section Replies

variable {calls : List (ServeEvent Source)} {o o₁ o' : Option Source} {m reply : Message}
  {dropped : List (ServeEvent Source)} {Q : Unit → ServeState σ Source → Prop}

theorem wp_reply (hcalled : Called R handleId s calls o₁ s₁) (hready : s.codec.Ready)
    (hanswers : Answers env handleId o m calls reply dropped o') (hvalid : reply.validate = .ok ())
    (hQ : ∀ s', Posted env R s calls reply s' → s'.opened = openedAs handleId o₁ → Q () s') :
    (env.sendMessage reply).Wp s₁ Q (Broken env handleId s o m) := by
  rw [← hcalled.codec] at hready
  apply wp_sendMessage hready hvalid
  · intro s' hsent
    have htrace := hsent.trace
    obtain ⟨k, hk, hcodec, x, hwrite, hflush⟩ := hsent.codec
    rw [hcalled.codec] at hk hcodec
    rw [hcalled.trace, List.append_assoc] at htrace
    apply hQ
    · exact ⟨htrace, k, hk, hcodec, s₁.env, x, hcalled.env, hwrite, hflush⟩
    · rw [hsent.opened, hcalled.opened]
  · intro s' hfails htrace
    rw [hcalled.trace, List.append_assoc] at htrace
    exact ⟨rfl, hfails, calls, reply, dropped, o', hanswers, htrace⟩

/-- A reply that ends the turn. -/
theorem wp_lastReply (hcalled : Called R handleId s calls o' s₁) (hready : s.codec.Ready)
    (hanswers : Answers env handleId o m calls reply [] o') (hvalid : reply.validate = .ok ()) :
    (env.sendMessage reply).Wp s₁ (fun _ s' => Replied env R handleId s o m s')
      (Broken env handleId s o m) := by
  apply wp_reply hcalled hready hanswers hvalid
  intro s' hposted hopened
  exact ⟨calls, reply, [], o', hanswers, hopened, s'.trace, hposted, (List.append_nil _).symm⟩

/-! ## Calls -/

theorem Called.refl (hR : env.Keeps R) (hopened : s.opened = openedAs handleId o) :
    Called R handleId s [] o s :=
  ⟨(List.append_nil _).symm, hopened, rfl, hR.refl s.env⟩

/-- One more call. -/
theorem Called.push (hR : env.Keeps R) (h : Called R handleId s calls o s₁) {x : σ}
    (hx : R s₁.env x) (e : ServeEvent Source) :
    Called R handleId s (calls ++ [e]) o ({ s₁ with env := x }.push e) where
  trace := by
    show s₁.trace ++ [e] = _
    rw [h.trace, List.append_assoc]
  opened := h.opened
  codec := h.codec
  env := hR.trans h.env hx

theorem wp_acquire (hR : env.Keeps R) (h : Called R handleId s calls o s₁) {sourceId : String}
    {Q : Except BrokerErrorCode Source → ServeState σ Source → Prop}
    {E : SessionError → ServeState σ Source → Prop}
    (hQ : ∀ x s', Called R handleId s
        (calls ++ [.acquired sourceId (env.openSource x sourceId).1]) o s' →
      Q (env.openSource x sourceId).1 s') : (env.acquire sourceId).Wp s₁ Q E :=
  hQ s₁.env _ (h.push hR (hR.openSource s₁.env sourceId) _)

theorem wp_measure (hR : env.Keeps R) (h : Called R handleId s calls o s₁) {source : Source}
    {Q : BrokerSourceGeometry → ServeState σ Source → Prop}
    {E : SessionError → ServeState σ Source → Prop}
    (hQ : ∀ g s', Called R handleId s (calls ++ [.measured source g]) o s' → Q g s') :
    (env.measure source).Wp s₁ Q E :=
  hQ (env.geometry s₁.env source) _ (h.push hR (hR.refl s₁.env) _)

theorem wp_checkIdentity (hR : env.Keeps R) (h : Called R handleId s calls o s₁) {source : Source}
    {Q : Except BrokerErrorCode Unit → ServeState σ Source → Prop}
    {E : SessionError → ServeState σ Source → Prop}
    (hQ : ∀ answer s', Called R handleId s (calls ++ [.revalidated source answer]) o s' →
      Q answer s') : (env.checkIdentity source).Wp s₁ Q E :=
  hQ (env.revalidate s₁.env source).1 _ (h.push hR (hR.revalidate s₁.env source) _)

theorem wp_readSource (hR : env.Keeps R) (h : Called R handleId s calls o s₁) {source : Source}
    {offset : UInt64} {length : Nat} {Q : Except BrokerErrorCode Bytes → ServeState σ Source → Prop}
    {E : SessionError → ServeState σ Source → Prop}
    (hQ : ∀ x s', Called R handleId s
        (calls ++ [.read source offset length (env.readExactAt x source offset length).1]) o s' →
      Q (env.readExactAt x source offset length).1 s') :
    (env.readSource source offset length).Wp s₁ Q E :=
  hQ s₁.env _ (h.push hR (hR.readExactAt s₁.env source offset length) _)

/-- The open source is dropped when its identity failed. -/
theorem Called.close {source : Source} (h : Called R handleId s calls (some source) s₁) :
    Called R handleId s (calls ++ [.released source]) none
      ({ s₁ with opened := none }.push (.released source)) where
  trace := by
    show s₁.trace ++ [.released source] = _
    rw [h.trace, List.append_assoc]
  opened := rfl
  codec := h.codec
  env := h.env

theorem wp_close {source : Source} {E : SessionError → ServeState σ Source → Prop}
    (h : Called R handleId s calls (some source) s₁)
    (hQ : ∀ s', Called R handleId s (calls ++ [.released source]) none s' → Q () s') :
    (BrokerEnv.close : Serve σ Source Unit).Wp s₁ Q E := by
  have hopened : s₁.opened = some ⟨handleId, source⟩ := h.opened
  unfold Wp BrokerEnv.close
  rw [hopened]
  exact hQ _ h.close

theorem wp_failSource {source : Source} {code : BrokerErrorCode}
    (hcalled : Called R handleId s calls (some source) s₁) (hready : s.codec.Ready)
    (hanswers : Answers env handleId o m (calls ++ droppedSource code source) (.error code) []
      (keptSource code source)) :
    (env.failSource code).Wp s₁ (fun _ s' => Replied env R handleId s o m s')
      (Broken env handleId s o m) := by
  unfold BrokerEnv.failSource
  unfold droppedSource keptSource at hanswers
  by_cases hcode : sourceIdentityFailure code = true
  · rw [if_pos hcode] at hanswers
    rw [if_pos hcode] at hanswers
    rw [if_pos hcode, wp_bind]
    apply wp_close hcalled
    intro s' hclosed
    exact wp_lastReply hclosed hready hanswers rfl
  · rw [if_neg hcode, List.append_nil, if_neg hcode] at hanswers
    rw [if_neg hcode]
    exact wp_lastReply hcalled hready hanswers rfl

end Replies

/-! ## Requests -/

theorem readAt_length_le {handleId offset : UInt64} {length : UInt32}
    (h : (Message.readAt handleId offset length).validate = .ok ()) :
    length.toNat ≤ maxReadLen := by
  simp only [Message.validate, throw_bind, bind_eq_ok, ite_throw_eq_ok] at h
  obtain ⟨_, _, hlength, _⟩ := h
  simp only [Bool.or_eq_true, decide_eq_true_eq] at hlength
  omega

section Requests

variable {o : Option Source}

theorem wp_serveOpen (hR : env.Keeps R) (hready : s.codec.Ready)
    (hopened : s.opened = openedAs handleId o) (sourceId : String) :
    (env.serveOpen handleId sourceId).Wp s
      (fun _ s' => Replied env R handleId s o (.openSource sourceId) s')
      (Broken env handleId s o (.openSource sourceId)) := by
  have hcalled := Called.refl hR hopened
  unfold BrokerEnv.serveOpen
  rw [wp_bind, wp_get, hopened]
  -- a session holds at most one source
  cases o with
  | some source => exact wp_lastReply hcalled hready .occupied rfl
  | none =>
    rw [if_neg (show ¬(openedAs handleId (none : Option Source)).isSome = true from
      Bool.false_ne_true), wp_bind]
    apply wp_acquire hR hcalled
    intro x s₁ hcalled₁
    cases hanswer : (env.openSource x sourceId).1 with
    | error code =>
      rw [hanswer] at hcalled₁
      exact wp_lastReply hcalled₁ hready (.refused hanswer) rfl
    | ok source =>
      rw [hanswer] at hcalled₁
      dsimp only
      rw [wp_bind]
      apply wp_measure hR hcalled₁
      intro g s₂ hcalled₂
      cases hvalid : (Message.opened handleId g.size g.logicalSector g.physicalSector
        g.physicalDiskNumber).validate with
      | ok =>
        rw [if_pos (show (Except.ok ()).toBool = true from rfl), wp_bind]
        apply wp_reply hcalled₂ hready (.opened hanswer hvalid) hvalid
        intro s₃ hposted _
        exact ⟨_, _, [], _, .opened hanswer hvalid, rfl, s₃.trace,
          ⟨hposted.trace, hposted.codec⟩, (List.append_nil _).symm⟩
      | error e =>
        rw [if_neg (show ¬(Except.error e).toBool = true from Bool.false_ne_true), wp_bind]
        apply wp_reply hcalled₂ hready .unfit rfl
        intro s₃ hposted hopened₃
        exact ⟨_, _, [.released source], none, .unfit, hopened₃, s₃.trace,
          ⟨hposted.trace, hposted.codec⟩, rfl⟩

theorem wp_serveRead (hR : env.Keeps R) (hready : s.codec.Ready)
    (hopened : s.opened = openedAs handleId o) {requestedHandle offset : UInt64} {length : UInt32}
    (hvalid : (Message.readAt requestedHandle offset length).validate = .ok ()) :
    (env.serveRead requestedHandle offset length).Wp s
      (fun _ s' => Replied env R handleId s o (.readAt requestedHandle offset length) s')
      (Broken env handleId s o (.readAt requestedHandle offset length)) := by
  have hcalled := Called.refl hR hopened
  unfold BrokerEnv.serveRead
  rw [wp_bind, wp_get, hopened]
  -- handle, range, identity and read are checked in this order
  cases o with
  | none => exact wp_lastReply hcalled hready (.unreadable (.inl rfl)) rfl
  | some source =>
    show EStateM.Wp (if requestedHandle ≠ handleId then _ else _) s _ _
    by_cases hhandle : requestedHandle ≠ handleId
    · rw [if_pos hhandle]
      exact wp_lastReply hcalled hready (.unreadable (.inr hhandle)) rfl
    · rw [if_neg hhandle, wp_bind]
      obtain rfl := Decidable.not_not.mp hhandle
      apply wp_measure hR hcalled
      intro g s₁ hcalled₁
      cases hstop : U64.checkedAdd offset.toNat length.toNat with
      | none => exact wp_lastReply hcalled₁ hready .outOfRange rfl
      | some stop =>
        obtain ⟨-, rfl⟩ := U64.checkedAdd_eq_some.mp hstop
        dsimp only
        by_cases hrange : offset.toNat + length.toNat > g.size.toNat
        · rw [if_pos hrange]
          exact wp_lastReply hcalled₁ hready .outOfRange rfl
        · rw [if_neg hrange, wp_bind]
          apply wp_checkIdentity hR hcalled₁
          intro answer s₂ hcalled₂
          cases answer with
          | error code => exact wp_failSource hcalled₂ hready .stale
          | ok =>
            dsimp only
            rw [wp_bind]
            apply wp_readSource hR hcalled₂
            intro x s₃ hcalled₃
            cases hread : (env.readExactAt x source offset length.toNat).1 with
            | error code =>
              rw [hread] at hcalled₃
              exact wp_failSource hcalled₃ hready .failed
            | ok bytes =>
              rw [hread] at hcalled₃
              have hlength := env.length_readExactAt hread
              have hmax := readAt_length_le hvalid
              refine wp_lastReply hcalled₃ hready (.read (Nat.le_of_not_lt hrange) hread) ?_
              show (if bytes.length > maxReadLen then _ else _) = _
              rw [if_neg (by omega)]

theorem wp_serveClose (hR : env.Keeps R) (hready : s.codec.Ready)
    (hopened : s.opened = openedAs handleId o) {requestedHandle : UInt64}
    (hvalid : (Message.closeSource requestedHandle).validate = .ok ()) :
    (env.serveClose requestedHandle).Wp s
      (fun _ s' => Replied env R handleId s o (.closeSource requestedHandle) s')
      (Broken env handleId s o (.closeSource requestedHandle)) := by
  have hcalled := Called.refl hR hopened
  unfold BrokerEnv.serveClose
  rw [wp_bind, wp_get, hopened]
  cases o with
  | none => exact wp_lastReply hcalled hready (.unclosable (.inl rfl)) rfl
  | some source =>
    show EStateM.Wp (if (handleId == requestedHandle) = true then _ else _) s _ _
    by_cases hhandle : handleId = requestedHandle
    · obtain rfl := hhandle
      rw [if_pos (beq_self_eq_true handleId), wp_bind]
      apply wp_close hcalled
      intro s₁ hclosed
      exact wp_lastReply hclosed hready .closed hvalid
    · rw [if_neg (by rwa [beq_iff_eq])]
      exact wp_lastReply hcalled hready (.unclosable (.inr (Ne.symm hhandle))) rfl

/-- A request other than `Shutdown` is answered, or the transport fails. -/
theorem serveRequest_spec (hR : env.Keeps R) (hready : s.codec.Ready)
    (hopened : s.opened = openedAs handleId o) {m : Message} (hvalid : m.validate = .ok ()) :
    (env.serveRequest handleId m).Wp s (fun _ s' => Replied env R handleId s o m s')
      (Broken env handleId s o m) := by
  cases hm : m with
  | openSource sourceId => exact wp_serveOpen hR hready hopened sourceId
  | readAt requestedHandle offset length =>
    rw [hm] at hvalid
    exact wp_serveRead hR hready hopened hvalid
  | closeSource requestedHandle =>
    rw [hm] at hvalid
    exact wp_serveClose hR hready hopened hvalid
  | _ =>
    apply wp_lastReply (Called.refl hR hopened) hready _ rfl
    apply Answers.unexpected <;> exact Opcode.noConfusion

end Requests

/-! ## The loop -/

theorem wp_receive {Q : Message → ServeState σ Source → Prop}
    {E : SessionError → ServeState σ Source → Prop}
    (hQ : ∀ k m s', s.codec.nextInbound = some k → (Frame.mk k m).Valid →
      readFrame env.transport.reader s.env = (.ok ⟨k, m⟩, s'.env) →
      s'.codec = { s.codec with nextInbound := SessionCodec.following k } →
      s'.opened = s.opened → s'.trace = s.trace ++ [.received m] → Q m s')
    (hE : ∀ e s', (∀ frame, (s.codec.readMessage env.transport.reader s.env).1 ≠ .ok frame) →
      s'.trace = s.trace → E e s') : (env.receive).Wp s Q E := by
  unfold Wp BrokerEnv.receive
  cases hread : s.codec.readMessage env.transport.reader s.env with
  | mk result next =>
    obtain ⟨codec, x⟩ := next
    cases result with
    | error e =>
      apply hE
      · intro frame hok
        rw [hread] at hok
        cases hok
      · rfl
    | ok frame =>
      obtain ⟨hframe, hk, hcodec⟩ := readMessage_ok hread
      exact hQ frame.sequence frame.message _ hk (readFrame_valid hframe) hframe hcodec rfl rfl

/-- The codec of a session between two turns: the next reply carries the sequence number of
    the next request. -/
def SessionCodec.Lockstep (codec : SessionCodec) : Prop := codec.nextOutbound = codec.nextInbound

theorem SessionCodec.Lockstep.ready {codec codec' : SessionCodec} (h : codec.Lockstep)
    {k : UInt64} (hk : codec.nextInbound = some k) (hne : k ≠ 0)
    (hcodec : codec' = { codec with nextInbound := SessionCodec.following k }) :
    codec'.Ready := by
  refine ⟨k, ?_, hne⟩
  rw [hcodec]
  exact h.trans hk

/-- The requests and replies of a session, after its greeting. -/
inductive Turns (env : BrokerEnv σ Source) (handleId : UInt64) :
    Option Source → List (ServeEvent Source) → Prop
  | done (o : Option Source) : Turns env handleId o []
  | turn {o o' : Option Source} {m reply : Message}
      {calls dropped rest : List (ServeEvent Source)} :
      m ≠ .shutdown → Answers env handleId o m calls reply dropped o' →
      Turns env handleId o' rest →
      Turns env handleId o (.received m :: (calls ++ .sent reply (.ok ()) :: (dropped ++ rest)))
  | broken {o o' : Option Source} {m reply : Message} {calls dropped : List (ServeEvent Source)} :
      m ≠ .shutdown → Answers env handleId o m calls reply dropped o' →
      Turns env handleId o
        (.received m :: (calls ++ [.sent reply (.error .transportFailure)]))
  | shutdown (o : Option Source) :
      Turns env handleId o (.received .shutdown :: o.toList.map .released)

/-- A turn keeps the codec in lockstep. -/
theorem Replied.lockstep {o : Option Source} {m : Message} {k : UInt64} {codec : SessionCodec}
    (h : Replied env R handleId s o m s') (hlock : codec.Lockstep)
    (hk : codec.nextInbound = some k)
    (hcodec : s.codec = { codec with nextInbound := SessionCodec.following k }) :
    s'.codec.Lockstep := by
  obtain ⟨_, _, _, _, _, _, _, hposted, _⟩ := h
  obtain ⟨k', hk', hcodec', _⟩ := hposted.codec
  have heq : some k' = some k := by
    rw [← hk', hcodec]
    exact hlock.trans hk
  have hnext : s'.codec = { s.codec with nextOutbound := SessionCodec.following k' } := hcodec'
  unfold SessionCodec.Lockstep
  rw [hnext, hcodec, Option.some.inj heq]

/-- A turn that ended: with the answer to a request, or with `Shutdown`. -/
def TurnEnded (env : BrokerEnv σ Source) (R : σ → σ → Prop) (handleId : UInt64)
    (s : ServeState σ Source) (o : Option Source) (more : Bool) (s' : ServeState σ Source) : Prop :=
  if more then ∃ k m s₁, s.codec.nextInbound = some k ∧ (Frame.mk k m).Valid ∧
    readFrame env.transport.reader s.env = (.ok ⟨k, m⟩, s₁.env) ∧ m ≠ .shutdown ∧
    s₁.trace = s.trace ++ [.received m] ∧
    s₁.codec = { s.codec with nextInbound := SessionCodec.following k } ∧
    Replied env R handleId s₁ o m s'
  else s'.trace = s.trace ++ .received .shutdown :: o.toList.map .released

/-- A turn that failed: without a request, or because the transport took no reply. -/
def TurnFailed (env : BrokerEnv σ Source) (handleId : UInt64) (s : ServeState σ Source)
    (o : Option Source) (e : SessionError) (s' : ServeState σ Source) : Prop :=
  (∀ frame, (s.codec.readMessage env.transport.reader s.env).1 ≠ .ok frame) ∧
      s'.trace = s.trace ∨
    ∃ m s₁, m ≠ .shutdown ∧ s₁.trace = s.trace ++ [.received m] ∧ Broken env handleId s₁ o m e s'

theorem serveTurn_spec {o : Option Source} (hR : env.Keeps R) (hlock : s.codec.Lockstep)
    (hopened : s.opened = openedAs handleId o) :
    (env.serveTurn handleId).Wp s (TurnEnded env R handleId s o) (TurnFailed env handleId s o) := by
  unfold BrokerEnv.serveTurn
  rw [wp_bind]
  apply wp_receive
  · intro k m s₁ hk hframe hread hcodec hopened₁ htrace
    rw [hopened] at hopened₁
    -- `Shutdown` releases the open source and is not answered
    by_cases hm : m = .shutdown
    · subst hm
      show EStateM.Wp (BrokerEnv.close >>= fun _ => pure false) s₁ _ _
      rw [wp_bind]
      cases o with
      | none =>
        unfold Wp BrokerEnv.close
        rw [hopened₁]
        exact htrace
      | some source =>
        unfold Wp BrokerEnv.close
        rw [hopened₁]
        show s₁.trace ++ [ServeEvent.released source] = _
        rw [htrace, List.append_assoc]
        rfl
    · have hready := hlock.ready hk hframe.sequence hcodec
      have hspec := serveRequest_spec hR hready hopened₁ hframe.message
      have hturn : (env.serveRequest handleId m >>= fun _ => pure true).Wp s₁
          (TurnEnded env R handleId s o) (TurnFailed env handleId s o) := by
        rw [wp_bind]
        apply hspec.mono
        · intro _ s' hreplied
          exact ⟨k, m, s₁, hk, hframe, hread, hm, htrace, hcodec, hreplied⟩
        · intro e s' hbroken
          exact .inr ⟨m, s₁, hm, htrace, hbroken⟩
      cases m with
      | shutdown => exact absurd rfl hm
      | _ => exact hturn
  · intro e s' hread htrace
    exact .inl ⟨hread, htrace⟩

/-- The loop leaves turns, from any state between two turns. -/
theorem serveLoop_turns (turns : Nat) {o : Option Source} (hlock : s.codec.Lockstep)
    (hopened : s.opened = openedAs handleId o) :
    (env.serveLoop handleId turns).Wp s
      (fun _ s' => ∃ events, Turns env handleId o events ∧ s'.trace = s.trace ++ events)
      (fun _ s' => ∃ events, Turns env handleId o events ∧ s'.trace = s.trace ++ events) := by
  have hR : env.Keeps fun _ _ => True :=
    ⟨fun _ => trivial, fun _ _ => trivial, fun _ _ => trivial, fun _ _ => trivial,
      fun _ _ _ _ => trivial⟩
  -- on the number of turns
  induction turns generalizing s o with
  | zero => exact ⟨[], .done o, (List.append_nil _).symm⟩
  | succ turns ih =>
    unfold BrokerEnv.serveLoop
    rw [wp_bind]
    apply (serveTurn_spec hR hlock hopened).mono
    · intro more s' hended
      cases more with
      | false => exact ⟨_, .shutdown o, hended⟩
      | true =>
        obtain ⟨k, m, s₁, hk, -, -, hm, htrace, hcodec, hreplied⟩ := hended
        have hlock' := hreplied.lockstep hlock hk hcodec
        obtain ⟨calls, reply, dropped, o', hanswers, hopened', t, hposted, hdropped⟩ := hreplied
        have hposted' : t = s₁.trace ++ (calls ++ [.sent reply (.ok ())]) := hposted.trace
        apply (ih hlock' hopened').mono <;>
        · intro _ s'' hrest
          obtain ⟨rest, hturns, hrest⟩ := hrest
          refine ⟨_, .turn hm hanswers hturns, ?_⟩
          rw [hrest, hdropped, hposted', htrace]
          simp only [List.append_assoc, List.cons_append, List.nil_append]
    · intro e s' hfailed
      rcases hfailed with ⟨-, htrace⟩ | ⟨m, s₁, hm, htrace, rfl, -, calls, reply, dropped, o',
        hanswers, h⟩
      · exact ⟨[], .done o, by rw [htrace, List.append_nil]⟩
      · refine ⟨_, .broken hm hanswers, ?_⟩
        rw [h, htrace, List.append_assoc]
        rfl

end Undelete.Broker
