import Mathlib.Logic.Function.Iterate
import Undelete.Spec.ClientCorrect
import Undelete.Spec.ServeTrace

/-!
# A client and its broker

The client's session composed with `serve_session` over a reliable byte stream in both
directions (`Duplex`). The broker takes its turn when a request is flushed; the client waits for
the reply, so that no other order of their steps shows.

## Key results

- `serveSession_eq_steps`: the steps of the broker's side are those of `serve_session`.
- `exchange_joined`: a request of the client gets the reply of the turn that served it.
-/

namespace Undelete.Broker

open Except EStateM

variable {σ Source : Type}

/-! ## Reading leaves the rest alone -/

section Reading

variable {β : Type} {P : σ → β} {reader : Reader σ}

theorem readExactBounded_go_keeps (h : ∀ s n, P (reader.read s n).2 = P s) (part : FramePart)
    (expected : Nat) (s : σ) (remaining : Nat) (filled : Bytes) (actual : Nat) :
    P (readExactBounded.go reader part expected s remaining filled actual).2 = P s := by
  have hkeeps : ∀ s n r s', reader.read s n = (r, s') → P s' = P s := by
    intro s n r s' hread
    have := h s n
    rwa [hread] at this
  -- one case for each way the loop reads, ends or retries
  induction s, remaining, filled, actual using readExactBounded.go.induct reader with
  | case1 s filled actual => rw [readExactBounded.go, if_pos rfl]
  | case2 s remaining filled actual hpos s' hread =>
    rw [readExactBounded_go_eof hpos hread]
    exact hkeeps _ _ _ _ hread
  | case3 s remaining filled actual hpos byte bytes s' hread hlong =>
    rw [readExactBounded.go, if_neg hpos]
    split
    all_goals rename_i heq; rw [hread] at heq; cases heq
    rw [dif_pos hlong]
    exact hkeeps _ _ _ _ hread
  | case4 s remaining filled actual hpos byte bytes s' hread hle hsum =>
    rw [readExactBounded.go, if_neg hpos]
    split
    all_goals rename_i heq; rw [hread] at heq; cases heq
    rw [dif_neg hle, hsum]
    exact hkeeps _ _ _ _ hread
  | case5 s remaining filled actual hpos byte bytes s' hread hle next hsum ih =>
    rw [readExactBounded.go, if_neg hpos]
    split
    all_goals rename_i heq; rw [hread] at heq; cases heq
    rw [dif_neg hle, hsum]
    exact ih.trans (hkeeps _ _ _ _ hread)
  | case6 s remaining filled actual hpos e s' hread hkind ih =>
    rw [readExactBounded_go_interrupted hpos hread hkind]
    exact ih.trans (hkeeps _ _ _ _ hread)
  | case7 s remaining filled actual hpos e s' hread hkind heof =>
    rw [readExactBounded.go, if_neg hpos]
    split
    all_goals rename_i heq; rw [hread] at heq; cases heq
    rw [dif_neg hkind, if_pos heof]
    exact hkeeps _ _ _ _ hread
  | case8 s remaining filled actual hpos e s' hread hkind heof =>
    rw [readExactBounded.go, if_neg hpos]
    split
    all_goals rename_i heq; rw [hread] at heq; cases heq
    rw [dif_neg hkind, if_neg heof]
    exact hkeeps _ _ _ _ hread

theorem readFrame_keeps (h : ∀ s n, P (reader.read s n).2 = P s) (s : σ) :
    P (readFrame reader s).2 = P s := by
  have hread : ∀ s len part r s', readExactBounded reader s len part = (r, s') → P s' = P s := by
    intro s len part r s' hread
    have := readExactBounded_go_keeps h part len s len [] 0
    rwa [show readExactBounded.go reader part len s len [] 0 = (r, s') from hread] at this
  unfold readFrame
  split
  · next hheader => exact hread _ _ _ _ _ hheader
  · next hheader =>
    split
    · exact hread _ _ _ _ _ hheader
    · split
      · next hpayload => exact (hread _ _ _ _ _ hpayload).trans (hread _ _ _ _ _ hheader)
      · next hpayload => exact (hread _ _ _ _ _ hpayload).trans (hread _ _ _ _ _ hheader)

end Reading

/-! ## The stream between them -/

/-- A reliable byte stream in both directions between a client and a broker: what one side
    writes, the other side reads in order, in any pieces and with any interruptions. The calls
    on the factory and the sources leave the stream alone. -/
structure Duplex (env : BrokerEnv σ Source) where
  client : Transport σ
  requests : σ → Bytes
  replies : σ → Bytes
  quiet : env.Keeps fun s s' => requests s' = requests s ∧ replies s' = replies s
  client_write : ∀ s b, ∃ s', client.writer.writeAll s b = (.ok (), s') ∧
    requests s' = requests s ++ b ∧ replies s' = replies s
  client_flush : ∀ s, ∃ s', client.flush s = (.ok (), s') ∧
    requests s' = requests s ∧ replies s' = replies s
  client_read : client.reader.Streams replies
  client_reads : ∀ s n, requests (client.reader.read s n).2 = requests s
  broker_write : ∀ s b, ∃ s', env.transport.writer.writeAll s b = (.ok (), s') ∧
    replies s' = replies s ++ b ∧ requests s' = requests s
  broker_flush : ∀ s, ∃ s', env.transport.flush s = (.ok (), s') ∧
    requests s' = requests s ∧ replies s' = replies s
  broker_read : env.transport.reader.Streams requests
  broker_reads : ∀ s n, replies (env.transport.reader.read s n).2 = replies s

/-- How far the broker's side is. -/
inductive Phase where
  | greeting | serving | ended
deriving DecidableEq

/-- The broker's side of a session. -/
structure Peer (σ Source : Type) where
  serve : ServeState σ Source
  phase : Phase

variable (env : BrokerEnv σ Source) (handleId : UInt64)

namespace Peer

def start (x : σ) : Peer σ Source :=
  ⟨{ env := x }, if handleId = 0 then .ended else .greeting⟩

def withEnv (p : Peer σ Source) (x : σ) : Peer σ Source :=
  { p with serve := { p.serve with env := x } }

/-- The greeting, or one turn of the loop. -/
def step (p : Peer σ Source) : Peer σ Source :=
  match p.phase with
  | .greeting =>
    match env.greet p.serve with
    | .ok _ s => ⟨s, .serving⟩
    | .error _ s => ⟨s, .ended⟩
  | .serving =>
    match env.serveTurn handleId p.serve with
    | .ok true s => ⟨s, .serving⟩
    | .ok false s => ⟨s, .ended⟩
    | .error _ s => ⟨s, .ended⟩
  | .ended => p

theorem step_ended {p : Peer σ Source} (h : p.phase = .ended) : p.step env handleId = p := by
  unfold step
  rw [h]

theorem steps_ended {p : Peer σ Source} (h : p.phase = .ended) (n : Nat) :
    (step env handleId)^[n] p = p :=
  Function.iterate_fixed (step_ended env handleId h) n

theorem serveLoop_eq_steps (turns : Nat) (s : ServeState σ Source) :
    (env.serveLoop handleId turns).finalState s =
      ((step env handleId)^[turns] ⟨s, .serving⟩).serve := by
  induction turns generalizing s with
  | zero => rfl
  | succ turns ih =>
    rw [Function.iterate_succ_apply]
    unfold BrokerEnv.serveLoop finalState
    cases hturn : env.serveTurn handleId s with
    | error e s' =>
      have hstep : step env handleId ⟨s, .serving⟩ = ⟨s', .ended⟩ := by simp only [step, hturn]
      rw [hstep, steps_ended env handleId rfl, bind_of_error hturn]
    | ok more s' =>
      rw [bind_of_ok hturn]
      cases more with
      | false =>
        have hstep : step env handleId ⟨s, .serving⟩ = ⟨s', .ended⟩ := by simp only [step, hturn]
        rw [hstep, steps_ended env handleId rfl]
        rfl
      | true =>
        have hstep : step env handleId ⟨s, .serving⟩ = ⟨s', .serving⟩ := by simp only [step, hturn]
        rw [hstep]
        exact ih s'

/-- The steps are those of `serve_session`. -/
theorem serveSession_eq_steps (turns : Nat) (x : σ) :
    (env.serveSession handleId turns).finalState { env := x } =
      ((step env handleId)^[turns + 1] (start handleId x)).serve := by
  rw [Function.iterate_succ_apply]
  unfold BrokerEnv.serveSession start
  by_cases hzero : handleId = 0
  · rw [if_pos hzero, if_pos hzero, step_ended env handleId rfl, steps_ended env handleId rfl]
    rfl
  · rw [if_neg hzero, if_neg hzero]
    show (env.greet >>= fun _ => env.serveLoop handleId turns).finalState { env := x } = _
    cases hgreet : env.greet { env := x } with
    | error e s' =>
      have hstep : step env handleId ⟨{ env := x }, .greeting⟩ = ⟨s', .ended⟩ := by
        simp only [step, hgreet]
      unfold finalState
      rw [hstep, steps_ended env handleId rfl, bind_of_error hgreet]
    | ok _ s' =>
      have hstep : step env handleId ⟨{ env := x }, .greeting⟩ = ⟨s', .serving⟩ := by
        simp only [step, hgreet]
      rw [hstep, ← serveLoop_eq_steps]
      unfold finalState
      rw [bind_of_ok hgreet]

end Peer

variable {env : BrokerEnv σ Source} {handleId : UInt64}

namespace Duplex

variable (link : Duplex env)

/-- The client's transport. The broker takes its turn when a request is flushed. -/
def transport (handleId : UInt64) : Transport (Peer σ Source) where
  reader :=
    { read := fun p n => ((link.client.reader.read p.serve.env n).1,
        p.withEnv (link.client.reader.read p.serve.env n).2)
      patience := fun p => link.client.reader.patience p.serve.env
      patience_lt := by
        intro p n e p' h hkind
        obtain ⟨hread, rfl⟩ := Prod.mk.inj h
        exact link.client.reader.patience_lt p.serve.env n e _ (Prod.ext hread rfl) hkind }
  writer :=
    { writeAll := fun p b => ((link.client.writer.writeAll p.serve.env b).1,
        p.withEnv (link.client.writer.writeAll p.serve.env b).2) }
  flush p :=
    match link.client.flush p.serve.env with
    | (.error e, x) => (.error e, p.withEnv x)
    | (.ok (), x) => (.ok (), (p.withEnv x).step env handleId)

/-- The replies the client has not read yet. -/
def pending (p : Peer σ Source) : Bytes := link.replies p.serve.env

theorem transport_streams (handleId : UInt64) :
    (link.transport handleId).reader.Streams link.pending where
  ok p n b p' hn h := by
    obtain ⟨hread, rfl⟩ := Prod.mk.inj h
    exact link.client_read.ok p.serve.env n b _ hn (Prod.ext hread rfl)
  error p n e p' hn h := by
    obtain ⟨hread, rfl⟩ := Prod.mk.inj h
    exact link.client_read.error p.serve.env n e _ hn (Prod.ext hread rfl)

end Duplex

/-! ## The broker's turn -/

section Turn

variable (link : Duplex env) {s : ServeState σ Source} {m : Message} {k : UInt64}

/-- A request in flight is received, and nothing is left of it. -/
theorem receive_flight (hk : s.codec.nextInbound = some k) (hvalid : (Frame.mk k m).Valid)
    (hs : link.requests s.env = (Frame.mk k m).bytes) :
    ∃ s', env.receive s = .ok m s' ∧ link.requests s'.env = [] ∧
      link.replies s'.env = link.replies s.env ∧ s'.opened = s.opened ∧
      s'.codec = { s.codec with nextInbound := SessionCodec.following k } ∧
      s'.trace = s.trace ++ [.received m] := by
  -- the broker sees what the cursor over the pending bytes would see
  have hframe := readFrame_streams link.broker_read s.env
  rw [hs, readFrame_cursor_eq_ok.mpr ⟨hvalid, (List.append_nil _).symm⟩] at hframe
  obtain ⟨hok, hrest⟩ := Prod.mk.inj hframe
  have hreplies := readFrame_keeps link.broker_reads s.env
  -- the sequence number expected is the one that came, so neither guard fires
  have hirrefl : ¬k < k := by
    rw [UInt64.lt_iff_toNat_lt]
    exact Nat.lt_irrefl _
  have hread : s.codec.readMessage env.transport.reader s.env =
      (.ok ⟨k, m⟩, { s.codec with nextInbound := SessionCodec.following k },
        (readFrame env.transport.reader s.env).2) := by
    cases hread : readFrame env.transport.reader s.env with
    | mk result x =>
      rw [hread] at hok
      cases hok
      simp only [SessionCodec.readMessage, hk, hread, gt_iff_lt, if_neg hirrefl]
  refine ⟨({ s with
    env := (readFrame env.transport.reader s.env).2
    codec := { s.codec with nextInbound := SessionCodec.following k } }.push (.received m)),
    ?_, hrest,
    hreplies, rfl, rfl, rfl⟩
  simp only [BrokerEnv.receive, hread]

/-- A message of the broker is on its way to the client. -/
theorem sendMessage_flight (hk : s.codec.nextOutbound = some k) (hvalid : (Frame.mk k m).Valid) :
    ∃ s', env.sendMessage m s = .ok () s' ∧
      link.replies s'.env = link.replies s.env ++ (Frame.mk k m).bytes ∧
      link.requests s'.env = link.requests s.env ∧ s'.opened = s.opened ∧
      s'.codec = { s.codec with nextOutbound := SessionCodec.following k } ∧
      s'.trace = s.trace ++ [.sent m (.ok ())] := by
  obtain ⟨x, hwrite, hreplies, hrequests⟩ := link.broker_write s.env (Frame.mk k m).bytes
  obtain ⟨y, hflush, hrequests', hreplies'⟩ := link.broker_flush x
  have hready := writeMessage_ready env.transport.writer s.env hk hvalid.sequence hvalid.message
  rw [hwrite] at hready
  refine ⟨({ s with
    env := y, codec := { s.codec with nextOutbound := SessionCodec.following k } }.push
      (.sent m (.ok ()))), ?_, hreplies'.trans hreplies, hrequests'.trans hrequests, rfl, rfl, rfl⟩
  simp only [BrokerEnv.sendMessage, hready, hflush]

theorem Duplex.not_fails (link : Duplex env) : ¬env.transport.Fails := by
  intro h
  obtain ⟨x, fault, y, ⟨b, hwrite⟩ | hflush⟩ := h
  · obtain ⟨_, hok, _⟩ := link.broker_write x b
    rw [hok] at hwrite
    cases hwrite
  · obtain ⟨_, hok, _⟩ := link.broker_flush x
    rw [hok] at hflush
    cases hflush

/-- The reply to a valid request is valid. -/
theorem Answers.valid {o o' : Option Source} {calls dropped : List (ServeEvent Source)}
    {reply : Message} (h : Answers env handleId o m calls reply dropped o')
    (hm : m.validate = .ok ()) : reply.validate = .ok () := by
  cases h with
  | opened _ hvalid => exact hvalid
  | read _ hread =>
    have hlength := env.length_readExactAt hread
    have hle := readAt_length_le hm
    show (if _ then _ else _) = _
    rw [if_neg (by omega)]
  | closed => exact hm
  | _ => rfl

/-- Behind a turn: the reply with number `k` is on its way, and nothing else. -/
structure Turned (link : Duplex env) (handleId : UInt64) (k : UInt64) (reply : Message)
    (o' : Option Source) (s' : ServeState σ Source) : Prop where
  requests : link.requests s'.env = []
  replies : link.replies s'.env = (Frame.mk k reply).bytes
  valid : (Frame.mk k reply).Valid
  codec : s'.codec = ⟨SessionCodec.following k, SessionCodec.following k⟩
  opened : s'.opened = openedAs handleId o'

theorem serveTurn_flight {o : Option Source} (hcodec : s.codec = ⟨some k, some k⟩)
    (hvalid : (Frame.mk k m).Valid) (hm : m ≠ .shutdown)
    (hrequests : link.requests s.env = (Frame.mk k m).bytes) (hreplies : link.replies s.env = [])
    (hopened : s.opened = openedAs handleId o) :
    ∃ reply o' s', env.serveTurn handleId s = .ok true s' ∧
      Turned link handleId k reply o' s' ∧ ∃ calls dropped,
        Answers env handleId o m calls reply dropped o' ∧
        s'.trace = s.trace ++ (.received m :: (calls ++ .sent reply (.ok ()) :: dropped)) := by
  have hinbound : s.codec.nextInbound = some k := by rw [hcodec]
  obtain ⟨s₁, hreceive, hempty, hquiet, hopened₁, hcodec₁, htrace₁⟩ :=
    receive_flight link hinbound hvalid hrequests
  have hready : s₁.codec.Ready := ⟨k, by rw [hcodec₁, hcodec], hvalid.sequence⟩
  -- only `Shutdown` ends the session, any other message is answered
  have hturn : env.serveTurn handleId s =
      (env.serveRequest handleId m >>= fun _ => pure true : Serve σ Source Bool) s₁ := by
    unfold BrokerEnv.serveTurn
    rw [bind_of_ok hreceive]
    cases m with
    | shutdown => exact absurd rfl hm
    | _ => rfl
  rcases (serveRequest_spec link.quiet hready (hopened₁.trans hopened) hvalid.message).cases with
    ⟨_, s', hserved, calls, reply, dropped, o', hanswers, hopened', t, hposted, htrace⟩ |
    ⟨e, s', _, _, hfails, _⟩
  -- the reply lands behind what the client had not read yet, which is nothing
  · have htrace' : t = s₁.trace ++ (calls ++ [.sent reply (.ok ())]) := hposted.trace
    obtain ⟨k', hk', hcodec', x, y, ⟨hrequests', hreplies'⟩, hwrite, hflush⟩ := hposted.codec
    rw [hcodec₁, hcodec] at hk' hcodec'
    cases hk'
    obtain ⟨_, hok, hwritten, hkept⟩ := link.broker_write x (Frame.mk k reply).bytes
    rw [hwrite] at hok
    cases hok
    obtain ⟨_, hok, hkept', hwritten'⟩ := link.broker_flush y
    rw [hflush] at hok
    cases hok
    refine ⟨reply, o', s', by rw [hturn, bind_of_ok hserved]; rfl, ⟨?_, ?_,
      ⟨hvalid.sequence, hanswers.valid hvalid.message⟩, hcodec', hopened'⟩, calls, dropped,
      hanswers,
      ?_⟩
    · exact (hkept'.trans hkept).trans (hrequests'.trans hempty)
    · show link.replies s'.env = _
      rw [hwritten', hwritten, hreplies', hquiet, hreplies, List.nil_append]
    · rw [htrace, htrace', htrace₁]
      simp only [List.append_assoc, List.cons_append, List.nil_append]
  -- the broker's side of the link never fails
  · exact absurd hfails link.not_fails

end Turn

/-! ## Exchanges -/

section Exchange

open ProtocolReadSession

theorem exchange_available {τ : Type} {t : Transport τ} {s : ProtocolReadSession τ} {m : Message}
    (hs : s.Available) : exchange t m s =
      (send t m >>= fun _ => ProtocolReadSession.receive t) s := by
  show (if (s.shutdown || s.failed) = true then _ else _ : Client τ Message) s = _
  rw [hs.1, hs.2, Bool.or_false, if_neg Bool.false_ne_true]

variable {link : Duplex env} {s : ProtocolReadSession (Peer σ Source)} {o : Option Source}
  {m : Message} {n : Nat}

/-- Between two operations of the client: `n` messages have gone each way, nothing is on its way,
    and the broker has `o` open. -/
structure Joined (link : Duplex env) (handleId : UInt64)
    (s : ProtocolReadSession (Peer σ Source)) (o : Option Source) (n : Nat) : Prop where
  available : s.Available
  phase : s.transport.phase = .serving
  requests : link.requests s.transport.serve.env = []
  replies : link.replies s.transport.serve.env = []
  client : s.codec = ⟨counterAt 1 n, counterAt 1 n⟩
  broker : s.transport.serve.codec = ⟨counterAt 1 n, counterAt 1 n⟩
  opened : s.transport.serve.opened = openedAs handleId o

theorem counterAt_ne_zero {k : UInt64} (h : counterAt 1 n = some k) : k ≠ 0 := by
  intro hzero
  have := counterAt_eq_some.mp h
  rw [hzero] at this
  change 1 + n = 0 at this
  omega

/-- The reply on its way is received, and nothing is left of it. -/
theorem receive_reply (link : Duplex env) (handleId : UInt64)
    (s : ProtocolReadSession (Peer σ Source)) {k : UInt64} {reply : Message}
    (hk : s.codec.nextInbound = some k)
    (hvalid : (Frame.mk k reply).Valid)
    (hs : link.replies s.transport.serve.env = (Frame.mk k reply).bytes) :
    ∃ p, receive (link.transport handleId) s = .ok reply { s with
        transport := p
        codec := { s.codec with nextInbound := SessionCodec.following k } } ∧
      link.replies p.serve.env = [] ∧
      link.requests p.serve.env = link.requests s.transport.serve.env ∧
      p.phase = s.transport.phase ∧ p.serve.codec = s.transport.serve.codec ∧
      p.serve.opened = s.transport.serve.opened ∧ p.serve.trace = s.transport.serve.trace := by
  have hframe := readFrame_streams (link.transport_streams handleId) s.transport
  simp only [Duplex.pending] at hframe
  rw [hs, readFrame_cursor_eq_ok.mpr ⟨hvalid, (List.append_nil _).symm⟩] at hframe
  obtain ⟨hok, hrest⟩ := Prod.mk.inj hframe
  obtain ⟨reader, hreader⟩ : ∃ reader, reader = (link.transport handleId).reader := ⟨_, rfl⟩
  have hrequests : link.requests (readFrame reader s.transport).2.serve.env =
      link.requests s.transport.serve.env := by
    rw [hreader]
    exact readFrame_keeps (P := fun p : Peer σ Source => link.requests p.serve.env)
      (fun p n => link.client_reads p.serve.env n) s.transport
  -- reading moves only the environment of the peer
  have hserve : ∀ {β : Type} (P : Peer σ Source → β), (∀ p x, P (p.withEnv x) = P p) →
      P (readFrame reader s.transport).2 = P s.transport := by
    intro β P hP
    rw [hreader]
    exact readFrame_keeps (P := P) (fun p n => hP p _) s.transport
  rw [← hreader] at hok hrest
  have hirrefl : ¬k < k := by
    rw [UInt64.lt_iff_toNat_lt]
    exact Nat.lt_irrefl _
  refine ⟨(readFrame reader s.transport).2, ?_, hrest, hrequests, hserve Peer.phase fun _ _ => rfl,
    hserve (·.serve.codec) fun _ _ => rfl, hserve (·.serve.opened) fun _ _ => rfl,
    hserve (·.serve.trace) fun _ _ => rfl⟩
  cases hread : readFrame reader s.transport with
  | mk result p =>
    rw [hread] at hok
    cases hok
    simp only [ProtocolReadSession.receive, SessionCodec.readMessage, hk, ← hreader, hread,
      gt_iff_lt,
      if_neg hirrefl]

/-- A message that is not valid, or has no sequence number left, is not sent. -/
theorem exchange_refused (hs : Joined link handleId s o n)
    (h : m.validate ≠ .ok () ∨ counterAt 1 n = none) :
    ∃ e s', exchange (link.transport handleId) m s = .error e s' ∧ e.Latches ∧ s'.Latched ∧
      s'.transport = s.transport := by
  rw [exchange_available hs.available]
  -- the message is refused while it is encoded, before a byte leaves
  cases hsent : s.codec.writeMessage (link.transport handleId).writer s.transport m with
  | mk result next =>
    obtain ⟨codec, p⟩ := next
    cases result with
    | error e =>
      obtain ⟨rfl, hp⟩ := writeMessage_error hsent
      have hp : p = s.transport := by
        rcases hp with hp | ⟨frame, fault, hfault⟩
        · exact hp
        · obtain ⟨_, hok, _⟩ := link.client_write s.transport.serve.env frame
          simp only [Duplex.transport, hok] at hfault
          cases (Prod.mk.inj hfault).1
      have hsend : send (link.transport handleId) m s =
          .error (.fromProtocol e) { s with transport := p, codec := s.codec, failed := true } := by
        simp only [send, hsent]
      exact ⟨.fromProtocol e, _, bind_of_error hsend, latches_fromProtocol e,
        ⟨rfl, hs.available.2⟩, hp⟩
    | ok k =>
      obtain ⟨hk, hvalid, _⟩ := writeMessage_ok hsent
      rw [hs.client] at hk
      rcases h with h | h
      · exact absurd hvalid.message h
      · rw [show counterAt 1 n = some k from hk] at h
        cases h

/-- A message that is sent is served by one turn of the broker, and its reply received. -/
theorem exchange_turned (hs : Joined link handleId s o n) {k : UInt64} (hk : counterAt 1 n = some k)
    (hvalid : m.validate = .ok ()) :
    ∃ x, link.requests x = (Frame.mk k m).bytes ∧ link.replies x = [] ∧
      ∀ reply o' served,
        env.serveTurn handleId { s.transport.serve with env := x } = .ok true served →
        Turned link handleId k reply o' served →
        ∃ s', exchange (link.transport handleId) m s = .ok reply s' ∧
          Joined link handleId s' o' (n + 1) ∧ s'.transport.serve.trace = served.trace := by
  obtain ⟨x, hwrite, hrequests, hreplies⟩ :=
    link.client_write s.transport.serve.env (Frame.mk k m).bytes
  obtain ⟨y, hflush, hflushed, hquiet⟩ := link.client_flush x
  refine ⟨y, ?_, ?_, fun reply o' served hturn hturned => ?_⟩
  · rw [hflushed, hrequests, hs.requests, List.nil_append]
  · rw [hquiet, hreplies, hs.replies]
  rw [exchange_available hs.available]
  have hnext : s.codec.nextOutbound = some k := by
    rw [hs.client]
    exact hk
  have hsent := writeMessage_ready (link.transport handleId).writer s.transport hnext
    (counterAt_ne_zero hk) hvalid
  rw [show (link.transport handleId).writer.writeAll s.transport (Frame.mk k m).bytes =
    (.ok (), s.transport.withEnv x) by simp only [Duplex.transport, hwrite]] at hsent
  -- the broker serves the request when it is flushed
  have hstep : ((s.transport.withEnv x).withEnv y).step env handleId = ⟨served, .serving⟩ := by
    unfold Peer.step
    rw [show ((s.transport.withEnv x).withEnv y).phase = .serving from hs.phase,
      show ((s.transport.withEnv x).withEnv y).serve = { s.transport.serve with env := y } from rfl,
      hturn]
  have hsend : send (link.transport handleId) m s = .ok () { s with
      transport := ⟨served, .serving⟩
      codec := { s.codec with nextOutbound := SessionCodec.following k } } := by
    simp only [send, hsent]
    simp only [Duplex.transport, show (s.transport.withEnv x).serve.env = x from rfl, hflush, hstep]
  obtain ⟨q, hreceive, hempty, hkept, hphase, hcodec, hopened, htrace⟩ :=
    receive_reply link handleId { s with
      transport := (⟨served, .serving⟩ : Peer σ Source)
      codec := { s.codec with nextOutbound := SessionCodec.following k } }
      (k := k) (by rw [hs.client]; exact hk) hturned.valid hturned.replies
  have hnext := following_counterAt hk
  refine ⟨_, (bind_of_ok hsend).trans hreceive,
    ⟨hs.available, hphase, hkept.trans hturned.requests, hempty, ?_, ?_, ?_⟩, htrace⟩
  · rw [← hnext]
  · rw [← hnext]
    exact hcodec.trans hturned.codec
  · exact hopened.trans hturned.opened

/-- How an exchange ends: with the reply of the turn that served the request, or without a
    request. -/
theorem exchange_joined (hs : Joined link handleId s o n) (hm : m ≠ .shutdown) :
    (∃ reply o' s', exchange (link.transport handleId) m s = .ok reply s' ∧
      Joined link handleId s' o' (n + 1) ∧ ∃ calls dropped,
        Answers env handleId o m calls reply dropped o' ∧ s'.transport.serve.trace =
          s.transport.serve.trace ++ (.received m :: (calls ++ .sent reply (.ok ()) :: dropped))) ∨
    ∃ e s', exchange (link.transport handleId) m s = .error e s' ∧ e.Latches ∧ s'.Latched ∧
      s'.transport = s.transport ∧ (m.validate ≠ .ok () ∨ counterAt 1 n = none) := by
  by_cases hready : m.validate ≠ .ok () ∨ counterAt 1 n = none
  · obtain ⟨e, s', hexchange, he, hlatched, htransport⟩ := exchange_refused hs hready
    exact .inr ⟨e, s', hexchange, he, hlatched, htransport, hready⟩
  · rw [not_or, not_not] at hready
    obtain ⟨k, hk⟩ := Option.ne_none_iff_exists'.mp hready.2
    obtain ⟨x, hrequests, hreplies, hturn⟩ := exchange_turned hs hk hready.1
    obtain ⟨reply, o', served, hserved, hturned, calls, dropped, hanswers, htrace⟩ :=
      serveTurn_flight link (s := { s.transport.serve with env := x }) (k := k)
        (by show s.transport.serve.codec = _; rw [hs.broker, hk])
        ⟨counterAt_ne_zero hk, hready.1⟩ hm hrequests hreplies hs.opened
    obtain ⟨s', hexchange, hjoined, htrace'⟩ := hturn reply o' served hserved hturned
    exact .inl ⟨reply, o', s', hexchange, hjoined, calls, dropped, hanswers, htrace'.trans htrace⟩

/-! ## The greeting -/

theorem greet_flight (link : Duplex env) {served : ServeState σ Source}
    {challenge : Vector UInt8 32}
    (hcodec : served.codec = {}) (hchallenge : challenge ≠ Vector.replicate 32 0)
    (hrequests : link.requests served.env = (Frame.mk 1 (.hello challenge)).bytes)
    (hreplies : link.replies served.env = []) (hopened : served.opened = none) :
    ∃ served', env.greet served = .ok () served' ∧ link.requests served'.env = [] ∧
      link.replies served'.env = (Frame.mk 1 (.helloAck challenge)).bytes ∧
      served'.codec = ⟨SessionCodec.following 1, SessionCodec.following 1⟩ ∧
      served'.opened = none := by
  have hvalid : ∀ m : Message, m.validate = .ok () → (Frame.mk 1 m).Valid := fun m hm =>
    ⟨show (1 : UInt64) ≠ 0 by decide, hm⟩
  obtain ⟨s₁, hreceive, hempty, hquiet, hopened₁, hcodec₁, _⟩ :=
    receive_flight link (show served.codec.nextInbound = some 1 by rw [hcodec]) (hvalid _ rfl)
      hrequests
  obtain ⟨s₂, hsend, hreplies₂, hrequests₂, hopened₂, hcodec₂, _⟩ :=
    sendMessage_flight link (show s₁.codec.nextOutbound = some 1 by rw [hcodec₁, hcodec])
      (hvalid (.helloAck challenge) rfl)
  refine ⟨s₂, ?_, hrequests₂.trans hempty, ?_, ?_, hopened₂.trans (hopened₁.trans hopened)⟩
  · unfold BrokerEnv.greet
    rw [bind_of_ok hreceive]
    show (if challenge = Vector.replicate 32 0 then _ else _ : Serve σ Source Unit) s₁ = _
    rw [if_neg hchallenge, hsend]
  · rw [hreplies₂, hquiet, hreplies, List.nil_append]
  · rw [hcodec₂, hcodec₁, hcodec]

/-- Where nothing is on its way, nothing is received. -/
theorem receive_empty (link : Duplex env) (handleId : UInt64)
    (s : ProtocolReadSession (Peer σ Source)) (hs : link.replies s.transport.serve.env = []) :
    ∃ e s', ProtocolReadSession.receive (link.transport handleId) s = .error e s' := by
  have hframe := readFrame_streams (link.transport_streams handleId) s.transport
  simp only [Duplex.pending] at hframe
  rw [hs] at hframe
  have hnone : ∀ frame, (readFrame (link.transport handleId).reader s.transport).1 ≠ .ok frame := by
    intro frame hok
    rw [hok] at hframe
    have hbytes := (readFrame_cursor_eq_ok.mp hframe.symm).2
    have hlength := congrArg List.length hbytes
    simp only [Frame.bytes, List.length_append, length_headerBytes, List.length_nil] at hlength
    have : headerLen = 20 := rfl
    omega
  unfold ProtocolReadSession.receive
  cases hread : s.codec.readMessage (link.transport handleId).reader s.transport with
  | mk result next =>
    obtain ⟨codec, p⟩ := next
    cases result with
    | error e => exact ⟨_, _, rfl⟩
    | ok frame =>
      have := (readMessage_ok hread).1
      exact absurd (by rw [this]) (hnone frame)

/-- The greeting of a new session is flushed, and its reply awaited. -/
theorem hello_flight (link : Duplex env) (handleId : UInt64) (x : σ) (challenge : Vector UInt8 32) :
    ∃ z, link.requests z = link.requests x ++ (Frame.mk 1 (.hello challenge)).bytes ∧
      link.replies z = link.replies x ∧
      ∀ p, ((Peer.start handleId x).withEnv z).step env handleId = p →
        exchange (link.transport handleId) (.hello challenge)
          { transport := (Peer.start handleId x : Peer σ Source) } =
        ProtocolReadSession.receive (link.transport handleId)
          { transport := p, codec := { nextOutbound := SessionCodec.following 1 } } := by
  obtain ⟨y, hwrite, hrequests, hreplies⟩ :=
    link.client_write x (Frame.mk 1 (.hello challenge)).bytes
  obtain ⟨z, hflush, hflushed, hquiet⟩ := link.client_flush y
  have hsent : ({} : SessionCodec).writeMessage (link.transport handleId).writer
      (Peer.start handleId x : Peer σ Source) (.hello challenge) =
      (.ok 1, { nextOutbound := SessionCodec.following 1 }, (Peer.start handleId x).withEnv y) := by
    rw [writeMessage_ready _ _ rfl (show (1 : UInt64) ≠ 0 by decide) rfl]
    simp only [Duplex.transport, Peer.start, hwrite]
  -- the peer takes its step when the client flushes
  refine ⟨z, hflushed.trans hrequests, hquiet.trans hreplies, fun p hp => ?_⟩
  show (send (link.transport handleId) (.hello challenge) >>= fun _ =>
    ProtocolReadSession.receive (link.transport handleId)) _ = _
  apply bind_of_ok
  simp only [send, hsent]
  simp only [Duplex.transport,
    show ((Peer.start handleId x : Peer σ Source).withEnv y).serve.env = y
    from rfl, hflush]
  rw [show ((Peer.start handleId x : Peer σ Source).withEnv y).withEnv z =
    (Peer.start handleId x).withEnv z from rfl, hp]

/-- A session that is greeted with a challenge other than zero is connected. -/
theorem connect_ready (link : Duplex env) (x : σ) (challenge : Vector UInt8 32)
    (hhandle : handleId ≠ 0)
    (hchallenge : challenge ≠ Vector.replicate 32 0) (hrequests : link.requests x = [])
    (hreplies : link.replies x = []) :
    ∃ s, connect (link.transport handleId) (Peer.start handleId x) challenge = .ok s ∧
      Joined link handleId s none 1 := by
  obtain ⟨z, hflight, hquiet, hsend⟩ := hello_flight link handleId x challenge
  obtain ⟨served, hgreet, hempty, hreply, hcodec, hopened⟩ := greet_flight link
    (show ({ env := z } : ServeState σ Source).codec = {} from rfl) hchallenge
    (by show link.requests z = _; rw [hflight, hrequests, List.nil_append])
    (hquiet.trans hreplies) rfl
  have hstep : ((Peer.start handleId x : Peer σ Source).withEnv z).step env handleId =
      ⟨served, .serving⟩ := by
    unfold Peer.step
    rw [show ((Peer.start handleId x : Peer σ Source).withEnv z).phase = .greeting from
      if_neg hhandle]
    show (match env.greet { env := z } with | .ok _ s => _ | .error _ s => _ : Peer σ Source) = _
    rw [hgreet]
  obtain ⟨q, hreceive, hdone, hkept, hphase, hcodec', hopened', _⟩ :=
    receive_reply link handleId
      { transport := (⟨served, .serving⟩ : Peer σ Source)
        codec := { nextOutbound := SessionCodec.following 1 } }
      (k := 1) rfl ⟨show (1 : UInt64) ≠ 0 by decide, rfl⟩ hreply
  -- the greeting used sequence number 1 on both sides
  have hnext := following_counterAt (counterAt_zero 1)
  have hconnect : connect (link.transport handleId) (Peer.start handleId x) challenge = .ok
      { transport := q, codec := ⟨SessionCodec.following 1, SessionCodec.following 1⟩ } := by
    unfold connect
    rw [if_neg hchallenge, hsend _ hstep, hreceive]
    exact if_pos rfl
  refine ⟨_, hconnect, ⟨rfl, rfl⟩, hphase, hkept.trans hempty, hdone, ?_, ?_,
    hopened'.trans hopened⟩
  · rw [← hnext]
  · rw [← hnext]
    exact hcodec'.trans hcodec

theorem connect_joined {x : σ} {challenge : Vector UInt8 32} (hrequests : link.requests x = [])
    (hreplies : link.replies x = [])
    (h : connect (link.transport handleId) (Peer.start handleId x) challenge = .ok s) :
    Joined link handleId s none 1 := by
  -- an all-zero challenge is refused on the client's side
  by_cases hchallenge : challenge = Vector.replicate 32 0
  · unfold connect at h
    rw [if_pos hchallenge] at h
    cases h
  · by_cases hhandle : handleId = 0
    · -- a broker without a handle never answers
      obtain ⟨z, _, hquiet, hsend⟩ := hello_flight link handleId x challenge
      have hended : ((Peer.start handleId x : Peer σ Source).withEnv z).phase = .ended :=
        if_pos hhandle
      obtain ⟨e, s', hreceive⟩ := receive_empty link handleId
        { transport := (Peer.start handleId x).withEnv z,
          codec := { nextOutbound := SessionCodec.following 1 } }
        (hquiet.trans hreplies)
      unfold connect at h
      rw [if_neg hchallenge, hsend _ (Peer.step_ended env handleId hended), hreceive] at h
      cases h
    · obtain ⟨s', hconnect, hjoined⟩ := connect_ready link x challenge hhandle hchallenge hrequests
        hreplies
      rw [hconnect] at h
      rw [← ok.inj h]
      exact hjoined

end Exchange

end Undelete.Broker
