import Undelete.Spec.ServeCorrect

/-!
# What a broker session lets out

Safety of `serve_session`, over every message history and every behaviour of the transport,
the source factory and the sources: sources are opened after the greeting and one at a time,
only bytes that the open source returned leave the broker, a failed or closed source serves
nothing more, and every request is answered once.

## Key results

- `serveSession_trace`: a session is silent, refused, or a greeting followed by turns.
- `serveSession_safe`: the safety of a session.
-/

namespace Undelete.Broker

open Except EStateM

variable {σ Source : Type} {env : BrokerEnv σ Source} {handleId : UInt64}

/-! ## Events -/

/-- An event that crosses the factory or a source, not the transport. -/
def ServeEvent.isCall : ServeEvent Source → Bool
  | .received _ | .sent _ _ => false
  | _ => true

def ServeEvent.acquires : ServeEvent Source → Bool
  | .acquired _ (.ok _) => true
  | _ => false

def ServeEvent.releases : ServeEvent Source → Bool
  | .released _ => true
  | _ => false

/-- The source that is open behind an event. -/
def openBehind (o : Option Source) : ServeEvent Source → Option Source
  | .acquired _ (.ok source) => some source
  | .released _ => none
  | _ => o

def openAfter (o : Option Source) (events : List (ServeEvent Source)) : Option Source :=
  events.foldl openBehind o

/-- An answer of the factory or of a source that says its identity is lost. -/
def ServeEvent.IdentityFailure : ServeEvent Source → Prop
  | .acquired _ (.error code) | .revalidated _ (.error code) | .read _ _ _ (.error code) =>
    sourceIdentityFailure code = true
  | _ => False

/-- An event after which the session holds no source: an identity failure, or a
    `CloseSource` with the session's handle. -/
def ServeEvent.Ends (handleId : UInt64) (e : ServeEvent Source) : Prop :=
  e.IdentityFailure ∨ e = .received (.closeSource handleId)

/-! ## Safety -/

/-- No source is asked for before a greeting with a challenge other than zero, which the
    broker has returned. -/
def GreetedFirst (trace : List (ServeEvent Source)) : Prop :=
  ∀ before sourceId answer after, trace = before ++ .acquired sourceId answer :: after →
    ∃ challenge rest, challenge ≠ Vector.replicate 32 0 ∧
      before = .received (.hello challenge) :: .sent (.helloAck challenge) (.ok ()) :: rest

/-- At any time, all sources acquired but one have been released. -/
def OneSource (trace : List (ServeEvent Source)) : Prop :=
  ∀ before after, trace = before ++ after →
    before.countP ServeEvent.acquires ≤ before.countP ServeEvent.releases + 1

/-- Data is sent only as the answer to a read with the session's handle, inside the open
    source, and it is what that source has just returned. -/
def ServesWhatItRead (env : BrokerEnv σ Source) (handleId : UInt64)
    (trace : List (ServeEvent Source)) : Prop :=
  ∀ before bytes result after, trace = before ++ .sent (.readData bytes) result :: after →
    ∃ pre source offset length g, before = pre ++
        [.received (.readAt handleId offset length), .measured source g,
          .revalidated source (.ok ()), .read source offset length.toNat (.ok bytes)] ∧
      openAfter none pre = some source ∧ offset.toNat + length.toNat ≤ g.size.toNat ∧
      ∃ x, (env.readExactAt x source offset length.toNat).1 = .ok bytes

/-- A source is acquired and reported as opened. -/
def Opens (handleId : UInt64) (events : List (ServeEvent Source)) : Prop :=
  ∃ sourceId source size logical physical disk,
    .acquired sourceId (.ok source) ∈ events ∧
      .sent (.opened handleId size logical physical disk) (.ok ()) ∈ events

theorem Opens.mono {events events' : List (ServeEvent Source)} (h : Opens handleId events)
    (hsub : events ⊆ events') : Opens handleId events' := by
  obtain ⟨sourceId, source, size, logical, physical, disk, hacquired, hopened⟩ := h
  exact ⟨sourceId, source, size, logical, physical, disk, hsub hacquired, hsub hopened⟩

/-- After an identity failure, and after a `CloseSource` with the session's handle, no data is
    sent before another source was opened. -/
def SilentAfterEnd (handleId : UInt64) (trace : List (ServeEvent Source)) : Prop :=
  ∀ before e middle bytes result after,
    trace = before ++ e :: (middle ++ .sent (.readData bytes) result :: after) →
    e.Ends handleId → Opens handleId middle

/-- The events behind a request start with its reply, up to calls; the next message is
    another request. The transport took the reply, unless the session ends with it. -/
def RepliedOnce (after : List (ServeEvent Source)) : Prop :=
  ∃ calls reply result dropped next,
    after = calls ++ .sent reply result :: (dropped ++ next) ∧
    (∀ e ∈ calls, e.isCall = true) ∧ (∀ e ∈ dropped, e.isCall = true) ∧
    (result = .ok () ∨ result = .error .transportFailure ∧ dropped ++ next = []) ∧
    (next = [] ∨ ∃ m next', next = .received m :: next')

/-- Every request other than `Shutdown` is replied to once, before the next one. Nothing is
    sent before the first request, or after a `Shutdown` of a session that was greeted. -/
structure OneReplyEach (trace : List (ServeEvent Source)) : Prop where
  head : trace = [] ∨ ∃ m rest, trace = .received m :: rest
  reply : ∀ before m after, trace = before ++ .received m :: after → m ≠ .shutdown →
    RepliedOnce after
  shutdown : ∀ before after, trace = before ++ .received .shutdown :: after → before ≠ [] →
    ∀ e ∈ after, e.isCall = true

/-! ## Turns -/

section Answers

variable {o o' : Option Source} {m reply : Message} {calls dropped : List (ServeEvent Source)}

theorem droppedSource_isCall (code : BrokerErrorCode) (source : Source) :
    ∀ e ∈ droppedSource code source, e.isCall = true := by
  unfold droppedSource
  split <;> simp [ServeEvent.isCall]

theorem Answers.calls_isCall (h : Answers env handleId o m calls reply dropped o') :
    ∀ e ∈ calls, e.isCall = true := by
  cases h <;> simp [ServeEvent.isCall]
  all_goals exact droppedSource_isCall _ _

theorem Answers.dropped_isCall (h : Answers env handleId o m calls reply dropped o') :
    ∀ e ∈ dropped, e.isCall = true := by
  cases h <;> simp [ServeEvent.isCall]

theorem droppedSource_not_failure {code : BrokerErrorCode} {source : Source}
    {e : ServeEvent Source} (he : e ∈ droppedSource code source) : ¬e.IdentityFailure := by
  unfold droppedSource at he
  split at he
  · obtain rfl := List.mem_singleton.mp he
    exact not_false
  · exact absurd he List.not_mem_nil

theorem openAfter_droppedSource (code : BrokerErrorCode) (source : Source) :
    openAfter (some source) (droppedSource code source) = keptSource code source := by
  unfold droppedSource keptSource
  split <;> rfl

/-- The open source behind a turn. -/
theorem Answers.openAfter (h : Answers env handleId o m calls reply dropped o') :
    openAfter o (.received m :: (calls ++ .sent reply (.ok ()) :: dropped)) = o' := by
  cases h <;> simp [Broker.openAfter, openBehind]
  all_goals exact openAfter_droppedSource _ _

/-- A reply with data leaves the source open, and is the answer to a read. -/
theorem Answers.readData {bytes : Bytes}
    (h : Answers env handleId o m calls (.readData bytes) dropped o') :
    ∃ source offset length g, o = some source ∧ o' = some source ∧
      m = .readAt handleId offset length ∧
      calls = [.measured source g, .revalidated source (.ok ()),
        .read source offset length.toNat (.ok bytes)] ∧
      offset.toNat + length.toNat ≤ g.size.toNat ∧
      ∃ x, (env.readExactAt x source offset length.toNat).1 = .ok bytes := by
  cases h with
  | read hrange hread => exact ⟨_, _, _, _, rfl, rfl, rfl, rfl, hrange, _, hread⟩

/-- A turn that opens a source, where none was, answers with `Opened`. -/
theorem Answers.opens (h : Answers env handleId none m calls reply dropped o')
    (ho : o' ≠ none) : Opens handleId (calls ++ [.sent reply (.ok ())]) := by
  cases h with
  | opened =>
    exact ⟨_, _, _, _, _, _, List.mem_cons_self,
      List.mem_append_right _ (List.mem_singleton.mpr rfl)⟩
  | _ => exact absurd rfl ho

/-- An identity failure leaves no source open. -/
theorem Answers.failure (h : Answers env handleId o m calls reply dropped o')
    {e : ServeEvent Source} (he : e ∈ calls ++ dropped) (hfailure : e.IdentityFailure) :
    o' = none := by
  -- only a revalidation fails for the identity, and then the source is released
  cases h with
  | refused | unfit | closed => rfl
  | stale =>
    simp only [List.append_nil, List.mem_cons] at he
    rcases he with rfl | rfl | he
    · exact hfailure.elim
    · exact if_pos hfailure
    · exact (droppedSource_not_failure he hfailure).elim
  | failed =>
    simp only [List.append_nil, List.mem_cons] at he
    rcases he with rfl | rfl | rfl | he
    · exact hfailure.elim
    · exact hfailure.elim
    · exact if_pos hfailure
    · exact (droppedSource_not_failure he hfailure).elim
  | opened =>
    simp only [List.append_nil, List.mem_cons, List.not_mem_nil, or_false] at he
    rcases he with rfl | rfl <;> exact hfailure.elim
  | outOfRange =>
    obtain rfl := List.mem_singleton.mp he
    exact hfailure.elim
  | read =>
    simp only [List.append_nil, List.mem_cons, List.not_mem_nil, or_false] at he
    rcases he with rfl | rfl | rfl <;> exact hfailure.elim
  | _ => exact absurd he List.not_mem_nil

/-- A `CloseSource` with the session's handle leaves no source open. -/
theorem Answers.close
    (h : Answers env handleId o (.closeSource handleId) calls reply dropped o') : o' = none := by
  cases h with
  | closed => rfl
  | unclosable hclosed =>
    rcases hclosed with hnone | hne
    · exact hnone
    · exact absurd rfl hne
  | unexpected _ _ hne => exact absurd rfl hne

theorem droppedSource_counts (code : BrokerErrorCode) (source : Source) :
    (droppedSource code source).countP ServeEvent.acquires = 0 ∧
      (droppedSource code source).countP ServeEvent.releases +
        (keptSource code source).toList.length = 1 := by
  unfold droppedSource keptSource
  by_cases hcode : sourceIdentityFailure code = true <;>
    simp [hcode, ServeEvent.acquires, ServeEvent.releases]

/-- The sources acquired and released in a turn. -/
theorem Answers.counts (h : Answers env handleId o m calls reply dropped o') :
    (calls ++ dropped).countP ServeEvent.acquires + o.toList.length ≤ 1 ∧
    (calls ++ dropped).countP ServeEvent.acquires + o.toList.length =
      (calls ++ dropped).countP ServeEvent.releases + o'.toList.length := by
  cases h with
  | @stale source _ _ _ code | @failed source _ _ _ code =>
    obtain ⟨hacquires, hreleases⟩ := droppedSource_counts code source
    simp only [List.append_nil, List.countP_cons, ServeEvent.acquires, ServeEvent.releases,
      Option.toList_some, List.length_singleton, Bool.false_eq_true, if_false]
    omega
  | _ =>
    simp [List.countP_cons, ServeEvent.acquires, ServeEvent.releases]

end Answers

/-! ## Splitting a trace at a message -/

section Split

variable {calls dropped rest before after : List (ServeEvent Source)} {m reply : Message}
  {result : Except SessionError Unit} {x : ServeEvent Source}

theorem split_calls (hcalls : ∀ e ∈ calls, e.isCall = true) (hx : x.isCall = false)
    (h : calls ++ rest = before ++ x :: after) :
    ∃ b, before = calls ++ b ∧ rest = b ++ x :: after := by
  rcases List.append_eq_append_iff.mp h with ⟨b, hb, hrest⟩ | ⟨b, hb, hrest⟩
  · exact ⟨b, hb, hrest⟩
  · cases b with
    | nil => exact ⟨[], by rw [hb, List.append_nil, List.append_nil], hrest.symm⟩
    | cons y b =>
      obtain ⟨rfl, -⟩ := List.cons.inj hrest
      have := hcalls x (by rw [hb]; exact List.mem_append_right _ List.mem_cons_self)
      rw [hx] at this
      cases this

/-- A message lies at the start of a turn, at its end, or behind it. -/
theorem split_turn (hcalls : ∀ e ∈ calls, e.isCall = true)
    (hdropped : ∀ e ∈ dropped, e.isCall = true)
    (hx : x.isCall = false)
    (h : .received m :: (calls ++ .sent reply result :: (dropped ++ rest)) = before ++ x :: after) :
    (before = [] ∧ x = .received m ∧ after = calls ++ .sent reply result :: (dropped ++ rest)) ∨
    (before = .received m :: calls ∧ x = .sent reply result ∧ after = dropped ++ rest) ∨
    ∃ b, before = .received m :: (calls ++ .sent reply result :: (dropped ++ b)) ∧
      rest = b ++ x :: after := by
  cases before with
  | nil =>
    obtain ⟨rfl, rfl⟩ := List.cons.inj h
    exact .inl ⟨rfl, rfl, rfl⟩
  | cons y before =>
    obtain ⟨rfl, htail⟩ := List.cons.inj h
    obtain ⟨b, rfl, hsent⟩ := split_calls hcalls hx htail
    cases b with
    | nil =>
      obtain ⟨rfl, rfl⟩ := List.cons.inj hsent
      exact .inr (.inl ⟨by rw [List.append_nil], rfl, rfl⟩)
    | cons y b =>
      obtain ⟨rfl, hbehind⟩ := List.cons.inj hsent
      obtain ⟨b, rfl, hrest⟩ := split_calls hdropped hx hbehind
      exact .inr (.inr ⟨b, rfl, hrest⟩)

/-- A turn whose reply the transport did not take. -/
theorem split_broken (hcalls : ∀ e ∈ calls, e.isCall = true) (hx : x.isCall = false)
    (h : .received m :: (calls ++ [.sent reply result]) = before ++ x :: after) :
    (before = [] ∧ x = .received m ∧ after = calls ++ [.sent reply result]) ∨
    (before = .received m :: calls ∧ x = .sent reply result ∧ after = []) := by
  have hnil : ∀ e ∈ ([] : List (ServeEvent Source)), e.isCall = true := by
    intro e he
    cases he
  have h : .received m :: (calls ++ .sent reply result :: ([] ++ [])) = before ++ x :: after := h
  rcases split_turn hcalls hnil hx h with h | h | ⟨b, -, h⟩
  · exact .inl h
  · exact .inr h
  · cases b <;> cases h

/-- Behind a `Shutdown` there is no message. -/
theorem split_shutdown {o : Option Source} (hx : x.isCall = false)
    (h : .received .shutdown :: o.toList.map .released = before ++ x :: after) :
    before = [] ∧ x = .received .shutdown ∧ after = o.toList.map .released := by
  cases before with
  | nil =>
    obtain ⟨rfl, rfl⟩ := List.cons.inj h
    exact ⟨rfl, rfl, rfl⟩
  | cons y before =>
    obtain ⟨-, h⟩ := List.cons.inj h
    have hmem : x ∈ o.toList.map ServeEvent.released := by
      rw [h]
      exact List.mem_append_right _ List.mem_cons_self
    obtain ⟨source, -, rfl⟩ := List.mem_map.mp hmem
    cases hx

end Split

/-! ## Turns -/

theorem openAfter_append (o : Option Source) (events events' : List (ServeEvent Source)) :
    openAfter o (events ++ events') = openAfter (openAfter o events) events' :=
  List.foldl_append

/-- Data leaves the broker as the answer to a read. -/
theorem Turns.readData {o : Option Source} {events : List (ServeEvent Source)}
    (h : Turns env handleId o events) {before after : List (ServeEvent Source)} {bytes : Bytes}
    {result : Except SessionError Unit}
    (hevents : events = before ++ .sent (.readData bytes) result :: after) :
    ∃ pre source offset length g, before = pre ++
        [.received (.readAt handleId offset length), .measured source g,
          .revalidated source (.ok ()), .read source offset length.toNat (.ok bytes)] ∧
      openAfter o pre = some source ∧ offset.toNat + length.toNat ≤ g.size.toNat ∧
      ∃ x, (env.readExactAt x source offset length.toNat).1 = .ok bytes := by
  -- the data is of this turn, or of a later one
  induction h generalizing before with
  | done => cases before <;> cases hevents
  | @turn o o' m reply calls dropped rest _ hanswers _ ih =>
    rcases split_turn hanswers.calls_isCall hanswers.dropped_isCall rfl hevents with
      ⟨_, hx, _⟩ | ⟨hbefore, hx, _⟩ | ⟨b, hbefore, hrest⟩
    · cases hx
    · cases hx
      obtain ⟨source, offset, length, g, rfl, -, rfl, rfl, hrange, hread⟩ := hanswers.readData
      exact ⟨[], source, offset, length, g, hbefore, rfl, hrange, hread⟩
    · obtain ⟨pre, source, offset, length, g, rfl, hopen, hread⟩ := ih hrest
      refine ⟨.received m :: (calls ++ .sent reply (.ok ()) :: dropped) ++ pre, source, offset,
        length, g, ?_, ?_, hread⟩
      · rw [hbefore]
        simp only [List.append_assoc, List.cons_append]
      · rw [openAfter_append, hanswers.openAfter]
        exact hopen
  | broken _ hanswers =>
    rcases split_broken hanswers.calls_isCall rfl hevents with ⟨_, hx, _⟩ | ⟨hbefore, hx, _⟩
    · cases hx
    · cases hx
      obtain ⟨source, offset, length, g, rfl, -, rfl, rfl, hrange, hread⟩ := hanswers.readData
      exact ⟨[], source, offset, length, g, hbefore, rfl, hrange, hread⟩
  | shutdown =>
    obtain ⟨-, hx, -⟩ := split_shutdown rfl hevents
    cases hx

/-- With no source open, one is opened before data leaves the broker. -/
theorem Turns.opens {o : Option Source} {events : List (ServeEvent Source)}
    (h : Turns env handleId o events) (ho : o = none) {middle after : List (ServeEvent Source)}
    {bytes : Bytes} {result : Except SessionError Unit}
    (hevents : events = middle ++ .sent (.readData bytes) result :: after) :
    Opens handleId middle := by
  -- without a source no turn sends data, so one before it has opened a source
  induction h generalizing middle with
  | done => cases middle <;> cases hevents
  | @turn o o' m reply calls dropped rest _ hanswers _ ih =>
    subst ho
    rcases split_turn hanswers.calls_isCall hanswers.dropped_isCall rfl hevents with
      ⟨_, hx, _⟩ | ⟨_, hx, _⟩ | ⟨b, hmiddle, hrest⟩
    · cases hx
    · cases hx
      obtain ⟨_, _, _, _, hnone, _⟩ := hanswers.readData
      cases hnone
    · have hmiddle : middle = [.received m] ++ (calls ++ [.sent reply (.ok ())]) ++
        dropped ++ b := by
        rw [hmiddle]
        simp only [List.append_assoc, List.cons_append, List.nil_append]
      rw [hmiddle]
      cases o' with
      | none => exact (ih rfl hrest).mono (List.subset_append_right _ _)
      | some source =>
        apply (hanswers.opens (Option.some_ne_none source)).mono
        apply List.Subset.trans (List.subset_append_right [.received m] _)
        rw [List.append_assoc _ dropped b]
        exact List.subset_append_left _ _
  | broken _ hanswers =>
    subst ho
    rcases split_broken hanswers.calls_isCall rfl hevents with ⟨_, hx, _⟩ | ⟨_, hx, _⟩
    · cases hx
    · cases hx
      obtain ⟨_, _, _, _, hnone, _⟩ := hanswers.readData
      cases hnone
  | shutdown =>
    obtain ⟨-, hx, -⟩ := split_shutdown rfl hevents
    cases hx

/-- A turn with an event that ends the source carries no data and leaves no source open. -/
theorem Answers.ended {o o' : Option Source} {m reply : Message}
    {calls dropped : List (ServeEvent Source)} {result : Except SessionError Unit}
    (h : Answers env handleId o m calls reply dropped o') {e : ServeEvent Source}
    (he : e ∈ .received m :: (calls ++ .sent reply result :: dropped)) (hend : e.Ends handleId) :
    o' = none ∧ ∀ bytes r, .sent (.readData bytes) r ∉
      .received m :: (calls ++ .sent reply result :: dropped) := by
  -- either way the source is released
  have hnone : o' = none := by
    rcases hend with hfailure | rfl
    · apply h.failure _ hfailure
      simp only [List.mem_cons, List.mem_append] at he ⊢
      rcases he with rfl | he | rfl | he
      · exact hfailure.elim
      · exact .inl he
      · exact hfailure.elim
      · exact .inr he
    · simp only [List.mem_cons, List.mem_append] at he
      rcases he with he | he | he | he
      · obtain rfl := ServeEvent.received.inj he
        exact h.close
      · exact absurd (h.calls_isCall _ he) Bool.false_ne_true
      · cases he
      · exact absurd (h.dropped_isCall _ he) Bool.false_ne_true
  refine ⟨hnone, ?_⟩
  intro bytes r hmem
  simp only [List.mem_cons, List.mem_append] at hmem
  rcases hmem with hmem | hmem | hmem | hmem
  · cases hmem
  · exact absurd (h.calls_isCall _ hmem) Bool.false_ne_true
  · cases hmem
    -- while data is sent only with a source
    obtain ⟨_, _, _, _, _, hsome, _⟩ := h.readData
    rw [hnone] at hsome
    cases hsome
  · exact absurd (h.dropped_isCall _ hmem) Bool.false_ne_true

/-- Behind an event that ends the source there is no data up to a turn boundary, where no
    source is open. -/
theorem Turns.ended {o : Option Source} {events : List (ServeEvent Source)}
    (h : Turns env handleId o events) {before tail : List (ServeEvent Source)}
    {e : ServeEvent Source} (hevents : events = before ++ e :: tail) (hend : e.Ends handleId) :
    ∃ near rest, tail = near ++ rest ∧ (∀ bytes r, .sent (.readData bytes) r ∉ near) ∧
      Turns env handleId none rest := by
  -- behind the end of this turn the session goes on without a source
  induction h generalizing before with
  | done => cases before <;> cases hevents
  | @turn o o' m reply calls dropped rest _ hanswers hturns ih =>
    have hsplit : (.received m :: (calls ++ .sent reply (.ok ()) :: dropped)) ++ rest =
        before ++ e :: tail := by
      rw [← hevents]
      simp only [List.append_assoc, List.cons_append]
    -- the event is of a later turn or of this one
    rcases List.append_eq_append_iff.mp hsplit with ⟨b, -, hrest⟩ | ⟨c, hturn, htail⟩
    · exact ih hrest
    · cases c with
      | nil => exact ih (show _ = [] ++ e :: tail from htail.symm)
      | cons y c =>
        obtain ⟨rfl, rfl⟩ := List.cons.inj htail
        have hmem : e ∈ .received m :: (calls ++ .sent reply (.ok ()) :: dropped) := by
          rw [hturn]
          exact List.mem_append_right _ List.mem_cons_self
        obtain ⟨rfl, hdata⟩ := hanswers.ended hmem hend
        refine ⟨c, rest, rfl, ?_, hturns⟩
        intro bytes r hc
        apply hdata bytes r
        rw [hturn]
        exact List.mem_append_right _ (List.mem_cons_of_mem _ hc)
  | @broken o o' m reply calls dropped _ hanswers =>
    refine ⟨tail, [], (List.append_nil _).symm, ?_, .done none⟩
    have hmem : ∀ x ∈ e :: tail,
        x ∈ .received m :: (calls ++ .sent reply (.error .transportFailure) :: dropped) := by
      intro x hx
      have hx' : x ∈ .received m :: (calls ++ [.sent reply (.error .transportFailure)]) := by
        rw [hevents]
        exact List.mem_append_right _ hx
      simp only [List.mem_cons, List.mem_append, List.not_mem_nil, or_false] at hx' ⊢
      rcases hx' with hx' | hx' | hx'
      · exact .inl hx'
      · exact .inr (.inl hx')
      · exact .inr (.inr (.inl hx'))
    obtain ⟨-, hdata⟩ := hanswers.ended (hmem e List.mem_cons_self) hend
    intro bytes r htail
    exact hdata bytes r (hmem _ (List.mem_cons_of_mem _ htail))
  | shutdown o =>
    refine ⟨tail, [], (List.append_nil _).symm, ?_, .done none⟩
    intro bytes r htail
    have hmem : .sent (.readData bytes) r ∈
        ServeEvent.received .shutdown :: o.toList.map ServeEvent.released := by
      rw [hevents]
      exact List.mem_append_right _ (List.mem_cons_of_mem _ htail)
    rcases List.mem_cons.mp hmem with hmem | hmem
    · cases hmem
    · obtain ⟨_, -, hmem⟩ := List.mem_map.mp hmem
      cases hmem

/-- The sources acquired and released in turns. -/
theorem Turns.counts {o : Option Source} {events : List (ServeEvent Source)}
    (h : Turns env handleId o events) {before after : List (ServeEvent Source)}
    (hevents : events = before ++ after) :
    before.countP ServeEvent.acquires + o.toList.length ≤
      before.countP ServeEvent.releases + 1 := by
  -- at most one source is open
  have hone : ∀ o : Option Source, o.toList.length ≤ 1 := by
    intro o
    cases o <;> simp
  induction h generalizing before with
  | done o =>
    obtain rfl : before = [] := (List.append_eq_nil_iff.mp hevents.symm).1
    rw [List.countP_nil, List.countP_nil]
    have := hone o
    omega
  | @turn o o' m reply calls dropped rest _ hanswers _ ih =>
    obtain ⟨hle, htotal⟩ := hanswers.counts
    rw [List.countP_append, List.countP_append] at htotal
    rw [List.countP_append] at hle
    have hsplit : (.received m :: (calls ++ .sent reply (.ok ()) :: dropped)) ++ rest =
        before ++ after := by
      rw [← hevents]
      simp only [List.append_assoc, List.cons_append]
    have hcount : ∀ p : ServeEvent Source → Bool, p (.received m) = false →
        p (.sent reply (.ok ())) = false →
        (ServeEvent.received m :: (calls ++ .sent reply (.ok ()) :: dropped)).countP p =
          calls.countP p + dropped.countP p := by
      intro p hreceived hsent
      rw [List.countP_cons, List.countP_append, List.countP_cons, hreceived, hsent]
      rfl
    -- the prefix ends behind this turn or in it
    rcases List.append_eq_append_iff.mp hsplit with ⟨b, rfl, hrest⟩ | ⟨c, hturn, -⟩
    · have := ih hrest
      rw [List.countP_append, List.countP_append, hcount _ rfl rfl, hcount _ rfl rfl]
      omega
    · have hacquires := hcount ServeEvent.acquires rfl rfl
      rw [hturn, List.countP_append] at hacquires
      omega
  | @broken o o' m reply calls dropped _ hanswers =>
    obtain ⟨hle, -⟩ := hanswers.counts
    rw [List.countP_append] at hle
    have hacquires := congrArg (List.countP ServeEvent.acquires) hevents
    rw [List.countP_cons, List.countP_append, List.countP_append, List.countP_cons] at hacquires
    simp only [ServeEvent.acquires, Bool.false_eq_true, if_false, List.countP_nil] at hacquires
    omega
  | shutdown o =>
    have := hone o
    have hacquires := congrArg (List.countP ServeEvent.acquires) hevents
    have hzero : (o.toList.map ServeEvent.released).countP ServeEvent.acquires = 0 := by
      cases o <;> rfl
    rw [List.countP_cons, List.countP_append, hzero] at hacquires
    simp only [ServeEvent.acquires, Bool.false_eq_true, if_false] at hacquires
    omega

theorem Turns.head {o : Option Source} {events : List (ServeEvent Source)}
    (h : Turns env handleId o events) : events = [] ∨ ∃ m rest, events = .received m :: rest := by
  cases h with
  | done => exact .inl rfl
  | turn | broken | shutdown => exact .inr ⟨_, _, rfl⟩

theorem Turns.reply {o : Option Source} {events : List (ServeEvent Source)}
    (h : Turns env handleId o events) {before after : List (ServeEvent Source)} {m : Message}
    (hevents : events = before ++ .received m :: after) (hm : m ≠ .shutdown) :
    RepliedOnce after := by
  induction h generalizing before with
  | done => cases before <;> cases hevents
  | turn _ hanswers hturns ih =>
    have hcalls := hanswers.calls_isCall
    have hdropped := hanswers.dropped_isCall
    rcases split_turn hcalls hdropped rfl hevents with ⟨_, _, hafter⟩ | ⟨_, hx, _⟩ | ⟨b, _, hrest⟩
    · exact ⟨_, _, _, _, _, hafter, hcalls, hdropped, .inl rfl, hturns.head⟩
    · cases hx
    · exact ih hrest
  | broken _ hanswers =>
    have hcalls := hanswers.calls_isCall
    rcases split_broken hcalls rfl hevents with ⟨_, _, hafter⟩ | ⟨_, hx, _⟩
    · exact ⟨_, _, _, [], [], hafter, hcalls, by simp, .inr ⟨rfl, rfl⟩, .inl rfl⟩
    · cases hx
  | shutdown =>
    obtain ⟨-, hx, -⟩ := split_shutdown rfl hevents
    cases hx
    exact absurd rfl hm

theorem Turns.shutdown_calls {o : Option Source} {events : List (ServeEvent Source)}
    (h : Turns env handleId o events) {before after : List (ServeEvent Source)}
    (hevents : events = before ++ .received .shutdown :: after) : ∀ e ∈ after, e.isCall = true := by
  induction h generalizing before with
  | done => cases before <;> cases hevents
  | turn hm hanswers _ ih =>
    rcases split_turn hanswers.calls_isCall hanswers.dropped_isCall rfl hevents with
      ⟨_, hx, _⟩ | ⟨_, hx, _⟩ | ⟨b, _, hrest⟩
    · cases hx
      exact absurd rfl hm
    · cases hx
    · exact ih hrest
  | broken hm hanswers =>
    rcases split_broken hanswers.calls_isCall rfl hevents with ⟨_, hx, _⟩ | ⟨_, hx, _⟩
    · cases hx
      exact absurd rfl hm
    · cases hx
  | shutdown =>
    obtain ⟨-, -, rfl⟩ := split_shutdown rfl hevents
    intro e he
    obtain ⟨source, -, rfl⟩ := List.mem_map.mp he
    rfl

/-! ## Sessions -/

/-- The traces of a session: it gets no message, it refuses the first one, it gets no answer
    to the greeting out, or it goes on with turns. -/
inductive SessionTrace (env : BrokerEnv σ Source) (handleId : UInt64) :
    List (ServeEvent Source) → Prop
  | silent : SessionTrace env handleId []
  | refused {first : Message} {result : Except SessionError Unit} :
      result = .ok () ∨ result = .error .transportFailure →
      SessionTrace env handleId
        [.received first, .sent (.error .authenticationFailed) result]
  | ungreeted (challenge : Vector UInt8 32) : SessionTrace env handleId
      [.received (.hello challenge), .sent (.helloAck challenge) (.error .transportFailure)]
  | greeted {challenge : Vector UInt8 32} {events : List (ServeEvent Source)} :
      challenge ≠ Vector.replicate 32 0 → Turns env handleId none events →
      SessionTrace env handleId
        (.received (.hello challenge) :: .sent (.helloAck challenge) (.ok ()) :: events)

/-- A first message that is no greeting is refused. -/
theorem wp_refuse {s : ServeState σ Source} {first : Message} (hready : s.codec.Ready)
    (htrace : s.trace = [.received first]) {Q : Unit → ServeState σ Source → Prop} :
    (env.sendBrokerError .authenticationFailed >>= fun _ =>
        throw .authenticationFailed : Serve σ Source Unit).Wp s Q
      (fun _ s' => SessionTrace env handleId s'.trace) := by
  rw [wp_bind]
  apply wp_sendMessage hready rfl
  · intro s' hsent
    show SessionTrace env handleId s'.trace
    rw [hsent.trace, htrace]
    exact .refused (.inl rfl)
  · intro s' _ htrace'
    rw [htrace', htrace]
    exact .refused (.inr rfl)

/-- The greeting: an accepted one leaves the codec in lockstep and no source open. -/
theorem wp_greet {x : σ} : (env.greet : Serve σ Source Unit).Wp { env := x }
    (fun _ s => ∃ challenge, challenge ≠ Vector.replicate 32 0 ∧ s.codec.Lockstep ∧
      s.opened = none ∧
      s.trace = [.received (.hello challenge), .sent (.helloAck challenge) (.ok ())])
    (fun _ s => SessionTrace env handleId s.trace) := by
  have hlock : SessionCodec.Lockstep {} := rfl
  unfold BrokerEnv.greet
  rw [wp_bind]
  apply wp_receive
  · intro k m s hk hframe _ hcodec hopened htrace
    have hready := hlock.ready hk hframe.sequence hcodec
    -- anything but a greeting is refused, and so is a challenge of zeros
    cases m with
    | hello challenge =>
      dsimp only
      by_cases hzero : challenge = Vector.replicate 32 0
      · rw [if_pos hzero]
        exact wp_refuse hready htrace
      · rw [if_neg hzero]
        apply wp_sendMessage hready rfl
        · intro s' hsent
          refine ⟨challenge, hzero, ?_, hsent.opened.trans hopened, ?_⟩
          · obtain ⟨k', hk', hcodec', -⟩ := hsent.codec
            rw [hcodec] at hk'
            have heq : some k' = some k := hk'.symm.trans (hlock.trans hk)
            unfold SessionCodec.Lockstep
            rw [hcodec', hcodec, Option.some.inj heq]
          · rw [hsent.trace, htrace]
            rfl
        · intro s' _ htrace'
          rw [htrace', htrace]
          exact .ungreeted challenge
    | _ => exact wp_refuse hready htrace
  · intro e s _ htrace
    rw [htrace]
    exact .silent

/-- What a session leaves in its trace. -/
theorem serveSession_trace (env : BrokerEnv σ Source) (handleId : UInt64) (turns : Nat) (x : σ) :
    SessionTrace env handleId
      ((env.serveSession handleId turns).finalState { env := x }).trace := by
  apply Wp.finalState (P := fun s : ServeState σ Source => SessionTrace env handleId s.trace)
  unfold BrokerEnv.serveSession
  rw [wp_guard]
  refine ⟨fun _ => .silent, fun _ => ?_⟩
  rw [wp_bind]
  apply wp_greet.mono
  · intro _ s hgreeted
    obtain ⟨challenge, hchallenge, hlock, hopened, htrace⟩ := hgreeted
    apply (serveLoop_turns (o := none) turns hlock hopened).mono <;>
    · intro _ s' hturns
      obtain ⟨events, hturns, htrace'⟩ := hturns
      rw [htrace', htrace]
      exact .greeted hchallenge hturns
  · intro e s h
    exact h

/-- An event that is neither of the first two lies behind them. -/
theorem split_greeting {a b e : ServeEvent Source} {events before after : List (ServeEvent Source)}
    (ha : e ≠ a) (hb : e ≠ b) (h : a :: b :: events = before ++ e :: after) :
    ∃ rest, before = a :: b :: rest ∧ events = rest ++ e :: after := by
  cases before with
  | nil => exact absurd (List.cons.inj h).1.symm ha
  | cons x before =>
    obtain ⟨rfl, hsecond⟩ := List.cons.inj h
    cases before with
    | nil => exact absurd (List.cons.inj hsecond).1.symm hb
    | cons y rest =>
      obtain ⟨rfl, hrest⟩ := List.cons.inj hsecond
      exact ⟨rest, rfl, hrest⟩

section Safety

variable {trace : List (ServeEvent Source)}

theorem SessionTrace.greetedFirst (h : SessionTrace env handleId trace) : GreetedFirst trace := by
  intro before sourceId answer after htrace
  have hne : ∀ m, ServeEvent.acquired sourceId answer ≠ .received m := by
    intro m heq
    cases heq
  have hne' : ∀ m r, ServeEvent.acquired sourceId answer ≠ .sent m r := by
    intro m r heq
    cases heq
  cases h with
  | silent => cases before <;> cases htrace
  | refused | ungreeted =>
    obtain ⟨rest, -, hnil⟩ := split_greeting (hne _) (hne' _ _) htrace
    cases rest <;> cases hnil
  | greeted hchallenge hturns =>
    obtain ⟨rest, hbefore, -⟩ := split_greeting (hne _) (hne' _ _) htrace
    exact ⟨_, rest, hchallenge, hbefore⟩

/-- Nothing is acquired during a greeting. -/
theorem acquires_greeting {m reply : Message} {result : Except SessionError Unit}
    {before after : List (ServeEvent Source)}
    (h : [.received m, .sent reply result] = before ++ after) :
    before.countP ServeEvent.acquires = 0 := by
  have hcount := congrArg (List.countP ServeEvent.acquires) h
  rw [List.countP_append] at hcount
  have hzero : List.countP ServeEvent.acquires
    ([.received m, .sent reply result] : List (ServeEvent Source)) = 0 := rfl
  omega

theorem SessionTrace.oneSource (h : SessionTrace env handleId trace) : OneSource trace := by
  intro before after htrace
  cases h with
  | silent =>
    obtain rfl := (List.append_eq_nil_iff.mp htrace.symm).1
    exact Nat.zero_le _
  | refused | ungreeted =>
    rw [acquires_greeting htrace]
    exact Nat.zero_le _
  | @greeted challenge events _ hturns =>
    have hsplit : [.received (.hello challenge), .sent (.helloAck challenge) (.ok ())] ++ events =
        before ++ after := htrace
    rcases List.append_eq_append_iff.mp hsplit with ⟨b, rfl, hevents⟩ | ⟨c, hgreeting, -⟩
    · have := hturns.counts hevents
      rw [List.countP_append, acquires_greeting (List.append_nil _).symm, List.countP_append]
      simp only [Option.toList_none, List.length_nil] at this
      omega
    · rw [acquires_greeting hgreeting]
      exact Nat.zero_le _

/-- A session that sends data was greeted, and sends it behind the greeting. -/
theorem SessionTrace.data (h : SessionTrace env handleId trace)
    {before after : List (ServeEvent Source)} {bytes : Bytes} {result : Except SessionError Unit}
    (htrace : trace = before ++ .sent (.readData bytes) result :: after) :
    ∃ challenge events, trace =
        .received (.hello challenge) :: .sent (.helloAck challenge) (.ok ()) :: events ∧
      Turns env handleId none events := by
  have hne : ∀ m, (.sent (.readData bytes) result : ServeEvent Source) ≠ .received m := by
    intro m heq
    cases heq
  cases h with
  | silent => cases before <;> cases htrace
  | refused =>
    obtain ⟨rest, -, hnil⟩ := split_greeting (hne _) (by simp) htrace
    cases rest <;> cases hnil
  | ungreeted =>
    obtain ⟨rest, -, hnil⟩ := split_greeting (hne _) (by simp) htrace
    cases rest <;> cases hnil
  | greeted _ hturns => exact ⟨_, _, rfl, hturns⟩

theorem SessionTrace.servesWhatItRead (h : SessionTrace env handleId trace) :
    ServesWhatItRead env handleId trace := by
  intro before bytes result after htrace
  obtain ⟨challenge, events, rfl, hturns⟩ := h.data htrace
  obtain ⟨rest, rfl, hevents⟩ := split_greeting (by simp) (by simp) htrace
  obtain ⟨pre, source, offset, length, g, rfl, hopen, hread⟩ := hturns.readData hevents
  exact ⟨.received (.hello challenge) :: .sent (.helloAck challenge) (.ok ()) :: pre, source,
    offset, length, g, rfl, hopen, hread⟩

theorem SessionTrace.silentAfterEnd (h : SessionTrace env handleId trace) :
    SilentAfterEnd handleId trace := by
  intro before e middle bytes result after htrace hend
  have hdata : trace = (before ++ e :: middle) ++ .sent (.readData bytes) result :: after := by
    rw [htrace]
    simp only [List.append_assoc, List.cons_append]
  obtain ⟨challenge, events, rfl, hturns⟩ := h.data hdata
  -- the greeting ends nothing
  have hhello : e ≠ .received (.hello challenge) := by
    rintro rfl
    rcases hend with hend | hend
    · exact hend.elim
    · cases hend
  have hack : e ≠ .sent (.helloAck challenge) (.ok ()) := by
    rintro rfl
    rcases hend with hend | hend
    · exact hend.elim
    · cases hend
  obtain ⟨rest, -, hevents⟩ := split_greeting hhello hack htrace
  obtain ⟨near, far, htail, hnear, hfar⟩ := hturns.ended hevents hend
  -- the data comes behind the turn of the end
  rcases List.append_eq_append_iff.mp htail with ⟨b, rfl, hb⟩ | ⟨b, rfl, hb⟩
  · cases b with
    | nil =>
      have hopens : Opens handleId [] := hfar.opens rfl hb.symm
      exact hopens.mono (List.nil_subset _)
    | cons y b =>
      obtain ⟨rfl, -⟩ := List.cons.inj hb
      exact absurd (List.mem_append_right _ List.mem_cons_self) (hnear bytes result)
  · exact (hfar.opens rfl hb).mono (List.subset_append_right _ _)

/-- A request behind a greeting lies behind both of its messages. -/
theorem split_request {m first reply : Message} {result : Except SessionError Unit}
    {events before after : List (ServeEvent Source)}
    (h : .received first :: .sent reply result :: events = before ++ .received m :: after) :
    (before = [] ∧ m = first ∧ after = .sent reply result :: events) ∨
      ∃ rest, before = .received first :: .sent reply result :: rest ∧
        events = rest ++ .received m :: after := by
  cases before with
  | nil =>
    obtain ⟨heq, rfl⟩ := List.cons.inj h
    exact .inl ⟨rfl, (ServeEvent.received.inj heq).symm, rfl⟩
  | cons x before =>
    obtain ⟨rfl, hsecond⟩ := List.cons.inj h
    cases before with
    | nil => cases hsecond
    | cons y rest =>
      obtain ⟨rfl, hrest⟩ := List.cons.inj hsecond
      exact .inr ⟨rest, rfl, hrest⟩

/-- The reply to the first message. -/
theorem repliedOnce_first {reply : Message} {result : Except SessionError Unit}
    {events : List (ServeEvent Source)}
    (hresult : result = .ok () ∨ result = .error .transportFailure ∧ events = [])
    (hevents : events = [] ∨ ∃ m rest, events = .received m :: rest) :
    RepliedOnce (.sent reply result :: events) := by
  have hnil : ∀ e ∈ ([] : List (ServeEvent Source)), e.isCall = true := by
    intro e he
    cases he
  exact ⟨[], reply, result, [], events, rfl, hnil, hnil, hresult, hevents⟩

theorem SessionTrace.oneReplyEach (h : SessionTrace env handleId trace) : OneReplyEach trace where
  head := by
    -- the first request is the greeting, the others are of the turns
    cases h with
    | silent => exact .inl rfl
    | refused | ungreeted | greeted => exact .inr ⟨_, _, rfl⟩
  reply := by
    intro before m after htrace hm
    cases h with
    | silent => cases before <;> cases htrace
    | refused hresult =>
      rcases split_request htrace with ⟨-, -, rfl⟩ | ⟨rest, -, hnil⟩
      · exact repliedOnce_first (hresult.imp_right fun h => ⟨h, rfl⟩) (.inl rfl)
      · cases rest <;> cases hnil
    | ungreeted =>
      rcases split_request htrace with ⟨-, -, rfl⟩ | ⟨rest, -, hnil⟩
      · exact repliedOnce_first (.inr ⟨rfl, rfl⟩) (.inl rfl)
      · cases rest <;> cases hnil
    | greeted _ hturns =>
      rcases split_request htrace with ⟨-, -, rfl⟩ | ⟨rest, -, hevents⟩
      · exact repliedOnce_first (.inl rfl) hturns.head
      · exact hturns.reply hevents hm
  shutdown := by
    intro before after htrace hbefore
    cases h with
    | silent => cases before <;> cases htrace
    | refused | ungreeted =>
      rcases split_request htrace with ⟨hnil, -, -⟩ | ⟨rest, -, hnil⟩
      · exact absurd hnil hbefore
      · cases rest <;> cases hnil
    | greeted _ hturns =>
      rcases split_request htrace with ⟨hnil, -, -⟩ | ⟨rest, -, hevents⟩
      · exact absurd hnil hbefore
      · exact hturns.shutdown_calls hevents

end Safety

/-- The safety of a session, for every history of messages and every behaviour of the
    transport, the source factory and the sources. -/
theorem serveSession_safe (env : BrokerEnv σ Source) (handleId : UInt64) (turns : Nat) (x : σ) :
    let trace := ((env.serveSession handleId turns).finalState { env := x }).trace
    GreetedFirst trace ∧ OneSource trace ∧ ServesWhatItRead env handleId trace ∧
      SilentAfterEnd handleId trace ∧ OneReplyEach trace := by
  have htrace := serveSession_trace env handleId turns x
  exact ⟨htrace.greetedFirst, htrace.oneSource, htrace.servesWhatItRead, htrace.silentAfterEnd,
    htrace.oneReplyEach⟩

/-! ## A `CloseSource` with another handle -/

/-- A request at the start of the bytes of a script is received. -/
theorem receive_cursor {env : BrokerEnv Bytes Source} (hreader : env.transport.reader = .cursor)
    {s : ServeState Bytes Source} {k : UInt64} {m : Message} {rest : Bytes}
    (hk : s.codec.nextInbound = some k) (hvalid : (Frame.mk k m).Valid)
    (hs : s.env = (Frame.mk k m).bytes ++ rest) :
    env.receive s = .ok m ({ s with
      env := rest
      codec := { s.codec with nextInbound := SessionCodec.following k } }.push (.received m)) := by
  have hframe := readFrame_cursor_eq_ok.mpr ⟨hvalid, hs⟩
  have hirrefl : ¬k < k := by
    rw [UInt64.lt_iff_toNat_lt]
    exact Nat.lt_irrefl _
  have hread : s.codec.readMessage env.transport.reader s.env =
      (.ok ⟨k, m⟩, { s.codec with nextInbound := SessionCodec.following k }, rest) := by
    simp only [SessionCodec.readMessage, hk, hreader, hframe, gt_iff_lt, if_neg hirrefl]
  simp only [BrokerEnv.receive, hread]

/-- A transport that delivers the bytes of its state and takes every frame; sources of
    4096 bytes. -/
def scriptedEnv : BrokerEnv Bytes Unit where
  transport :=
    { reader := Reader.cursor
      writer := { writeAll := fun s _ => (.ok (), s) }
      flush := fun s => (.ok (), s) }
  openSource s _ := (.ok (), s)
  geometry _ _ := ⟨4096, 512, 512, 0⟩
  revalidate s _ := (.ok (), s)
  readExactAt s _ _ length := (.ok (List.replicate length 0x41), s)
  length_readExactAt h := by
    cases h
    exact List.length_replicate ..

def scriptHello : Vector UInt8 32 := Vector.replicate 32 1

def scriptGeometry : BrokerSourceGeometry := ⟨4096, 512, 512, 0⟩

/-- The trace of a client that closes another handle than its own, then reads. -/
def scriptTrace : List (ServeEvent Unit) :=
  [.received (.hello scriptHello), .sent (.helloAck scriptHello) (.ok ()),
    .received (.openSource "disk"), .acquired "disk" (.ok ()), .measured () scriptGeometry,
    .sent (.opened 7 4096 512 512 0) (.ok ()),
    .received (.closeSource 8), .sent (.error .invalidHandle) (.ok ()),
    .received (.readAt 7 0 1), .measured () scriptGeometry, .revalidated () (.ok ()),
    .read () 0 1 (.ok [0x41]), .sent (.readData [0x41]) (.ok ())]

def scriptBytes : Bytes :=
  (Frame.mk 1 (.hello scriptHello)).bytes ++ ((Frame.mk 2 (.openSource "disk")).bytes ++
    ((Frame.mk 3 (.closeSource 8)).bytes ++ ((Frame.mk 4 (.readAt 7 0 1)).bytes ++ [])))

/-- A state of the script's session: `k` is the next sequence number in both directions. -/
def scriptState (rest : Bytes) (k : UInt64) (opened : Option (OpenSource Unit)) (n : Nat) :
    ServeState Bytes Unit :=
  ⟨rest, ⟨some k, some k⟩, opened, scriptTrace.take n⟩

theorem serveSession_script :
    ((scriptedEnv.serveSession 7 3).finalState { env := scriptBytes }).trace = scriptTrace := by
  have hgreet : scriptedEnv.greet (scriptState scriptBytes 1 none 0) = .ok () (scriptState
      ((Frame.mk 2 (.openSource "disk")).bytes ++ ((Frame.mk 3 (.closeSource 8)).bytes ++
        ((Frame.mk 4 (.readAt 7 0 1)).bytes ++ []))) 2 none 2) := by
    unfold BrokerEnv.greet
    rw [bind_of_ok (receive_cursor rfl rfl ⟨by decide, rfl⟩ rfl)]
    decide +kernel
  have hopen : scriptedEnv.serveTurn 7 (scriptState
      ((Frame.mk 2 (.openSource "disk")).bytes ++ ((Frame.mk 3 (.closeSource 8)).bytes ++
        ((Frame.mk 4 (.readAt 7 0 1)).bytes ++ []))) 2 none 2) = .ok true (scriptState
      ((Frame.mk 3 (.closeSource 8)).bytes ++ ((Frame.mk 4 (.readAt 7 0 1)).bytes ++ []))
        3 (some ⟨7, ()⟩) 6) := by
    unfold BrokerEnv.serveTurn
    rw [bind_of_ok (receive_cursor rfl rfl ⟨by decide, by decide +kernel⟩ rfl)]
    decide +kernel
  have hclose : scriptedEnv.serveTurn 7 (scriptState
      ((Frame.mk 3 (.closeSource 8)).bytes ++ ((Frame.mk 4 (.readAt 7 0 1)).bytes ++ []))
        3 (some ⟨7, ()⟩) 6) = .ok true (scriptState
      ((Frame.mk 4 (.readAt 7 0 1)).bytes ++ []) 4 (some ⟨7, ()⟩) 8) := by
    unfold BrokerEnv.serveTurn
    rw [bind_of_ok (receive_cursor rfl rfl ⟨by decide, by decide +kernel⟩ rfl)]
    decide +kernel
  have hread : scriptedEnv.serveTurn 7 (scriptState
      ((Frame.mk 4 (.readAt 7 0 1)).bytes ++ []) 4 (some ⟨7, ()⟩) 8) =
      .ok true (scriptState [] 5 (some ⟨7, ()⟩) 13) := by
    unfold BrokerEnv.serveTurn
    rw [bind_of_ok (receive_cursor rfl rfl ⟨by decide, by decide +kernel⟩ rfl)]
    decide +kernel
  have hrun : scriptedEnv.serveSession 7 3 (scriptState scriptBytes 1 none 0) =
      .ok true (scriptState [] 5 (some ⟨7, ()⟩) 13) := by
    show (scriptedEnv.greet >>= fun _ => scriptedEnv.serveLoop 7 3) _ = _
    rw [bind_of_ok hgreet, BrokerEnv.serveLoop, bind_of_ok hopen]
    rw [if_pos rfl, BrokerEnv.serveLoop, bind_of_ok hclose]
    rw [if_pos rfl, BrokerEnv.serveLoop, bind_of_ok hread]
    rfl
  unfold finalState
  rw [show ({ env := scriptBytes } : ServeState Bytes Unit) = scriptState scriptBytes 1 none 0
    from rfl, hrun]
  rfl

/-- A `CloseSource` with another handle does not end the serving of the source. -/
theorem serves_after_closeSource :
    ∃ before middle after,
      ((scriptedEnv.serveSession 7 3).finalState { env := scriptBytes }).trace =
        before ++ .received (.closeSource 8) ::
        (middle ++ .sent (.readData [0x41]) (.ok ()) :: after) ∧
      ¬Opens 7 middle := by
  refine ⟨scriptTrace.take 6, (scriptTrace.drop 7).take 5, [], ?_, ?_⟩
  · rw [serveSession_script]
    decide
  · rintro ⟨sourceId, source, size, logical, physical, disk, -, hopened⟩
    simp [scriptTrace] at hopened

end Undelete.Broker
