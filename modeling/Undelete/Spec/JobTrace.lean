import Undelete.ForStd.Trace
import Undelete.Native.Restore.Transaction
import Undelete.Spec.JournalCorrect

/-!
# The trace of a restore job

What a run of a restore job leaves in its state: `Steps` says that a program extends the trace
by events its guard allows, that the environment moves as the new events say (`replay`), and
that the journal stays in step with the trace (`JobState.Tied`). One rule for each primitive
puts these together; everything else is a sequence of primitives.
-/

namespace Undelete.Restore

open Except EStateM Trace

variable {σ Value ε α β : Type} {env : JobEnv σ Value} {s s' s'' : JobState σ Value}

/-! ## Events -/

/-- The kind of the record, for an append that the journal acknowledged. -/
def Event.acknowledgedKind : Event Value → Option String
  | .appended kind _ (.ok _) => some kind
  | _ => none

/-- An append during which the sink failed. -/
def Event.poisons : Event Value → Bool
  | .appended _ _ (.error (.journalIo _ _ _)) => true
  | _ => false

/-- The sink has not failed yet. -/
def Healthy (trace : List (Event Value)) : Prop := ∀ e ∈ trace, e.poisons = false

/-- The environment's state behind a streaming that ended with `result`. -/
def streamedEnv (failed : σ) (result : Except RestoreError (StreamOutcome × StreamState σ)) : σ :=
  match result with
  | .ok (_, stream) => stream.env
  | .error _ => failed

/-- The environment's state behind an event. -/
def JobEnv.after (env : JobEnv σ Value) (s : σ) : Event Value → σ
  | .call call _ => (env.answer call s).2
  | .streamed file content _ =>
    streamedEnv (env.streamFailed file content s) (env.streamed file content s)
  | .appended _ _ _ => (env.sinkFault s).2
  | .manifest _ => s

/-- The environment's state behind a trace. -/
def replay (env : JobEnv σ Value) (s : σ) (trace : List (Event Value)) : σ :=
  trace.foldl env.after s

theorem replay_append (s : σ) (trace trace' : List (Event Value)) :
    replay env s (trace ++ trace') = replay env (replay env s trace) trace' :=
  List.foldl_append

theorem Healthy.concat {trace trace' : List (Event Value)} {e : Event Value}
    (h : Healthy trace) (htrace : trace' = trace ++ [e]) (he : e.poisons = false) :
    Healthy trace' := by
  rw [htrace]
  intro e' he'
  rcases List.mem_append.mp he' with he' | he'
  · exact h e' he'
  · rw [List.mem_singleton.mp he']
    exact he

/-! ## Steps -/

/-- The journal is that of a run of appends whose acknowledged records are those of the trace. -/
def JobState.Logged (env : JobEnv σ Value) (digest : Digest) (s : JobState σ Value) : Prop :=
  ∃ calls, s.journal = appendRun env.json.toJson env.sha256 (JobJournal.withSink digest) calls ∧
    (acknowledged env.json.toJson env.sha256 (JobJournal.withSink digest) calls).map (·.1) =
      s.trace.filterMap Event.acknowledgedKind ∧
    ∀ call ∈ calls, ∃ payload, call.payload = env.json.payloadToValue payload

/-- The journal and the trace agree: on the records, and on whether the sink failed. The last hash
    is one of the journal's own. -/
structure JobState.Tied (env : JobEnv σ Value) (digest : Digest) (s : JobState σ Value) : Prop where
  logged : s.Logged env digest
  poisoned : s.journal.poisoned = s.trace.any Event.poisons
  head : IsHash s.journal.previousHash

theorem JobState.Tied.healthy {digest : Digest} (h : s.Tied env digest)
    (hpoisoned : s.journal.poisoned = false) :
    Healthy s.trace := by
  intro e he
  rw [h.poisoned, List.any_eq_false] at hpoisoned
  exact Bool.not_eq_true _ ▸ hpoisoned e he

/-- The run from `s` to `s'` extends the trace by events that `Ok` allows. -/
def Steps (env : JobEnv σ Value) (Ok : List (Event Value) → Event Value → Prop)
    (s s' : JobState σ Value) : Prop :=
  ∃ new, s'.trace = s.trace ++ new ∧ s'.env = replay env s.env new ∧ Guarded Ok s.trace new ∧
    ∀ digest, s.Tied env digest → s'.Tied env digest

variable {Ok Ok' : List (Event Value) → Event Value → Prop}

theorem Steps.refl (s : JobState σ Value) : Steps env Ok s s :=
  ⟨[], (List.append_nil _).symm, rfl, .nil _, fun _ => id⟩

theorem Steps.trans (h : Steps env Ok s s') (h' : Steps env Ok s' s'') : Steps env Ok s s'' := by
  obtain ⟨new, htrace, henv, hguard, htied⟩ := h
  obtain ⟨new', htrace', henv', hguard', htied'⟩ := h'
  refine ⟨new ++ new', ?_, ?_, ?_, fun digest h => htied' digest (htied digest h)⟩
  · rw [htrace', htrace, List.append_assoc]
  · rw [henv', henv, replay_append]
  · rw [htrace] at hguard'
    exact hguard.append hguard'

theorem Steps.mono (h : Steps env Ok s s')
    (himp : ∀ past e, s.trace.Sublist past → Ok past e → Ok' past e) : Steps env Ok' s s' := by
  obtain ⟨new, htrace, henv, hguard, htied⟩ := h
  refine ⟨new, htrace, henv, hguard.mono fun before e after _ => himp _ e ?_, htied⟩
  exact List.sublist_append_left s.trace before

theorem Steps.mem (h : Steps env Ok s s') {e : Event Value} (he : e ∈ s.trace) : e ∈ s'.trace := by
  obtain ⟨new, htrace, _⟩ := h
  rw [htrace]
  exact List.mem_append_left new he

theorem Steps.subset (h : Steps env Ok s s') : s.trace ⊆ s'.trace := fun _ => h.mem

theorem Steps.isPrefix (h : Steps env Ok s s') : s.trace <+: s'.trace := by
  obtain ⟨new, htrace, _⟩ := h
  exact ⟨new, htrace.symm⟩

theorem Steps.tied {digest : Digest} (h : Steps env Ok s s') (hs : s.Tied env digest) :
    s'.Tied env digest := by
  obtain ⟨_, _, _, _, htied⟩ := h
  exact htied digest hs

theorem Steps.sublist (h : Steps env Ok s s') : s.trace.Sublist s'.trace :=
  h.isPrefix.sublist

/-- What every allowed event satisfies holds of the whole trace. -/
theorem Steps.forall_mem (h : Steps env Ok s s') {P : Event Value → Prop}
    (hs : ∀ e ∈ s.trace, P e) (hOk : ∀ past e, Ok past e → P e) : ∀ e ∈ s'.trace, P e := by
  obtain ⟨new, htrace, _, hguard, _⟩ := h
  rw [htrace]
  intro e he
  rcases List.mem_append.mp he with he | he
  · exact hs e he
  · obtain ⟨before, after, rfl⟩ := List.append_of_mem he
    exact hOk _ e hguard.at

/-- A run without a fault of the sink keeps a trace healthy. -/
theorem Steps.healthy (h : Steps env Ok s s') (hs : Healthy s.trace)
    (hOk : ∀ past e, Ok past e → e.poisons = false) : Healthy s'.trace :=
  h.forall_mem hs hOk

/-- A guard that looks at the event only gives one that also knows of the trace. -/
theorem Steps.lift {Ok : Event Value → Prop} (h : Steps env (fun _ => Ok) s s')
    (hOk : ∀ e, Ok e → e.poisons = false) (hs : Healthy s.trace)
    (himp : ∀ past e, s.trace.Sublist past → Healthy past → Ok e → Ok' past e) :
    Steps env Ok' s s' := by
  obtain ⟨new, htrace, henv, hguard, htied⟩ := h
  refine ⟨new, htrace, henv, hguard.mono fun before e after hnew he => ?_, htied⟩
  apply himp _ _ (List.sublist_append_left s.trace before) _ he
  intro e' he'
  rcases List.mem_append.mp he' with he' | he'
  · exact hs e' he'
  · -- an event before this one is allowed as well
    obtain ⟨first, second, rfl⟩ := List.append_of_mem he'
    rw [List.append_assoc] at hnew
    rw [hnew] at hguard
    exact hOk e' hguard.at

/-- The step of an event that is no append. -/
theorem Steps.event {e : Event Value} (hOk : Ok s.trace e) (htrace : s'.trace = s.trace ++ [e])
    (henv : s'.env = env.after s.env e) (hjournal : s'.journal = s.journal)
    (hacknowledges : e.acknowledgedKind = none) (hpoisons : e.poisons = false) :
    Steps env Ok s s' := by
  refine ⟨[e], htrace, henv, .single hOk, fun digest hs => ⟨?_, ?_, ?_⟩⟩
  · obtain ⟨calls, hrun, hkinds, hpayloads⟩ := hs.logged
    refine ⟨calls, hjournal.trans hrun, ?_, hpayloads⟩
    rw [hkinds, htrace, List.filterMap_append, List.filterMap_cons_none hacknowledges,
      List.filterMap_nil, List.append_nil]
  · rw [hjournal, htrace, List.any_append, hs.poisoned, List.any_cons, List.any_nil, hpoisons,
      Bool.or_false, Bool.or_false]
  · rw [hjournal]
    exact hs.head

/-! ## Primitives -/

theorem mem_of_concat {trace : List (Event Value)} {e : Event Value}
    (h : s'.trace = trace ++ [e]) : e ∈ s'.trace := by
  rw [h]
  exact List.mem_concat_self

theorem sublist_concat {trace : List (Event Value)} {e : Event Value}
    {events : List (Event Value)} (hevents : events.Sublist trace)
    (h : s'.trace = trace ++ [e]) : (events ++ [e]).Sublist s'.trace := by
  rw [h]
  exact hevents.append_right [e]

theorem wp_call (Ok : List (Event Value) → Event Value → Prop) {call : Call Value}
    {Q : call.Answer → JobState σ Value → Prop}
    {E : ε → JobState σ Value → Prop} (hOk : ∀ answer, Ok s.trace (.call call answer))
    (hQ : ∀ answer s', Steps env Ok s s' → s'.trace = s.trace ++ [.call call answer] →
      Q answer s') : (env.call call : EStateM ε _ _).Wp s Q E := by
  apply hQ
  · exact Steps.event (hOk _) rfl rfl rfl rfl rfl
  · rfl

theorem wp_orIo {operation : String} {answer : Except IoError α} {Q : α → JobState σ Value → Prop}
    {E : JobError → JobState σ Value → Prop} (hQ : ∀ a, answer = .ok a → Q a s)
    (hE : ∀ e, answer = .error e → E (destinationIo operation e) s) :
    (orIo operation answer : JobM σ Value α).Wp s Q E := by
  rw [orIo, wp_ofExcept]
  constructor
  · intro a ha
    exact hQ a (mapError_eq_ok.mp ha)
  · intro e he
    obtain ⟨e', he', rfl⟩ := mapError_eq_error.mp he
    exact hE e' he'

/-- A call whose error ends the function. -/
theorem wp_io (Ok : List (Event Value) → Event Value → Prop) {call : Call Value}
    {operation : String} {result : call.Answer → Except IoError α} {f : α → JobM σ Value β}
    {Q : β → JobState σ Value → Prop} {E : JobError → JobState σ Value → Prop}
    (hOk : ∀ answer, Ok s.trace (.call call answer))
    (hQ : ∀ answer a s', result answer = .ok a → Steps env Ok s s' →
      s'.trace = s.trace ++ [.call call answer] → (f a).Wp s' Q E)
    (hE : ∀ error s', Steps env Ok s s' → E error s') :
    (env.call call >>= fun answer => orIo operation (result answer) >>= f).Wp s Q E := by
  rw [wp_bind]
  apply wp_call Ok hOk
  intro answer s' hsteps htrace
  rw [wp_bind]
  apply wp_orIo
  · intro a ha
    exact hQ answer a s' ha hsteps htrace
  · intro e _
    exact hE _ s' hsteps

/-! ## Appends -/

/-- The errors of a sink that failed. -/
def JobError.isSinkFault : JobError → Bool
  | .journalIo _ _ _ => true
  | _ => false

theorem poisons_error (kind : String) (payload : JournalPayload) (error : JobError) :
    (Event.appended kind payload (.error error) : Event Value).poisons = error.isSinkFault := by
  cases error <;> rfl

/-- An append that is refused before it reaches the sink says why, and does not panic. -/
theorem prepareRecord_error {json : Json Value} {sha256 : Bytes → Digest} {journal : JobJournal}
    {kind : String} {payload : Except String Value} {e : Fault}
    (hhead : IsHash journal.previousHash)
    (h : prepareRecord json sha256 journal kind payload = .error e) :
    ∃ error, e = .error error ∧ error.isSinkFault = false := by
  obtain ⟨digest, hdigest⟩ := hhead
  have hhash : ∀ bytes e, recordHash sha256 journal.jobIdSha256 journal.nextSequence
      journal.previousHash kind bytes = .error e →
        ∃ error, e = .error error ∧ error.isSinkFault = false := by
    intro bytes e he
    rw [hdigest] at he
    simp only [recordHash, decodeHash_hexLower, bind_ok, throw_bind, ite_throw_eq_error,
      pure_eq_error, and_false, or_false] at he
    rcases he with ⟨_, rfl⟩ | ⟨_, _, rfl⟩
    · exact ⟨_, rfl, rfl⟩
    · exact ⟨_, rfl, rfl⟩
  simp only [prepareRecord, serialization, bind_eq_error, throw_bind, ite_throw_eq_error,
    mapError_eq_error, pure_eq_error, and_false, or_false] at h
  rcases h with ⟨_, rfl⟩ |
    ⟨_, ⟨_, rfl⟩ | ⟨_, ⟨_, _, rfl⟩ | ⟨_, _, ⟨_, _, rfl⟩ | ⟨_, _, ⟨_, rfl⟩ | ⟨_,
    he | ⟨_, _, ⟨_, _, rfl⟩ | ⟨_, _, _, rfl⟩⟩⟩⟩⟩⟩⟩
  · exact ⟨_, rfl, rfl⟩
  · exact ⟨_, rfl, rfl⟩
  · exact ⟨_, rfl, rfl⟩
  · exact ⟨_, rfl, rfl⟩
  · exact ⟨_, rfl, rfl⟩
  · exact hhash _ _ he
  · exact ⟨_, rfl, rfl⟩
  · exact ⟨_, rfl, rfl⟩

/-- The call an append of the job makes to its journal. -/
def JobEnv.appendCall (env : JobEnv σ Value) (s : JobState σ Value) (kind : String)
    (payload : JournalPayload) : AppendCall Value where
  kind
  payload := env.json.payloadToValue payload
  fault := (env.sinkFault s.env).1

/-- What an append prepares for the sink. -/
def JobEnv.prepared (env : JobEnv σ Value) (s : JobState σ Value) (kind : String)
    (payload : JournalPayload) : Except Fault (Bytes × String) :=
  (env.appendCall s kind payload).prepared env.json.toJson env.sha256 s.journal

/-- The state behind an append. -/
def JobState.appended (env : JobEnv σ Value) (s : JobState σ Value) (kind : String)
    (payload : JournalPayload) (journal : JobJournal) (result : Except JobError Unit) :
    JobState σ Value where
  env := (env.sinkFault s.env).2
  journal
  trace := s.trace ++ [.appended kind payload result]

theorem append_refused {kind : String} {payload : JournalPayload} {e : Fault}
    (h : env.prepared s kind payload = .error e) :
    env.append kind payload s =
      .error e.jobError (s.appended env kind payload s.journal (.error e.jobError)) := by
  have hcall := call_refused h
  unfold JobJournal.call at hcall
  unfold JobEnv.append
  rw [JobEnv.appendCall] at hcall
  dsimp only at hcall ⊢
  rw [hcall]
  rfl

theorem append_accepted {kind : String} {payload : JournalPayload} {bytes : Bytes} {hash : String}
    (h : env.prepared s kind payload = .ok (bytes, hash))
    (hfault : (env.sinkFault s.env).1 = none) :
    env.append kind payload s =
      .ok () (s.appended env kind payload (s.journal.accept bytes hash) (.ok ())) := by
  have hcall := call_accepted h hfault
  unfold JobJournal.call at hcall
  unfold JobEnv.append
  rw [JobEnv.appendCall] at hcall
  dsimp only at hcall ⊢
  rw [hcall]
  rfl

theorem append_failed {kind : String} {payload : JournalPayload} {bytes : Bytes} {hash : String}
    {fault : SinkFault} (h : env.prepared s kind payload = .ok (bytes, hash))
    (hfault : (env.sinkFault s.env).1 = some fault) :
    ∃ error written, error.isSinkFault = true ∧
      (s.journal.call env.json.toJson env.sha256 (env.appendCall s kind payload)).2 =
        s.journal.poison written ∧
      env.append kind payload s =
        .error error (s.appended env kind payload (s.journal.poison written) (.error error)) := by
  obtain ⟨operation, error, written, _, hcall⟩ := call_failed h hfault
  refine ⟨.journalIo operation error.kind error.message, written, rfl, congrArg Prod.snd hcall, ?_⟩
  unfold JobJournal.call at hcall
  unfold JobEnv.append
  rw [JobEnv.appendCall] at hcall
  dsimp only at hcall ⊢
  rw [hcall]
  rfl

theorem acknowledged_append (json : Json Value) (sha256 : Bytes → Digest) (journal : JobJournal)
    (calls calls' : List (AppendCall Value)) : acknowledged json sha256 journal (calls ++ calls') =
      acknowledged json sha256 journal calls ++
        acknowledged json sha256 (appendRun json sha256 journal calls) calls' := by
  induction calls generalizing journal with
  | nil => rfl
  | cons call calls ih =>
    rw [List.cons_append, appendRun_cons]
    cases hprepared : call.prepared json sha256 journal with
    | error e =>
      rw [acknowledged_refused hprepared, acknowledged_refused hprepared,
        call_refused hprepared, ih]
    | ok prepared =>
      obtain ⟨bytes, hash⟩ := prepared
      cases hfault : call.fault with
      | none =>
        rw [acknowledged_accepted hprepared hfault, acknowledged_accepted hprepared hfault,
          call_accepted hprepared hfault, ih, List.cons_append]
      | some fault =>
        obtain ⟨operation, error, written, _, hcall⟩ := call_failed hprepared hfault
        have hpoisoned := @run_poisoned Value json sha256 (journal.poison written) rfl
        rw [acknowledged_failed hprepared hfault, acknowledged_failed hprepared hfault, hcall,
          (hpoisoned calls).1, (hpoisoned calls').2, List.append_nil]

/-- The log of a run is continued by an append. -/
theorem logged_appended {digest : Digest} {kind : String} {payload : JournalPayload}
    {result : Except JobError Unit} (hs : s.Logged env digest)
    (hkinds : (acknowledged env.json.toJson env.sha256 s.journal
        [env.appendCall s kind payload]).map (·.1) =
      [Event.appended kind payload result].filterMap (@Event.acknowledgedKind Value)) :
    (s.appended env kind payload (s.journal.call env.json.toJson env.sha256
      (env.appendCall s kind payload)).2 result).Logged env digest := by
  obtain ⟨calls, hrun, hkinds', hpayloads⟩ := hs
  refine ⟨calls ++ [env.appendCall s kind payload], ?_, ?_, ?_⟩
  · rw [appendRun_append, ← hrun]
    rfl
  · rw [acknowledged_append, ← hrun, List.map_append, hkinds', hkinds, JobState.appended,
      List.filterMap_append]
  · intro call hcall
    rcases List.mem_append.mp hcall with hcall | hcall
    · exact hpayloads call hcall
    · rw [List.mem_singleton.mp hcall]
      exact ⟨payload, rfl⟩

theorem tied_appended {digest : Digest} {kind : String} {payload : JournalPayload}
    {journal : JobJournal} {result : Except JobError Unit} (hs : s.Tied env digest)
    (hjournal : (s.journal.call env.json.toJson env.sha256 (env.appendCall s kind payload)).2 =
      journal)
    (hkinds : (acknowledged env.json.toJson env.sha256 s.journal
        [env.appendCall s kind payload]).map (·.1) =
      [Event.appended kind payload result].filterMap (@Event.acknowledgedKind Value))
    (hpoisoned : journal.poisoned =
      (s.journal.poisoned || (Event.appended kind payload result : Event Value).poisons))
    (hhead : IsHash journal.previousHash) :
    (s.appended env kind payload journal result).Tied env digest where
  logged := hjournal ▸ logged_appended hs.logged hkinds
  poisoned := by
    rw [JobState.appended, hpoisoned, hs.poisoned, List.any_append, List.any_cons, List.any_nil,
      Bool.or_false]
  head := hhead

theorem steps_appended {kind : String} {payload : JournalPayload} {journal : JobJournal}
    {result : Except JobError Unit} (hOk : Ok s.trace (.appended kind payload result))
    (htied : ∀ digest, s.Tied env digest →
      (s.appended env kind payload journal result).Tied env digest) :
    Steps env Ok s (s.appended env kind payload journal result) :=
  ⟨[.appended kind payload result], rfl, rfl, .single hOk, htied⟩

/-- An append is acknowledged by a journal that is not poisoned, or it fails. -/
theorem wp_append (Ok : List (Event Value) → Event Value → Prop) {digest : Digest}
    {kind : String} {payload : JournalPayload} {Q : Unit → JobState σ Value → Prop}
    {E : JobError → JobState σ Value → Prop} (hs : s.Tied env digest)
    (hOk : ∀ result, Ok s.trace (.appended kind payload result))
    (hQ : ∀ s', Steps env Ok s s' → s'.trace = s.trace ++ [.appended kind payload (.ok ())] →
      Healthy s'.trace → Q () s')
    (hE : ∀ error s', Steps env Ok s s' →
      s'.trace = s.trace ++ [.appended kind payload (.error error)] → E error s') :
    (env.append kind payload).Wp s Q E := by
  cases hprepared : env.prepared s kind payload with
  | error e =>
    obtain ⟨error, rfl, herror⟩ := prepareRecord_error hs.head hprepared
    apply wp_of_error (append_refused hprepared)
    refine hE _ _ (steps_appended (hOk _) fun digest hs => ?_) rfl
    apply tied_appended hs (congrArg Prod.snd (call_refused hprepared))
    · rw [acknowledged_refused hprepared]
      rfl
    · rw [poisons_error, Fault.jobError, herror, Bool.or_false]
    · exact hs.head
  | ok prepared =>
    obtain ⟨bytes, hash⟩ := prepared
    obtain ⟨hpoisoned, _, value, payloadBytes, line, _, _, _, hhash, _⟩ :=
      prepareRecord_eq_ok.mp hprepared
    obtain ⟨_, _, _, _, hhash⟩ := recordHash_eq_ok.mp hhash
    cases hfault : (env.sinkFault s.env).1 with
    | none =>
      have htied : ∀ digest, s.Tied env digest →
          (s.appended env kind payload (s.journal.accept bytes hash) (.ok ())).Tied env digest := by
        intro digest hs
        apply tied_appended hs (congrArg Prod.snd (call_accepted hprepared hfault))
        · rw [acknowledged_accepted hprepared hfault]
          rfl
        · exact (Bool.or_false _).symm
        · exact ⟨_, hhash.symm⟩
      apply wp_of_ok (append_accepted hprepared hfault)
      apply hQ _ (steps_appended (hOk _) htied)
      · rfl
      · exact (htied digest hs).healthy hpoisoned
    | some fault =>
      obtain ⟨error, written, herror, hjournal, happend⟩ := append_failed hprepared hfault
      apply wp_of_error happend
      refine hE _ _ (steps_appended (hOk _) fun digest hs => ?_) rfl
      apply tied_appended hs hjournal
      · rw [acknowledged_failed hprepared hfault]
        rfl
      · rw [poisons_error, herror, Bool.or_true]
        rfl
      · exact hs.head

/-! ## Streams -/

/-- A run of `stream_candidate` into the file, from some state, ended with `result`. -/
def JobEnv.Streams (env : JobEnv σ Value) (file : File) (content : ContentPlan)
    (result : Except RestoreError (StreamOutcome × Bytes)) : Prop :=
  ∃ s, (env.streamed file content s).map (fun out => (out.1, out.2.output)) = result

theorem wp_stream (Ok : List (Event Value) → Event Value → Prop) {file : File}
    {content : ContentPlan} {Q : StreamOutcome → JobState σ Value → Prop}
    {E : JobError → JobState σ Value → Prop}
    (hOk : ∀ result, env.Streams file content result → Ok s.trace (.streamed file content result))
    (hQ : ∀ outcome output s', Steps env Ok s s' →
      s'.trace = s.trace ++ [.streamed file content (.ok (outcome, output))] → Q outcome s')
    (hE : ∀ error s', Steps env Ok s s' → E (.content error) s') :
    (env.streamCandidate file content).Wp s Q E := by
  have hrun : env.streamCandidate file content s =
      env.finishStream file content s (env.streamed file content s.env) := rfl
  have hafter : ∀ result, env.after s.env (.streamed file content result) =
      streamedEnv (env.streamFailed file content s.env) (env.streamed file content s.env) :=
    fun _ => rfl
  have hstreams : env.Streams file content
      ((env.streamed file content s.env).map fun out => (out.1, out.2.output)) := ⟨s.env, rfl⟩
  rw [Wp, hrun]
  generalize env.streamed file content s.env = streamed at hafter hstreams
  cases streamed with
  | ok result =>
    obtain ⟨outcome, stream⟩ := result
    apply hQ outcome stream.output
    · exact Steps.event (hOk _ hstreams) rfl (hafter _).symm rfl rfl rfl
    · rfl
  | error error =>
    apply hE error
    exact Steps.event (hOk _ hstreams) rfl (hafter _).symm rfl rfl rfl

end Undelete.Restore
