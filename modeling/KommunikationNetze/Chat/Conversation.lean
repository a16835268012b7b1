import KommunikationNetze.Chat.ChannelRefinement
import KommunikationNetze.Chat.BufferArithmetic

/-! The conversation on the sockets. What a client sends is its lines in the channel, and what is
sent to it are the lines that the channel has for it, as long as every `send` takes all bytes,
nothing that is read holds a zero byte and no length of a buffer wraps. -/
namespace KommunikationNetze.Chat
open CLib Utils Transition

/-- The lines this client says. -/
def saidLines (c : ClientRef) (deeds : List Deed) : List CString :=
  deeds.filterMap fun
    | .speaks d line => if d = c then some line else none
    | _ => none

/-- The lines that were written to this client. -/
def linesTo (c : ClientRef) (lines : List (ClientRef × CString)) : List CString :=
  lines.filterMap fun line => if line.1 = c then some line.2 else none

theorem lineBytes_linesTo (c : ClientRef) (calls : List Call) :
    lineBytes (linesTo c (writtenLines calls)) = writtenBytes c calls := by
  induction calls using List.reverseRecOn with
  | nil => rfl
  | append_singleton calls call ih =>
    rw [writtenLines_append, linesTo, List.filterMap_append, lineBytes, List.flatMap_append,
      writtenBytes_append, ← ih]
    refine congrArg _ ?_
    cases call with
    | writeLine d line channel => by_cases same : d = c <;> simp [same]
    | _ => rfl

section Sends
variable [CMemory] {calls : List Call} {world : World}

/-- This `send` takes all bytes that are in use. -/
def WholeSend (before : List Call) : Call → Prop
  | .send c bytes => bytes = (outBufferAfter c before).content
  | _ => True

instance (before : List Call) : (call : Call) → Decidable (WriteFits before call)
  | .writeLine _ _ _ => inferInstanceAs (Decidable (_ → _))
  | .recv _ _ | .send _ _ | .handleLine _ _ | .sendChannelMessage _ _ => isTrue trivial

/-- With whole sends the bytes in use are the ones that are not sent yet. -/
theorem stream_of_calls (fits : EveryStep WriteFits calls) (whole : EveryStep WholeSend calls)
    (c : ClientRef) : sentBytes c calls ++ (outBufferAfter c calls).content = writtenBytes c calls := by
  induction calls using List.reverseRecOn with
  | nil => rfl
  | append_singleton calls call ih =>
    obtain ⟨fits, room⟩ := (everyStep_concat calls call).mp fits
    obtain ⟨whole, all⟩ := (everyStep_concat calls call).mp whole
    have stream := ih fits whole
    have bounded := bounded_outBufferAfter fits c
    rw [outBufferAfter_snoc]
    cases call with
    | writeLine d line channel =>
      by_cases same : d = c
      · subst same
        obtain ⟨_, _, content⟩ := appendLine_spec bounded room
        simp [Call.output, content, ← stream]
      · simp [Call.output, same, stream]
    | send d bytes =>
      by_cases same : d = c
      · subst same
        have length : (outBufferAfter d calls).filled = bytes.length := by
          rw [all, bounded.length_content]
        simp only [Call.output, if_true, consume, length, sentBytes_append, sentBytes_send,
          writtenBytes_append, writtenBytes_send, List.append_nil, ← stream, ← show bytes = _ from all]
        exact List.append_nil _
      · simp [Call.output, same, stream]
    | _ =>
      rw [sentBytes_append, writtenBytes_append, ← stream, List.append_assoc]
      exact (List.append_nil _).symm

/-- A callback that sends is that of a writable socket, and sends once. -/
theorem handleEvent_sends (world : World) (event : Event) :
    (∃ added, (handleEvent world event).calls = world.calls ++ added ∧
      ∀ call ∈ added, ∀ d bytes, call ≠ .send d bytes) ∨
    ∃ client accepted, event = .writable client (accepted : Nat) ∧ 0 < accepted ∧
      (handleEvent world event).calls =
        world.calls ++ [.send client ((world.client client).outBuffer.content.take accepted)] := by
  have of_tracks : ∀ {before after : World}, Tracks before after → ∃ added,
      after.calls = before.calls ++ added ∧ ∀ call ∈ added, ∀ d bytes, call ≠ .send d bytes :=
    fun ⟨added, calls, unsent, _⟩ => ⟨added, calls, unsent⟩
  cases event with
  | accepted socket =>
    have created := of_tracks (clientCreate_tracks world socket)
    exact .inl created
  | hungUp client => exact .inl (of_tracks (clientDisconnect_tracks world client))
  | readable client result => exact .inl (of_tracks (clientDoRead_tracks world client result))
  | writable client len =>
    rcases writable_cases world client len with disconnected | ⟨accepted, rfl, positive⟩
    · rw [disconnected]
      exact .inl (of_tracks (clientDisconnect_tracks world client))
    · exact .inr ⟨client, accepted, rfl, positive, clientDoWrite_calls world client positive⟩

theorem everyStep_unsent {added : List Call} (whole : EveryStep WholeSend calls)
    (unsent : ∀ call ∈ added, ∀ d bytes, call ≠ .send d bytes) :
    EveryStep WholeSend (calls ++ added) := by
  induction added using List.reverseRecOn with
  | nil => rwa [List.append_nil]
  | append_singleton added call ih =>
    rw [List.forall_mem_append] at unsent
    rw [← List.append_assoc, everyStep_concat]
    refine ⟨ih unsent.1, ?_⟩
    cases call with
    | send d bytes => exact absurd rfl (unsent.2 _ List.mem_cons_self d bytes)
    | _ => trivial

/-- What a callback of a conversation meets: /list finds nicknames that fit a line, what is read
holds no zero byte and its buffer can be doubled, and a `send` that does not fail takes all it is
offered. -/
structure Spoken (world : World) (event : Event) : Prop where
  short : ∀ client line, world.deed event = some (.speaks client line) → request line = .list →
    ShortNicknames world
  plain : ∀ c result, event.read c = some result →
    (world.client c).inBuffer.length < 2 ^ 31 ∧ 0 ∉ result.getD []
  whole : ∀ c len, event = .writable c len → len ≤ 0 ∨ len = (world.client c).outBuffer.filled

def SpokenStep (world : World) (event : Event) (after : World) : Prop :=
  ServerStep world event after ∧ Spoken world event

theorem SpokenStep.listed (step : SpokenStep world event after) : ListStep world event after :=
  ⟨step.1, step.2.short⟩

theorem whole_run (run : Run SpokenStep serverCreate events world)
    (fits : EveryStep WriteFits world.calls) : EveryStep WholeSend world.calls := by
  induction run with
  | start => exact everyStep_nil
  | @snoc events world event after run step ih =>
    obtain ⟨⟨admissible, rfl⟩, _, _, whole⟩ := step
    have earlier : EveryStep WriteFits world.calls := fun before call early =>
      fits before call (early.trans (calls_kept world event))
    have before := ih earlier
    rcases handleEvent_sends world event with ⟨added, calls, unsent⟩ |
      ⟨client, accepted, rfl, positive, calls⟩
    · rw [calls]
      exact everyStep_unsent before unsent
    · rw [calls, everyStep_concat]
      refine ⟨before, ?_⟩
      obtain ⟨_, recorded⟩ := outBuffer_run (run.imp And.left) earlier
      have bounded := bounded_outBufferAfter earlier client
      have all : accepted = (world.client client).outBuffer.filled := by
        have := whole client accepted rfl
        omega
      rw [WholeSend, recorded client]
      refine List.take_of_length_le ?_
      rw [bounded.length_content, all, recorded client]

end Sends

section Sockets
variable [CMemory] {world : World} {events : List Event}

/-- The lines that are handled for a client are the ones it says. -/
theorem said_run (run : ServerRun events world) (c : ClientRef) :
    saidLines c (serverCreate.deeds events) = handledLines c world.calls := by
  induction run with
  | start => rfl
  | @snoc events world event after run step ih =>
    obtain ⟨admissible, rfl⟩ := step
    have reached : world = events.foldl handleEvent serverCreate := serverAfter_run run
    have handled : handledLines c (handleEvent world event).calls =
        ((handleEvent world event).input c).handled := rfl
    have before : handledLines c world.calls = (world.input c).handled := rfl
    rw [World.deeds_concat, ← reached, saidLines, List.filterMap_append, handled, step_input run,
      ← saidLines, ← saidLines, ih, before]
    cases event with
    | accepted socket => exact List.append_nil _
    | hungUp client => exact List.append_nil _
    | writable client len =>
      simp only [World.deed, Event.read]
      split <;> exact List.append_nil _
    | readable client result =>
      by_cases same : client = c
      · subst same
        have read : Event.read client (.readable client result) = some result := if_pos rfl
        have own : ∀ line : Option CString,
            saidLines client (line.map (.speaks client)).toList = line.toList := by
          intro line
          cases line <;> simp [saidLines]
        rw [read]
        obtain _ | _ | ⟨b, bytes⟩ := result
        · exact List.append_nil _
        · exact List.append_nil _
        · exact congrArg _ (own _)
      · have read : Event.read c (.readable client result) = none := if_neg same
        have other : ∀ line : Option CString, saidLines c (line.map (.speaks client)).toList = [] := by
          intro line
          cases line <;> simp [saidLines, same]
        rw [read]
        refine (congrArg _ ?_).trans (List.append_nil _)
        obtain _ | _ | ⟨b, bytes⟩ := result
        · rfl
        · rfl
        · exact other _

/-- What was read from a client: the lines it says, and what is not handled yet. -/
theorem said_stream (run : Run SpokenStep serverCreate events world) (c : ClientRef) :
    (reads c events).flatMap (·.getD []) =
      lineBytes (saidLines c (serverCreate.deeds events)) ++ (world.client c).inBuffer.content := by
  have server := run.imp And.left
  have plain := run.imp fun step => (⟨step.1, step.2.plain c⟩ : PlainStep c _ _ _)
  obtain ⟨_, bytes, ⟨holds, balance⟩, _⟩ := unhandled_run plain
  have buffer : Holds (world.client c).inBuffer bytes := holds
  rw [said_run server, ← received_run server, buffer.content_eq]
  exact balance

/-- What was sent to a client, and what is still to be sent: the lines written to it. -/
theorem heard_stream (run : Run SpokenStep serverCreate events world)
    (fits : EveryStep WriteFits world.calls) (c : ClientRef) :
    sentBytes c world.calls ++ (world.client c).outBuffer.content =
      lineBytes (linesTo c (writtenLines world.calls)) := by
  obtain ⟨_, recorded⟩ := outBuffer_run (run.imp And.left) fits
  rw [lineBytes_linesTo, recorded c]
  exact stream_of_calls fits (whole_run run fits) c

end Sockets

/-- The first client has said something. -/
def greeted : World := @clientDoRead .zeroed oneClient 0 (some [104, 105, 10])

/-- It gets all that was written to it. -/
def spoken : World := @clientDoWrite .zeroed greeted 0 31

theorem spoken_accepted : @SpokenStep .zeroed serverCreate (.accepted 5) oneClient := by
  let _ := CMemory.zeroed
  have room : serverCreate.connectedClients.length < 2 ^ 32 - 2 := by decide
  exact ⟨⟨room, rfl⟩, (fun _ _ said => by cases said), (fun _ _ read => by cases read),
    fun _ _ same => by cases same⟩

theorem spoken_readable : @SpokenStep .zeroed oneClient (.readable 0 (some [104, 105, 10])) greeted := by
  let _ := CMemory.zeroed
  have empty : (oneClient.client 0).inBuffer = .empty := congrArg Input.buffer oneClient_spec.2.2
  refine ⟨⟨⟨oneClient_connected.mpr rfl, ?_⟩, rfl⟩, fun _ _ _ _ => oneClient_shortNicknames, ?_,
    fun _ _ same => by cases same⟩
  · rw [empty]
    decide
  · intro c result read
    simp only [Event.read] at read
    split at read
    · subst c
      cases read
      rw [empty]
      decide
    · cases read

theorem spoken_writable : @SpokenStep .zeroed greeted (.writable 0 31) spoken := by
  let _ := CMemory.zeroed
  refine ⟨⟨⟨by decide +kernel, by decide +kernel⟩, rfl⟩, (fun _ _ said => by cases said),
    (fun _ _ read => by cases read), ?_⟩
  intro c len same
  cases same
  exact .inr (by decide +kernel)

theorem spoken_fits : EveryStep (@WriteFits .zeroed) spoken.calls :=
  everyStep_iff.mpr (by decide +kernel)

end KommunikationNetze.Chat
