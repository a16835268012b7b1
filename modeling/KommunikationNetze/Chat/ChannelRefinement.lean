import KommunikationNetze.Chat.ChannelAnswers
import KommunikationNetze.Library.Simulation

/-! The server is the channel. Every callback of the poll thread is a deed of a client or none,
and what the handlers write, and to whom, is an answer of the channel. -/
namespace KommunikationNetze.Chat
open CLib Utils Transition

variable {world after : World}

theorem SameRegistration.shortNicknames (same : SameRegistration world after)
    (short : ShortNicknames world) : ShortNicknames after := by
  intro c nickname connected set
  exact short c nickname ((same.connected c).mp connected) ((same.nickname c).symm.trans set)

variable [CMemory]

/-- What this callback does to the channel. A line is handled when it is whole. -/
def World.deed (world : World) : Event → Option Deed
  | .accepted _ => some (.enters world.allocated)
  | .hungUp client => some (.leaves client)
  | .readable client result =>
    match result with
    | none | some [] => some (.leaves client)
    | some (b :: bytes) =>
      (takeLine (receive (makeRoom (world.client client).inBuffer) (b :: bytes))).1.map (.speaks client)
  | .writable client len => if len ≤ 0 then some (.leaves client) else none

def World.deeds (world : World) : List Event → List Deed
  | [] => []
  | event :: events => (world.deed event).toList ++ (handleEvent world event).deeds events

theorem World.deeds_concat (world : World) (events : List Event) (event : Event) :
    world.deeds (events ++ [event]) =
      world.deeds events ++ ((events.foldl handleEvent world).deed event).toList := by
  induction events generalizing world with
  | nil => exact (List.append_nil _)
  | cons first events ih =>
    rw [List.cons_append, deeds, deeds, ih, List.append_assoc]
    rfl

/-- Where /list is handled the nicknames have room on a line. -/
def ListStep (world : World) (event : Event) (after : World) : Prop :=
  ServerStep world event after ∧
    ∀ client line, world.deed event = some (.speaks client line) → request line = .list →
      ShortNicknames world

/-- What a callback does: a deed with its answer, or nothing that the channel sees. -/
def Enacts (world : World) (deed : Option Deed) (after : World) : Prop :=
  ∃ lines, writtenLines after.calls = writtenLines world.calls ++ lines ∧
    match deed with
    | some deed => ChannelStep world.channel (deed, lines) after.channel
    | none => lines = [] ∧ after.channel = world.channel

omit [CMemory] in
/-- What only the buffers, the poll and the record see, the channel does not. -/
theorem Enacts.quiet (same : SameRegistration world after)
    (written : writtenLines after.calls = writtenLines world.calls) : Enacts world none after :=
  ⟨[], written.trans (List.append_nil _).symm, rfl, same.channel⟩

omit [CMemory] in
theorem Enacts.after_quiet {between last : World} {deed : Option Deed} (first : SameRegistration world between)
    (written : writtenLines between.calls = writtenLines world.calls) (enacts : Enacts between deed after)
    (second : SameRegistration after last) (calls : last.calls = after.calls) : Enacts world deed last := by
  rwa [Enacts, written, first.channel, ← second.channel, ← calls] at enacts

theorem clientReceived_enacts (registry : Registry world.Connected world)
    (connected : world.Connected client) (bytes : List UInt8)
    (short : ∀ line, (takeLine (receive (world.client client).inBuffer bytes)).1 = some line →
      request line = .list → ShortNicknames world) :
    Enacts world ((takeLine (receive (world.client client).inBuffer bytes)).1.map (.speaks client))
      (clientReceived world client bytes) := by
  have received := SameRegistration.record world (.recv client bytes)
  have silent : writtenLines (world.record (.recv client bytes)).calls = writtenLines world.calls :=
    writtenLines_record world rfl
  cases found : strchr (receive (world.client client).inBuffer bytes).memory 10 with
  | none =>
    have inBuffer : ((world.record (.recv client bytes)).client client).inBuffer =
        (world.client client).inBuffer := rfl
    simp only [takeLine, clientReceived, inBuffer, found]
    exact .quiet (received.trans (.setInBuffer _ _ _)) silent
  | some n =>
    have terminated := received.trans (.setInBuffer _ client
      { receive (world.client client).inBuffer bytes with
        memory := memcpy (receive (world.client client).inBuffer bytes).memory n [0] })
    rw [clientReceived_line rfl found]
    simp only [takeLine, found] at short ⊢
    refine .after_quiet terminated silent ?_ (.setInBuffer _ _ _) rfl
    have registry := terminated.registry registry
    have connected := (terminated.connected client).mpr connected
    obtain ⟨own, set, _⟩ := registry.held client connected
    obtain ⟨lines, written, answer⟩ := clientHandleLine_answered registry connected set
      (stringAt (memcpy (receive (world.client client).inBuffer bytes).memory n [0])) fun asked =>
        terminated.shortNicknames (short _ rfl asked)
    exact ⟨lines, written, .speaks ((World.channel_of_connected connected).trans set) answer⟩

theorem handleEvent_enacts (registry : Registry world.Connected world)
    (step : ListStep world event after) : Enacts world (world.deed event) after := by
  obtain ⟨⟨admissible, rfl⟩, short⟩ := step
  cases event with
  | accepted socket => exact clientCreate_entersChannel registry admissible socket
  | hungUp client => exact clientDisconnect_leavesChannel registry admissible
  | readable client result =>
    have grown := SameRegistration.setInBuffer world client (makeRoom (world.client client).inBuffer)
    have registry := grown.registry registry
    have still := (grown.connected client).mpr admissible.1
    refine .after_quiet grown rfl ?_ (.refl _) rfl
    match result with
    | none => exact clientDisconnect_leavesChannel registry still
    | some [] => exact clientDisconnect_leavesChannel registry still
    | some (b :: bytes) =>
      have own : ((setInBuffer world client (makeRoom (world.client client).inBuffer)).client client).inBuffer =
          makeRoom (world.client client).inBuffer := congrArg Client.inBuffer (World.setClient_self ..)
      have received := clientReceived_enacts registry still (b :: bytes)
      rw [own] at received
      refine received fun line whole asked => grown.shortNicknames (short client line ?_ asked)
      simp only [World.deed, whole, Option.map_some]
  | writable client len =>
    simp only [World.deed, handleEvent, clientDoWrite]
    split
    · exact clientDisconnect_leavesChannel registry admissible.1
    · have sent := SameRegistration.sent world client ((world.client client).outBuffer.content.take len.toNat)
        (consume (world.client client).outBuffer len.toNat)
      split
      · exact .quiet (sent.trans (.setPoll _ _)) (writtenLines_record world rfl)
      · exact .quiet sent (writtenLines_record world rfl)

/-- The run of the channel that stands for a run of the server. -/
structure Follows (events : List Event) (world : World)
    (happened : List (Deed × List (ClientRef × CString))) (channel : Channel) : Prop where
  reached : world = events.foldl handleEvent serverCreate
  registry : Registry world.Connected world
  stands : channel = world.channel
  deeds : happened.map Prod.fst = serverCreate.deeds events
  lines : happened.flatMap Prod.snd = writtenLines world.calls

theorem Follows.start : Follows [] serverCreate [] .empty where
  reached := rfl
  registry := .initial
  stands := by
    have gone : ∀ c, ¬serverCreate.Connected c := fun c connected => Nat.not_lt_zero c connected.1
    simp only [World.channel, gone, if_false]
    rfl
  deeds := rfl
  lines := rfl

theorem Follows.matched : Matched ListStep ChannelStep serverCreate .empty Follows := by
  intro events world happened channel event after _ _ follows step
  obtain ⟨reached, registry, rfl, deeds, lines⟩ := follows
  have enacts := handleEvent_enacts registry step
  obtain ⟨⟨admissible, rfl⟩, _⟩ := step
  have registryAfter := handleEvent_registry registry admissible
  have reachedAfter : handleEvent world event = (events ++ [event]).foldl handleEvent serverCreate := by
    rw [List.foldl_concat, ← reached]
  have deedsAfter := serverCreate.deeds_concat events event
  rw [← reached] at deedsAfter
  obtain ⟨new, written, enacted⟩ := enacts
  generalize world.deed event = deed at enacted deedsAfter
  cases deed with
  | none =>
    obtain ⟨rfl, same⟩ := enacted
    refine ⟨[], world.channel, .start, reachedAfter, registryAfter, same.symm, ?_, ?_⟩
    · rw [List.append_nil, deedsAfter, deeds]
      exact (List.append_nil _).symm
    · rw [List.append_nil, written, List.append_nil, lines]
  | some deed =>
    refine ⟨[(deed, new)], (handleEvent world event).channel, .single enacted, reachedAfter,
      registryAfter, rfl, ?_, ?_⟩
    · rw [List.map_append, deedsAfter, deeds]
      rfl
    · rw [List.flatMap_append, List.flatMap_singleton, written, lines]

/-- The server refines the channel: in every run the deeds are those of the callbacks, and the
lines that were written are the answers of the channel to them, in this order. -/
theorem server_refines_channel (run : Run ListStep serverCreate events world) :
    ∃ happened, Run ChannelStep .empty happened world.channel ∧
      happened.map Prod.fst = serverCreate.deeds events ∧
      happened.flatMap Prod.snd = writtenLines world.calls := by
  obtain ⟨happened, channel, others, follows⟩ := run.simulated Follows.start Follows.matched
  exact ⟨happened, follows.stands ▸ others, follows.deeds, follows.lines⟩

omit [CMemory] in
/-- The first client asks who is there. -/
theorem server_refines_channel_listed : ∃ happened channel,
    Run ChannelStep .empty happened channel ∧
      happened.map Prod.fst = [.enters 0, .speaks 0 (literal "/list")] := by
  let _ := CMemory.zeroed
  have empty : (oneClient.client 0).inBuffer = .empty := congrArg Input.buffer oneClient_spec.2.2
  have said : oneClient.deed (.readable 0 (some ((literal "/list").bytes ++ [10]))) =
      some (.speaks 0 (literal "/list")) := by
    have taken : (takeLine (receive (makeRoom .empty) ((literal "/list").bytes ++ [10]))).1 =
        some (literal "/list") := by decide +kernel
    have bytes : (literal "/list").bytes ++ [10] = 47 :: [108, 105, 115, 116, 10] := by decide +kernel
    rw [bytes] at taken ⊢
    simp only [World.deed, empty, taken, Option.map_some]
  have room : serverCreate.connectedClients.length < 2 ^ 32 - 2 := by decide
  have first : ListStep serverCreate (.accepted 5) oneClient :=
    ⟨⟨room, rfl⟩, fun _ _ said => by cases said⟩
  have second : ListStep oneClient (.readable 0 (some ((literal "/list").bytes ++ [10])))
      (clientDoRead oneClient 0 (some ((literal "/list").bytes ++ [10]))) := by
    refine ⟨⟨⟨oneClient_connected.mpr rfl, ?_⟩, rfl⟩, fun _ _ _ _ => oneClient_shortNicknames⟩
    rw [empty]
    decide +kernel
  obtain ⟨happened, run, deeds, _⟩ := server_refines_channel (.snoc (.single first) second)
  refine ⟨happened, _, run, deeds.trans ?_⟩
  have last : serverCreate.deeds ([.accepted 5] ++ [.readable 0 (some ((literal "/list").bytes ++ [10]))]) =
      serverCreate.deeds [.accepted 5] ++
        (oneClient.deed (.readable 0 (some ((literal "/list").bytes ++ [10])))).toList :=
    serverCreate.deeds_concat [.accepted 5] _
  rw [last, said]
  rfl

end KommunikationNetze.Chat
