import KommunikationNetze.Chat.Conversation
import KommunikationNetze.Chat.PollRuns

/-! The whole chat server. What the poll thread calls back makes a conversation in the channel,
and where it waits in `poll` it waits for the members, and to write to those of them that were
not sent all their lines. -/
namespace KommunikationNetze.Chat
open CLib Utils Transition

/-- The handlers that were called. -/
def callbacks (labels : List PollLabel) : List Event :=
  labels.filterMap fun
    | .call event => some event
    | _ => none

section Served
variable [CMemory] {s t : PollThread}

/-- A step of the poll thread or of the main thread. A new client finds a nickname. -/
structure PolledStep (s : PollThread) (label : PollLabel) (t : PollThread) : Prop where
  taken : PollStep s label t
  room : ∀ socket, label = .call (.accepted socket) → s.world.connectedClients.length < 2 ^ 32 - 2
  spoken : ∀ event, label = .call event → Spoken s.world event

/-- The poll thread calls the handlers of connected clients only. -/
theorem PolledStep.admissible (step : PolledStep s (.call event) t) (invariant : PollInvariant s) :
    Admissible s.world event := by
  obtain ⟨taken, room, _⟩ := step
  cases taken with
  | call at_ more found ready direct calls offered allocated =>
    have connected := fun c => invariant.handled_connected (c := c) at_ found calls
    cases event with
    | accepted socket => exact room socket rfl
    | hungUp client => exact connected client rfl
    | readable client result => exact ⟨connected client rfl, offered⟩
    | writable client len => exact ⟨connected client rfl, offered⟩

theorem served_run (run : Run PolledStep pollThreadCreate labels s) :
    PollInvariant s ∧ Run SpokenStep serverCreate (callbacks labels) s.world := by
  induction run with
  | start => exact ⟨.initial, .start⟩
  | @snoc labels s label t _ step ih =>
    obtain ⟨invariant, server⟩ := ih
    refine ⟨invariant.step step.taken, ?_⟩
    rw [callbacks, List.filterMap_append, ← callbacks]
    cases label with
    | call event =>
      have handled : t.world = handleEvent s.world event := by
        cases step.taken with
        | call => rfl
      exact server.snoc ⟨⟨step.admissible invariant, handled⟩, step.spoken event rfl⟩
    | listen | advance =>
      have same : t.world = s.world := by cases step.taken <;> rfl
      rw [same]
      exact (List.append_nil _).symm ▸ server

omit [CMemory] in
/-- In `poll` an entry of a client is that of a connected one. -/
theorem PollInvariant.polled_entry (invariant : PollInvariant s) (at_ : s.position = .polling)
    (mem : entry ∈ s.table) (block : entry.block = .client c) :
    s.world.Connected c ∧ EntryOf s.world c entry := by
  obtain ⟨map, added, leads, maps, _⟩ := invariant.polling at_
  obtain ⟨connected, _, its⟩ := leads.consistent.entryOf maps (List.mem_append_left added mem) block
  exact ⟨connected, its⟩

omit [CMemory] in
theorem PollInvariant.polled_iff (invariant : PollInvariant s) (at_ : s.position = .polling) :
    s.world.Connected c ↔ ∃ entry ∈ s.table, entry.block = .client c := by
  constructor
  · intro connected
    obtain ⟨map, added, leads, maps, _, numbered⟩ := invariant.polling at_
    obtain ⟨entry, found, its⟩ := leads.consistent.client c connected
    have key := maps.descriptor found
    rcases List.mem_append.mp (maps.mem.mpr (key ▸ found)) with here | new
    · exact ⟨entry, here, its.block⟩
    · obtain ⟨number, watch⟩ := numbered entry new
      rw [watch] at key
      cases key
  · rintro ⟨entry, mem, block⟩
    exact (invariant.polled_entry at_ mem block).1

/-- The callbacks are deeds in the channel. The bytes read from a client are the lines it says and
those that wait in its buffer, whole lines among them; the bytes sent to it and those in its
other buffer are the lines it is told. Where the thread is in `poll`, the sockets of the members
are polled and no other clients', and POLLOUT is asked for exactly the members with a line in
this buffer. -/
theorem served_channel (run : Run PolledStep pollThreadCreate labels s)
    (fits : EveryStep WriteFits s.world.calls) :
    ∃ happened, Run ChannelStep .empty happened s.world.channel ∧
      happened.map Prod.fst = serverCreate.deeds (callbacks labels) ∧ ∀ c,
      (reads c (callbacks labels)).flatMap (·.getD []) =
        lineBytes (saidLines c (happened.map Prod.fst)) ++ (s.world.client c).inBuffer.content ∧
      sentBytes c s.world.calls ++ (s.world.client c).outBuffer.content =
        lineBytes (linesTo c (happened.flatMap Prod.snd)) ∧
      (s.position = .polling →
        (s.world.channel.Member c ↔ ∃ entry ∈ s.table, entry.block = .client c) ∧
        ∀ entry ∈ s.table, entry.block = .client c → entry.fd = (s.world.client c).socket ∧
          (AsksOut entry ↔ (s.world.client c).outBuffer.content ≠ [])) := by
  obtain ⟨invariant, spoken⟩ := served_run run
  obtain ⟨happened, channel, others, follows⟩ :=
    (spoken.imp SpokenStep.listed).simulated Follows.start Follows.matched
  refine ⟨happened, follows.stands ▸ others, follows.deeds, fun c => ⟨?_, ?_, ?_⟩⟩
  · rw [follows.deeds]
    exact said_stream spoken c
  · rw [follows.lines]
    exact heard_stream spoken fits c
  · intro at_
    refine ⟨follows.registry.channel_member.trans (invariant.polled_iff at_), ?_⟩
    intro entry mem block
    obtain ⟨_, its⟩ := invariant.polled_entry at_ mem block
    refine ⟨its.fd, its.interest.trans ?_⟩
    obtain ⟨_, recorded⟩ := outBuffer_run (spoken.imp And.left) fits
    have bounded := bounded_outBufferAfter fits c
    rw [← recorded c] at bounded
    rw [← bounded.length_content, List.length_pos_iff]

/-- A step that calls no handler. -/
theorem quiet_step (run : Run PolledStep pollThreadCreate labels s) (step : PollStep s label t)
    (quiet : ∀ event, label ≠ .call event) : Run PolledStep pollThreadCreate (labels ++ [label]) t :=
  run.snoc ⟨step, fun _ called => absurd called (quiet _), fun event called => absurd called (quiet event)⟩

theorem quiet_run (run : PollRun labels s) (quiet : ∀ event, .call event ∉ labels) :
    Run PolledStep pollThreadCreate labels s := by
  induction run with
  | start => exact .start
  | snoc _ step ih =>
    refine quiet_step (ih fun event mem => quiet event (List.mem_append_left _ mem)) step ?_
    rintro event rfl
    exact quiet event (List.mem_append_right _ List.mem_cons_self)

end Served

theorem accepted_fits : EveryStep (@WriteFits .zeroed) acceptedThread.world.calls :=
  everyStep_iff.mpr (by decide +kernel)

/-- The first client was accepted, and nothing was sent to it. -/
theorem served_channel_accepted : ∃ labels s happened,
    Run (@PolledStep .zeroed) pollThreadCreate labels s ∧ s.position = .polling ∧
      Run ChannelStep .empty happened s.world.channel ∧
      sentBytes 0 s.world.calls ++ (s.world.client 0).outBuffer.content =
        lineBytes (linesTo 0 (happened.flatMap Prod.snd)) ∧ (s.world.client 0).outBuffer.content ≠ [] := by
  let _ := CMemory.zeroed
  have allocated : Allocated serverCreate (handleEvent serverCreate (.accepted 5)) := by
    have targets : writeTargets (clientCreate serverCreate 5).calls = [0] := by decide +kernel
    have room : ((clientCreate serverCreate 5).client 0).outBuffer.length ≠ 0 := by decide +kernel
    intro c mem
    rw [handleEvent, targets] at mem
    rw [List.mem_singleton.mp mem]
    exact room
  have queue : acceptedThread.updateQueue =
      [.client (.register 0 5 pollIn none 0), .client (.addEvents 0 pollOut)] := by decide +kernel
  have listening := quiet_run listening_run fun event mem => by simp at mem
  have accepted : PolledStep listeningThread (.call (.accepted 5)) acceptedThread := by
    constructor
    · exact .call rfl (by decide) rfl (by decide) rfl (.accepted (by decide) (by decide)) trivial allocated
    · exact fun _ _ => by decide
    · rintro event ⟨⟩
      exact ⟨(fun _ _ said => by cases said), (fun _ _ read => by cases read), fun _ _ same => by cases same⟩
  have again := quiet_step (listening.snoc accepted) (.again rfl (.inl (by decide))) (fun _ called => by cases called)
  have registered := quiet_step again (.apply rfl queue rfl) (fun _ called => by cases called)
  have asked := quiet_step registered (.apply rfl rfl rfl) (fun _ called => by cases called)
  have waiting := quiet_step asked (.enter rfl rfl) (fun _ called => by cases called)
  obtain ⟨happened, channel, _, sockets⟩ := served_channel waiting accepted_fits
  obtain ⟨_, told, polled⟩ := sockets 0
  refine ⟨_, _, happened, waiting, rfl, channel, told, ?_⟩
  let entry : PollEntry Descriptor ServerBlock :=
    { descriptorObject := .client 0, fd := 5, events := pollIn ||| pollOut, revents := 0
      queue := none, block := .client 0 }
  obtain ⟨_, polled⟩ := polled rfl
  exact (polled entry (List.mem_of_getElem? (i := 2) rfl) rfl).2.mp (or_pollOut pollIn)

end KommunikationNetze.Chat
