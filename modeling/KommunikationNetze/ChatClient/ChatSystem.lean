import KommunikationNetze.Chat.Conversation
import KommunikationNetze.ChatClient.Relay

/-! The whole chat: the server, and a client with its GUI on every connection. Between them are the
bytes that one side has sent and the other has not received. -/
namespace KommunikationNetze.ChatClient
open CLib Transition
open Chat (ClientRef World Event SpokenStep serverCreate sentBytes reads lineBytes saidLines linesTo WriteFits
  Channel ChannelStep Follows)

structure ChatSystem where
  server : World
  client : ClientRef → Client
  toServer : ClientRef → List UInt8
  toClient : ClientRef → List UInt8

inductive ChatEvent where
  | server (event : Event)
  | client (c : ClientRef) (call : ClientCall)

/-- What the server receives from a client in a callback. -/
def arrived (c : ClientRef) (event : Event) : List UInt8 := ((event.read c).getD none).getD []

/-- What a client receives in a call. -/
def ClientCall.received : ClientCall → List UInt8
  | receive bytes => bytes
  | _ => []

/-- Everything is written that is offered. -/
def ClientCall.Whole : ClientCall → Prop
  | guiWrite accepted offered | send accepted offered => accepted = offered
  | _ => True

/-- A callback of the server or a call of a client. What they receive is what comes first. -/
inductive ChatStep [CMemory] (s : ChatSystem) : ChatEvent → ChatSystem → Prop where
  | server {rest bytes : ClientRef → List UInt8} (step : SpokenStep s.server event after)
      (received : ∀ c, s.toServer c = arrived c event ++ rest c)
      (sent : ∀ c, sentBytes c after.calls = sentBytes c s.server.calls ++ bytes c) :
      ChatStep s (.server event)
        { s with server := after, toServer := rest, toClient := fun c => s.toClient c ++ bytes c }
  | client (step : ClientStep (s.client c) call after) (whole : call.Whole)
      (received : s.toClient c = call.received ++ rest)
      (sent : after.outBuffer.written = (s.client c).outBuffer.written ++ bytes) :
      ChatStep s (.client c call)
        { s with
          client := Function.update s.client c after
          toServer := Function.update s.toServer c (s.toServer c ++ bytes)
          toClient := Function.update s.toClient c rest }

/-- The clients are connected to nothing yet but their GUIs. -/
def chatSystem (socket guiInFD guiOutFD : ClientRef → Int) : ChatSystem :=
  { server := serverCreate
    client := fun c => clientCreate (socket c) (guiInFD c) (guiOutFD c)
    toServer := fun _ => []
    toClient := fun _ => [] }

section Client
variable [CMemory] {client after : Client}

theorem readInto_read (done : readInto relay (some bytes) = some (next, more)) :
    next.read = relay.read ++ bytes ∧ next.written = relay.written := by
  cases bytes with
  | nil =>
    cases done
    exact ⟨(List.append_nil _).symm, rfl⟩
  | cons b bytes =>
    cases done
    exact ⟨rfl, rfl⟩

omit [CMemory] in
theorem writeFrom_read (done : writeFrom relay len = some (next, outcome)) : next.read = relay.read := by
  rw [writeFrom] at done
  split at done
  · cases done
  · split at done <;> cases done <;> rfl

/-- A call receives what is read from the socket, and nothing else. -/
theorem ClientStep.received (step : ClientStep client call after) :
    after.inBuffer.read = client.inBuffer.read ++ call.received := by
  cases step with
  | receive _ _ done =>
    obtain ⟨_, more, read⟩ := clientReceive_spec done
    exact (readInto_read read).1
  | guiWrite _ _ done =>
    obtain ⟨_, outcome, written⟩ := clientGUIWrite_spec done
    exact (writeFrom_read written).trans (List.append_nil _).symm
  | guiRead _ _ done =>
    obtain ⟨same, _⟩ := clientGUIRead_spec done
    rw [same]
    exact (List.append_nil _).symm
  | send _ _ done =>
    obtain ⟨same, _⟩ := clientSend_spec done
    rw [same]
    exact (List.append_nil _).symm

/-- With whole writes both relays are exact. -/
theorem exact_of_whole (run : ClientRun socket guiInFD guiOutFD calls client)
    (whole : ∀ call ∈ calls, call.Whole) : client.inBuffer.Exact ∧ client.outBuffer.Exact := by
  obtain ⟨toGUI, toSocket⟩ := relayRun_of_clientRun run
  constructor
  · refine (exact_iff_complete toGUI).mpr fun accepted offered mem => ?_
    exact whole _ (ClientCall.mem_toGUI.mp mem)
  · refine (exact_iff_complete toSocket).mpr fun accepted offered mem => ?_
    exact whole _ (ClientCall.mem_toSocket.mp mem)

end Client

section System
variable [CMemory] {socket guiInFD guiOutFD : ClientRef → Int} {s t : ChatSystem}

/-- Everything that was sent was received or is on its way. -/
structure Linked (socket guiInFD guiOutFD : ClientRef → Int) (s : ChatSystem) (happened : List Event) :
    Prop where
  server : Run SpokenStep serverCreate happened s.server
  clients : ∀ c, ∃ calls, ClientRun (socket c) (guiInFD c) (guiOutFD c) calls (s.client c) ∧
    ∀ call ∈ calls, call.Whole
  toServer : ∀ c, (s.client c).outBuffer.written = (reads c happened).flatMap (·.getD []) ++ s.toServer c
  toClient : ∀ c, sentBytes c s.server.calls = (s.client c).inBuffer.read ++ s.toClient c

theorem linked_start : Linked socket guiInFD guiOutFD (chatSystem socket guiInFD guiOutFD) [] where
  server := .start
  clients _ := ⟨[], .start, fun _ mem => absurd mem List.not_mem_nil⟩
  toServer _ := rfl
  toClient _ := rfl

theorem Linked.step (linked : Linked socket guiInFD guiOutFD s happened) (step : ChatStep s event t) :
    ∃ more, Linked socket guiInFD guiOutFD t more := by
  cases step with
  | server step received sent =>
    rename_i event after rest bytes
    refine ⟨happened ++ [event], linked.server.snoc step, linked.clients, fun c => ?_, fun c => ?_⟩
    · have read : ((event.read c).toList.flatMap fun result => result.getD []) = arrived c event := by
        rw [arrived]
        cases event.read c <;> simp
      rw [linked.toServer c, received c, Chat.reads_snoc, List.flatMap_append, read, List.append_assoc]
    · rw [sent c, linked.toClient c, List.append_assoc]
  | client step whole received sent =>
    rename_i c call after rest bytes
    refine ⟨happened, linked.server, fun d => ?_, fun d => ?_, fun d => ?_⟩ <;> by_cases same : d = c
    · subst same
      obtain ⟨calls, run, all⟩ := linked.clients d
      refine ⟨calls ++ [call], ?_, List.forall_mem_append.mpr ⟨all, List.forall_mem_singleton.mpr whole⟩⟩
      simpa only [Function.update_self] using run.snoc step
    · simpa only [Function.update_of_ne same] using linked.clients d
    · subst same
      simp only [Function.update_self]
      rw [sent, linked.toServer d, List.append_assoc]
    · simpa only [Function.update_of_ne same] using linked.toServer d
    · subst same
      simp only [Function.update_self]
      rw [linked.toClient d, step.received, received, List.append_assoc]
    · simpa only [Function.update_of_ne same] using linked.toClient d

/-- From keyboard to screen. What was typed at a client is the lines it has said in the channel and
what is on its way there, and what it was told in the channel is what was shown at it and what is on
its way back. -/
theorem chat_system (run : Run ChatStep (chatSystem socket guiInFD guiOutFD) events s)
    (fits : EveryStep WriteFits s.server.calls) :
    ∃ happened, Run ChannelStep .empty happened s.server.channel ∧ ∀ c,
      (s.client c).outBuffer.read = lineBytes (saidLines c (happened.map Prod.fst)) ++
        ((s.server.client c).inBuffer.content ++ s.toServer c ++ (s.client c).outBuffer.buffer.content) ∧
      lineBytes (linesTo c (happened.flatMap Prod.snd)) = (s.client c).inBuffer.written ++
        ((s.client c).inBuffer.buffer.content ++ s.toClient c ++ (s.server.client c).outBuffer.content) := by
  obtain ⟨callbacks, linked⟩ := run.invariant
    (P := fun s => ∃ happened, Linked socket guiInFD guiOutFD s happened)
    ⟨[], linked_start⟩ fun ⟨_, linked⟩ step => linked.step step
  obtain ⟨happened, channel, others, follows⟩ :=
    (linked.server.imp SpokenStep.listed).simulated Follows.start Follows.matched
  refine ⟨happened, follows.stands ▸ others, fun c => ?_⟩
  obtain ⟨calls, client, whole⟩ := linked.clients c
  obtain ⟨shown, typed⟩ := exact_of_whole client whole
  rw [Relay.Exact] at shown typed
  constructor
  · have said := Chat.said_stream linked.server c
    rw [← typed, linked.toServer c, said, follows.deeds]
    simp only [List.append_assoc]
  · have heard := Chat.heard_stream linked.server fits c
    rw [follows.lines, ← heard, linked.toClient c, ← shown]
    simp only [List.append_assoc]

end System

section First
variable [CMemory]

/-- There is a run that leads here, and all that is on its way is the first client's. -/
def Leads (server : World) (client : Client) (toServer toClient : List UInt8) : Prop :=
  ∃ events s, Run ChatStep (chatSystem (fun _ => 3) (fun _ => 4) fun _ => 5) events s ∧ s.server = server ∧
    s.client 0 = client ∧ s.toServer = Function.update (fun _ => []) 0 toServer ∧ s.toClient 0 = toClient

variable {server after : World} {client next : Client} {toServer toClient rest bytes : List UInt8}

theorem Leads.calls (leads : Leads server client toServer toClient) (step : ClientStep client call next)
    (whole : call.Whole) (received : toClient = call.received ++ rest)
    (sent : next.outBuffer.written = client.outBuffer.written ++ bytes) :
    Leads server next (toServer ++ bytes) rest := by
  obtain ⟨events, s, run, rfl, rfl, others, rfl⟩ := leads
  refine ⟨_, _, run.snoc (.client step whole received sent), rfl, rfl, ?_, rfl⟩
  simp only [others, Function.update_self, Function.update_idem]

theorem Leads.serves (leads : Leads server client toServer toClient) (step : SpokenStep server event after)
    (received : toServer = arrived 0 event ++ rest) (others : ∀ c ≠ 0, arrived c event = [])
    (sent : sentBytes 0 (after.calls.drop server.calls.length) = bytes) :
    Leads after client rest (toClient ++ bytes) := by
  obtain ⟨events, s, run, rfl, rfl, first, rfl⟩ := leads
  have arrives : ∀ c, s.toServer c = arrived c event ++ Function.update (fun _ => []) 0 rest c := by
    intro c
    rw [first]
    by_cases same : c = 0
    · subst same
      simpa only [Function.update_self] using received
    · simp only [Function.update_of_ne same, others c same, List.append_nil]
  have sends : ∀ c, sentBytes c after.calls =
      sentBytes c s.server.calls ++ sentBytes c (after.calls.drop s.server.calls.length) := by
    intro c
    obtain ⟨⟨_, rfl⟩, _⟩ := step
    obtain ⟨added, calls⟩ := Chat.calls_kept s.server event
    rw [← calls, Chat.sentBytes_append, List.drop_left]
  exact ⟨_, _, run.snoc (.server step arrives sends), rfl, rfl, rfl, sent ▸ rfl⟩

end First

/-- A line is typed, -/
def typing : Client :=
  (@clientGUIRead .zeroed (clientCreate 3 4 5) (some [104, 105, 10])).getD (clientCreate 3 4 5)

/-- sent to the server, -/
def saying : Client := (clientSend typing 3).getD typing

def welcome : List UInt8 := (literal "Derp1 has entered...\nDerp1: hi\n").bytes

/-- its answers come back, -/
def hearing : Client := (@clientReceive .zeroed saying (some welcome)).getD saying

/-- and are shown. -/
def showing : Client := (clientGUIWrite hearing 31).getD hearing

theorem showing_leads : @Leads .zeroed Chat.spoken showing [] [] := by
  let _ := CMemory.zeroed
  have start : Leads serverCreate (clientCreate 3 4 5) [] [] :=
    ⟨[], _, .start, rfl, rfl, by simp [chatSystem], rfl⟩
  have typed : Leads serverCreate typing [] [] :=
    start.calls (.guiRead (by decide) (by decide)
      (show clientGUIRead _ (some [104, 105, 10]) = some typing from rfl)) trivial rfl rfl
  have said : Leads serverCreate saying [104, 105, 10] [] :=
    typed.calls (.send (by decide) (by decide) (show clientSend _ (3 : Nat) = some saying from rfl)) rfl rfl rfl
  have accepted : Leads Chat.oneClient saying [104, 105, 10] [] :=
    said.serves Chat.spoken_accepted rfl (fun _ _ => rfl) (by decide +kernel)
  have read : Leads Chat.greeted saying [] [] :=
    accepted.serves Chat.spoken_readable rfl (fun c other => by simp [arrived, Event.read, other.symm])
      (by decide +kernel)
  have answered : Leads Chat.spoken saying [] welcome :=
    read.serves Chat.spoken_writable rfl (fun _ _ => rfl) (by decide +kernel)
  have heard : Leads Chat.spoken hearing [] [] :=
    answered.calls (.receive (by decide) (by decide +kernel)
      (show clientReceive _ (some welcome) = some hearing from rfl)) trivial rfl rfl
  exact heard.calls (.guiWrite (by decide) (by decide +kernel)
    (show clientGUIWrite _ (31 : Nat) = some showing from rfl)) rfl rfl rfl

/-- What was typed is what was said, and what was told is what is shown. -/
theorem chat_system_shown : ∃ happened, Run ChannelStep .empty happened Chat.spoken.channel ∧
    lineBytes (saidLines 0 (happened.map Prod.fst)) = [104, 105, 10] ∧
    lineBytes (linesTo 0 (happened.flatMap Prod.snd)) = showing.inBuffer.written := by
  let _ := CMemory.zeroed
  obtain ⟨events, s, run, server, client, toServer, toClient⟩ := showing_leads
  obtain ⟨happened, channel, sockets⟩ := chat_system run (server ▸ Chat.spoken_fits)
  obtain ⟨typed, told⟩ := sockets 0
  have unread : (Chat.spoken.client 0).inBuffer.content = [] := by decide +kernel
  have unsent : (Chat.spoken.client 0).outBuffer.content = [] := by decide +kernel
  have unwritten : showing.inBuffer.buffer.content = [] ∧ showing.outBuffer.buffer.content = [] := by
    decide +kernel
  rw [server] at channel typed told
  rw [client] at typed told
  simp only [toServer, Function.update_self, unread, unwritten.2, List.append_nil] at typed
  simp only [toClient, unsent, unwritten.1, List.append_nil] at told
  exact ⟨happened, channel, typed.symm, told⟩

end KommunikationNetze.ChatClient
