import KommunikationNetze.Chat.PollHandlers

/-! The memory of the clients that are gone. A handler reads and writes its own client and those in
the dictionary, so that anything may be in the memory of the others before it or after it. -/
namespace KommunikationNetze.Chat
open CLib Utils

/-- The memory of some clients was freed, and something else is there. -/
def World.overwritten (world : World) (freed : ClientRef → Option Client) : World :=
  { world with client := fun c => (freed c).getD (world.client c) }

section Overwritten
variable {world : World} {freed : ClientRef → Option Client} {client : ClientRef}

theorem World.overwritten_client (alive : freed client = none) :
    (world.overwritten freed).client client = world.client client := by
  show (freed client).getD (world.client client) = world.client client
  rw [alive, Option.getD_none]

theorem World.overwritten_setClient (alive : freed client = none) (fields : Client) :
    (world.overwritten freed).setClient client fields =
      (world.setClient client fields).overwritten freed := by
  have same : (fun c => (freed c).getD (Function.update world.client client fields c)) =
      Function.update (fun c => (freed c).getD (world.client c)) client fields := by
    funext c
    by_cases own : c = client
    · subst c
      rw [Function.update_self, Function.update_self, alive, Option.getD_none]
    · rw [Function.update_of_ne own, Function.update_of_ne own]
  rw [setClient, setClient, overwritten, overwritten, same]

theorem World.overwritten_nicknameText (alive : freed client = none) :
    (world.overwritten freed).nicknameText client = world.nicknameText client := by
  rw [nicknameText, overwritten_client alive, nicknameText]

theorem setInBuffer_overwritten (alive : freed client = none) (buffer : Buffer) :
    setInBuffer (world.overwritten freed) client buffer =
      (setInBuffer world client buffer).overwritten freed := by
  rw [setInBuffer, World.overwritten_client alive, World.overwritten_setClient alive, setInBuffer]

theorem clientSetNickname_overwritten (alive : freed client = none) (nick : CString) :
    clientSetNickname (world.overwritten freed) client nick =
      ((clientSetNickname world client nick).1, (clientSetNickname world client nick).2.overwritten freed) := by
  have clients : (world.overwritten freed).clients = world.clients := rfl
  simp only [clientSetNickname, World.overwritten_client alive, World.overwritten_setClient alive, clients]
  split
  · rfl
  · split
    · rfl
    · cases (dictionaryGet world.clients.lock (strtrim nick)).isSome <;> rfl

theorem setTemporaryNickname_overwritten (alive : freed client = none) (i rounds : Nat) :
    setTemporaryNickname (world.overwritten freed) client i rounds =
      (setTemporaryNickname world client i rounds).overwritten freed := by
  induction rounds generalizing world i with
  | zero => rfl
  | succ rounds ih =>
    rw [setTemporaryNickname, clientSetNickname_overwritten alive, setTemporaryNickname]
    obtain ⟨given, after⟩ := clientSetNickname world client (literal "Derp" ++ decimal i)
    cases given with
    | true => rfl
    | false => exact ih (i + 1)

theorem nameClient_overwritten (alive : freed world.allocated = none) (socket : Int) :
    nameClient (world.overwritten freed) socket = (nameClient world socket).overwritten freed := by
  have allocated : allocateClient (world.overwritten freed) socket =
      (allocateClient world socket).overwritten freed := by
    simp only [allocateClient, ← World.overwritten_setClient alive]
    rfl
  rw [nameClient, allocated]
  exact setTemporaryNickname_overwritten alive 1 (2 ^ 32 - 2)

theorem closeConnection_overwritten (alive : freed client = none) :
    closeConnection (world.overwritten freed) client =
      (closeConnection world client).overwritten freed := by
  simp only [closeConnection, World.overwritten_client alive, World.overwritten_setClient alive]
  rfl

end Overwritten

section Output
variable [CMemory] {world : World} {freed : ClientRef → Option Client} {client : ClientRef}

theorem clientWriteLineFor_overwritten (alive : freed client = none) (channel : Option Nat) (line : CString) :
    clientWriteLineFor channel (world.overwritten freed) client line =
      (clientWriteLineFor channel world client line).overwritten freed := by
  have recorded : (world.overwritten freed).record (.writeLine client line channel) =
      (world.record (.writeLine client line channel)).overwritten freed := rfl
  simp only [clientWriteLineFor, recorded, World.overwritten_client alive, World.overwritten_setClient alive]
  rfl

theorem sendToEntry_overwritten (number : Nat) (msg : CString) (entries : List (CString × Option ClientRef))
    (world : World) (alive : ∀ c ∈ entries.filterMap Prod.snd, freed c = none) :
    entries.foldl (fun world entry => sendToEntry number msg world entry.1 entry.2) (world.overwritten freed) =
      (entries.foldl (fun world entry => sendToEntry number msg world entry.1 entry.2) world).overwritten
        freed := by
  induction entries generalizing world with
  | nil => rfl
  | cons entry entries ih =>
    obtain ⟨key, value⟩ := entry
    cases value with
    | none => exact ih world alive
    | some c =>
      obtain ⟨first, rest⟩ := List.forall_mem_cons.mp alive
      have written : sendToEntry number msg (world.overwritten freed) key (some c) =
          (sendToEntry number msg world key (some c)).overwritten freed :=
        clientWriteLineFor_overwritten first (some number) msg
      rw [List.foldl_cons, List.foldl_cons, ← ih _ rest, written]

omit [CMemory] in
/-- The clients in the dictionary. -/
theorem Registry.mem_entries (registry : Registry members world)
    (mem : c ∈ (DictionaryIterator.entries world.clients).filterMap Prod.snd) : members c := by
  have ready := registry.ready
  obtain ⟨key, found⟩ := ready.registered.mp (ready.mem_recipients.mp mem)
  exact (registry.owner found).1

theorem serverSendChannelMessage_overwritten (registry : Registry members world)
    (alive : ∀ c, members c → freed c = none) (msg : CString) :
    serverSendChannelMessage (world.overwritten freed) msg =
      (serverSendChannelMessage world msg).overwritten freed := by
  have loop := DictionaryIterator.loop_entries
    (sendToEntry (channelMessages world.calls).length msg) registry.head
  have told := sendToEntry_overwritten (channelMessages world.calls).length msg
    (DictionaryIterator.entries world.clients)
    { world.record (.sendChannelMessage world.clients msg) with
      clients := (dictionaryGetIterator world.clients).2 }
    fun c mem => alive c (registry.mem_entries mem)
  simp only [serverSendChannelMessage, dictionaryGetIterator, World.record, loop]
  exact (loop _).trans told

theorem clientWriteLine_overwritten (alive : freed client = none) (line : CString) :
    clientWriteLine (world.overwritten freed) client line =
      (clientWriteLine world client line).overwritten freed :=
  clientWriteLineFor_overwritten alive none line

/-- The line that is put together is the same one. -/
theorem listEntry_overwritten (alive : freed client = none) (entries : List (CString × Option ClientRef))
    (world : World) (line : CString) (others : ∀ c ∈ entries.filterMap Prod.snd, freed c = none) :
    entries.foldl (fun state entry => listEntry client state entry.1 entry.2) (world.overwritten freed, line) =
      let state := entries.foldl (fun state entry => listEntry client state entry.1 entry.2) (world, line)
      (state.1.overwritten freed, state.2) := by
  induction entries generalizing world line with
  | nil => rfl
  | cons entry entries ih =>
    obtain ⟨key, value⟩ := entry
    cases value with
    | none => exact ih world line others
    | some c =>
      obtain ⟨first, rest⟩ := List.forall_mem_cons.mp others
      simp only [List.foldl_cons, listEntry, World.overwritten_nicknameText first,
        clientWriteLine_overwritten alive]
      split
      · exact ih _ _ rest
      · exact ih _ _ rest

end Output

/-- Only clients that are not connected were freed. -/
def FreedLate (freed : ClientRef → Option Client) (world : World) : Prop :=
  ∀ c, world.Connected c → freed c = none

section Handlers
variable [CMemory] {world : World} {freed : ClientRef → Option Client} {client : ClientRef}

omit [CMemory] in
theorem FreedLate.congr {after : World} (late : FreedLate freed world)
    (connected : ∀ c, after.Connected c → world.Connected c) : FreedLate freed after :=
  fun c here => late c (connected c here)

omit [CMemory] in
theorem Registry.before_output {after : World} (registry : Registry members after)
    (output : OutputOnly world after) : Registry members world :=
  registry.frame output.headEntry.symm fun c _ => (output.nickname c).symm

theorem clientHandleNickCommand_overwritten (registry : Registry world.Named world)
    (late : FreedLate freed world) (connected : world.Connected client) (arg : Option CString) :
    clientHandleNickCommand (world.overwritten freed) client arg =
      (clientHandleNickCommand world client arg).overwritten freed := by
  have alive := late client connected
  cases arg with
  | none => exact clientWriteLine_overwritten alive _
  | some nick =>
    have named := clientSetNickname_named registry connected nick
    have same := clientSetNickname_sameConnections world client nick
    simp only [clientHandleNickCommand, World.overwritten_nicknameText alive, clientSetNickname_overwritten alive]
    cases result : clientSetNickname world client nick with
    | mk given after =>
    rw [result] at named same
    cases given with
    | false => exact clientWriteLine_overwritten alive _
    | true =>
      simp only [World.overwritten_nicknameText alive]
      exact serverSendChannelMessage_overwritten named (fun c member => late c ((same.connected c).mp member.1)) _

theorem clientHandleMsgCommand_overwritten (registry : Registry world.Named world)
    (late : FreedLate freed world) (connected : world.Connected client) (arg : Option CString) :
    clientHandleMsgCommand (world.overwritten freed) client arg =
      (clientHandleMsgCommand world client arg).overwritten freed := by
  have alive := late client connected
  have clients : (world.overwritten freed).clients = world.clients := rfl
  cases arg with
  | none => exact clientWriteLine_overwritten alive _
  | some arg =>
    simp only [clientHandleMsgCommand, clients]
    split
    · split
      · exact clientWriteLine_overwritten alive _
      · rename_i recpt found
        have other := late recpt (registry.owner found).1.1
        simp only [World.overwritten_nicknameText alive, World.overwritten_nicknameText other,
          clientWriteLine_overwritten alive, clientWriteLine_overwritten other]
    · exact clientWriteLine_overwritten alive _

/-- The loop of `ClientHandleListCommand`. -/
def listLoop (world : World) (client : ClientRef) : World × CString :=
  iteratorLoop (listEntry client) (dictionaryGetIterator world.clients).1
    ({ world with clients := (dictionaryGetIterator world.clients).2 }, [])

theorem listLoop_overwritten (registry : Registry world.Named world) (late : FreedLate freed world)
    (connected : world.Connected client) :
    listLoop (world.overwritten freed) client =
      ((listLoop world client).1.overwritten freed, (listLoop world client).2) := by
  have loop := DictionaryIterator.loop_entries (listEntry client) registry.head
  have listed := listEntry_overwritten (late client connected) (DictionaryIterator.entries world.clients)
    { world with clients := (dictionaryGetIterator world.clients).2 } []
    fun c mem => late c (registry.mem_entries mem).1
  rw [← loop, ← loop] at listed
  exact listed

theorem clientHandleListCommand_overwritten (registry : Registry world.Named world)
    (late : FreedLate freed world) (connected : world.Connected client) (arg : Option CString) :
    clientHandleListCommand (world.overwritten freed) client arg =
      (clientHandleListCommand world client arg).overwritten freed := by
  have command : ∀ world, clientHandleListCommand world client arg =
      if 0 < (listLoop world client).2.length then
        clientWriteLine (listLoop world client).1 client (listLoop world client).2
      else (listLoop world client).1 := fun _ => rfl
  rw [command, command, listLoop_overwritten registry late connected]
  split
  · exact clientWriteLine_overwritten (late client connected) _
  · rfl

theorem clientHandleLine_overwritten (registry : Registry world.Named world)
    (late : FreedLate freed world) (connected : world.Connected client) (line : CString) :
    clientHandleLine (world.overwritten freed) client line =
      (clientHandleLine world client line).overwritten freed := by
  have recorded := (SameRegistration.record world (.handleLine client line)).named registry
  have alive := late client connected
  have handlers : ∀ command ∈ commandDefs, ∀ args,
      command.handler ((world.record (.handleLine client line)).overwritten freed) client args =
        (command.handler (world.record (.handleLine client line)) client args).overwritten freed := by
    simp only [commandDefs, List.forall_mem_cons]
    exact ⟨clientHandleNickCommand_overwritten recorded late connected,
      clientHandleMsgCommand_overwritten recorded late connected,
      clientHandleListCommand_overwritten recorded late connected, fun _ mem => absurd mem List.not_mem_nil⟩
  have record : (world.overwritten freed).record (.handleLine client line) =
      (world.record (.handleLine client line)).overwritten freed := rfl
  cases line with
  | nil => rfl
  | cons first rest =>
    simp only [clientHandleLine, record, World.overwritten_nicknameText alive]
    split
    · split
      · rename_i command found
        exact handlers command (List.mem_of_find?_eq_some found) _
      · exact clientWriteLine_overwritten alive _
    · exact serverSendChannelMessage_overwritten recorded (fun c member => late c member.1) _

theorem clientDisconnect_overwritten (registry : Registry world.Named world)
    (late : FreedLate freed world) (connected : world.Connected client) :
    clientDisconnect (world.overwritten freed) client =
      (clientDisconnect world client).overwritten freed := by
  have alive := late client connected
  have output := serverSendChannelMessage_output (unregistered world client)
    (world.nicknameText client ++ literal " has left...")
  have told : Registry (clientDisconnect world client).Named
      (serverSendChannelMessage (unregistered world client)
        (world.nicknameText client ++ literal " has left...")) :=
    (clientDisconnect_leaves registry connected).1.frame rfl fun c _ => (closeConnection_nickname _ client c).symm
  have gone : unregistered (world.overwritten freed) client =
      (unregistered world client).overwritten freed := by
    rw [unregistered, World.overwritten_client alive]
    rfl
  rw [clientDisconnect, gone, World.overwritten_nicknameText alive,
    serverSendChannelMessage_overwritten (told.before_output output) fun c member =>
      late c ((clientDisconnect_connected world client c).mp member.1).1,
    closeConnection_overwritten alive]
  rfl

theorem clientReceived_overwritten (registry : Registry world.Named world)
    (late : FreedLate freed world) (connected : world.Connected client) (bytes : List UInt8) :
    clientReceived (world.overwritten freed) client bytes =
      (clientReceived world client bytes).overwritten freed := by
  have alive := late client connected
  have record : (world.overwritten freed).record (.recv client bytes) =
      (world.record (.recv client bytes)).overwritten freed := rfl
  have inBuffer : ((world.record (.recv client bytes)).client client).inBuffer =
      (world.client client).inBuffer := rfl
  simp only [clientReceived, record, World.overwritten_client alive, inBuffer, setInBuffer_overwritten alive]
  cases strchr (receive (world.client client).inBuffer bytes).memory 10 with
  | none => rfl
  | some n =>
    have terminated := (SameRegistration.record world (.recv client bytes)).trans (.setInBuffer _ client
      { receive (world.client client).inBuffer bytes with
        memory := memcpy (receive (world.client client).inBuffer bytes).memory n [0] })
    simp only [clientHandleLine_overwritten (terminated.named registry)
      (late.congr fun c => (terminated.connected c).mp) ((terminated.connected client).mpr connected),
      World.overwritten_client alive, setInBuffer_overwritten alive]

theorem clientDoRead_overwritten (registry : Registry world.Named world)
    (late : FreedLate freed world) (connected : world.Connected client) (result : Option (List UInt8)) :
    clientDoRead (world.overwritten freed) client result =
      (clientDoRead world client result).overwritten freed := by
  have alive := late client connected
  have grown := SameRegistration.setInBuffer world client (makeRoom (world.client client).inBuffer)
  have registry := grown.named registry
  have late := late.congr fun c => (grown.connected c).mp
  have connected := (grown.connected client).mpr connected
  simp only [clientDoRead, World.overwritten_client alive, setInBuffer_overwritten alive]
  split
  · exact clientDisconnect_overwritten registry late connected
  · exact clientDisconnect_overwritten registry late connected
  · exact clientReceived_overwritten registry late connected _

theorem clientDoWrite_overwritten (registry : Registry world.Named world)
    (late : FreedLate freed world) (connected : world.Connected client) (len : Int) :
    clientDoWrite (world.overwritten freed) client len =
      (clientDoWrite world client len).overwritten freed := by
  have alive := late client connected
  rw [clientDoWrite, clientDoWrite]
  split
  · exact clientDisconnect_overwritten registry late connected
  · have record : (world.overwritten freed).record
          (.send client ((world.client client).outBuffer.content.take len.toNat)) =
        (world.record (.send client ((world.client client).outBuffer.content.take len.toNat))).overwritten
          freed := rfl
    simp only [World.overwritten_client alive, record, World.overwritten_setClient alive]
    split <;> rfl

theorem clientCreate_overwritten (registry : Registry world.Named world)
    (late : FreedLate freed world) (fresh : freed world.allocated = none) (socket : Int) :
    clientCreate (world.overwritten freed) socket = (clientCreate world socket).overwritten freed := by
  have output := serverSendChannelMessage_output (nameClient world socket)
    ((nameClient world socket).nicknameText world.allocated ++ literal " has entered...")
  have told := (clientCreate_notifies registry socket).1.before_output output
  have allocated : (world.overwritten freed).allocated = world.allocated := rfl
  rw [clientCreate, allocated, nameClient_overwritten fresh, World.overwritten_nicknameText fresh,
    serverSendChannelMessage_overwritten told]
  · rfl
  · intro c member
    rcases (clientCreate_connected world socket c).mp member.1 with old | rfl
    · exact late c old
    · exact fresh

/-- What is in the memory of clients that are gone is the same to every handler, and stays. -/
theorem handleEvent_overwritten (registry : Registry world.Named world) (late : FreedLate freed world)
    (fresh : freed world.allocated = none) (event : Event)
    (connected : ∀ c, event.handled = some c → world.Connected c) :
    handleEvent (world.overwritten freed) event = (handleEvent world event).overwritten freed := by
  cases event with
  | accepted socket => exact clientCreate_overwritten registry late fresh socket
  | hungUp client => exact clientDisconnect_overwritten registry late (connected client rfl)
  | readable client result => exact clientDoRead_overwritten registry late (connected client rfl) result
  | writable client len => exact clientDoWrite_overwritten registry late (connected client rfl) len

end Handlers
end KommunikationNetze.Chat
