import KommunikationNetze.Chat.Client
import KommunikationNetze.Library.Transition

/-! The chat server as a transition system. One step is one callback of the poll
thread: a listener accepts a connection or a connected client is hung up, readable
or writable. The first lemmas say once what the handlers can change. -/
namespace KommunikationNetze.Chat
open CLib Utils

section Nickname

/-- What a call of `ClientSetNickname` leaves that gives the client another nickname. -/
def renamed (world : World) (client : ClientRef) (nickname : CString) : World :=
  { world.setClient client { world.client client with nickname := some nickname } with
    clients := dictionarySet (withoutNickname world.clients (world.client client).nickname)
      nickname (some client) }

/-- Either nothing changes, or the client gets the trimmed nickname nobody holds. -/
theorem clientSetNickname_cases (world : World) (client : ClientRef) (nick : CString) :
    (clientSetNickname world client nick = (false, world) ∧
      (strtrim nick = [] ∨ ∃ other, dictionaryGet world.clients (strtrim nick) = some other)) ∨
    (clientSetNickname world client nick = (true, world) ∧
      (world.client client).nickname = some (strtrim nick)) ∨
    (clientSetNickname world client nick = (true, renamed world client (strtrim nick)) ∧
      strtrim nick ≠ [] ∧ dictionaryGet world.clients (strtrim nick) = none) := by
  unfold clientSetNickname
  generalize strtrim nick = nickname
  by_cases empty : nickname.length = 0
  · exact .inl ⟨by simp only [empty, if_true], .inl (List.eq_nil_of_length_eq_zero empty)⟩
  simp only [if_neg empty]
  by_cases current : (world.client client).nickname.any (strcmp · nickname = 0) = true
  · obtain ⟨own, set, same⟩ := (Option.any_eq_true _ _).mp current
    obtain rfl := strcmp_eq_zero.mp (of_decide_eq_true same)
    exact .inr (.inl ⟨by simp only [current, if_true], set⟩)
  simp only [current]
  cases taken : dictionaryGet world.clients nickname with
  | some other => exact .inl ⟨by simp [taken], .inr ⟨other, rfl⟩⟩
  | none =>
    refine .inr (.inr ⟨?_, fun h => empty (by simp [h]), rfl⟩)
    simp only [dictionaryGet_lock, taken, renamed]
    cases (world.client client).nickname <;> simp [withoutNickname]

theorem renamed_sameConnections (world : World) (client : ClientRef) (nickname : CString) :
    SameConnections world (renamed world client nickname) where
  allocated := rfl
  socketOpen := World.setClient_keeps world client _ Client.socketOpen rfl
  inBuffer := World.setClient_keeps world client _ Client.inBuffer rfl

theorem clientSetNickname_sameConnections (world : World) (client : ClientRef) (nick : CString) :
    SameConnections world (clientSetNickname world client nick).2 := by
  rcases clientSetNickname_cases world client nick with ⟨same, _⟩ | ⟨same, _⟩ | ⟨changed, _⟩
  · rw [same]
    exact .refl world
  · rw [same]
    exact .refl world
  · rw [changed]
    exact renamed_sameConnections world client _

theorem clientSetNickname_calls (world : World) (client : ClientRef) (nick : CString) :
    (clientSetNickname world client nick).2.calls = world.calls := by
  rcases clientSetNickname_cases world client nick with ⟨same, _⟩ | ⟨same, _⟩ | ⟨changed, _⟩
  · rw [same]
  · rw [same]
  · rw [changed]
    rfl

end Nickname

section Connection

theorem closeConnection_connected (world : World) (client c : ClientRef) :
    (closeConnection world client).Connected c ↔ world.Connected c ∧ c ≠ client := by
  by_cases same : c = client <;> simp [closeConnection, World.Connected, World.setClient, same]

theorem closeConnection_nickname (world : World) (client c : ClientRef) :
    ((closeConnection world client).client c).nickname = (world.client c).nickname :=
  World.setClient_keeps world client { world.client client with socketOpen := false }
    Client.nickname rfl c

theorem allocateClient_old (world : World) (socket : Int) (old : c ≠ world.allocated) :
    (allocateClient world socket).client c = world.client c :=
  World.setClient_other _ _ _ old

theorem allocateClient_new (world : World) (socket : Int) :
    (allocateClient world socket).client world.allocated =
      { zeroClient with socket, socketOpen := true, pollDescriptor := world.poll.descriptors } :=
  World.setClient_self ..

theorem allocateClient_connected (world : World) (socket : Int) (c : ClientRef) :
    (allocateClient world socket).Connected c ↔ world.Connected c ∨ c = world.allocated := by
  by_cases same : c = world.allocated
  · simp [allocateClient, World.Connected, World.setClient, same]
  · have less : c < world.allocated + 1 ↔ c < world.allocated :=
      Nat.lt_succ_iff_lt_or_eq.trans (or_iff_left same)
    simp [allocateClient, World.Connected, World.setClient, same, less]

/-- What a change of the nickname keeps, the search for a free one keeps. -/
theorem setTemporaryNickname_invariant {P : World → Prop} {world : World} {client : ClientRef}
    (keeps : ∀ world nick, P world → P (clientSetNickname world client nick).2) (holds : P world)
    (i rounds : Nat) : P (setTemporaryNickname world client i rounds) := by
  induction rounds generalizing world i with
  | zero => exact holds
  | succ rounds ih =>
    have set := keeps world (literal "Derp" ++ decimal i) holds
    simp only [setTemporaryNickname]
    split
    · rename_i result
      rw [result] at set
      exact set
    · rename_i result
      rw [result] at set
      exact ih set (i + 1)

theorem setTemporaryNickname_sameConnections (world : World) (client : ClientRef) (i rounds : Nat) :
    SameConnections world (setTemporaryNickname world client i rounds) :=
  setTemporaryNickname_invariant
    (fun between nick same => same.trans (clientSetNickname_sameConnections between client nick))
    (.refl world) i rounds

theorem setTemporaryNickname_calls (world : World) (client : ClientRef) (i rounds : Nat) :
    (setTemporaryNickname world client i rounds).calls = world.calls :=
  setTemporaryNickname_invariant (P := fun after => after.calls = world.calls)
    (fun between nick same => (clientSetNickname_calls between client nick).trans same) rfl i rounds

theorem nameClient_calls (world : World) (socket : Int) :
    (nameClient world socket).calls = world.calls := setTemporaryNickname_calls _ _ _ _

theorem nameClient_allocated (world : World) (socket : Int) :
    (nameClient world socket).allocated = world.allocated + 1 :=
  (setTemporaryNickname_sameConnections _ _ _ _).allocated

theorem nameClient_connected (world : World) (socket : Int) (c : ClientRef) :
    (nameClient world socket).Connected c ↔ world.Connected c ∨ c = world.allocated :=
  ((setTemporaryNickname_sameConnections (allocateClient world socket) world.allocated 1
    (2 ^ 32 - 2)).connected c).trans (allocateClient_connected world socket c)

end Connection

variable [CMemory]

inductive Event where
  | accepted (socket : Int)
  | hungUp (client : ClientRef)
  | readable (client : ClientRef) (result : Option (List UInt8))
  | writable (client : ClientRef) (len : Int)
  deriving DecidableEq

def handleEvent (world : World) : Event → World
  | .accepted socket => clientCreate world socket
  | .hungUp client => clientDisconnect world client
  | .readable client result => clientDoRead world client result
  | .writable client len => clientDoWrite world client len

/-- Fewer clients than temporary nicknames are connected, and a system call transfers
at most what it was offered. -/
def Admissible (world : World) : Event → Prop
  | .accepted _ => world.connectedClients.length < 2 ^ 32 - 2
  | .hungUp client => world.Connected client
  | .readable client result => world.Connected client ∧
      (result.getD []).length ≤ offered (makeRoom (world.client client).inBuffer)
  | .writable client len => world.Connected client ∧ len ≤ (world.client client).outBuffer.filled

def ServerStep (world : World) (event : Event) (after : World) : Prop :=
  Admissible world event ∧ after = handleEvent world event

def ServerRun (events : List Event) (world : World) : Prop :=
  Transition.Run ServerStep serverCreate events world

def Reachable (world : World) : Prop := ∃ events, ServerRun events world

theorem Reachable.invariant {P : World → Prop} (initial : P serverCreate)
    (preserves : ∀ {world event}, P world → Admissible world event → P (handleEvent world event))
    (reachable : Reachable world) : P world := by
  obtain ⟨events, run⟩ := reachable
  refine Transition.Run.invariant initial ?_ run
  rintro world event after holds ⟨admissible, rfl⟩
  exact preserves holds admissible

section Calls
variable {P : World → Prop} {world : World} {client : ClientRef}

/-- A command ends in one call, or in a loop of calls that pass on what holds. -/
theorem clientHandleNickCommand_elim {arg : Option CString}
    (usage : ∀ text, P (clientWriteLine world client text))
    (told : ∀ nick msg, P (serverSendChannelMessage (clientSetNickname world client nick).2 msg))
    (refused : ∀ nick text, P (clientWriteLine (clientSetNickname world client nick).2 client text)) :
    P (clientHandleNickCommand world client arg) := by
  cases arg with
  | none => exact usage _
  | some nick =>
    have told := told nick
    have refused := refused nick
    simp only [clientHandleNickCommand]
    split
    · rename_i result
      rw [result] at told
      exact told _
    · rename_i result
      rw [result] at refused
      exact refused _

theorem clientHandleMsgCommand_elim {arg : Option CString}
    (usage : ∀ text, P (clientWriteLine world client text))
    (sent : ∀ name recpt msg, dictionaryGet world.clients name = some recpt →
      P (clientWriteLine (clientWriteLine world client msg) recpt msg)) :
    P (clientHandleMsgCommand world client arg) := by
  cases arg with
  | none => exact usage _
  | some arg =>
    simp only [clientHandleMsgCommand]
    split
    · split
      · exact usage _
      · rename_i found
        exact sent _ _ _ found
    · exact usage _

theorem listEntry_elim {state : World × CString} {key : CString} {value : Option ClientRef}
    (holds : P state.1) (writes : ∀ world text, P world → P (clientWriteLine world client text)) :
    P (listEntry client state key value).1 := by
  cases value with
  | none => exact holds
  | some c =>
    simp only [listEntry]
    split
    · exact writes _ _ holds
    · exact holds

theorem clientHandleListCommand_elim {arg : Option CString}
    (iterates : P { world with clients := (dictionaryGetIterator world.clients).2 })
    (writes : ∀ world text, P world → P (clientWriteLine world client text)) :
    P (clientHandleListCommand world client arg) := by
  have loop := DictionaryIterator.iteratorLoop_invariant (P := fun state => P state.1)
    (listEntry client) (fun _ _ _ holds => listEntry_elim holds writes)
    (dictionaryGetIterator world.clients).1
    ({ world with clients := (dictionaryGetIterator world.clients).2 }, []) iterates
  simp only [clientHandleListCommand]
  split
  · exact writes _ _ loop
  · exact loop

/-- A line is empty, a command, known or not, or a message to the channel. -/
theorem clientHandleLine_elim {line : CString}
    (empty : P (world.record (.handleLine client line)))
    (nick : ∀ arg, P (clientHandleNickCommand (world.record (.handleLine client line)) client arg))
    (msg : ∀ arg, P (clientHandleMsgCommand (world.record (.handleLine client line)) client arg))
    (list : ∀ arg, P (clientHandleListCommand (world.record (.handleLine client line)) client arg))
    (unknown : ∀ text, P (clientWriteLine (world.record (.handleLine client line)) client text))
    (message : ∀ msg, P (serverSendChannelMessage (world.record (.handleLine client line)) msg)) :
    P (clientHandleLine world client line) := by
  cases line with
  | nil => exact empty
  | cons first rest =>
    simp only [clientHandleLine]
    split
    · generalize strsep (some rest) (literal " ") = words
      split
      · rename_i command found
        have mem := List.mem_of_find?_eq_some found
        simp only [commandDefs, List.mem_cons, List.not_mem_nil, or_false] at mem
        rcases mem with rfl | rfl | rfl
        · exact nick words.2
        · exact msg words.2
        · exact list words.2
      · exact unknown _
    · exact message _

theorem clientReceived_elim {bytes : List UInt8}
    (unfinished : ∀ buffer, P (setInBuffer (world.record (.recv client bytes)) client buffer))
    (handled : ∀ buffer line rest, P (setInBuffer
      (clientHandleLine (setInBuffer (world.record (.recv client bytes)) client buffer) client line) client rest)) :
    P (clientReceived world client bytes) := by
  simp only [clientReceived]
  split
  · exact unfinished _
  · exact handled _ _ _

end Calls

section Output

theorem clientWriteLineFor_output (channel : Option Nat) (world : World) (client : ClientRef)
    (line : CString) : OutputOnly world (clientWriteLineFor channel world client line) where
  headEntry := rfl
  allocated := rfl
  fields c := by
    by_cases same : c = client
    · rw [same, clientWriteLineFor, World.setClient_self]
      rfl
    · have other : (clientWriteLineFor channel world client line).client c = world.client c :=
        World.setClient_other _ client _ same
      rw [other]
  calls := ⟨[.writeLine client line channel], rfl, by simp⟩

theorem clientWriteLine_output (world : World) (client : ClientRef) (line : CString) :
    OutputOnly world (clientWriteLine world client line) :=
  clientWriteLineFor_output none world client line

theorem serverSendChannelMessage_output (world : World) (msg : CString) :
    OutputOnly world (serverSendChannelMessage world msg) := by
  have recorded : OutputOnly world (world.record (.sendChannelMessage world.clients msg)) :=
    { headEntry := rfl, allocated := rfl, fields := fun _ => rfl,
      calls := ⟨[.sendChannelMessage world.clients msg], rfl, by simp⟩ }
  refine DictionaryIterator.iteratorLoop_invariant _ ?_ _ _ (recorded.trans (OutputOnly.getIterator _))
  intro state key value output
  cases value with
  | none => exact output
  | some c => exact output.trans (clientWriteLineFor_output _ state c msg)

theorem listEntry_output (client : ClientRef) (state : World × CString) (key : CString)
    (value : Option ClientRef) : OutputOnly state.1 (listEntry client state key value).1 :=
  listEntry_elim (.refl _) fun world text output => output.trans (clientWriteLine_output world client text)

theorem clientHandleListCommand_output (world : World) (client : ClientRef) (arg : Option CString) :
    OutputOnly world (clientHandleListCommand world client arg) := by
  apply clientHandleListCommand_elim
  · exact .getIterator world
  · intro state text output
    exact output.trans (clientWriteLine_output state client text)

theorem clientHandleMsgCommand_output (world : World) (client : ClientRef) (arg : Option CString) :
    OutputOnly world (clientHandleMsgCommand world client arg) := by
  apply clientHandleMsgCommand_elim
  · exact clientWriteLine_output world client
  · intro name recpt msg found
    exact (clientWriteLine_output world client msg).trans (clientWriteLine_output _ recpt msg)

end Output
section Line

/-- A command changes the nickname at most once, before anything is written. -/
def RenamesThenWrites (client : ClientRef) (world after : World) : Prop :=
  ∃ between, (between = world ∨ ∃ arg, between = (clientSetNickname world client arg).2) ∧
    OutputOnly between after

theorem clientHandleNickCommand_cases (world : World) (client : ClientRef) (arg : Option CString) :
    RenamesThenWrites client world (clientHandleNickCommand world client arg) := by
  apply clientHandleNickCommand_elim
  · exact fun text => ⟨world, .inl rfl, clientWriteLine_output world client text⟩
  · exact fun nick msg => ⟨_, .inr ⟨nick, rfl⟩, serverSendChannelMessage_output _ msg⟩
  · exact fun nick text => ⟨_, .inr ⟨nick, rfl⟩, clientWriteLine_output _ client text⟩

theorem clientHandleLine_cases (world : World) (client : ClientRef) (line : CString) :
    RenamesThenWrites client (world.record (.handleLine client line))
      (clientHandleLine world client line) := by
  apply clientHandleLine_elim
  · exact ⟨_, .inl rfl, .refl _⟩
  · exact clientHandleNickCommand_cases _ client
  · exact fun arg => ⟨_, .inl rfl, clientHandleMsgCommand_output _ client arg⟩
  · exact fun arg => ⟨_, .inl rfl, clientHandleListCommand_output _ client arg⟩
  · exact fun text => ⟨_, .inl rfl, clientWriteLine_output _ client text⟩
  · exact fun msg => ⟨_, .inl rfl, serverSendChannelMessage_output _ msg⟩

theorem clientHandleLine_sameConnections (world : World) (client : ClientRef) (line : CString) :
    SameConnections world (clientHandleLine world client line) := by
  have recorded : SameConnections world (world.record (.handleLine client line)) :=
    { allocated := rfl, socketOpen := fun _ => rfl, inBuffer := fun _ => rfl }
  obtain ⟨between, rfl | ⟨arg, rfl⟩, output⟩ := clientHandleLine_cases world client line
  · exact recorded.trans output.sameConnections
  · exact recorded.trans
      ((clientSetNickname_sameConnections _ client arg).trans output.sameConnections)

end Line
section Connection

theorem clientDisconnect_connected (world : World) (client c : ClientRef) :
    (clientDisconnect world client).Connected c ↔ world.Connected c ∧ c ≠ client := by
  have told := serverSendChannelMessage_output (unregistered world client)
    (world.nicknameText client ++ literal " has left...")
  exact (closeConnection_connected _ client c).trans
    (and_congr_left fun _ => told.sameConnections.connected c)

theorem clientCreate_connected (world : World) (socket : Int) (c : ClientRef) :
    (clientCreate world socket).Connected c ↔ world.Connected c ∨ c = world.allocated := by
  have told := serverSendChannelMessage_output (nameClient world socket)
    ((nameClient world socket).nicknameText world.allocated ++ literal " has entered...")
  exact (told.sameConnections.connected c).trans (nameClient_connected world socket c)

end Connection
end KommunikationNetze.Chat
