import KommunikationNetze.Chat.InputStream
import KommunikationNetze.Chat.Renaming

/-! The lock and the retain count of the dictionary of clients. Searches and changes give back
what they take. An iterator is never released, so a handler that takes one leaves the
dictionary locked and retained. -/
namespace KommunikationNetze.Chat
open CLib Utils
variable [CMemory]

/-- What the server handles while it serves a client or a listener. -/
inductive HandledEvent where
  | line (client : ClientRef) (text : CString)
  | connect (socket : Int)
  | disconnect (client : ClientRef)
  | nick (client : ClientRef) (arg : Option CString)
  | msg (client : ClientRef) (arg : Option CString)
  | list (client : ClientRef) (arg : Option CString)
  | channelMessage (text : CString)

namespace HandledEvent

def handle (world : World) : HandledEvent → World
  | line client text => clientHandleLine world client text
  | connect socket => clientCreate world socket
  | disconnect client => clientDisconnect world client
  | nick client arg => clientHandleNickCommand world client arg
  | msg client arg => clientHandleMsgCommand world client arg
  | list client arg => clientHandleListCommand world client arg
  | channelMessage text => serverSendChannelMessage world text

/-- The client of the event is connected. -/
def FromConnected (world : World) : HandledEvent → Prop
  | line client _ | disconnect client | nick client _ | msg client _ | list client _ =>
    world.Connected client
  | connect _ | channelMessage _ => True

/-- The argument of /nick is a name the client can take. -/
def NickFree (world : World) (client : ClientRef) (arg : Option CString) : Prop :=
  ∃ name, arg = some name ∧ strtrim name ≠ [] ∧ ¬HeldByOther world client (strtrim name)

/-- A line that is sent to the channel, /list, and /nick with a name that is free. -/
def LineIterates (world : World) (client : ClientRef) : CString → Prop
  | [] => False
  | first :: rest =>
    let (command, args) := strsep (some rest) (literal " ")
    first.val ≠ 47 ∨ command = some (literal "list") ∨
      command = some (literal "nick") ∧ NickFree world client args

/-- Handling the event takes an iterator. -/
def Iterates (world : World) : HandledEvent → Prop
  | line client text => LineIterates world client text
  | connect _ | disconnect _ | list _ _ | channelMessage _ => True
  | nick client arg => NickFree world client arg
  | msg _ _ => False

end HandledEvent

section Object
variable {world : World}

omit [CMemory] in
theorem lock_retain_ne (object : Object) : object.lock.retain ≠ object := by
  intro same
  have depth : object.lockDepth + 1 = object.lockDepth := congrArg Object.lockDepth same
  omega

omit [CMemory] in
theorem withoutNickname_object (clients : Dictionary ClientRef) (nickname : Option CString) :
    (withoutNickname clients nickname).object = clients.object := by
  cases nickname with
  | none => rfl
  | some old => exact dictionaryRemove_object clients old

omit [CMemory] in
theorem clientSetNickname_object (world : World) (client : ClientRef) (nick : CString) :
    (clientSetNickname world client nick).2.clients.object = world.clients.object := by
  rcases clientSetNickname_cases world client nick with ⟨same, _⟩ | ⟨same, _⟩ | ⟨changed, _⟩
  · rw [same]
  · rw [same]
  · rw [changed, renamed, dictionarySet_object, withoutNickname_object]

omit [CMemory] in
theorem setTemporaryNickname_object (world : World) (client : ClientRef) (i rounds : Nat) :
    (setTemporaryNickname world client i rounds).clients.object = world.clients.object := by
  apply setTemporaryNickname_invariant (P := fun after => after.clients.object = world.clients.object)
  · exact fun between nick same => (clientSetNickname_object between client nick).trans same
  · rfl

theorem serverSendChannelMessage_object (world : World) (msg : CString) :
    (serverSendChannelMessage world msg).clients.object = world.clients.object.lock.retain := by
  refine DictionaryIterator.iteratorLoop_invariant
    (P := fun state : World => state.clients.object = world.clients.object.lock.retain) _ ?_ _ _ rfl
  intro state key value kept
  cases value with
  | none => exact kept
  | some c => exact kept

theorem clientHandleListCommand_object (world : World) (client : ClientRef) (arg : Option CString) :
    (clientHandleListCommand world client arg).clients.object = world.clients.object.lock.retain := by
  apply clientHandleListCommand_elim (P := fun after => after.clients.object = world.clients.object.lock.retain)
  · rfl
  · exact fun state text kept => kept

theorem clientHandleMsgCommand_object (world : World) (client : ClientRef) (arg : Option CString) :
    (clientHandleMsgCommand world client arg).clients.object = world.clients.object := by
  apply clientHandleMsgCommand_elim (P := fun after => after.clients.object = world.clients.object)
  · exact fun text => rfl
  · exact fun name recpt msg found => rfl

theorem clientDisconnect_object (world : World) (client : ClientRef) :
    (clientDisconnect world client).clients.object = world.clients.object.lock.retain := by
  have told := serverSendChannelMessage_object (unregistered world client)
    (world.nicknameText client ++ literal " has left...")
  have removed : (unregistered world client).clients.object = world.clients.object :=
    withoutNickname_object world.clients _
  rw [removed] at told
  exact told

theorem clientCreate_object (world : World) (socket : Int) :
    (clientCreate world socket).clients.object = world.clients.object.lock.retain := by
  have told := serverSendChannelMessage_object (nameClient world socket)
    ((nameClient world socket).nicknameText world.allocated ++ literal " has entered...")
  have named : (nameClient world socket).clients.object = world.clients.object :=
    setTemporaryNickname_object (allocateClient world socket) world.allocated 1 (2 ^ 32 - 2)
  rw [named] at told
  exact told

/-- An event either leaves the object as it was, or locks and retains it once more. -/
inductive Effect (before after : Object) (iterates : Prop) : Prop where
  | kept (not : ¬iterates) (same : after = before)
  | leaked (does : iterates) (more : after = before.lock.retain)

omit [CMemory] in
theorem Effect.balanced (effect : Effect before after iterates) : after = before ↔ ¬iterates := by
  cases effect with
  | kept not same => exact ⟨fun _ => not, fun _ => same⟩
  | leaked does more =>
    constructor
    · intro same
      exact absurd (more.symm.trans same) (lock_retain_ne before)
    · intro not
      exact absurd does not

end Object

section Handlers
open HandledEvent
variable {world : World}

theorem clientHandleNickCommand_effect (registry : Registry world.Connected world)
    (connected : world.Connected client) (arg : Option CString) :
    Effect world.clients.object (clientHandleNickCommand world client arg).clients.object
      (NickFree world client arg) := by
  cases arg with
  | none =>
    apply Effect.kept
    · rintro ⟨name, none, _⟩
      cases none
    · rfl
  | some arg =>
    have set := registry.allOrNothing (fun _ _ => .rfl) (.inl connected) arg
    have object := clientSetNickname_object world client arg
    simp only [clientHandleNickCommand]
    split
    · rename_i after result
      rw [result] at object
      apply Effect.leaked
      · refine ⟨arg, rfl, ?_⟩
        rw [← not_or, ← set.refused, result]
        exact Bool.noConfusion
      · rw [serverSendChannelMessage_object, object]
    · rename_i after result
      rw [result] at object
      apply Effect.kept
      · rintro ⟨name, same, free⟩
        obtain rfl := Option.some.inj same
        rw [← not_or, ← set.refused, result] at free
        exact free rfl
      · exact object

omit [CMemory] in
theorem command_eq {command : Option CString} :
    (command.any fun word => decide (strcmp name word = 0)) = true ↔ command = some name := by
  rw [Option.any_eq_true]
  constructor
  · rintro ⟨word, rfl, same⟩
    rw [strcmp_eq_zero.mp (of_decide_eq_true same)]
  · rintro rfl
    exact ⟨name, rfl, decide_eq_true (strcmp_self name)⟩

theorem clientHandleLine_effect (registry : Registry world.Connected world)
    (connected : world.Connected client) (line : CString) :
    Effect world.clients.object (clientHandleLine world client line).clients.object
      (LineIterates world client line) := by
  cases line with
  | nil => exact .kept id rfl
  | cons first rest =>
    have recorded : Registry (world.record (.handleLine client (first :: rest))).Connected
        (world.record (.handleLine client (first :: rest))) := registry.recorded _
    simp only [clientHandleLine, LineIterates]
    split
    · rename_i slash
      generalize strsep (some rest) (literal " ") = words
      have channel : ¬first.val ≠ 47 := fun other => other slash
      split
      · rename_i definition found
        have applies : (words.1.any fun word => decide (strcmp definition.name word = 0)) = true := by
          have predicate := List.find?_some found
          exact predicate
        have named := command_eq.mp applies
        have mem := List.mem_of_find?_eq_some found
        simp only [commandDefs, List.mem_cons, List.not_mem_nil, or_false] at mem
        rw [named, or_iff_right channel, Option.some.injEq, Option.some.injEq]
        rcases mem with rfl | rfl | rfl
        · have other : literal "nick" ≠ literal "list" := by decide +kernel
          rw [or_iff_right other, and_iff_right rfl]
          exact clientHandleNickCommand_effect recorded connected words.2
        · have list : literal "msg" ≠ literal "list" := by decide +kernel
          have nick : literal "msg" ≠ literal "nick" := by decide +kernel
          rw [or_iff_right list]
          exact .kept (fun which => nick which.1) (clientHandleMsgCommand_object _ client words.2)
        · exact .leaked (.inl rfl) (clientHandleListCommand_object _ client words.2)
      · rename_i unknown
        apply Effect.kept
        · have absent : ∀ definition ∈ commandDefs, words.1 ≠ some definition.name := by
            intro definition mem same
            exact List.find?_eq_none.mp unknown definition mem (command_eq.mpr same)
          rw [or_iff_right channel]
          rintro (list | ⟨nick, _⟩)
          · exact absent _ (List.mem_of_mem_getLast? rfl) list
          · exact absent _ List.mem_cons_self nick
        · rfl
    · rename_i other
      exact .leaked (.inl other) (serverSendChannelMessage_object _ _)

/-- Every handler either gives back what it takes, or takes an iterator and leaves it. -/
theorem handle_effect (registry : Registry world.Connected world) (event : HandledEvent)
    (connected : event.FromConnected world) :
    Effect world.clients.object (event.handle world).clients.object (event.Iterates world) := by
  cases event with
  | line client text => exact clientHandleLine_effect registry connected text
  | connect socket => exact .leaked trivial (clientCreate_object world socket)
  | disconnect client => exact .leaked trivial (clientDisconnect_object world client)
  | nick client arg => exact clientHandleNickCommand_effect registry connected arg
  | msg client arg => exact .kept id (clientHandleMsgCommand_object world client arg)
  | list client arg => exact .leaked trivial (clientHandleListCommand_object world client arg)
  | channelMessage text => exact .leaked trivial (serverSendChannelMessage_object world text)

end Handlers

section Runs
open HandledEvent
variable {world : World}

/-- The line that these bytes complete in the input buffer. -/
def completedLine (buffer : Buffer) (bytes : List UInt8) : Option CString :=
  let received := receive (makeRoom buffer) bytes
  (strchr received.memory 10).map fun newlineSeparator =>
    stringAt (memcpy received.memory newlineSeparator [0])

/-- A callback of the poll thread takes an iterator: a client comes or goes, or one has sent a
line whose handling takes one. -/
def Event.Iterates (world : World) : Event → Prop
  | .accepted _ | .hungUp _ => True
  | .readable client result => result.getD [] = [] ∨
    ∃ line, completedLine (world.client client).inBuffer (result.getD []) = some line ∧
      LineIterates world client line
  | .writable _ len => len ≤ 0

def QuietStep (world : World) (event : Event) (after : World) : Prop :=
  ServerStep world event after ∧ ¬event.Iterates world

omit [CMemory] in
/-- Only connections and nicknames decide whether a line takes an iterator. -/
theorem lineIterates_congr (same : SameRegistration world after) (client : ClientRef) (line : CString) :
    LineIterates after client line ↔ LineIterates world client line := by
  have held : ∀ nickname, HeldByOther after client nickname ↔ HeldByOther world client nickname := by
    intro nickname
    simp only [HeldByOther, same.connected, same.nickname]
  cases line with
  | nil => exact .rfl
  | cons first rest => simp only [LineIterates, NickFree, held]

theorem clientReceived_object (registry : Registry world.Connected world)
    (connected : world.Connected client) (bytes : List UInt8)
    (quiet : ∀ line, completedLine (world.client client).inBuffer bytes = some line →
      ¬LineIterates world client line) :
    (clientReceived (setInBuffer world client (makeRoom (world.client client).inBuffer)) client
      bytes).clients.object = world.clients.object := by
  have grown := SameRegistration.setInBuffer world client (makeRoom (world.client client).inBuffer)
  generalize room : makeRoom (world.client client).inBuffer = buffer at grown ⊢
  have stored : ((setInBuffer world client buffer).client client).inBuffer = buffer := by
    rw [setInBuffer, World.setClient_self]
  cases found : strchr (receive buffer bytes).memory 10 with
  | none =>
    have recorded : (((setInBuffer world client buffer).record (.recv client bytes)).client
      client).inBuffer = buffer := stored
    simp only [clientReceived, recorded, found]
    rfl
  | some n =>
    rw [clientReceived_line stored found]
    have completed : completedLine (world.client client).inBuffer bytes =
        some (stringAt (memcpy (receive buffer bytes).memory n [0])) := by
      rw [completedLine, room]
      simp only [found, Option.map_some]
    simp only
    generalize ({ receive buffer bytes with memory := memcpy (receive buffer bytes).memory n [0] } :
      Buffer) = terminated
    have same := (grown.trans (.record _ (.recv client bytes))).trans
      (.setInBuffer _ client terminated)
    have effect := clientHandleLine_effect (same.registry registry)
      ((same.connected client).mpr connected) (stringAt (memcpy (receive buffer bytes).memory n [0]))
    refine effect.balanced.mpr ?_
    rw [lineIterates_congr same]
    exact quiet _ completed

theorem quietStep_object (registry : Registry world.Connected world)
    (step : QuietStep world event after) : after.clients.object = world.clients.object := by
  obtain ⟨⟨admissible, rfl⟩, quiet⟩ := step
  cases event with
  | accepted socket => exact absurd trivial quiet
  | hungUp client => exact absurd trivial quiet
  | readable client result =>
    cases result with
    | none => exact absurd (.inl rfl) quiet
    | some bytes =>
      cases bytes with
      | nil => exact absurd (.inl rfl) quiet
      | cons b bytes =>
        apply clientReceived_object registry admissible.1
        intro line completed iterates
        exact quiet (.inr ⟨line, completed, iterates⟩)
  | writable client len =>
    have positive : ¬len ≤ 0 := quiet
    simp only [handleEvent, clientDoWrite, if_neg positive]
    split
    · rfl
    · rfl

theorem QuietStep.reachable (reachable : Reachable world) (step : QuietStep world event after) :
    Reachable after := by
  obtain ⟨events, run⟩ := reachable
  exact ⟨events ++ [event], .snoc run step.1⟩

theorem quietRun_object (reachable : Reachable world)
    (run : Transition.Run QuietStep world events after) :
    Reachable after ∧ after.clients.object = world.clients.object := by
  refine run.invariant (P := fun after => Reachable after ∧ after.clients.object = world.clients.object)
    ⟨reachable, rfl⟩ ?_
  rintro before event next ⟨reached, same⟩ step
  exact ⟨step.reachable reached, (quietStep_object (reachable_registry reached) step).trans same⟩

/-- Wherever an event is handled the registry is that of a reachable state. The handler gives
back the lock and the references it takes if and only if it takes no iterator, and so does
every run of callbacks that take none. -/
theorem clients_lock_balanced (reachable : Reachable reached) (same : SameRegistration reached world) :
    (∀ event : HandledEvent, event.FromConnected world →
      ((event.handle world).clients.object = world.clients.object ↔ ¬event.Iterates world)) ∧
    ∀ events after, Transition.Run QuietStep reached events after →
      after.clients.object = reached.clients.object := by
  have registry := same.registry (reachable_registry reachable)
  refine ⟨fun event connected => (handle_effect registry event connected).balanced, ?_⟩
  intro events after run
  exact (quietRun_object reachable run).2

end Runs

omit [CMemory] in
theorem clients_lock_balanced_oneClient :
    (@clientHandleMsgCommand .zeroed oneClient 0 none).clients.object = oneClient.clients.object := by
  let _ := CMemory.zeroed
  have reachable : Reachable oneClient := ⟨[.accepted 5], oneClient_spec.1⟩
  exact ((clients_lock_balanced reachable (.refl _)).1 (.msg 0 none) oneClient_spec.2.1).mpr id

omit [CMemory] in
/-- The first client asks for the list: the dictionary stays locked and retained. -/
theorem clients_lock_leaked : @Reachable .zeroed oneClient ∧ oneClient.Connected 0 ∧
    (@clientHandleListCommand .zeroed oneClient 0 none).clients.object ≠ oneClient.clients.object := by
  let _ := CMemory.zeroed
  refine ⟨⟨[.accepted 5], oneClient_spec.1⟩, oneClient_spec.2.1, ?_⟩
  rw [clientHandleListCommand_object]
  exact lock_retain_ne _

end KommunikationNetze.Chat
