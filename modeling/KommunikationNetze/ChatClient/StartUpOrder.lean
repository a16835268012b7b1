import KommunikationNetze.ChatClient.StartUp
import KommunikationNetze.Chat.PollInvariant

/-! The order in which the chat client starts. A handler finds its descriptor stored, save for
`ClientReceive`: the socket is registered first, and its descriptor is the one for the
output of the GUI, which is stored last. -/
namespace KommunikationNetze.ChatClient
open CLib SwapRemove
open Chat (PollDescriptor PollEntry PollUpdate PollState pollIn pollOut pollErr pollHup pollNval)

def StartingClient.Has (client : StartingClient) (block : ClientBlock) : Prop :=
  client.pollDescriptor block ≠ none

/-- The descriptor that the call of a handler is for. -/
def Handler.uses : Handler → Option ClientBlock
  | .receive | .guiWrite => some .guiOut
  | .send | .guiRead => some .socket
  | .quit | .ignore => none

/-- The descriptor of the block that is asked for output is stored. -/
def OutputStored (client : StartingClient) (events : BitVec 16) (block : Option ClientBlock) : Prop :=
  events &&& pollOut ≠ 0 → ∃ b, block = some b ∧ client.Has b

/-- The input of the GUI is registered when the descriptor of the socket is stored. -/
def Ordered (client : StartingClient) (block : Option ClientBlock) : Prop :=
  block = some .guiIn → client.Has .socket

/-- The blocks are listed by the numbers of their descriptors. -/
structure EntryStored (owner : List (Option ClientBlock)) (client : StartingClient)
    (entry : PollEntry PollDescriptor (Option ClientBlock)) : Prop where
  owner : owner[entry.descriptorObject]? = some entry.block
  ordered : Ordered client entry.block
  asked : OutputStored client entry.events entry.block
  reported : OutputStored client entry.revents entry.block

def UpdateStored (owner : List (Option ClientBlock)) (client : StartingClient) :
    PollUpdate (Option ClientBlock) → Prop
  | .register pd _ events _ block =>
    owner[pd]? = some block ∧ events &&& pollOut = 0 ∧ Ordered client block
  | .addEvents pd _ => ∃ b, owner[pd]? = some (some b) ∧ client.Has b
  | .removeEvents _ _ | .removeDescriptor _ => True

def MainStored (owner : List (Option ClientBlock)) (client : StartingClient) : CreateThread → Prop
  | .registering block => Ordered client (some block)
  | .assigning block pd => owner[pd]? = some (some block)
  | .created => True

def ThreadStored (client : StartingClient) : HandlerThread → Prop
  | .handling _ handler => handler ≠ .receive → ∀ b ∈ handler.uses, client.Has b
  | .calling _ call => client.Has call.block
  | _ => True

structure Stored (owner : List (Option ClientBlock)) (s : StartUp) : Prop where
  created : s.poll.poll.descriptors = owner.length
  entries : ∀ entry ∈ s.poll.table, EntryStored owner s.client entry
  updates : ∀ update ∈ s.poll.poll.updateQueue, UpdateStored owner s.client update
  fields : ∀ b pd, s.client.pollDescriptor b = some pd → owner[pd]? = some (some b)
  main : MainStored owner s.client s.main
  thread : ThreadStored s.client s.thread

/-- Descriptors are created, and what is stored stays stored. -/
structure Grows (owner : List (Option ClientBlock)) (client : StartingClient)
    (created : List (Option ClientBlock)) (next : StartingClient) : Prop where
  owner : ∀ (pd : PollDescriptor) (block : Option ClientBlock), owner[pd]? = some block →
    created[pd]? = some block
  has : ∀ b, client.Has b → next.Has b

section Grows
variable {owner created : List (Option ClientBlock)} {client next : StartingClient}

theorem grows_append (block : Option ClientBlock) : Grows owner client (owner ++ [block]) client where
  owner pd block known := by
    rw [List.getElem?_append_left (List.getElem?_eq_some_iff.mp known).1]
    exact known
  has _ has := has

theorem grows_client (has : ∀ b, client.Has b → next.Has b) : Grows owner client owner next :=
  ⟨fun _ _ known => known, has⟩

theorem OutputStored.grows (stored : OutputStored client events block)
    (grows : Grows owner client created next) : OutputStored next events block := by
  intro asked
  obtain ⟨b, same, has⟩ := stored asked
  exact ⟨b, same, grows.has b has⟩

theorem Ordered.grows {block : Option ClientBlock} (ordered : Ordered client block)
    (grows : Grows owner client created next) : Ordered next block :=
  fun same => grows.has _ (ordered same)

theorem EntryStored.grows {entry : PollEntry PollDescriptor (Option ClientBlock)}
    (stored : EntryStored owner client entry) (grows : Grows owner client created next) :
    EntryStored created next entry :=
  ⟨grows.owner _ _ stored.owner, stored.ordered.grows grows, stored.asked.grows grows,
    stored.reported.grows grows⟩

theorem UpdateStored.grows {update : PollUpdate (Option ClientBlock)}
    (stored : UpdateStored owner client update) (grows : Grows owner client created next) :
    UpdateStored created next update := by
  cases update with
  | register => exact ⟨grows.owner _ _ stored.1, stored.2.1, stored.2.2.grows grows⟩
  | addEvents =>
    obtain ⟨b, known, has⟩ := stored
    exact ⟨b, grows.owner _ _ known, grows.has b has⟩
  | _ => trivial

theorem MainStored.grows {main : CreateThread} (stored : MainStored owner client main)
    (grows : Grows owner client created next) : MainStored created next main := by
  cases main with
  | registering => exact Ordered.grows stored grows
  | assigning => exact grows.owner _ _ stored
  | created => trivial

theorem ThreadStored.grows {thread : HandlerThread} (stored : ThreadStored client thread)
    (grows : Grows owner client created next) : ThreadStored next thread := by
  cases thread with
  | handling => exact fun other b uses => grows.has b (stored other b uses)
  | calling => exact grows.has _ stored
  | _ => trivial

end Grows

section Apply
variable {owner : List (Option ClientBlock)} {client : StartingClient}
  {table after : Chat.PollTable PollDescriptor (Option ClientBlock)}
  {update : PollUpdate (Option ClientBlock)}

/-- A change of the entry of a descriptor. -/
theorem entries_modify (entries : ∀ entry ∈ table, EntryStored owner client entry)
    {change : PollEntry PollDescriptor (Option ClientBlock) → PollEntry PollDescriptor (Option ClientBlock)}
    (found : Chat.pollIndexForDescriptor table pd = some i)
    (changed : ∀ entry, entry.descriptorObject = pd → EntryStored owner client entry →
      EntryStored owner client (change entry)) :
    ∀ entry ∈ table.modify i change, EntryStored owner client entry := by
  intro entry mem
  obtain ⟨j, at_⟩ := List.mem_iff_getElem?.mp mem
  rw [List.getElem?_modify] at at_
  obtain ⟨old, held, rfl⟩ := Option.map_eq_some_iff.mp at_
  have stored := entries old (List.mem_of_getElem? held)
  split
  · rename_i here
    obtain ⟨inside, its, _⟩ := List.findIdx?_eq_some_iff_getElem.mp found
    apply changed old ?_ stored
    subst here
    rw [List.getElem?_eq_getElem inside, Option.some.injEq] at held
    rw [← held]
    exact of_decide_eq_true its
  · exact stored

theorem entries_apply (entries : ∀ entry ∈ table, EntryStored owner client entry)
    (stored : UpdateStored owner client update) (applied : update.apply table = some after) :
    ∀ entry ∈ after, EntryStored owner client entry := by
  cases update with
  | register pd fd events queue block =>
    obtain rfl := Option.some.inj applied
    obtain ⟨known, quiet, ordered⟩ := stored
    intro entry mem
    rcases List.mem_append.mp mem with old | new
    · exact entries entry old
    · obtain rfl := List.mem_singleton.mp new
      exact ⟨known, ordered, fun asked => absurd quiet asked,
        fun reported => absurd BitVec.zero_and reported⟩
  | addEvents pd events =>
    obtain ⟨i, found, rfl⟩ := Option.map_eq_some_iff.mp applied
    obtain ⟨b, known, has⟩ := stored
    apply entries_modify entries found
    intro entry its old
    refine { old with asked := fun _ => ⟨b, ?_, has⟩ }
    have owner := old.owner
    rw [its, known] at owner
    exact (Option.some.inj owner).symm
  | removeEvents pd events =>
    obtain ⟨i, found, rfl⟩ := Option.map_eq_some_iff.mp applied
    apply entries_modify entries found
    intro entry _ old
    refine { old with asked := fun asked => old.asked fun none => asked ?_ }
    rw [BitVec.and_assoc, BitVec.and_comm (~~~events), ← BitVec.and_assoc, none]
    exact BitVec.zero_and
  | removeDescriptor pd =>
    obtain ⟨i, found, rfl⟩ := Option.map_eq_some_iff.mp applied
    intro entry mem
    obtain ⟨inside, _⟩ := List.findIdx?_eq_some_iff_getElem.mp found
    have all := cons_swapRemove_perm (List.getElem?_eq_getElem inside)
    exact entries entry (all.mem_iff.mp (List.mem_cons_of_mem _ mem))

end Apply

section Step
variable {owner : List (Option ClientBlock)} {s t : StartUp}

theorem pollDescriptor_assign (client : StartingClient) (pd : PollDescriptor) (block b : ClientBlock) :
    (client.assign pd block).pollDescriptor b = if b = block then some pd else client.pollDescriptor b := by
  cases block <;> cases b <;> rfl

theorem has_assign (client : StartingClient) (pd : PollDescriptor) (block b : ClientBlock) :
    (client.assign pd block).Has b ↔ b = block ∨ client.Has b := by
  rw [StartingClient.Has, pollDescriptor_assign]
  split
  · rename_i same
    exact iff_of_true (Option.some_ne_none pd) (.inl same)
  · rename_i other
    exact (or_iff_right other).symm

/-- Which descriptor a handler needs, by the block that calls it. -/
theorem handler_uses {block : ClientBlock} {handler : Handler} (calls : block.handler revents = handler)
    (other : handler ≠ .receive) (uses : b ∈ handler.uses) :
    block = .guiIn ∧ b = .socket ∨ block = b ∧ revents &&& pollOut ≠ 0 := by
  cases handler with
  | receive => exact absurd rfl other
  | quit | ignore => cases uses
  | send =>
    cases uses
    right
    cases block <;> grind [ClientBlock.handler]
  | guiRead =>
    cases uses
    left
    cases block <;> grind [ClientBlock.handler]
  | guiWrite =>
    cases uses
    right
    cases block <;> grind [ClientBlock.handler]

/-- A ready entry calls a handler whose descriptor is stored, unless it is `ClientReceive`. -/
theorem handlerOf_stored {client : StartingClient} {entry : PollEntry PollDescriptor (Option ClientBlock)}
    (stored : EntryStored owner client entry) :
    ThreadStored client (.handling i (handlerOf entry.revents entry.block)) := by
  intro other b uses
  cases held : entry.block with
  | none =>
    rw [held] at uses
    cases uses
  | some block =>
    rw [held] at uses other
    rcases handler_uses rfl other uses with ⟨rfl, rfl⟩ | ⟨rfl, out⟩
    · exact stored.ordered held
    · obtain ⟨its, same, has⟩ := stored.reported out
      rw [held] at same
      exact Option.some.inj same ▸ has

theorem Stored.registers (stored : Stored owner s) {block : Option ClientBlock} (fd : Int)
    (ordered : Ordered s.client block) (quiet : events &&& pollOut = 0) :
    Stored (owner ++ [block]) (s.registers fd events block).2 ∧
      (owner ++ [block])[(s.registers fd events block).1]? = some block := by
  have grows : Grows owner s.client (owner ++ [block]) s.client := grows_append block
  have newest : (owner ++ [block])[s.poll.poll.descriptors]? = some block := by
    rw [stored.created, List.getElem?_concat_length]
  refine ⟨⟨?_, ?_, ?_, ?_, stored.main.grows grows, stored.thread.grows grows⟩, newest⟩
  · rw [List.length_append, List.length_singleton, ← stored.created]
    rfl
  · exact fun entry mem => (stored.entries entry mem).grows grows
  · intro update mem
    rcases List.mem_append.mp mem with old | new
    · exact (stored.updates update old).grows grows
    · obtain rfl := List.mem_singleton.mp new
      exact ⟨newest, quiet, ordered⟩
  · exact fun b pd held => grows.owner _ _ (stored.fields b pd held)

theorem Stored.assigns (stored : Stored owner s) (at_ : s.main = .assigning block pd) :
    Stored owner { s with client := s.client.assign pd block, main := block.next } := by
  have known := stored.main
  rw [at_] at known
  have grows : Grows owner s.client owner (s.client.assign pd block) :=
    grows_client fun b has => (has_assign s.client pd block b).mpr (.inr has)
  refine ⟨stored.created, fun entry mem => (stored.entries entry mem).grows grows,
    fun update mem => (stored.updates update mem).grows grows, ?_, ?_, stored.thread.grows grows⟩
  · intro b q held
    simp only [pollDescriptor_assign] at held
    split at held
    · rename_i same
      rw [same, ← Option.some.inj held]
      exact known
    · exact stored.fields b q held
  · cases block with
    | socket =>
      intro _
      exact (has_assign s.client pd .socket .socket).mpr (.inl rfl)
    | guiIn =>
      intro other
      cases other
    | guiOut => trivial

theorem Stored.applies (stored : Stored owner s) {poll : PollState (Option ClientBlock)}
    (done : s.poll.applyNext = some poll) : Stored owner { s with poll } := by
  rw [PollState.applyNext] at done
  split at done
  · obtain rfl := Option.some.inj done
    exact stored
  · rename_i update rest waiting
    obtain ⟨table, applied, rfl⟩ := Option.map_eq_some_iff.mp done
    have updates := stored.updates
    rw [waiting] at updates
    refine { stored with entries := ?_, updates := ?_ }
    · exact entries_apply stored.entries (updates update List.mem_cons_self) applied
    · exact fun other mem => updates other (List.mem_cons_of_mem _ mem)

theorem Stored.polls (stored : Stored owner s) {revents : Nat → Net.Revents}
    (reports : ReportsAsked s.poll.table revents) {thread : HandlerThread}
    (next : ThreadStored s.client thread) :
    Stored owner { s with poll := s.poll.callPoll revents, thread } := by
  refine { stored with entries := ?_, thread := next }
  intro entry mem
  obtain ⟨i, inside, rfl⟩ := List.mem_mapIdx.mp mem
  have old := stored.entries _ (List.getElem_mem inside)
  refine { old with reported := fun out => old.asked ?_ }
  exact Chat.reports_out (reports i _ (List.getElem?_eq_getElem inside)) out

theorem visit_same {poll after : PollState (Option ClientBlock)}
    (done : poll.visit (fun _ => []) i = some after) : after.table = poll.table ∧ after.poll = poll.poll := by
  rw [PollState.visit] at done
  split at done
  · split at done <;> cases done <;> exact ⟨rfl, rfl⟩
  · cases done

theorem Stored.visits (stored : Stored owner s) {poll : PollState (Option ClientBlock)}
    (done : s.poll.visit (fun _ => []) i = some poll) {thread : HandlerThread}
    (next : ThreadStored s.client thread) :
    Stored owner { s with poll, thread } := by
  obtain ⟨table, queue⟩ := visit_same done
  refine { stored with created := ?_, entries := ?_, updates := ?_, thread := next }
  · rw [queue]
    exact stored.created
  · rw [table]
    exact stored.entries
  · rw [queue]
    exact stored.updates

theorem afterUpdates_stored (client : StartingClient) (call : Net.ApplyUpdates) :
    ThreadStored client (afterUpdates call) := by
  cases call with
  | beforePoll => trivial
  | afterPoll failed => cases failed <;> trivial

theorem Stored.calls (stored : Stored owner s) {call : EventCall}
    (assigned : s.client.pollDescriptor call.block = some pd) :
    Stored owner ((s.updating (call.request pd s.poll.poll)).moves (.visiting i)) := by
  have known := stored.fields call.block pd assigned
  have has : s.client.Has call.block := by rw [StartingClient.Has, assigned]; exact Option.some_ne_none pd
  refine { stored with created := ?_, updates := ?_, thread := trivial }
  · refine Eq.trans ?_ stored.created
    simp only [StartUp.moves, StartUp.updating, EventCall.request]
    split <;> rfl
  · intro update mem
    simp only [StartUp.moves, StartUp.updating, EventCall.request] at mem
    split at mem
    all_goals
      rcases List.mem_append.mp mem with old | new
      · exact stored.updates update old
      · obtain rfl := List.mem_singleton.mp new
        first
        | exact ⟨call.block, known, has⟩
        | trivial

/-- The poll thread calls for a descriptor that is stored, if it is at such a call. -/
def CallsStored (s : StartUp) : Prop :=
  ∀ i call, s.thread = .calling i call → s.client.pollDescriptor call.block ≠ none

theorem Stored.callsStored (stored : Stored owner s) : CallsStored s := by
  intro i call at_
  have thread := stored.thread
  rw [at_] at thread
  exact thread

end Step

section Run
variable [CMemory] {owner : List (Option ClientBlock)} {s t : StartUp} {client next : StartingClient}

/-- A handler stores no descriptor, and calls for the one it uses. -/
theorem handle_spec {handler : Handler} (done : client.handle handler result = some (next, call)) :
    next.pollDescriptor = client.pollDescriptor ∧ ∀ c, call = some c → handler.uses = some c.block := by
  cases handler with
  | quit | ignore =>
    cases result with
    | nothing =>
      cases done
      exact ⟨rfl, fun c same => by cases same⟩
    | _ => cases done
  | receive | guiRead =>
    cases result with
    | read bytes =>
      obtain ⟨⟨relay, more⟩, _, made⟩ := Option.map_eq_some_iff.mp done
      cases more <;> cases made
      · exact ⟨rfl, fun c same => by cases same⟩
      · exact ⟨rfl, fun c same => by cases same; rfl⟩
    | _ => cases done
  | send | guiWrite =>
    cases result with
    | written len =>
      obtain ⟨⟨relay, written⟩, _, made⟩ := Option.map_eq_some_iff.mp done
      cases written <;> cases made
      · exact ⟨rfl, fun c same => by cases same⟩
      · exact ⟨rfl, fun c same => by cases same; rfl⟩
      · exact ⟨rfl, fun c same => by cases same⟩
    | _ => cases done

/-- `ClientReceive` calls for its descriptor exactly if it has received something. -/
theorem handle_receive (done : client.handle .receive result = some (next, call)) :
    (call = some ⟨true, .guiOut⟩ ∧ ∃ bytes, result = .read (some bytes) ∧ bytes ≠ []) ∨
      (call = none ∧ result = .read (some [])) := by
  cases result with
  | read bytes =>
    cases bytes with
    | none => cases done
    | some bytes =>
      cases bytes with
      | nil =>
        cases done
        exact .inr ⟨rfl, rfl⟩
      | cons b rest =>
        cases done
        exact .inl ⟨rfl, b :: rest, rfl, List.cons_ne_nil b rest⟩
  | _ => cases done

/-- Nothing is received before `guiOutPollDescriptor` is stored. -/
def ReceivesLate (s : StartUp) (event : StartUpEvent) : Prop :=
  ∀ i bytes, s.thread = .handling i .receive → event = .returned (.read (some bytes)) → bytes ≠ [] →
    s.client.guiOutPollDescriptor ≠ none

theorem Stored.handles (stored : Stored owner s) (at_ : s.thread = .handling i handler)
    (done : s.client.handle handler result = some (next, call)) (late : ReceivesLate s (.returned result)) :
    Stored owner { s with client := next, thread := call.elim (.visiting (i + 1)) (.calling i) } := by
  obtain ⟨same, uses⟩ := handle_spec done
  have has : ∀ b, s.client.Has b → next.Has b := by
    intro b has
    rw [StartingClient.Has, same]
    exact has
  have grows : Grows owner s.client owner next := grows_client has
  refine ⟨stored.created, fun entry mem => (stored.entries entry mem).grows grows,
    fun update mem => (stored.updates update mem).grows grows, ?_, stored.main.grows grows, ?_⟩
  · intro b pd held
    rw [same] at held
    exact stored.fields b pd held
  · cases call with
    | none => trivial
    | some call =>
      apply has
      have thread := stored.thread
      rw [at_] at thread
      by_cases receives : handler = .receive
      · subst receives
        rcases handle_receive done with ⟨made, bytes, rfl, nonempty⟩ | ⟨none, _⟩
        · cases made
          exact late i bytes at_ rfl nonempty
        · cases none
      · exact thread receives call.block (uses call rfl)

theorem stored_step (held : ∃ owner, Stored owner s) (late : ReceivesLate s event)
    (stepped : StartUpStep s event t) : ∃ owner, Stored owner t := by
  obtain ⟨owner, stored⟩ := held
  cases stepped with
  | register at_ registered =>
    rename_i block pd next
    have ordered := stored.main
    rw [at_] at ordered
    have quiet : block.events &&& pollOut = 0 := by cases block <;> decide
    obtain ⟨after, newest⟩ := stored.registers (s.client.fd block) ordered quiet
    rw [registered] at after newest
    exact ⟨_, { after with main := newest }⟩
  | assign at_ => exact ⟨owner, stored.assigns at_⟩
  | start at_ pipe =>
    have ordered : Ordered s.client none := fun same => by cases same
    have quiet : pollIn &&& pollOut = 0 := by decide
    obtain ⟨after, _⟩ := stored.registers pipe ordered quiet
    exact ⟨_, { after with thread := trivial }⟩
  | apply at_ waiting done => exact ⟨owner, stored.applies done⟩
  | drained at_ empty =>
    exact ⟨owner, { stored with thread := afterUpdates_stored s.client _ }⟩
  | poll at_ reports => exact ⟨owner, stored.polls reports trivial⟩
  | pollFailed at_ => exact ⟨owner, { stored with thread := trivial }⟩
  | visit at_ more found done =>
    refine ⟨owner, stored.visits done ?_⟩
    split
    · exact handlerOf_stored (stored.entries _ (List.mem_of_getElem? found))
    · trivial
  | again at_ done => exact ⟨owner, { stored with thread := trivial }⟩
  | handle at_ done => exact ⟨owner, stored.handles at_ done late⟩
  | call at_ assigned => exact ⟨owner, stored.calls assigned⟩

/-- A step that does not receive too early. -/
def LateStep (s : StartUp) (event : StartUpEvent) (t : StartUp) : Prop :=
  ReceivesLate s event ∧ StartUpStep s event t

/-- As long as nothing was received before `guiOutPollDescriptor` was stored, every call for a
descriptor finds it stored; and the next step leads to a call that may not, exactly if it
receives something too early. -/
theorem start_up_order {socket guiInFD guiOutFD : Int}
    (run : Transition.Run LateStep (startUp socket guiInFD guiOutFD) events s) :
    CallsStored s ∧ ∀ event t, StartUpStep s event t → (CallsStored t ↔ ReceivesLate s event) := by
  have held : ∃ owner, Stored owner s := by
    refine run.invariant (P := fun s => ∃ owner, Stored owner s) ⟨[], rfl, ?_, ?_, ?_, ?_, ?_⟩ ?_
    · exact fun entry mem => absurd mem List.not_mem_nil
    · exact fun update mem => absurd mem List.not_mem_nil
    · intro b pd held
      cases b <;> cases held
    · intro same
      cases same
    · exact trivial
    · intro s event t held stepped
      exact stored_step held stepped.1 stepped.2
  refine ⟨held.elim fun _ stored => stored.callsStored, fun event t stepped => ⟨?_, ?_⟩⟩
  · rintro stored i bytes at_ rfl nonempty
    cases stepped with
    | handle position done =>
      obtain ⟨rfl, rfl⟩ := HandlerThread.handling.inj (at_.symm.trans position)
      rcases handle_receive done with ⟨rfl, _⟩ | ⟨_, none⟩
      · have has := stored i ⟨true, .guiOut⟩ rfl
        rw [(handle_spec done).1] at has
        exact has
      · cases none
        exact absurd rfl nonempty
  · intro late
    obtain ⟨owner, stored⟩ := stored_step held late stepped
    exact stored.callsStored

end Run
section Early

def HandlerThread.receives : HandlerThread → Bool
  | .handling _ .receive => true
  | _ => false

/-- A step somewhere else. -/
theorem elsewhere [CMemory] {origin s t : StartUp} (run : Transition.Run LateStep origin events s)
    (other : s.thread.receives = false) (stepped : StartUpStep s event t) :
    Transition.Run LateStep origin (events ++ [event]) t := by
  refine run.snoc ⟨fun i bytes at_ => ?_, stepped⟩
  rw [at_] at other
  cases other

/-- The first entry is readable. -/
def firstReadable (i : Nat) : Net.Revents := ⟨if i = 0 then pollIn else 0, by split <;> decide⟩

/-- The socket is registered and its descriptor stored, and there is something to receive. -/
theorem socket_readable : ∃ events s,
    Transition.Run (@LateStep .zeroed) (startUp 5 3 4) events s ∧
      s.thread = .handling 0 .receive ∧ s.client = (startingClient 5 3 4).assign 0 .socket ∧
      s.main = .registering .guiIn := by
  let _ := CMemory.zeroed
  have origin : Transition.Run LateStep (startUp 5 3 4) [] _ := .start
  have registered := elsewhere origin rfl (.register rfl rfl)
  have stored := elsewhere registered rfl (.assign rfl)
  have started := elsewhere stored rfl (.start rfl 7)
  have first := elsewhere started rfl (.apply rfl (List.cons_ne_nil _ _) rfl)
  have second := elsewhere first rfl (.apply rfl (List.cons_ne_nil _ _) rfl)
  have polling := elsewhere second rfl (.drained rfl rfl)
  have polled := elsewhere polling rfl (.poll rfl (show ReportsAsked _ firstReadable from ?_))
  · have visiting := elsewhere polled rfl (.drained rfl rfl)
    have called := elsewhere visiting rfl (.visit rfl (by decide) rfl rfl)
    exact ⟨_, _, called, rfl, rfl, rfl⟩
  · rintro (_ | _ | i) entry found
    · obtain rfl := Option.some.inj found
      decide
    · obtain rfl := Option.some.inj found
      decide
    · cases found

end Early

/-- The socket is read when the main thread has stored everything: the call that follows finds
its descriptor. -/
theorem start_up_order_readable : ∃ s : StartUp,
    s.thread = .calling 0 ⟨true, .guiOut⟩ ∧ s.client.guiOutPollDescriptor ≠ none := by
  let _ := CMemory.zeroed
  obtain ⟨events, ⟨client, poll, main, thread⟩, run, at_, same, next⟩ := socket_readable
  obtain rfl : client = (startingClient 5 3 4).assign 0 .socket := same
  obtain rfl : main = .registering .guiIn := next
  obtain rfl : thread = .handling 0 .receive := at_
  have creates : ∀ {s t events}, Transition.Run LateStep (startUp 5 3 4) events s →
      StartUpStep s .create t → Transition.Run LateStep (startUp 5 3 4) (events ++ [.create]) t := by
    intro s t events run stepped
    refine run.snoc ⟨fun i bytes at_ received => ?_, stepped⟩
    cases received
  have registeredIn := creates run (.register rfl rfl)
  have storedIn := creates registeredIn (.assign rfl)
  have registeredOut := creates storedIn (.register rfl rfl)
  have storedOut := creates registeredOut (.assign rfl)
  have received := storedOut.snoc (show LateStep _ (.returned (.read (some [97]))) _ from
    ⟨fun _ _ _ _ _ => Option.some_ne_none _, .handle rfl rfl⟩)
  exact ⟨_, rfl, (start_up_order received).1 0 ⟨true, .guiOut⟩ rfl⟩

/-- The server sends a letter at once: `ClientReceive` calls for a descriptor that is NULL. -/
theorem start_up_order_early : ∃ events s,
    Transition.Run (@StartUpStep .zeroed) (startUp 5 3 4) events s ∧ ¬CallsStored s := by
  let _ := CMemory.zeroed
  obtain ⟨events, ⟨client, poll, main, thread⟩, run, at_, same, _⟩ := socket_readable
  obtain rfl : client = (startingClient 5 3 4).assign 0 .socket := same
  obtain ⟨next, done⟩ : ∃ next, ((startingClient 5 3 4).assign 0 .socket).handle .receive
      (.read (some [97])) = some (next, some ⟨true, .guiOut⟩) := ⟨_, rfl⟩
  refine ⟨_, _, (run.imp And.right).snoc (.handle at_ done), fun stored => ?_⟩
  apply stored 0 ⟨true, .guiOut⟩ rfl
  rw [(handle_spec done).1]
  rfl

end KommunikationNetze.ChatClient
