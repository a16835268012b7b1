import KommunikationNetze.Chat.PollDemand
import KommunikationNetze.ChatClient.RelayHandlers

/-! What the chat client asks the poll for. A descriptor is asked for output exactly as long as
there is something to write to it, once the updates on the queue are applied and the call is made
that a handler is at. -/
namespace KommunikationNetze.ChatClient
open CLib
open Chat (PollDescriptor PollEntry PollUpdate PollState PollDemand pollIn pollOut Bounded)
open Transition (Run)

def HandlerThread.call : HandlerThread → Option EventCall
  | .calling _ call => some call
  | _ => none

/-- The entries that the thread has still to go over, or is at. -/
def HandlerThread.Passes : HandlerThread → Nat → Prop
  | .applying (.afterPoll false), _ => True
  | .visiting i, j | .handling i _, j => i ≤ j
  | .calling i _, j => i < j
  | _, _ => False

/-- The blocks that the main thread has still to register. -/
def CreateThread.waiting : CreateThread → List ClientBlock
  | .registering .socket => [.socket, .guiIn, .guiOut]
  | .assigning .socket _ | .registering .guiIn => [.guiIn, .guiOut]
  | .assigning .guiIn _ | .registering .guiOut => [.guiOut]
  | .assigning .guiOut _ | .created => []

/-- Output is asked for, once the call is made. -/
def Asks (call : Option EventCall) (asked : BitVec 16 × Option ClientBlock) : Prop :=
  match call with
  | some call => if asked.2 = some call.block then call.add = true else asked.1 &&& pollOut ≠ 0
  | none => asked.1 &&& pollOut ≠ 0

/-- No two descriptors have one block, and output is asked for where there is something to write. -/
structure Demanded (client : StartingClient) (call : Option EventCall) (poll : PollState (Option ClientBlock))
    (demand : PollDemand (Option ClientBlock)) : Prop where
  sound : poll.Sound
  expected : poll.demand = some demand
  new : ∀ pd, poll.poll.descriptors ≤ pd → demand pd = none
  kept : ∀ update ∈ poll.poll.updateQueue, ∀ pd, update ≠ .removeDescriptor pd
  interest : ∀ pd asked, demand pd = some asked → (Asks call asked ↔ 0 < asked.2.elim 0 client.unsent)
  once : ∀ pd other asked twin, demand pd = some asked → demand other = some twin → asked.2 ≠ none →
    asked.2 = twin.2 → pd = other

/-- How far the main thread is. -/
structure Created (client : StartingClient) (main : CreateThread)
    (demand : PollDemand (Option ClientBlock)) : Prop where
  waiting : ∀ b ∈ main.waiting, ∀ pd asked, demand pd = some asked → asked.2 ≠ some b
  stored : ∀ b pd, client.pollDescriptor b = some pd → ∃ asked, demand pd = some asked ∧ asked.2 = some b
  assigning : ∀ b pd, main = .assigning b pd → ∃ asked, demand pd = some asked ∧ asked.2 = some b

/-- How far the poll thread is: what is ready for output has something to write. -/
structure Passing (client : StartingClient) (thread : HandlerThread) (poll : PollState (Option ClientBlock)) :
    Prop where
  idle : thread = .polling → ∀ update ∈ poll.poll.updateQueue, update.RegistersIdle
  serving : ∀ i entry, thread.Passes i → poll.table[i]? = some entry → entry.revents &&& pollOut ≠ 0 →
    0 < entry.block.elim 0 client.unsent
  called : ∀ i handler, thread = .handling i handler →
    ∃ entry, poll.table[i]? = some entry ∧ handler = handlerOf entry.revents entry.block

section Demanded
variable {client next : StartingClient} {call : Option EventCall} {poll after : PollState (Option ClientBlock)}
  {demand : PollDemand (Option ClientBlock)} {entry : PollEntry PollDescriptor (Option ClientBlock)}

theorem Demanded.congr (demanded : Demanded client call poll demand)
    (same : ∀ b, next.unsent b = client.unsent b) : Demanded next call poll demand := by
  refine { demanded with interest := fun pd asked known => ?_ }
  rw [demanded.interest pd asked known, funext same]

/-- No two entries have one block. -/
theorem Demanded.index_unique {i j : Nat} (demanded : Demanded client call poll demand)
    {entry twin : PollEntry PollDescriptor (Option ClientBlock)} (first : poll.table[i]? = some entry)
    (second : poll.table[j]? = some twin) (block : entry.block ≠ none) (same : entry.block = twin.block) : i = j := by
  have sound := demanded.sound
  obtain ⟨asked, known, its⟩ := sound.demand_block demanded.kept demanded.expected (List.mem_of_getElem? first)
  obtain ⟨other, found, others⟩ := sound.demand_block demanded.kept demanded.expected (List.mem_of_getElem? second)
  refine demanded.sound.index_unique first second ?_
  exact demanded.once _ _ asked other known found (its ▸ block) (by rw [its, same, others])

/-- Entries are added at the end of the expected table. -/
theorem Demanded.registers (demanded : Demanded client call poll demand) {block : Option ClientBlock}
    (fd : Int) (quiet : events &&& pollOut = 0) (idle : block.elim 0 client.unsent = 0)
    (fresh : ∀ b, block = some b → ∀ pd asked, demand pd = some asked → asked.2 ≠ some b)
    (uncalled : ∀ c, call = some c → block ≠ some c.block) :
    Demanded client call { poll with poll := (Chat.pollRegister poll.poll fd events none block).2 }
      (Function.update demand poll.poll.descriptors (some (events, block))) where
  sound := ⟨demanded.sound.fresh.register fd events none block, demanded.sound.signs⟩
  expected := by
    rw [Chat.PollState.demand_enqueue poll (.register poll.poll.descriptors fd events none block) _ rfl,
      demanded.expected]
    rfl
  new pd beyond := by
    rw [Function.update_of_ne (Nat.ne_of_gt beyond)]
    exact demanded.new pd (Nat.le_of_succ_le beyond)
  kept update mem pd := by
    rcases List.mem_append.mp mem with old | new
    · exact demanded.kept update old pd
    · rw [List.mem_singleton.mp new]
      exact fun same => by cases same
  interest pd asked known := by
    rw [Function.update_apply] at known
    split at known
    · obtain rfl := Option.some.inj known
      refine iff_of_false (fun asks => ?_) (by rw [idle]; exact Nat.lt_irrefl 0)
      cases call with
      | none => exact asks quiet
      | some c =>
        rw [Asks, if_neg (uncalled c rfl)] at asks
        exact asks quiet
    · exact demanded.interest pd asked known
  once pd other asked twin known found owned same := by
    have apart : ∀ {p a b}, demand p = some a → some (events, block) = some b → a.2 = b.2 → a.2 = none := by
      intro p a b held new equal
      obtain rfl := Option.some.inj new
      cases its : block with
      | none => exact equal.trans its
      | some b => exact absurd (equal.trans its) (fresh b its p a held)
    rw [Function.update_apply] at known found
    split at known
    · split at found
      · rename_i first second
        exact first.trans second.symm
      · exact absurd (same.trans (apart found known same.symm)) owned
    · split at found
      · exact absurd (apart known found same) owned
      · exact demanded.once pd other asked twin known found owned same

end Demanded

section Created
variable {client : StartingClient} {demand after : PollDemand (Option ClientBlock)} {main : CreateThread}

theorem Created.grows (created : Created client main demand)
    (blocks : ∀ pd, (after pd).map Prod.snd = (demand pd).map Prod.snd) : Created client main after := by
  have back : ∀ pd asked, after pd = some asked → ∃ old, demand pd = some old ∧ old.2 = asked.2 := by
    intro pd asked known
    have same := blocks pd
    rw [known, Option.map_some, eq_comm] at same
    exact Option.map_eq_some_iff.mp same
  have forth : ∀ pd asked, demand pd = some asked → ∃ new, after pd = some new ∧ new.2 = asked.2 := by
    intro pd asked known
    have same := blocks pd
    rw [known, Option.map_some] at same
    exact Option.map_eq_some_iff.mp same
  constructor
  · intro b waits pd asked known
    obtain ⟨old, held, same⟩ := back pd asked known
    exact same ▸ created.waiting b waits pd old held
  · intro b pd stored
    obtain ⟨asked, known, its⟩ := created.stored b pd stored
    obtain ⟨new, held, same⟩ := forth pd asked known
    exact ⟨new, held, same.trans its⟩
  · intro b pd at_
    obtain ⟨asked, known, its⟩ := created.assigning b pd at_
    obtain ⟨new, held, same⟩ := forth pd asked known
    exact ⟨new, held, same.trans its⟩

/-- The pipe is registered by the poll thread. -/
theorem Created.starts (created : Created client main demand) (new : demand pd = none) (events : BitVec 16) :
    Created client main (Function.update demand pd (some (events, none))) := by
  have keeps : ∀ other asked, demand other = some asked →
      Function.update demand pd (some (events, none)) other = some asked := by
    intro other asked known
    rw [Function.update_of_ne, known]
    rintro rfl
    rw [new] at known
    cases known
  constructor
  · intro b waits other asked known
    rw [Function.update_apply] at known
    split at known
    · obtain rfl := Option.some.inj known
      exact fun same => by cases same
    · exact created.waiting b waits other asked known
  · intro b other stored
    obtain ⟨asked, known, its⟩ := created.stored b other stored
    exact ⟨asked, keeps other asked known, its⟩
  · intro b other at_
    obtain ⟨asked, known, its⟩ := created.assigning b other at_
    exact ⟨asked, keeps other asked known, its⟩

theorem Created.registers (created : Created client (.registering block) demand) (new : demand pd = none)
    (events : BitVec 16) :
    Created client (.assigning block pd) (Function.update demand pd (some (events, some block))) := by
  have fewer : ∀ b ∈ (CreateThread.assigning block pd).waiting,
      b ∈ (CreateThread.registering block).waiting ∧ b ≠ block := by
    cases block <;> simp [CreateThread.waiting]
  constructor
  · intro b waits other asked known
    obtain ⟨waited, different⟩ := fewer b waits
    rw [Function.update_apply] at known
    split at known
    · obtain rfl := Option.some.inj known
      exact fun same => different (Option.some.inj same).symm
    · exact created.waiting b waited other asked known
  · intro b other stored
    obtain ⟨asked, known, its⟩ := created.stored b other stored
    refine ⟨asked, ?_, its⟩
    rw [Function.update_of_ne, known]
    rintro rfl
    rw [new] at known
    cases known
  · intro b other at_
    obtain ⟨rfl, rfl⟩ := CreateThread.assigning.inj at_
    exact ⟨_, Function.update_self .., rfl⟩

theorem Created.assigns (created : Created client (.assigning block pd) demand) :
    Created (client.assign pd block) block.next demand := by
  constructor
  · intro b waits
    refine created.waiting b ?_
    cases block <;> exact waits
  · intro b other stored
    rw [pollDescriptor_assign] at stored
    split at stored
    · rename_i same
      obtain rfl := Option.some.inj stored
      rw [same]
      exact created.assigning block pd rfl
    · exact created.stored b other stored
  · intro b other at_
    cases block <;> cases at_

/-- A block that waits is not stored. -/
theorem Created.not_stored (created : Created client main demand) (waits : b ∈ main.waiting) :
    ¬client.Has b := by
  intro has
  obtain ⟨pd, stored⟩ := Option.ne_none_iff_exists'.mp has
  obtain ⟨asked, known, its⟩ := created.stored b pd stored
  exact created.waiting b waits pd asked known its

end Created
section Calls
variable {client : StartingClient} {poll : PollState (Option ClientBlock)}
  {demand : PollDemand (Option ClientBlock)} {call : EventCall}

def EventCall.update (call : EventCall) (pd : PollDescriptor) : PollUpdate (Option ClientBlock) :=
  if call.add then .addEvents pd pollOut else .removeEvents pd pollOut

def EventCall.events (call : EventCall) (events : BitVec 16) : BitVec 16 :=
  if call.add then events ||| pollOut else events &&& ~~~pollOut

theorem EventCall.request_eq (call : EventCall) (pd : PollDescriptor) (poll : Chat.Poll (Option ClientBlock)) :
    call.request pd poll = Chat.pollEnqueueUpdate poll (call.update pd) := by
  rw [EventCall.request, EventCall.update]
  split <;> rfl

theorem EventCall.update_demand (call : EventCall) (known : demand pd = some asked) :
    (call.update pd).demand demand = some (Function.update demand pd (some (call.events asked.1, asked.2))) := by
  rw [EventCall.update, EventCall.events]
  split <;> rw [PollUpdate.demand, known, Option.map_some]

theorem EventCall.asks (call : EventCall) (events : BitVec 16) :
    call.events events &&& pollOut ≠ 0 ↔ call.add = true := by
  rw [EventCall.events]
  split
  · rename_i added
    exact iff_of_true (Chat.or_pollOut events) added
  · rename_i removed
    exact iff_of_false (fun asks => asks (Chat.andNot_pollOut events)) removed

/-- A call does what was expected of it. -/
theorem Demanded.calls (demanded : Demanded client (some call) poll demand) (known : demand pd = some asked)
    (its : asked.2 = some call.block) :
    Demanded client none { poll with poll := call.request pd poll.poll }
      (Function.update demand pd (some (call.events asked.1, asked.2))) := by
  rw [call.request_eq]
  have registers : (call.update pd).registers = none := by
    rw [EventCall.update]
    split <;> rfl
  have others : ∀ other twin, demand other = some twin → twin.2 = some call.block → other = pd := by
    intro other twin found same
    exact demanded.once other pd twin asked found known (same ▸ Option.some_ne_none _) (same.trans its.symm)
  have blocks : ∀ other twin, Function.update demand pd (some (call.events asked.1, asked.2)) other = some twin →
      ∃ old, demand other = some old ∧ old.2 = twin.2 := by
    intro other twin found
    rw [Function.update_apply] at found
    split at found
    · rename_i same
      obtain rfl := Option.some.inj found
      exact ⟨asked, same ▸ known, rfl⟩
    · exact ⟨twin, found, rfl⟩
  constructor
  · exact ⟨demanded.sound.fresh.enqueue _ registers, demanded.sound.signs⟩
  · rw [Chat.PollState.demand_enqueue poll (call.update pd) _ rfl, demanded.expected]
    exact call.update_demand known
  · intro other beyond
    have none := demanded.new other beyond
    rw [Function.update_of_ne, none]
    rintro rfl
    rw [known] at none
    cases none
  · intro update mem other
    rcases List.mem_append.mp mem with old | new
    · exact demanded.kept update old other
    · rw [List.mem_singleton.mp new, EventCall.update]
      split <;> exact fun same => by cases same
  · intro other twin found
    rw [Function.update_apply] at found
    split at found
    · obtain rfl := Option.some.inj found
      have before := demanded.interest pd asked known
      rw [Asks, if_pos its] at before
      exact (call.asks asked.1).trans before
    · rename_i apart
      have before := demanded.interest other twin found
      rw [Asks, if_neg fun same => apart (others other twin found same)] at before
      exact before
  · intro first second left right found same owned equal
    obtain ⟨old, held, block⟩ := blocks first left found
    obtain ⟨twin, its, other⟩ := blocks second right same
    exact demanded.once first second old twin held its (block ▸ owned) (by rw [block, equal, other])

end Calls
section Step
variable [CMemory] {whole : Prop} {s t : StartUp}

structure Interest (whole : Prop) (s : StartUp) : Prop where
  demanded : ∃ demand, Demanded s.client s.thread.call s.poll demand ∧ Created s.client s.main demand
  passing : Passing s.client s.thread s.poll
  unsent : ∀ b, 0 < s.client.unsent b → s.client.Has b
  streams : ∀ b, Streams whole (s.client.relay b)

/-- A step whose system call is answered as the system promises, on buffers so small that
doubling their lengths does not wrap; if that is wanted, it also writes everything. -/
def ServedStep (whole : Prop) (s : StartUp) (event : StartUpEvent) (t : StartUp) : Prop :=
  LateStep s event t ∧ ∀ i handler result, s.thread = .handling i handler → event = .returned result →
    Answered s.client handler result ∧ (whole → Whole s.client handler result)

theorem Interest.registers (interest : Interest whole s) (stored : ThreadStored s.client s.thread)
    (at_ : s.main = .registering block) (fd : Int) :
    Interest whole { (s.registers fd block.events (some block)).2 with
      main := .assigning block s.poll.poll.descriptors } := by
  obtain ⟨demand, demanded, created⟩ := interest.demanded
  rw [at_] at created
  have waits : block ∈ (CreateThread.registering block).waiting := by cases block <;> decide
  have missing := created.not_stored waits
  have quiet : block.events &&& pollOut = 0 := by cases block <;> decide
  refine { interest with demanded := ⟨_, demanded.registers fd quiet ?_ ?_ ?_, created.registers
    (demanded.new _ (Nat.le_refl _)) block.events⟩, passing := ?_ }
  · exact Nat.eq_zero_of_not_pos fun pending => missing (interest.unsent block pending)
  · rintro b ⟨⟩
    exact created.waiting block waits
  · rintro c called same
    cases thread : s.thread <;> rw [thread] at called stored <;> cases called
    exact missing (Option.some.inj same ▸ stored)
  · refine { interest.passing with idle := fun polling update mem => ?_ }
    rcases List.mem_append.mp mem with old | new
    · exact interest.passing.idle polling update old
    · rw [List.mem_singleton.mp new]
      exact quiet

theorem Interest.assigns (interest : Interest whole s) (at_ : s.main = .assigning block pd) :
    Interest whole { s with client := s.client.assign pd block, main := block.next } := by
  obtain ⟨demand, demanded, created⟩ := interest.demanded
  rw [at_] at created
  have relay : (s.client.assign pd block).relay = s.client.relay := by
    funext b
    cases block <;> cases b <;> rfl
  have unsent : ∀ b, (s.client.assign pd block).unsent b = s.client.unsent b := by
    intro b
    rw [StartingClient.unsent, relay]
    rfl
  constructor
  · exact ⟨demand, demanded.congr unsent, created.assigns⟩
  · refine { interest.passing with serving := fun i entry passes found out => ?_ }
    rw [funext unsent]
    exact interest.passing.serving i entry passes found out
  · intro b pending
    rw [unsent] at pending
    exact (has_assign s.client pd block b).mpr (.inr (interest.unsent b pending))
  · rw [relay]
    exact interest.streams

theorem Interest.starts (interest : Interest whole s) (at_ : s.thread = .starting) (pipe : Int) :
    Interest whole ((s.registers pipe pollIn none).2.moves (.applying .beforePoll)) := by
  obtain ⟨demand, demanded, created⟩ := interest.demanded
  rw [at_] at demanded
  refine { interest with demanded := ⟨_, demanded.registers pipe (by decide) rfl ?_ ?_, created.starts
    (demanded.new _ (Nat.le_refl _)) pollIn⟩, passing := ⟨?_, ?_, ?_⟩ }
  · exact fun b same => by cases same
  · exact fun c same => by cases same
  · exact fun same => by cases same
  · exact fun i entry passes => by cases passes
  · exact fun i handler same => by cases same

omit [CMemory] in
/-- The entries keep what `poll` has reported, and new ones are idle. -/
theorem applied_entries {poll after : PollState (Option ClientBlock)}
    {entry : PollEntry PollDescriptor (Option ClientBlock)} (sound : poll.Sound)
    (applied : poll.applyNext = some after) (mem : entry ∈ after.table) :
    (∃ old ∈ poll.table, old.block = entry.block ∧ old.revents = entry.revents) ∨ entry.revents = 0 := by
  rw [PollState.applyNext] at applied
  split at applied
  · obtain rfl := Option.some.inj applied
    exact .inl ⟨entry, mem, rfl, rfl⟩
  · rename_i update rest waiting
    obtain ⟨table, updated, rfl⟩ := Option.map_eq_some_iff.mp applied
    have view := Chat.notifications_apply updated (sound.fresh.next waiting)
    have listed : entry.notification ∈ table.notifications := List.mem_map_of_mem mem
    rw [view] at listed
    rcases Chat.mem_onNotifications sound.keys listed with old | idle
    · obtain ⟨old, held, same⟩ := List.mem_map.mp old
      exact .inl ⟨old, held, congrArg (·.block) same, congrArg (·.revents) same⟩
    · exact .inr idle

omit [CMemory] in
theorem applied_queue {poll after : PollState (Option ClientBlock)} (applied : poll.applyNext = some after) :
    after.poll.updateQueue ⊆ poll.poll.updateQueue ∧ after.poll.descriptors = poll.poll.descriptors := by
  rw [PollState.applyNext] at applied
  split at applied
  · obtain rfl := Option.some.inj applied
    exact ⟨List.Subset.refl _, rfl⟩
  · rename_i update rest waiting
    obtain ⟨table, _, rfl⟩ := Option.map_eq_some_iff.mp applied
    rw [waiting]
    exact ⟨List.subset_cons_self update rest, rfl⟩

theorem Interest.applies (interest : Interest whole s) (at_ : s.thread = .applying call)
    {poll : PollState (Option ClientBlock)} (done : s.poll.applyNext = some poll) :
    Interest whole { s with poll } := by
  obtain ⟨demand, demanded, created⟩ := interest.demanded
  obtain ⟨fewer, descriptors⟩ := applied_queue done
  refine { interest with demanded := ⟨demand, ?_, created⟩, passing := ⟨?_, ?_, ?_⟩ }
  · refine { demanded with
      sound := demanded.sound.applyNext done
      expected := (demanded.sound.demand_applyNext done).trans demanded.expected
      new := ?_, kept := ?_ }
    · rw [descriptors]
      exact demanded.new
    · exact fun update mem => demanded.kept update (fewer mem)
  · exact fun same => by rw [at_] at same; cases same
  · intro i entry passes found out
    have all : ∀ j, s.thread.Passes j := by
      intro j
      rw [at_] at passes ⊢
      cases call with
      | beforePoll => exact passes
      | afterPoll failed =>
        cases failed
        · trivial
        · exact passes
    rcases applied_entries demanded.sound done (List.mem_of_getElem? found) with ⟨old, held, block, revents⟩ | idle
    · obtain ⟨j, at_⟩ := List.mem_iff_getElem?.mp held
      rw [← block]
      exact interest.passing.serving j old (all j) at_ (revents ▸ out)
    · exact absurd (by rw [idle]; exact BitVec.zero_and) out
  · intro i handler same
    rw [at_] at same
    cases same

theorem Interest.drained (interest : Interest whole s) (at_ : s.thread = .applying call)
    (empty : s.poll.poll.updateQueue = []) : Interest whole (s.moves (afterUpdates call)) := by
  obtain ⟨demand, demanded, created⟩ := interest.demanded
  rw [at_] at demanded
  refine { interest with demanded := ⟨demand, ?_, created⟩, passing := ⟨?_, ?_, ?_⟩ }
  · cases call with
    | beforePoll => exact demanded
    | afterPoll failed => cases failed <;> exact demanded
  · intro _ update mem
    simp only [StartUp.moves, empty] at mem
    cases mem
  · intro i entry passes found out
    refine interest.passing.serving i entry ?_ found out
    rw [at_]
    cases call with
    | beforePoll => cases passes
    | afterPoll failed =>
      cases failed
      · trivial
      · cases passes
  · intro i handler same
    cases call with
    | beforePoll => cases same
    | afterPoll failed => cases failed <;> cases same

/-- What `poll` reports ready for output was asked for. -/
theorem Interest.polls (interest : Interest whole s) (at_ : s.thread = .polling)
    {revents : Nat → Net.Revents} (reports : ReportsAsked s.poll.table revents) :
    Interest whole { s with poll := s.poll.callPoll revents, thread := .applying (.afterPoll false) } := by
  obtain ⟨demand, demanded, created⟩ := interest.demanded
  rw [at_] at demanded
  refine { interest with demanded := ⟨demand, ?_, created⟩, passing := ⟨?_, ?_, ?_⟩ }
  · exact { demanded with
      sound := (demanded.sound.callPoll revents).1
      expected := (PollState.demand_callPoll s.poll revents).trans demanded.expected }
  · exact fun same => by cases same
  · intro i entry _ found out
    obtain ⟨old, held, rfl⟩ := Option.map_eq_some_iff.mp (List.getElem?_mapIdx.symm.trans found)
    have asked := Chat.reports_out (reports i old held) out
    have mem := List.mem_of_getElem? held
    have now := demanded.sound.demand_idle (interest.passing.idle at_) demanded.expected mem
    exact (demanded.interest _ _ now).mp asked
  · exact fun i handler same => by cases same

theorem Interest.pollFails (interest : Interest whole s) (at_ : s.thread = .polling) :
    Interest whole (s.moves (.applying (.afterPoll true))) := by
  obtain ⟨demand, demanded, created⟩ := interest.demanded
  rw [at_] at demanded
  refine { interest with demanded := ⟨demand, demanded, created⟩, passing := ⟨?_, ?_, ?_⟩ }
  · exact fun same => by cases same
  · exact fun i entry passes => by cases passes
  · exact fun i handler same => by cases same

theorem Interest.visits (interest : Interest whole s) (at_ : s.thread = .visiting i)
    {entry : PollEntry PollDescriptor (Option ClientBlock)} (found : s.poll.table[i]? = some entry)
    {poll : PollState (Option ClientBlock)} (done : s.poll.visit (fun _ => []) i = some poll) :
    Interest whole { s with
      poll
      thread := if 0 < entry.revents.toInt then .handling i (handlerOf entry.revents entry.block)
        else .visiting (i + 1) } := by
  obtain ⟨demand, demanded, created⟩ := interest.demanded
  rw [at_] at demanded
  obtain ⟨table, queue⟩ := visit_same done
  have visited : Demanded s.client none poll demand := by
    have sound : poll.Sound := by
      refine ⟨?_, ?_⟩
      · rw [table, queue]
        exact demanded.sound.fresh
      · rw [table]
        exact demanded.sound.signs
    refine { demanded with sound, expected := ?_, new := ?_, kept := ?_ }
    · rw [PollState.demand, table, queue]
      exact demanded.expected
    · rw [queue]
      exact demanded.new
    · rw [queue]
      exact demanded.kept
  have serving : ∀ j entry, i ≤ j → poll.table[j]? = some entry → entry.revents &&& pollOut ≠ 0 →
      0 < entry.block.elim 0 s.client.unsent := by
    intro j entry later held out
    rw [table] at held
    refine interest.passing.serving j entry ?_ held out
    rw [at_]
    exact later
  split
  · refine { interest with demanded := ⟨demand, visited, created⟩, passing := ⟨?_, serving, ?_⟩ }
    · exact fun same => by cases same
    · rintro j handler ⟨⟩
      exact ⟨entry, table ▸ found, rfl⟩
  · refine { interest with demanded := ⟨demand, visited, created⟩, passing := ⟨?_, ?_, ?_⟩ }
    · exact fun same => by cases same
    · exact fun j entry later => serving j entry (Nat.le_of_succ_le later)
    · exact fun j handler same => by cases same

theorem Interest.again (interest : Interest whole s) (at_ : s.thread = .visiting i) :
    Interest whole (s.moves (.applying .beforePoll)) := by
  obtain ⟨demand, demanded, created⟩ := interest.demanded
  rw [at_] at demanded
  refine { interest with demanded := ⟨demand, demanded, created⟩, passing := ⟨?_, ?_, ?_⟩ }
  · exact fun same => by cases same
  · exact fun i entry passes => by cases passes
  · exact fun i handler same => by cases same

/-- A handler that writes has something to write. -/
theorem Interest.pending (interest : Interest whole s) (at_ : s.thread = .handling i handler)
    (writes : handler.writes = some b) : 0 < s.client.unsent b := by
  obtain ⟨entry, found, rfl⟩ := interest.passing.called i handler at_
  obtain ⟨block, out⟩ := handlerOf_writes rfl writes
  have serves := interest.passing.serving i entry (by rw [at_]; exact Nat.le_refl i) found out
  rw [block] at serves
  exact serves

/-- The handler of an entry leaves the bytes of the entries behind it. -/
theorem Interest.handles (interest : Interest whole s) (at_ : s.thread = .handling i handler)
    (done : s.client.handle handler result = some (next, call))
    (handled : Handled whole s.client next handler result call) (has : ∀ c, call = some c → next.Has c.block) :
    Interest whole { s with client := next, thread := call.elim (.visiting (i + 1)) (.calling i) } := by
  obtain ⟨demand, demanded, created⟩ := interest.demanded
  rw [at_] at demanded
  have same : next.pollDescriptor = s.client.pollDescriptor := (handle_spec done).1
  have position : (call.elim (.visiting (i + 1)) (.calling i) : HandlerThread).call = call := by
    cases call <;> rfl
  have others : ∀ block : Option ClientBlock, (∀ c, call = some c → block ≠ some c.block) →
      block.elim 0 next.unsent = block.elim 0 s.client.unsent := by
    intro block other
    cases block with
    | none => rfl
    | some b => exact handled.others b fun c called equal => other c called (equal ▸ rfl)
  constructor
  · refine ⟨demand, { demanded with interest := fun pd asked known => ?_ },
      { created with stored := fun b pd stored => created.stored b pd (same ▸ stored) }⟩
    rw [position]
    have before := demanded.interest pd asked known
    cases called : call with
    | none =>
      rw [others asked.2 fun c some => by rw [called] at some; cases some]
      exact before
    | some c =>
      rw [Asks]
      split
      · rename_i its
        rw [its]
        exact handled.asks c called
      · rename_i other
        rw [others asked.2 fun d some => by rw [called] at some; cases some; exact other]
        exact before
  · refine ⟨?_, ?_, ?_⟩
    · exact fun polling => by cases call <;> cases polling
    · intro j entry passes found out
      have behind : i < j := by cases call <;> exact passes
      have served := interest.passing.serving j entry (by rw [at_]; exact Nat.le_of_lt behind) found out
      by_cases its : ∃ c, call = some c ∧ entry.block = some c.block
      · obtain ⟨c, called, block⟩ := its
        rw [block]
        cases add : c.add with
        | true => exact (handled.asks c called).mp add
        | false =>
          obtain ⟨own, held, rfl⟩ := interest.passing.called i handler at_
          have owner := (handlerOf_writes rfl (handled.writes c called add)).1
          have one := demanded.index_unique held found (owner ▸ Option.some_ne_none _) (owner.trans block.symm)
          exact absurd one (Nat.ne_of_lt behind)
      · rw [others entry.block fun c called block => its ⟨c, called, block⟩]
        exact served
    · exact fun j other handling => by cases call <;> cases handling
  · intro b pending
    by_cases its : ∃ c, call = some c ∧ c.block = b
    · obtain ⟨c, called, rfl⟩ := its
      exact has c called
    · rw [handled.others b fun c called block => its ⟨c, called, block⟩] at pending
      rw [StartingClient.Has, same]
      exact interest.unsent b pending
  · exact fun b => (interest.streams b).moves (handled.moves b)

theorem Interest.calls (interest : Interest whole s) (at_ : s.thread = .calling i call)
    (assigned : s.client.pollDescriptor call.block = some pd) :
    Interest whole ((s.updating (call.request pd s.poll.poll)).moves (.visiting (i + 1))) := by
  obtain ⟨demand, demanded, created⟩ := interest.demanded
  rw [at_] at demanded
  obtain ⟨asked, known, its⟩ := created.stored call.block pd assigned
  refine { interest with demanded := ⟨_, demanded.calls known its, created.grows fun other => ?_⟩
                         passing := ⟨?_, ?_, ?_⟩ }
  · rw [Function.update_apply]
    split
    · rename_i same
      rw [same, known]
      rfl
    · rfl
  · exact fun same => by cases same
  · intro j entry later found out
    refine interest.passing.serving j entry ?_ found out
    rw [at_]
    exact later
  · exact fun j handler same => by cases same

theorem interest_step (interest : Interest whole s) (held : ∃ owner, Stored owner s)
    (step : ServedStep whole s event t) : Interest whole t := by
  obtain ⟨⟨late, stepped⟩, served⟩ := step
  obtain ⟨_, after⟩ := stored_step held late stepped
  obtain ⟨_, stored⟩ := held
  cases stepped with
  | register at_ registered =>
    obtain ⟨rfl, rfl⟩ := Prod.mk.inj registered
    exact interest.registers stored.thread at_ _
  | assign at_ => exact interest.assigns at_
  | start at_ pipe => exact interest.starts at_ pipe
  | apply at_ waiting done => exact interest.applies at_ done
  | drained at_ empty => exact interest.drained at_ empty
  | poll at_ reports => exact interest.polls at_ reports
  | pollFailed at_ => exact interest.pollFails at_
  | visit at_ more found done => exact interest.visits at_ found done
  | again at_ done => exact interest.again at_
  | handle at_ done =>
    obtain ⟨answered, all⟩ := served _ _ _ at_ rfl
    have handled := handle_handled done (fun b => (interest.streams b).bounded)
      (fun b => interest.pending at_) answered all
    refine interest.handles at_ done handled ?_
    rintro c rfl
    exact after.thread
  | call at_ assigned => exact interest.calls at_ assigned

omit [CMemory] in
theorem assign_keepRunning (client : StartingClient) (pd : PollDescriptor) (block : ClientBlock) :
    (client.assign pd block).keepRunning = client.keepRunning := by
  cases block <;> rfl

theorem interest_run {socket guiInFD guiOutFD : Int}
    (run : Run (ServedStep whole) (startUp socket guiInFD guiOutFD) events s) :
    (∃ owner, Stored owner s) ∧ Interest whole s := by
  refine run.invariant (P := fun s => (∃ owner, Stored owner s) ∧ Interest whole s) ⟨⟨[], ?_⟩, ?_⟩ ?_
  · refine ⟨rfl, (fun entry mem => by cases mem), (fun update mem => by cases mem), ?_, ?_, trivial⟩
    · intro b pd held
      cases b <;> cases held
    · intro same
      cases same
  · refine ⟨⟨fun _ => none, ⟨.create, rfl, fun _ _ => rfl, ?_, ?_, ?_⟩, ⟨?_, ?_, ?_⟩⟩, ⟨?_, ?_, ?_⟩, ?_, ?_⟩
    · exact fun update mem => by cases mem
    · exact fun pd asked known => by cases known
    · exact fun pd other asked twin known => by cases known
    · exact fun b waits pd asked known => by cases known
    · exact fun b pd stored => by cases b <;> cases stored
    · exact fun b pd same => by cases same
    · exact fun same => by cases same
    · exact fun i entry passes => by cases passes
    · exact fun i handler same => by cases same
    · exact fun b pending => by cases b <;> exact absurd pending (Nat.lt_irrefl 0)
    · intro b
      have empty : (startUp socket guiInFD guiOutFD).client.relay b = .empty := by cases b <;> rfl
      rw [empty]
      exact ⟨[], .start, fun _ accepted offered mem => by cases mem⟩
  · intro s event t held step
    exact ⟨stored_step held.1 step.1.1 step.1.2, interest_step held.2 held.1 step⟩

/-- The client never writes when there is nothing to write, so that only the other side ends it
(a failed system call, behind which there is no step, aborts it); every update finds its
descriptor; and while the thread waits in `poll`, a descriptor is asked for output exactly if
there is something to write to it. -/
theorem relay_interest {socket guiInFD guiOutFD : Int}
    (run : Run (ServedStep whole) (startUp socket guiInFD guiOutFD) events s) :
    (∀ update rest, s.poll.poll.updateQueue = update :: rest → update.apply s.poll.table ≠ none) ∧
    (s.thread = .polling → ∀ b, 0 < s.client.unsent b ↔
      ∃ entry ∈ s.poll.table, entry.block = some b ∧ entry.events &&& pollOut ≠ 0) ∧
    (∀ i handler b, s.thread = .handling i handler → handler.writes = some b → 0 < s.client.unsent b) ∧
    (∀ event t, ServedStep whole s event t → t.client.keepRunning ≠ s.client.keepRunning →
      event = .returned (.read (some [])) ∨ ∃ i, s.thread = .handling i .quit) ∧
    (whole → ∀ b, (s.client.relay b).Exact) := by
  obtain ⟨held, interest⟩ := interest_run run
  obtain ⟨demand, demanded, created⟩ := interest.demanded
  have expected : s.poll.demand ≠ none := by
    rw [demanded.expected]
    exact Option.some_ne_none demand
  refine ⟨fun _ _ => demanded.sound.applies expected, ?_, fun _ _ _ => interest.pending, ?_, ?_⟩
  · intro polling b
    rw [polling] at demanded
    have idle := interest.passing.idle polling
    constructor
    · intro pending
      obtain ⟨pd, stored⟩ := Option.ne_none_iff_exists'.mp (interest.unsent b pending)
      obtain ⟨asked, known, its⟩ := created.stored b pd stored
      have out := (demanded.interest pd asked known).mpr (by rw [its]; exact pending)
      obtain ⟨entry, mem, _, rfl⟩ := Chat.PollState.Sound.output_idle idle demanded.expected known out
      exact ⟨entry, mem, its, out⟩
    · rintro ⟨entry, mem, its, out⟩
      have known := demanded.sound.demand_idle idle demanded.expected mem
      have pending := (demanded.interest _ _ known).mp out
      rw [PollEntry.demand, its] at pending
      exact pending
  · rintro event t ⟨⟨_, stepped⟩, served⟩ stops
    cases stepped with
    | handle at_ done =>
      obtain ⟨answered, _⟩ := served _ _ _ at_ rfl
      have handled : Handled False _ _ _ _ _ := handle_handled done
        (fun b => (interest.streams b).bounded) (fun b => interest.pending at_) answered False.elim
      rcases handled.running stops with rfl | rfl
      · exact .inr ⟨_, at_⟩
      · exact .inl rfl
    | register at_ registered =>
      obtain ⟨rfl, rfl⟩ := Prod.mk.inj registered
      exact absurd rfl stops
    | assign at_ => exact absurd (assign_keepRunning s.client _ _) stops
    | _ => exact absurd rfl stops
  · intro all b
    obtain ⟨_, relays, complete⟩ := interest.streams b
    exact (exact_iff_complete relays).mpr (complete all)

end Step
section Typed

/-- A step at which no handler has made its system call. -/
theorem undisturbed [CMemory] {origin s t : StartUp} {whole : Prop} (run : Run (ServedStep whole) origin events s)
    (other : ∀ i handler, s.thread ≠ .handling i handler) (stepped : StartUpStep s event t) :
    Run (ServedStep whole) origin (events ++ [event]) t :=
  run.snoc ⟨⟨fun i _ at_ => absurd at_ (other i _), stepped⟩, fun i _ _ at_ => absurd at_ (other i _)⟩

/-- The second entry is readable. -/
def secondReadable (i : Nat) : Net.Revents := ⟨if i = 1 then pollIn else 0, by split <;> decide⟩

/-- A line was typed: while the thread waits, the socket is asked for output. -/
theorem relay_interest_typed : ∃ events s, Run (@ServedStep .zeroed True) (startUp 5 3 4) events s ∧
    s.thread = .polling ∧ ∃ entry ∈ s.poll.table, entry.block = some .socket ∧ entry.events &&& pollOut ≠ 0 := by
  let _ := CMemory.zeroed
  have origin : Run (ServedStep True) (startUp 5 3 4) [] _ := .start
  have socket := undisturbed origin (fun _ _ at_ => by cases at_) (.register rfl rfl)
  have stored := undisturbed socket (fun _ _ at_ => by cases at_) (.assign rfl)
  have guiIn := undisturbed stored (fun _ _ at_ => by cases at_) (.register rfl rfl)
  have started := undisturbed guiIn (fun _ _ at_ => by cases at_) (.start rfl 7)
  have first := undisturbed started (fun _ _ at_ => by cases at_) (.apply rfl (List.cons_ne_nil _ _) rfl)
  have second := undisturbed first (fun _ _ at_ => by cases at_) (.apply rfl (List.cons_ne_nil _ _) rfl)
  have third := undisturbed second (fun _ _ at_ => by cases at_) (.apply rfl (List.cons_ne_nil _ _) rfl)
  have waiting := undisturbed third (fun _ _ at_ => by cases at_) (.drained rfl rfl)
  have polled := undisturbed waiting (fun _ _ at_ => by cases at_)
    (.poll rfl (show ReportsAsked _ secondReadable from ?_))
  · have visiting := undisturbed polled (fun _ _ at_ => by cases at_) (.drained rfl rfl)
    have idle := undisturbed visiting (fun _ _ at_ => by cases at_) (.visit rfl (by decide) rfl rfl)
    have ready := undisturbed idle (fun _ _ at_ => by cases at_) (.visit rfl (by decide) rfl rfl)
    have fits : Fits Relay.empty.buffer [97, 10] := ⟨by decide, by decide⟩
    have typed := ready.snoc (show ServedStep True _ (.returned (.read (some [97, 10]))) _ from
      ⟨⟨(fun i bytes at_ => by cases at_), .handle rfl rfl⟩, fun i handler result at_ same => by
        cases at_
        cases same
        exact ⟨fits, fun _ => trivial⟩⟩)
    have called := undisturbed typed (fun _ _ at_ => by cases at_) (.call rfl rfl)
    have again := undisturbed called (fun _ _ at_ => by cases at_) (.again rfl (.inl rfl))
    have applied := undisturbed again (fun _ _ at_ => by cases at_) (.apply rfl (List.cons_ne_nil _ _) rfl)
    have polling := undisturbed applied (fun _ _ at_ => by cases at_) (.drained rfl rfl)
    refine ⟨_, _, polling, rfl, ((relay_interest polling).2.1 rfl .socket).mp ?_⟩
    decide
  · rintro (_ | _ | _ | i) entry found
    · obtain rfl := Option.some.inj found
      decide
    · obtain rfl := Option.some.inj found
      decide
    · obtain rfl := Option.some.inj found
      decide
    · cases found

end Typed
end KommunikationNetze.ChatClient
