import KommunikationNetze.Library.Tokens
import KommunikationNetze.Webserver.HTTPConnection
import KommunikationNetze.Webserver.PollSafety

/-! The steps of a connection follow each other. Every pending or running step is a token
of its connection; a step of the server moves a token, drops it, or exchanges that of a
read for that of an answer. Registrations are made and removed by the holder of the token,
so that the poll is used safely whatever descriptor numbers are reused. -/
namespace KommunikationNetze.Webserver
open Tokens

/-- A read may still lead to the processing of a request. -/
inductive Stage where
  | read
  | answer
  deriving DecidableEq, Repr

def Block.token : Block → Option (Nat × Stage)
  | .wakeUp | .accept => none
  | .read connection => some (connection, .read)
  | .send connection => some (connection, .answer)

/-- What the descriptor a block is registered for is. -/
def Block.owner : Block → Owner
  | .wakeUp => .pipe
  | .accept => .listener
  | .read connection | .send connection => .connection connection

def Work.token : Work → Option (Nat × Stage)
  | .reading connection => some (connection, .read)
  | .processing connection | .sending connection | .closing connection => some (connection, .answer)
  | .over _ => none

def PollThread.token : PollThread → Option (Nat × Stage)
  | .notify _ _ block _ => block.token
  | .creating connection _ _ => some (connection, .read)
  | _ => none

/-- The entries from this index on have not fired in the current pass. -/
def PollThread.frontier : PollThread → Option Nat
  | .polling => some 0
  | .pass i _ => some i
  | .notify i _ _ _ | .accepting i _ | .creating _ i _ | .created _ i _ => some (i + 1)
  | .applyBefore | .applyAfter _ | .returned => none

/-- The pending and running steps, each with its connection. -/
def State.steps (s : State) : Multiset (Nat × Stage) :=
  s.poll.registrations.filterMap (fun registration => registration.2.token) + ↑s.thread.token.toList +
    ↑(s.ioQueue.filterMap fun dispatched => dispatched.1.token) +
    ↑(s.processingQueue.map fun connection => (connection, Stage.answer)) +
    ↑(s.running.filterMap Work.token)

/-- The invariant, with the tokens a step has taken out of the state and not put back. -/
structure Inv (held : Multiset (Nat × Stage)) (s : State) : Prop where
  sound : s.poll.Sound
  linear : Linear (held + s.steps) s.connections
  opened : ∀ token ∈ held + s.steps, ∃ fd, s.socket token.1 = some fd
  sockets : ∀ connection fd, s.socket connection = some fd ↔ s.owner fd = some (.connection connection)
  known : ∀ connection fd, s.socket connection = some fd → connection < s.connections
  registered : ∀ fd block, (fd, block) ∈ s.poll.registrations → s.owner fd = some block.owner
  deallocating : s.deallocating.Nodup
  released : ∀ connection ∈ s.deallocating,
    (∀ stage, (connection, stage) ∉ held + s.steps) ∧ ∃ fd, s.socket connection = some fd
  dispatched : s.dispatched.Nodup
  answered : ∀ connection ∈ s.dispatched,
    connection < s.connections ∧ (connection, Stage.read) ∉ held + s.steps
  waiting : ∀ n, s.thread.frontier = some n → ∀ j entry, n ≤ j →
    s.poll.polls[j]? = some entry → entry.fired = false

/-- The parts of the state that few steps change. -/
structure Quiet (s t : State) : Prop where
  owner : t.owner = s.owner
  socket : t.socket = s.socket
  connections : t.connections = s.connections
  deallocating : t.deallocating = s.deallocating
  dispatched : t.dispatched = s.dispatched

section Moves

variable {s t : State} {held rest : Multiset (Nat × Stage)}

/-- Tokens may be moved and dropped. -/
theorem Inv.move (inv : Inv held s) (quiet : Quiet s t) (sound : t.poll.Sound)
    (registrations : t.poll.registrations ≤ s.poll.registrations)
    (fewer : rest + t.steps ≤ held + s.steps)
    (waiting : ∀ n, t.thread.frontier = some n → ∀ j entry, n ≤ j →
      t.poll.polls[j]? = some entry → entry.fired = false) : Inv rest t := by
  obtain ⟨owner, socket, connections, deallocating, dispatched⟩ := quiet
  constructor
  · exact sound
  · rw [connections]
    exact inv.linear.mono fewer
  · rw [socket]
    exact fun token mem => inv.opened token (Multiset.mem_of_le fewer mem)
  · rw [socket, owner]
    exact inv.sockets
  · rw [socket, connections]
    exact inv.known
  · rw [owner]
    exact fun fd block mem => inv.registered fd block (Multiset.mem_of_le registrations mem)
  · rw [deallocating]
    exact inv.deallocating
  · rw [deallocating, socket]
    intro connection mem
    obtain ⟨free, opened⟩ := inv.released connection mem
    exact ⟨fun stage token => free stage (Multiset.mem_of_le fewer token), opened⟩
  · rw [dispatched]
    exact inv.dispatched
  · rw [dispatched, connections]
    intro connection mem
    obtain ⟨known, free⟩ := inv.answered connection mem
    exact ⟨known, fun token => free (Multiset.mem_of_le fewer token)⟩
  · exact waiting

/-- A step of the workers: neither the poll nor its thread is involved. -/
theorem Inv.keep (inv : Inv held s) (quiet : Quiet s t) (poll : t.poll = s.poll)
    (thread : t.thread = s.thread) (fewer : rest + t.steps ≤ held + s.steps) : Inv rest t := by
  refine inv.move quiet (poll ▸ inv.sound) (by rw [poll]) fewer ?_
  rw [poll, thread]
  exact inv.waiting

/-- A step of the poll thread alone that keeps its token. -/
theorem Inv.setThread (inv : Inv held s) (thread : PollThread) (token : thread.token = s.thread.token)
    (waiting : ∀ n, thread.frontier = some n → ∀ j entry, n ≤ j →
      s.poll.polls[j]? = some entry → entry.fired = false) : Inv held { s with thread } := by
  refine inv.move ⟨rfl, rfl, rfl, rfl, rfl⟩ inv.sound le_rfl ?_ waiting
  simp only [State.steps, token, le_rfl]

/-- The pass goes on with the next entry. -/
theorem Inv.nextEntry (inv : Inv held s) (thread : PollThread) (token : thread.token = s.thread.token)
    (now : s.thread.frontier = some n) (next : thread.frontier = some m) (le : n ≤ m) :
    Inv held { s with thread } := by
  refine inv.setThread thread token ?_
  intro k at_ j entry above
  obtain rfl := Option.some.inj (at_.symm.trans next)
  exact inv.waiting n now j entry (le.trans above)

/-- The pass, or this part of the thread, is over. -/
theorem Inv.leave (inv : Inv held s) (thread : PollThread) (token : thread.token = s.thread.token)
    (none : thread.frontier = none) : Inv held { s with thread } :=
  inv.setThread thread token (by simp [none])

/-- The tokens of the running blocks change. -/
theorem Inv.setRunning (inv : Inv held s) (running : List Work)
    (fewer : rest + ↑(running.filterMap Work.token) ≤ held + ↑(s.running.filterMap Work.token)) :
    Inv rest { s with running } := by
  refine inv.keep ⟨rfl, rfl, rfl, rfl, rfl⟩ rfl rfl ?_
  have sum := add_le_add_right fewer (s.poll.registrations.filterMap
    (fun registration => registration.2.token) + ↑s.thread.token.toList +
    ↑(s.ioQueue.filterMap fun dispatched => dispatched.1.token) +
    ↑(s.processingQueue.map fun connection => (connection, Stage.answer)))
  refine (le_of_eq ?_).trans (sum.trans (le_of_eq ?_)) <;> simp only [State.steps] <;> abel

end Moves

section Poll

variable {s : State} {held : Multiset (Nat × Stage)}

theorem Block.token_of_owner {block : Block} {connection : Nat}
    (owner : block.owner = .connection connection) :
    ∃ stage, block.token = some (connection, stage) := by
  cases block <;> cases owner
  · exact ⟨.read, rfl⟩
  · exact ⟨.answer, rfl⟩

theorem mem_steps_of_registration {token : Nat × Stage} (registration : (fd, block) ∈ s.poll.registrations)
    (held : block.token = some token) : token ∈ s.steps := by
  have mem : token ∈ s.poll.registrations.filterMap fun registration => registration.2.token :=
    (Multiset.mem_filterMap _ _).mpr ⟨(fd, block), registration, held⟩
  simp only [State.steps, Multiset.mem_add]
  exact .inl (.inl (.inl (.inl mem)))

/-- The descriptor of a connection is not registered while its token is elsewhere. -/
theorem Inv.free (inv : Inv held s) (owner : s.owner fd = some (.connection connection))
    (elsewhere : ∀ stage, (connection, stage) ∉ s.steps) : ∀ block, (fd, block) ∉ s.poll.registrations := by
  intro block registration
  have same := (inv.registered fd block registration).symm.trans owner
  obtain ⟨stage, token⟩ := Block.token_of_owner (Option.some.inj same)
  exact elsewhere stage (mem_steps_of_registration registration token)

/-- Replacing the poll by one with the same registrations. -/
theorem Inv.poll (inv : Inv held s) {poll : Poll Block} (sound : poll.Sound)
    (same : poll.registrations = s.poll.registrations)
    (waiting : ∀ n, s.thread.frontier = some n → ∀ j entry, n ≤ j →
      poll.polls[j]? = some entry → entry.fired = false) : Inv held { s with poll } :=
  inv.move ⟨rfl, rfl, rfl, rfl, rfl⟩ sound same.le (by simp only [State.steps, same, le_rfl]) waiting

theorem Inv.unregister (inv : Inv held s) (owner : s.owner fd = some (.connection connection))
    (elsewhere : ∀ stage, (connection, stage) ∉ s.steps) :
    Inv held { s with poll := pollUnregister s.poll fd } :=
  inv.poll (inv.sound.enqueue (inv.free owner elsewhere) none) (by simp) inv.waiting

/-- The holder of the token of a connection registers its socket and gives the token away. -/
theorem Inv.register {token : Nat × Stage} (inv : Inv (token ::ₘ held) s)
    (socket : s.socket token.1 = some fd) (block : Block) (carries : block.token = some token)
    (owner : block.owner = .connection token.1) :
    Inv held { s with poll := pollRegister s.poll fd block } := by
  obtain ⟨connection, stage⟩ := token
  have ownerFd := (inv.sockets connection fd).mp socket
  have elsewhere : ∀ other, (connection, other) ∉ s.steps := by
    intro other mem
    have linear := inv.linear
    rw [Multiset.cons_add] at linear
    exact linear.not_mem_rest (Multiset.mem_add.mpr (.inr mem))
  have steps : ({ s with poll := pollRegister s.poll fd block } : State).steps =
      (connection, stage) ::ₘ s.steps := by
    simp only [State.steps, Poll.registrations_register, filterMap_cons_toList, carries,
      Option.toList_some, Multiset.coe_singleton, Multiset.singleton_add, Multiset.cons_add]
  have all : held + ({ s with poll := pollRegister s.poll fd block } : State).steps =
      (connection, stage) ::ₘ held + s.steps := by
    rw [steps, Multiset.cons_add, Multiset.add_cons]
  constructor
  · exact inv.sound.enqueue (inv.free ownerFd elsewhere) (some block)
  · rw [all]
    exact inv.linear
  · rw [all]
    exact inv.opened
  · exact inv.sockets
  · exact inv.known
  · intro other registered mem
    rcases Multiset.mem_cons.mp ((Poll.registrations_register s.poll fd block) ▸ mem) with new | old
    · obtain ⟨rfl, rfl⟩ := Prod.mk.inj new
      rw [owner]
      exact ownerFd
    · exact inv.registered other registered old
  · exact inv.deallocating
  · rw [all]
    exact inv.released
  · exact inv.dispatched
  · rw [all]
    exact inv.answered
  · exact inv.waiting

end Poll

section Sockets

variable {s : State} {held : Multiset (Nat × Stage)}

/-- The poll thread accepts a connection and holds its first token. -/
theorem Inv.accept (inv : Inv held s) (free : s.owner fd = none) :
    Inv ((s.connections, Stage.read) ::ₘ held)
      { s with
        owner := Function.update s.owner fd (some (.connection s.connections))
        socket := Function.update s.socket s.connections (some fd)
        connections := s.connections + 1 } := by
  have unused : ∀ other, s.socket s.connections ≠ some other :=
    fun other socket => lt_irrefl _ (inv.known _ other socket)
  have older : ∀ connection, connection < s.connections →
      Function.update s.socket s.connections (some fd) connection = s.socket connection :=
    fun connection less => Function.update_of_ne less.ne _ _
  have fresh : ∀ connection stage, connection < s.connections → (connection, stage) ∉ held + s.steps →
      (connection, stage) ∉ (s.connections, Stage.read) ::ₘ (held + s.steps) := by
    intro connection stage less absent mem
    rcases Multiset.mem_cons.mp mem with new | old
    · exact less.ne (Prod.mk.inj new).1
    · exact absent old
  constructor
  · exact inv.sound
  · rw [Multiset.cons_add]
    exact inv.linear.issue
  · rw [Multiset.cons_add]
    intro token mem
    rcases Multiset.mem_cons.mp mem with rfl | old
    · exact ⟨fd, Function.update_self _ _ _⟩
    · obtain ⟨other, socket⟩ := inv.opened token old
      exact ⟨other, (older _ (inv.linear.known token old)).trans socket⟩
  · intro connection other
    dsimp only
    by_cases new : connection = s.connections
    · subst new
      by_cases same : other = fd
      · simp [same]
      · have absent : s.owner other ≠ some (.connection s.connections) :=
          fun owner => unused other ((inv.sockets _ other).mpr owner)
        have different : ¬fd = other := fun eq => same eq.symm
        simp [Function.update_of_ne same, absent, different]
    · rw [Function.update_of_ne new]
      by_cases same : other = fd
      · subst same
        have different : ¬s.connections = connection := fun eq => new eq.symm
        simp [inv.sockets, free, different]
      · rw [Function.update_of_ne same]
        exact inv.sockets connection other
  · intro connection other socket
    dsimp only at socket ⊢
    by_cases new : connection = s.connections
    · omega
    · rw [Function.update_of_ne new] at socket
      have := inv.known connection other socket
      omega
  · intro other block mem
    have owner := inv.registered other block mem
    have different : other ≠ fd := by
      rintro rfl
      simp [free] at owner
    exact (Function.update_of_ne different _ _).trans owner
  · exact inv.deallocating
  · rw [Multiset.cons_add]
    intro connection mem
    obtain ⟨absent, other, socket⟩ := inv.released connection mem
    have less := inv.known connection other socket
    exact ⟨fun stage => fresh connection stage less (absent stage), other, (older _ less).trans socket⟩
  · exact inv.dispatched
  · rw [Multiset.cons_add]
    intro connection mem
    obtain ⟨less, absent⟩ := inv.answered connection mem
    exact ⟨less.trans (Nat.lt_succ_self _), fresh connection .read less absent⟩
  · exact inv.waiting

/-- A connection without a token closes its socket. -/
theorem Inv.close (inv : Inv held s) (socket : s.socket connection = some fd)
    (absent : ∀ stage, (connection, stage) ∉ held + s.steps) (kept : connection ∉ s.deallocating) :
    Inv held (s.close connection fd) := by
  have ownerFd := (inv.sockets connection fd).mp socket
  have elsewhere : ∀ stage, (connection, stage) ∉ s.steps :=
    fun stage mem => absent stage (Multiset.mem_add.mpr (.inr mem))
  have others : ∀ other, other ≠ connection → (s.close connection fd).socket other = s.socket other :=
    fun other different => Function.update_of_ne different _ _
  constructor
  · exact inv.sound
  · exact inv.linear
  · intro token mem
    have different : token.1 ≠ connection := by
      intro same
      exact absent token.2 (same ▸ mem)
    rw [others token.1 different]
    exact inv.opened token mem
  · intro other otherFd
    by_cases same : other = connection
    · subst same
      by_cases sameFd : otherFd = fd
      · simp [State.close, sameFd]
      · have owner : s.owner otherFd ≠ some (.connection other) := by
          intro owner
          have again := (inv.sockets other otherFd).mpr owner
          exact sameFd (Option.some.inj (again.symm.trans socket))
        simp [State.close, Function.update_of_ne sameFd, owner]
    · rw [others other same]
      by_cases sameFd : otherFd = fd
      · subst sameFd
        have different : ¬connection = other := fun eq => same eq.symm
        simp [State.close, inv.sockets, ownerFd, different]
      · have owner : (s.close connection fd).owner otherFd = s.owner otherFd :=
          Function.update_of_ne sameFd _ _
        rw [owner]
        exact inv.sockets other otherFd
  · intro other otherFd open_
    by_cases same : other = connection
    · simp [State.close, same] at open_
    · rw [others other same] at open_
      exact inv.known other otherFd open_
  · intro otherFd block mem
    have different : otherFd ≠ fd := by
      rintro rfl
      exact inv.free ownerFd elsewhere block mem
    exact (Function.update_of_ne different _ _).trans (inv.registered otherFd block mem)
  · exact inv.deallocating
  · intro other mem
    obtain ⟨free, otherFd, open_⟩ := inv.released other mem
    have different : other ≠ connection := by
      rintro rfl
      exact kept mem
    exact ⟨free, otherFd, (others other different).trans open_⟩
  · exact inv.dispatched
  · exact inv.answered
  · exact inv.waiting

/-- A listening socket is registered once and never closed. -/
theorem Inv.listen (inv : Inv held s) (free : s.owner fd = none) :
    Inv held { s with
      owner := Function.update s.owner fd (some .listener)
      poll := pollRegister s.poll fd .accept } := by
  have unregistered : ∀ block, (fd, block) ∉ s.poll.registrations := by
    intro block mem
    simp [inv.registered fd block mem] at free
  have steps : ({ s with
      owner := Function.update s.owner fd (some .listener)
      poll := pollRegister s.poll fd .accept } : State).steps = s.steps := by
    simp only [State.steps, Poll.registrations_register, filterMap_cons_toList, Block.token,
      Option.toList_none, Multiset.coe_nil, zero_add]
  constructor
  · exact inv.sound.enqueue unregistered (some .accept)
  · rw [steps]
    exact inv.linear
  · rw [steps]
    exact inv.opened
  · intro connection other
    dsimp only
    by_cases same : other = fd
    · subst same
      simp [inv.sockets, free]
    · rw [Function.update_of_ne same]
      exact inv.sockets connection other
  · exact inv.known
  · intro other block mem
    rcases Multiset.mem_cons.mp ((Poll.registrations_register s.poll fd .accept) ▸ mem) with new | old
    · obtain ⟨rfl, rfl⟩ := Prod.mk.inj new
      exact Function.update_self _ _ _
    · have different : other ≠ fd := by
        rintro rfl
        exact unregistered block old
      exact (Function.update_of_ne different _ _).trans (inv.registered other block old)
  · exact inv.deallocating
  · rw [steps]
    exact inv.released
  · exact inv.dispatched
  · rw [steps]
    exact inv.answered
  · exact inv.waiting

end Sockets

section Steps

variable {s t : State} {held rest : Multiset (Nat × Stage)}

/-- The holder of a token for reading dispatches the processing of the request. -/
theorem Inv.dispatch (inv : Inv ((connection, Stage.read) ::ₘ held) s) :
    Inv held { s with
      processingQueue := s.processingQueue ++ [connection]
      dispatched := s.dispatched ++ [connection] } := by
  have all : held + ({ s with
      processingQueue := s.processingQueue ++ [connection]
      dispatched := s.dispatched ++ [connection] } : State).steps =
      (connection, Stage.answer) ::ₘ (held + s.steps) := by
    simp only [State.steps, List.map_append, List.map_cons, List.map_nil, ← Multiset.coe_add,
      Multiset.coe_singleton, ← Multiset.singleton_add]
    abel
  have linear := inv.linear
  have opened := inv.opened
  have released := inv.released
  have answered := inv.answered
  rw [Multiset.cons_add] at linear opened released answered
  have first := Multiset.mem_cons_self (connection, Stage.read) (held + s.steps)
  constructor
  · exact inv.sound
  · rw [all]
    exact linear.exchange
  · rw [all]
    intro token mem
    rcases Multiset.mem_cons.mp mem with rfl | old
    · exact opened (connection, .read) first
    · exact opened token (Multiset.mem_cons_of_mem old)
  · exact inv.sockets
  · exact inv.known
  · exact inv.registered
  · exact inv.deallocating
  · rw [all]
    intro other mem
    obtain ⟨free, socket⟩ := released other mem
    refine ⟨?_, socket⟩
    intro stage token
    rcases Multiset.mem_cons.mp token with new | old
    · obtain ⟨rfl, rfl⟩ := Prod.mk.inj new
      exact free .read first
    · exact free stage (Multiset.mem_cons_of_mem old)
  · refine List.nodup_append.mpr ⟨inv.dispatched, by simp, ?_⟩
    rintro other mem last new rfl
    obtain rfl := List.mem_singleton.mp new
    exact (answered other mem).2 first
  · rw [all]
    intro other mem
    rcases List.mem_append.mp mem with old | new
    · obtain ⟨known, free⟩ := answered other old
      refine ⟨known, ?_⟩
      intro token
      rcases Multiset.mem_cons.mp token with new | old
      · simp at new
      · exact free (Multiset.mem_cons_of_mem old)
    · obtain rfl := List.mem_singleton.mp new
      refine ⟨linear.known _ first, ?_⟩
      intro token
      rcases Multiset.mem_cons.mp token with new | old
      · simp at new
      · exact linear.not_mem_rest old
  · exact inv.waiting

theorem Inv.readRequest (inv : Inv ((connection, Stage.read) ::ₘ held) s)
    (read : ReadRequest connection s t) : Inv held t := by
  cases read with
  | failed =>
    refine inv.keep ⟨rfl, rfl, rfl, rfl, rfl⟩ rfl rfl ?_
    rw [Multiset.cons_add]
    exact Multiset.le_cons_self _ _
  | complete => exact inv.dispatch
  | incomplete fd socket => exact inv.register socket (.read connection) rfl rfl

theorem ReadRequest.setThread (read : ReadRequest connection s t) (thread : PollThread) :
    ReadRequest connection { s with thread } { t with thread } := by
  cases read with
  | failed => exact .failed
  | complete => exact .complete
  | incomplete fd socket => exact .incomplete fd socket

theorem ReadRequest.work (read : ReadRequest connection s t) (before : List Work) (now : Work)
    (after : List Work) : ReadRequest connection (s.work before now after) (t.work before now after) := by
  cases read with
  | failed => exact .failed
  | complete => exact .complete
  | incomplete fd socket => exact .incomplete fd socket

/-- A worker goes on with other work, holding or dropping its token. -/
theorem Inv.setWork (inv : Inv held s) (running : s.running = before ++ now :: after) (next : Work)
    (fewer : rest + ↑next.token.toList ≤ held + ↑now.token.toList) :
    Inv rest (s.work before next after) := by
  refine inv.setRunning _ ?_
  have sum := add_le_add_right fewer
    (↑(before.filterMap Work.token) + ↑(after.filterMap Work.token) : Multiset (Nat × Stage))
  rw [running]
  simp only [List.filterMap_append, ← Multiset.coe_add, coe_filterMap_cons]
  refine (le_of_eq ?_).trans (sum.trans (le_of_eq ?_)) <;> abel

/-- A dispatched block has no other token than it was dispatched with. -/
theorem Block.token_start {block : Block} (start : block.start hup = some work) :
    (↑work.token.toList : Multiset (Nat × Stage)) ≤ ↑block.token.toList := by
  cases block <;> cases hup <;> cases start <;> simp [Work.token, Block.token]

/-- The entry at the index is called; its token moves from the table to the thread. -/
theorem Inv.fire (inv : Inv held s) (pass : s.thread = .pass i (socksToHandle + 1))
    (found : s.poll.polls[i]? = some entry) (hup : Bool) :
    Inv held { s with
      poll := s.poll.fire i entry
      thread := .notify i socksToHandle entry.block hup } := by
  have frontier : s.thread.frontier = some i := by rw [pass]; rfl
  have waits := inv.waiting i frontier i entry le_rfl found
  obtain ⟨sound, registrations⟩ := inv.sound.fire found waits
  refine inv.move ⟨rfl, rfl, rfl, rfl, rfl⟩ sound ?_ ?_ ?_
  · rw [← registrations]
    exact Multiset.le_cons_self _ _
  · have moved : s.poll.registrations.filterMap (fun registration => registration.2.token) =
        ↑entry.block.token.toList +
          (s.poll.fire i entry).registrations.filterMap fun registration => registration.2.token := by
      rw [← registrations, filterMap_cons_toList]
    refine le_of_eq ?_
    simp only [State.steps, moved, pass, PollThread.token, Option.toList_none, Multiset.coe_nil]
    abel
  · intro n next j other above at_
    obtain rfl : i + 1 = n := Option.some.inj next
    have different : i ≠ j := by omega
    have same : s.poll.polls[j]? = some other := by
      rw [← at_]
      exact (List.getElem?_set_ne different).symm
    exact inv.waiting i frontier j other (by omega) same

/-- No other step of the connection whose token is held exists. -/
theorem Inv.not_mem_steps (inv : Inv ((connection, stage) ::ₘ held) s) (other : Stage) :
    (connection, other) ∉ s.steps := by
  have linear := inv.linear
  rw [Multiset.cons_add] at linear
  exact fun mem => linear.not_mem_rest (Multiset.mem_add.mpr (.inr mem))

theorem Inv.startDealloc (inv : Inv held s) (socket : s.socket connection = some fd)
    (absent : ∀ stage, (connection, stage) ∉ held + s.steps) (fresh : connection ∉ s.deallocating) :
    Inv held { s with deallocating := connection :: s.deallocating } := by
  obtain ⟨sound, linear, opened, sockets, known, registered, deallocating, released, dispatched,
    answered, waiting⟩ := inv
  refine ⟨sound, linear, opened, sockets, known, registered, List.nodup_cons.mpr ⟨fresh, deallocating⟩,
    ?_, dispatched, answered, waiting⟩
  intro other mem
  rcases List.mem_cons.mp mem with rfl | old
  · exact ⟨absent, fd, socket⟩
  · exact released other old

theorem Inv.endDealloc (inv : Inv held s) (deallocating : s.deallocating = before ++ connection :: after) :
    Inv held { s with deallocating := before ++ after } ∧ connection ∉ before ++ after := by
  have once := inv.deallocating
  rw [deallocating, List.nodup_middle, List.nodup_cons] at once
  refine ⟨?_, once.1⟩
  obtain ⟨sound, linear, opened, sockets, known, registered, _, released, dispatched, answered,
    waiting⟩ := inv
  refine ⟨sound, linear, opened, sockets, known, registered, once.2, ?_, dispatched, answered, waiting⟩
  intro other mem
  refine released other ?_
  rw [deallocating]
  simp only [List.mem_append, List.mem_cons] at mem ⊢
  tauto

theorem mem_references_of_step (mem : (connection, stage) ∈ s.steps) : connection ∈ s.references := by
  have block : ∀ {block : Block}, block.token = some (connection, stage) →
      block.connection = some connection := by
    intro block token
    cases block <;> cases token <;> rfl
  simp only [State.steps, Multiset.mem_add, Multiset.mem_filterMap, Multiset.mem_coe, Option.mem_toList,
    List.mem_filterMap, List.mem_map] at mem
  simp only [State.references, List.mem_append, List.mem_filterMap, Option.mem_toList, List.mem_map]
  rcases mem with (((registration | thread) | dispatched) | processing) | running
  · obtain ⟨⟨fd, registered⟩, mem, token⟩ := registration
    rcases Poll.mem_registrations.mp mem with ⟨update, queued, _, found⟩ | ⟨entry, listed, _, _, rfl⟩
    · exact .inl (.inl (.inl (.inl (.inl ⟨update, queued, by rw [found]; exact block token⟩))))
    · exact .inl (.inl (.inl (.inl (.inr ⟨entry, listed, block token⟩))))
  · refine .inl (.inl (.inl (.inr ?_)))
    cases place : s.thread <;> simp only [place, PollThread.token, reduceCtorEq] at thread
    · exact block thread
    · cases thread
      rfl
  · obtain ⟨dispatched, mem, token⟩ := dispatched
    exact .inl (.inl (.inr ⟨dispatched, mem, block token⟩))
  · obtain ⟨other, mem, same⟩ := processing
    cases same
    exact .inl (.inr mem)
  · obtain ⟨work, mem, token⟩ := running
    refine .inr ⟨work, mem, ?_⟩
    cases work <;> cases token <;> rfl

theorem Inv.step (inv : Inv 0 s) (step : Step s t) : Inv 0 t := by
  cases step with
  | applyUpdate update rest stage head =>
    obtain ⟨sound, same⟩ := inv.sound.apply head
    refine inv.poll sound same ?_
    rcases stage with thread | ⟨result, thread⟩ <;> simp [thread, PollThread.frontier]
  | enterPoll thread empty =>
    refine inv.setThread .polling (by rw [thread]; rfl) ?_
    exact fun _ _ _ entry _ found => inv.sound.drained empty entry (List.mem_of_getElem? found)
  | leavePoll revents thread =>
    have quiet := inv.leave (.applyAfter (some (s.poll.ready revents).socksToHandle))
      (by rw [thread]; rfl) rfl
    exact quiet.poll (inv.sound.ready revents) (Poll.registrations_ready _ _) (by simp [PollThread.frontier])
  | pollFails thread => exact inv.leave (.applyAfter none) (by rw [thread]; rfl) rfl
  | startPass socksToHandle thread empty =>
    refine inv.setThread (.pass 0 socksToHandle) (by rw [thread]; rfl) ?_
    exact fun _ _ _ entry _ found => inv.sound.drained empty entry (List.mem_of_getElem? found)
  | threadReturns thread _ => exact inv.leave .returned (by rw [thread]; rfl) rfl
  | endPass i socksToHandle thread _ => exact inv.leave .applyBefore (by rw [thread]; rfl) rfl
  | skipEntry i socksToHandle entry thread _ _ _ =>
    exact inv.nextEntry (.pass (i + 1) socksToHandle) (by rw [thread]; rfl) (by rw [thread]; rfl) rfl
      (Nat.le_succ i)
  | notifyRepeat i socksToHandle entry hup thread found _ repeats =>
    have token : entry.block.token = none := by
      cases block : entry.block <;> simp [block, Block.repeats, Block.token] at repeats ⊢
    exact inv.nextEntry (.notify i socksToHandle entry.block hup) (by rw [thread]; exact token)
      (by rw [thread]; rfl) rfl (Nat.le_succ i)
  | notifyOnce i socksToHandle entry hup thread found _ _ => exact inv.fire thread found hup
  | dispatch i socksToHandle block hup thread _ =>
    have frontier : s.thread.frontier = some (i + 1) := by rw [thread]; rfl
    refine inv.move ⟨rfl, rfl, rfl, rfl, rfl⟩ inv.sound le_rfl (le_of_eq ?_) ?_
    · simp only [State.steps, thread, PollThread.token, List.filterMap_append, ← Multiset.coe_add,
        coe_filterMap_cons, List.filterMap_nil, Option.toList_none, Multiset.coe_nil]
      abel
    · intro n next j entry above at_
      obtain rfl : i + 1 = n := Option.some.inj next
      exact inv.waiting (i + 1) frontier j entry above at_
  | wakeUp i socksToHandle hup thread =>
    exact inv.nextEntry (.pass (i + 1) socksToHandle) (by rw [thread]; rfl) (by rw [thread]; rfl) rfl le_rfl
  | listenerHup i socksToHandle thread =>
    exact inv.nextEntry (.pass (i + 1) socksToHandle) (by rw [thread]; rfl) (by rw [thread]; rfl) rfl le_rfl
  | listener i socksToHandle thread =>
    exact inv.nextEntry (.accepting i socksToHandle) (by rw [thread]; rfl) (by rw [thread]; rfl) rfl le_rfl
  | acceptFails i socksToHandle thread =>
    exact inv.nextEntry (.pass (i + 1) socksToHandle) (by rw [thread]; rfl) (by rw [thread]; rfl) rfl le_rfl
  | accept i socksToHandle fd thread free =>
    have accepted := inv.accept free
    refine accepted.move ⟨rfl, rfl, rfl, rfl, rfl⟩ inv.sound le_rfl (le_of_eq ?_) ?_
    · simp only [State.steps, thread, PollThread.token, Option.toList_none, Option.toList_some,
        Multiset.coe_nil, Multiset.coe_singleton, ← Multiset.singleton_add]
      abel
    · intro n next j entry above at_
      obtain rfl : i + 1 = n := Option.some.inj next
      exact inv.waiting (i + 1) (by rw [thread]; rfl) j entry above at_
  | createRead connection i socksToHandle t thread read =>
    have held : Inv ((connection, Stage.read) ::ₘ 0) { s with thread := .created connection i socksToHandle } := by
      refine inv.move ⟨rfl, rfl, rfl, rfl, rfl⟩ inv.sound le_rfl (le_of_eq ?_) ?_
      · simp only [State.steps, thread, PollThread.token, Option.toList_none, Option.toList_some,
          Multiset.coe_nil, Multiset.coe_singleton, ← Multiset.singleton_add]
        abel
      · intro n next j entry above at_
        obtain rfl : i + 1 = n := Option.some.inj next
        exact inv.waiting (i + 1) (by rw [thread]; rfl) j entry above at_
    exact held.readRequest (read.setThread _)
  | releaseCreated connection i socksToHandle thread =>
    exact inv.nextEntry (.pass (i + 1) socksToHandle) (by rw [thread]; rfl) (by rw [thread]; rfl) rfl le_rfl
  | takeInput block hup rest work queue start =>
    refine inv.keep ⟨rfl, rfl, rfl, rfl, rfl⟩ rfl rfl ?_
    have fewer := add_le_add_right (Block.token_start start)
      (s.poll.registrations.filterMap (fun registration => registration.2.token) + ↑s.thread.token.toList +
        ↑(rest.filterMap fun dispatched => dispatched.1.token) +
        ↑(s.processingQueue.map fun connection => (connection, Stage.answer)) +
        ↑(s.running.filterMap Work.token))
    simp only [State.steps, queue, coe_filterMap_cons]
    refine (le_of_eq ?_).trans (fewer.trans (le_of_eq ?_)) <;> abel
  | takeProcessing connection rest queue =>
    refine inv.keep ⟨rfl, rfl, rfl, rfl, rfl⟩ rfl rfl (le_of_eq ?_)
    simp only [State.steps, queue, coe_filterMap_cons, Work.token, Option.toList_some, List.map_cons,
      ← Multiset.cons_coe, ← Multiset.singleton_add]
    abel
  | readRequest connection before after t running read =>
    have held : Inv ((connection, Stage.read) ::ₘ 0) (s.work before (.over connection) after) :=
      inv.setWork running _ (by simp [Work.token])
    exact held.readRequest (read.work _ _ _)
  | processFails connection before after running => exact inv.setWork running _ (by simp [Work.token])
  | processRequest connection before after running => exact inv.setWork running _ (by simp [Work.token])
  | sendIncomplete connection fd before after running socket =>
    have held : Inv ((connection, Stage.answer) ::ₘ 0) (s.work before (.over connection) after) :=
      inv.setWork running _ (by simp [Work.token])
    exact held.register socket (.send connection) rfl rfl
  | sendComplete connection fd before after running socket =>
    have held : Inv ((connection, Stage.answer) ::ₘ 0) (s.work before (.over connection) after) :=
      inv.setWork running _ (by simp [Work.token])
    have unregistered := held.unregister ((held.sockets connection fd).mp socket) held.not_mem_steps
    exact unregistered.setWork rfl (.closing connection) (by simp [Work.token])
  | closeSocket connection fd before after running socket =>
    have held : Inv ((connection, Stage.answer) ::ₘ 0) (s.work before (.over connection) after) :=
      inv.setWork running _ (by simp [Work.token])
    have dropped : Inv 0 (s.work before (.over connection) after) :=
      inv.setWork running _ (by simp [Work.token])
    refine dropped.close socket ?_ ?_
    · simpa using held.not_mem_steps
    · intro mem
      exact (held.released connection mem).1 .answer (by simp)
  | releaseBlock connection before after running =>
    refine inv.setRunning _ (le_of_eq ?_)
    simp only [running, List.filterMap_append, ← Multiset.coe_add, coe_filterMap_cons, Work.token,
      Option.toList_none, Multiset.coe_nil, zero_add]
  | dealloc connection fd unreferenced fresh socket =>
    have absent : ∀ stage, (connection, stage) ∉ s.steps :=
      fun stage mem => unreferenced (mem_references_of_step mem)
    have started := inv.startDealloc socket (by simpa using absent) fresh
    exact started.unregister ((inv.sockets connection fd).mp socket) absent
  | deallocClose connection fd before after deallocating socket =>
    obtain ⟨ended, gone⟩ := inv.endDealloc deallocating
    have mem : connection ∈ s.deallocating := by simp [deallocating]
    exact ended.close socket (inv.released connection mem).1 gone
  | listen fd free => exact inv.listen free

end Steps

theorem inv_initial (readEnd writeEnd : Nat) : Inv 0 (initial readEnd writeEnd) := by
  have none : ∀ block : Block, (readEnd, block) ∉
      ({ updateQueue := [], polls := [], stamps := 0, fired := [] } : Poll Block).registrations := by
    simp [Poll.registrations]
  have registrations : (initial readEnd writeEnd).poll.registrations = {(readEnd, Block.wakeUp)} := rfl
  have steps : (initial readEnd writeEnd).steps = 0 := rfl
  constructor
  · exact Poll.Sound.empty.enqueue none (some .wakeUp)
  · rw [steps]
    exact Linear.empty
  · rw [steps]
    simp
  · intro connection fd
    simp only [initial]
    split <;> simp
  · simp [initial]
  · rw [registrations]
    intro fd block mem
    obtain ⟨rfl, rfl⟩ := Prod.mk.inj (Multiset.mem_singleton.mp mem)
    simp [initial, Block.owner]
  · simp [initial]
  · simp [initial]
  · simp [initial]
  · simp [initial]
  · simp [initial, PollThread.frontier]

theorem ServerRun.inv (run : ServerRun readEnd writeEnd s) : Inv 0 s := by
  obtain ⟨steps, run⟩ := run
  exact run.invariant (inv_initial readEnd writeEnd) fun inv step => inv.step step

theorem ServerRun.step (run : ServerRun readEnd writeEnd s) (step : Step s t) :
    ServerRun readEnd writeEnd t := by
  obtain ⟨steps, run⟩ := run
  exact ⟨steps ++ [()], .snoc run step⟩

/-- In every state that any interleaving reaches: a connection has at most one pending or
running step, its request is processed at most once, no one-shot registration fires
twice, the next removal finds at most an older entry that has fired, and while the thread
is in `poll` every entry of a connection belongs to its open socket. -/
theorem connection_protocol (run : ServerRun readEnd writeEnd s) :
    (∀ connection, (s.steps.map Prod.fst).count connection ≤ 1) ∧
      s.dispatched.Nodup ∧ s.poll.fired.Nodup ∧
      (∀ update rest, s.poll.updateQueue = update :: rest → update.block = none →
        ∀ entry ∈ s.poll.polls, entry.fd = update.fd →
          entry.fired = true ∧ entry.stamp < update.stamp) ∧
      (s.thread = .polling → ∀ entry ∈ s.poll.polls, ∀ connection,
        entry.block.connection = some connection →
          s.socket connection = some entry.fd ∧ s.owner entry.fd = some (.connection connection)) := by
  have inv := run.inv
  refine ⟨?_, inv.dispatched, inv.sound.once, ?_, ?_⟩
  · have unique := inv.linear.unique
    rw [zero_add] at unique
    exact fun connection => Multiset.nodup_iff_count_le_one.mp unique connection
  · exact fun update rest head unregister => inv.sound.unregister_head head unregister
  · intro polling entry mem connection captured
    obtain ⟨j, inside, rfl⟩ := List.getElem_of_mem mem
    have waits := inv.waiting 0 (by rw [polling]; rfl) j _ (Nat.zero_le j) (List.getElem?_eq_getElem inside)
    have registration := Poll.mem_registrations.mpr (.inr ⟨_, mem, waits, rfl, rfl⟩)
    have owner := inv.registered _ _ registration
    have same : (s.poll.polls[j]).block.owner = .connection connection := by
      cases block : (s.poll.polls[j]).block <;> simp_all [Block.connection, Block.owner]
    rw [same] at owner
    exact ⟨(inv.sockets _ _).mpr owner, owner⟩

/-- A connection is accepted, and its socket is registered for the rest of the request. -/
theorem connection_protocol_accepted : ∃ s, ServerRun 3 4 s ∧ s.connections = 1 ∧
    (s.steps.map Prod.fst).count 0 = 1 ∧ ∀ connection, (s.steps.map Prod.fst).count connection ≤ 1 := by
  have start : ServerRun 3 4 (initial 3 4) := ⟨[], .start⟩
  have listening := start.step (.listen 5 rfl)
  have first := listening.step (.applyUpdate _ _ (.inl rfl) rfl)
  have second := first.step (.applyUpdate _ _ (.inl rfl) rfl)
  have polling := second.step (.enterPoll rfl rfl)
  have ready := polling.step (.leavePoll (fun entry => if entry.fd = 5 then some false else none) rfl)
  have pass := ready.step (.startPass 1 rfl rfl)
  have skipped := pass.step (.skipEntry 0 1 _ rfl rfl (by decide) rfl)
  have notified := skipped.step (.notifyRepeat 1 0 _ false rfl rfl rfl rfl)
  have accepting := notified.step (.listener 1 0 rfl)
  have accepted := accepting.step (.accept 1 0 6 rfl rfl)
  have registered := accepted.step (.createRead 0 1 0 _ rfl (.incomplete 6 rfl))
  exact ⟨_, registered, rfl, rfl, (connection_protocol registered).1⟩

end KommunikationNetze.Webserver
