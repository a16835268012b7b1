import KommunikationNetze.Chat.PollInterest

/-! What a handler does to the table of the future. A handler registers, tells clients of
something and withdraws, and each of these is one move of the worlds and of the map. -/
namespace KommunikationNetze.Chat
open CLib Utils
variable {world after : World} {map : ServerMap}

section Accept

/-- The entry that the registration of the next client adds. -/
def acceptedEntry (world : World) (socket : Int) : PollEntry Descriptor ServerBlock :=
  { descriptorObject := .client world.poll.descriptors, fd := socket, events := pollIn
    revents := 0, queue := none, block := .client world.allocated }

theorem allocateClient_removals (world : World) (socket : Int) (pd : PollDescriptor) :
    (allocateClient world socket).removals pd = world.removals pd :=
  List.count_append.trans (Nat.add_zero _)

theorem Sound.accepted (sound : Sound world) (socket : Int) : Sound (allocateClient world socket) where
  fresh c below := by
    by_cases new : c = world.allocated
    · rw [new, allocateClient_new]
      exact Nat.lt_succ_self _
    · rw [allocateClient_old world socket new]
      exact Nat.lt_succ_of_lt (sound.fresh c (Nat.lt_of_le_of_ne (Nat.le_of_lt_succ below) new))
  injective c d first second same := by
    have older : ∀ c, c < world.allocated + 1 → c ≠ world.allocated → c < world.allocated :=
      fun c below old => Nat.lt_of_le_of_ne (Nat.le_of_lt_succ below) old
    by_cases new : c = world.allocated <;> by_cases newer : d = world.allocated
    · rw [new, newer]
    · rw [new, allocateClient_new, allocateClient_old world socket newer] at same
      exact absurd same.symm (Nat.ne_of_lt (sound.fresh d (older d second newer)))
    · rw [newer, allocateClient_new, allocateClient_old world socket new] at same
      exact absurd same (Nat.ne_of_lt (sound.fresh c (older c first new)))
    · rw [allocateClient_old world socket new, allocateClient_old world socket newer] at same
      exact sound.injective c d (older c first new) (older d second newer) same
  packed c := by
    by_cases new : c = world.allocated
    · rw [new, allocateClient_new]
      exact .empty
    · rw [allocateClient_old world socket new]
      exact sound.packed c
  removed c below := by
    have connected := allocateClient_connected world socket c
    rw [allocateClient_removals]
    by_cases new : c = world.allocated
    · rw [if_pos (connected.mpr (.inr new)), new, allocateClient_new]
      exact sound.unused _ (Nat.le_refl _)
    · rw [allocateClient_old world socket new,
        sound.removed c (Nat.lt_of_le_of_ne (Nat.le_of_lt_succ below) new)]
      exact if_congr (connected.trans (or_iff_left new)).symm rfl rfl
  unused pd beyond := by
    rw [allocateClient_removals]
    exact sound.unused pd (Nat.le_of_succ_le beyond)

/-- No client of the map has the descriptor that is made next. -/
theorem Consistent.fresh_descriptor (consistent : Consistent world map) :
    map (.client world.poll.descriptors) = none := by
  cases found : map (.client world.poll.descriptors) with
  | none => rfl
  | some entry =>
    obtain ⟨c, connected, same⟩ := consistent.only _ entry found
    exact absurd same (Nat.ne_of_lt (consistent.fresh c connected.1))

theorem Consistent.accepted (consistent : Consistent world map) (socket : Int) :
    Consistent (allocateClient world socket)
      (Function.update map (.client world.poll.descriptors) (some (acceptedEntry world socket))) where
  toSound := consistent.toSound.accepted socket
  client c here := by
    rcases (allocateClient_connected world socket c).mp here with old | rfl
    · have apart : c ≠ world.allocated := Nat.ne_of_lt old.1
      obtain ⟨entry, found, ⟨block, fd, interest⟩⟩ := consistent.client c old
      have other : world.descriptor c ≠ .client world.poll.descriptors := fun same =>
        absurd (Descriptor.client.inj same) (Nat.ne_of_lt (consistent.fresh c old.1))
      refine ⟨entry, ?_, block, ?_, ?_⟩
      · rw [World.descriptor, allocateClient_old world socket apart, ← World.descriptor,
          Function.update_of_ne other]
        exact found
      · rw [allocateClient_old world socket apart]
        exact fd
      · rw [allocateClient_old world socket apart]
        exact interest
    · refine ⟨acceptedEntry world socket, ?_, rfl, ?_, ?_⟩
      · rw [World.descriptor, allocateClient_new, Function.update_self]
      · rw [allocateClient_new]
        rfl
      · rw [allocateClient_new]
        have silent : pollIn &&& pollOut = 0 := by decide
        exact iff_of_false (fun asks => asks silent) (Nat.lt_irrefl 0)
  only pd entry found := by
    by_cases new : pd = world.poll.descriptors
    · refine ⟨world.allocated, (allocateClient_connected world socket _).mpr (.inr rfl), ?_⟩
      rw [allocateClient_new, new]
    · rw [Function.update_of_ne (fun same => new (Descriptor.client.inj same))] at found
      obtain ⟨c, connected, same⟩ := consistent.only pd entry found
      refine ⟨c, (allocateClient_connected world socket c).mpr (.inl connected), ?_⟩
      rw [allocateClient_old world socket (Nat.ne_of_lt connected.1)]
      exact same
  watch number entry found := by
    rw [Function.update_of_ne (fun same => by cases same)] at found
    exact consistent.watch number entry found

end Accept

section Withdraw

/-- `ClientDoWrite` takes the write interest back when it has emptied the buffer. -/
def withdrawn (world : World) (client : ClientRef) : World :=
  { world.setClient client { world.client client with outBuffer := .empty } with
    poll := pollDescriptorRemoveEvent world.poll (world.client client).pollDescriptor pollOut }

theorem withdrawn_other (world : World) (other : c ≠ client) :
    (withdrawn world client).client c = world.client c := World.setClient_other _ _ _ other

theorem withdrawn_fields (world : World) (client c : ClientRef) :
    ((withdrawn world client).client c).socket = (world.client c).socket ∧
      ((withdrawn world client).client c).socketOpen = (world.client c).socketOpen ∧
      ((withdrawn world client).client c).pollDescriptor = (world.client c).pollDescriptor := by
  have keeps {α : Type} := World.setClient_keeps (α := α) world client
    { world.client client with outBuffer := .empty }
  exact ⟨keeps Client.socket rfl c, keeps Client.socketOpen rfl c, keeps Client.pollDescriptor rfl c⟩

theorem withdrawn_filled (world : World) (client : ClientRef) :
    ((withdrawn world client).client client).outBuffer = .empty :=
  congrArg Client.outBuffer (World.setClient_self ..)

theorem withdrawn_connected (world : World) (client c : ClientRef) :
    (withdrawn world client).Connected c ↔ world.Connected c := by
  rw [World.Connected, World.Connected, (withdrawn_fields world client c).2.1]
  rfl

theorem withdrawn_removals (world : World) (client : ClientRef) (pd : PollDescriptor) :
    (withdrawn world client).removals pd = world.removals pd :=
  List.count_append.trans (Nat.add_zero _)

theorem Sound.withdrawn (sound : Sound world) (client : ClientRef) : Sound (withdrawn world client) where
  fresh c below := by
    rw [(withdrawn_fields world client c).2.2]
    exact sound.fresh c below
  injective c d first second same := by
    rw [(withdrawn_fields world client c).2.2, (withdrawn_fields world client d).2.2] at same
    exact sound.injective c d first second same
  packed c := by
    by_cases this : c = client
    · rw [this, withdrawn_filled]
      exact .empty
    · rw [withdrawn_other world this]
      exact sound.packed c
  removed c below := by
    rw [(withdrawn_fields world client c).2.2, withdrawn_removals, sound.removed c below]
    exact if_congr (withdrawn_connected world client c).symm rfl rfl
  unused pd beyond := (withdrawn_removals world client pd).trans (sound.unused pd beyond)

theorem Consistent.withdrawn (consistent : Consistent world map) (connected : world.Connected client)
    (found : map (world.descriptor client) = some entry) :
    Consistent (withdrawn world client) (Function.update map (world.descriptor client)
      (some { entry with events := entry.events &&& ~~~pollOut })) where
  toSound := consistent.toSound.withdrawn client
  client c here := by
    rw [withdrawn_connected] at here
    obtain ⟨socket, _, pollDescriptor⟩ := withdrawn_fields world client c
    obtain ⟨its, known, ⟨block, fd, interest⟩⟩ := consistent.client c here
    have same : (Chat.withdrawn world client).descriptor c = world.descriptor c := by
      rw [World.descriptor, World.descriptor, pollDescriptor]
    rw [same]
    by_cases this : c = client
    · subst c
      obtain rfl := Option.some.inj (found.symm.trans known)
      refine ⟨_, Function.update_self .., block, fd.trans socket.symm, ?_⟩
      rw [withdrawn_filled]
      exact iff_of_false (fun asks => asks (andNot_pollOut _)) (Nat.lt_irrefl 0)
    · have apart : world.descriptor c ≠ world.descriptor client := fun equal =>
        this (consistent.toSound.descriptor_injective here connected equal)
      refine ⟨its, (Function.update_of_ne apart ..).trans known, block, fd.trans socket.symm, ?_⟩
      rw [withdrawn_other world this]
      exact interest
  only pd entry found := by
    have before : ∃ entry, map (.client pd) = some entry := by
      by_cases this : Descriptor.client pd = world.descriptor client
      · rw [this]
        exact ⟨_, ‹map (world.descriptor client) = some _›⟩
      · rw [Function.update_of_ne this] at found
        exact ⟨entry, found⟩
    obtain ⟨entry, found⟩ := before
    obtain ⟨c, here, same⟩ := consistent.only pd entry found
    exact ⟨c, (withdrawn_connected world client c).mpr here, (withdrawn_fields world client c).2.2.trans same⟩
  watch number entry found := by
    rw [Function.update_of_ne (fun same => by cases same)] at found
    exact consistent.watch number entry found

end Withdraw

/-- A handler of the client takes the worlds and the map further. What it enqueues finds
its descriptors, and it leaves the others connected and their output pending. -/
structure Passes (client : ClientRef) (world after : World) (map next : ServerMap) : Prop where
  consistent : Consistent after next
  updates : ∃ updates, after.poll.updateQueue = world.poll.updateQueue ++ updates ∧
    ∀ table, Maps table map → ∃ result, applyAll (updates.map .client) table = some result ∧ Maps result next
  watch : ∀ number, next (.watch number) = map (.watch number)
  allocated : world.allocated ≤ after.allocated
  gone : ∀ c, c < world.allocated → after.Connected c → world.Connected c
  others : ∀ c, c ≠ client → world.Connected c → after.Connected c ∧
    (0 < (world.client c).outBuffer.filled → 0 < (after.client c).outBuffer.filled)

section Passes
variable {client : ClientRef}

theorem Passes.trans (first : Passes client u v map next) (second : Passes client v w next last) :
    Passes client u w map last where
  consistent := second.consistent
  updates := by
    obtain ⟨updates, enqueued, applies⟩ := first.updates
    obtain ⟨more, enqueuedMore, appliesMore⟩ := second.updates
    refine ⟨updates ++ more, by rw [enqueuedMore, enqueued, List.append_assoc], ?_⟩
    intro table maps
    obtain ⟨between, applied, mapsBetween⟩ := applies table maps
    obtain ⟨result, appliedMore, mapsResult⟩ := appliesMore between mapsBetween
    refine ⟨result, ?_, mapsResult⟩
    rw [List.map_append, applyAll_append, applied, Option.bind_some, appliedMore]
  watch number := (second.watch number).trans (first.watch number)
  allocated := first.allocated.trans second.allocated
  gone c below here := first.gone c below (second.gone c (below.trans_le first.allocated) here)
  others c other here := by
    obtain ⟨between, pending⟩ := first.others c other here
    obtain ⟨after, pendingMore⟩ := second.others c other between
    exact ⟨after, fun output => pendingMore (pending output)⟩

theorem applyAll_single (update : QueuedUpdate) (table : ServerTable) :
    applyAll [update] table = update.apply table := by
  rw [applyAll_cons]
  exact Option.bind_fun_some _

/-- The clients that are told something have output from then on. -/
theorem Consistent.tells (consistent : Consistent world map) (notified : Notified targets world after)
    (connected : ∀ c ∈ targets, world.Connected c)
    (pending : ∀ c ∈ targets, 0 < (after.client c).outBuffer.filled) :
    Passes client world after map (asked world targets map) where
  consistent := consistent.notified notified connected pending
  updates := by
    refine ⟨targets.map (asksToWrite world), by rw [notified.poll], ?_⟩
    intro table maps
    refine applyAll_asks targets maps ?_
    intro c mem
    obtain ⟨entry, found, _⟩ := consistent.client c (connected c mem)
    exact ⟨entry, found⟩
  watch number := by
    have other : Descriptor.watch number ∉ targets.map world.descriptor := by
      intro mem
      obtain ⟨c, _, same⟩ := List.mem_map.mp mem
      cases same
    simp only [asked, if_neg other, Option.map_id']
  allocated := notified.allocated.ge
  gone c _ here := (notified.connected c).mp here
  others c _ here := by
    refine ⟨(notified.connected c).mpr here, fun output => ?_⟩
    by_cases told : c ∈ targets
    · exact pending c told
    · rw [notified.others c told]
      exact output

theorem Consistent.notifies (consistent : Consistent world map)
    (notifies : Notifies world.Connected world after) (allocated : Allocated world after) :
    ∃ next, Passes client world after map next := by
  obtain ⟨targets, notified, connected⟩ := notifies
  refine ⟨_, consistent.tells notified connected ?_⟩
  intro c told
  have room : (after.client c).outBuffer.length ≠ 0 := by
    apply allocated
    rw [notified.calls, List.drop_left]
    exact told
  rw [notified.packed c (consistent.packed c)] at room
  exact Nat.pos_of_ne_zero room

theorem Consistent.closes (consistent : Consistent world map) (connected : world.Connected client) :
    Passes client world (closeConnection world client) map
      (Function.update map (world.descriptor client) none) where
  consistent := consistent.closed connected
  updates := by
    refine ⟨[.removeDescriptor (world.client client).pollDescriptor], rfl, ?_⟩
    intro table maps
    obtain ⟨entry, found, _⟩ := consistent.client client connected
    obtain ⟨result, removed, mapsResult⟩ := maps.remove found
    exact ⟨result, (applyAll_single _ table).trans removed, mapsResult⟩
  watch number := Function.update_of_ne (fun same => by cases same) ..
  allocated := Nat.le_refl _
  gone c _ here := ((closeConnection_connected world client c).mp here).1
  others c other here := by
    refine ⟨(closeConnection_connected world client c).mpr ⟨here, other⟩, fun output => ?_⟩
    rw [(closeConnection_fields world client c).2.2]
    exact output

theorem Consistent.withdraws (consistent : Consistent world map) (connected : world.Connected client) :
    ∃ next, Passes client world (Chat.withdrawn world client) map next := by
  obtain ⟨entry, found, _⟩ := consistent.client client connected
  refine ⟨_, consistent.withdrawn connected found, ?_, ?_, Nat.le_refl _, ?_, ?_⟩
  · refine ⟨[.removeEvents (world.client client).pollDescriptor pollOut], rfl, ?_⟩
    intro table maps
    obtain ⟨result, changed, mapsResult⟩ := maps.modify found
      (fun entry => { entry with events := entry.events &&& ~~~pollOut }) rfl
    exact ⟨result, (applyAll_single _ table).trans changed, mapsResult⟩
  · intro number
    exact Function.update_of_ne (fun same => by cases same) ..
  · intro c _ here
    exact (withdrawn_connected world client c).mp here
  · intro c other here
    refine ⟨(withdrawn_connected world client c).mpr here, fun output => ?_⟩
    rw [withdrawn_other world other]
    exact output

theorem Consistent.accepts (consistent : Consistent world map) (socket : Int) :
    Passes world.allocated world (allocateClient world socket) map
      (Function.update map (.client world.poll.descriptors) (some (acceptedEntry world socket))) where
  consistent := consistent.accepted socket
  updates := by
    refine ⟨[.register world.poll.descriptors socket pollIn none world.allocated], rfl, ?_⟩
    intro table maps
    exact ⟨_, applyAll_single _ table, maps.register consistent.fresh_descriptor ..⟩
  watch number := Function.update_of_ne (fun same => by cases same) ..
  allocated := Nat.le_succ _
  gone c below here := by
    rcases (allocateClient_connected world socket c).mp here with old | rfl
    · exact old
    · exact absurd below (Nat.lt_irrefl _)
  others c other here := by
    refine ⟨(allocateClient_connected world socket c).mpr (.inl here), fun output => ?_⟩
    rw [allocateClient_old world socket other]
    exact output

theorem Consistent.leaves (consistent : Consistent world map) (connected : world.Connected client)
    (leaves : Leaves world after client) (allocated : Allocated world after) :
    ∃ next, Passes client world after map next := by
  obtain ⟨told, notifies, rfl⟩ := leaves
  have written : Allocated world told := by
    intro c listed
    rw [← (closeConnection_fields told client c).2.2]
    exact allocated c listed
  obtain ⟨next, tells⟩ := consistent.notifies notifies written
  exact ⟨_, tells.trans (tells.consistent.closes ((notifies.connected client).mpr connected))⟩

theorem Consistent.sentAll (consistent : Consistent world map) (connected : world.Connected client)
    (sentAll : SentAll world after client) : ∃ next, Passes client world after map next := by
  obtain ⟨sent, quiet, rfl⟩ := sentAll
  have tells : Passes client world sent map (asked world [] map) :=
    consistent.tells quiet (fun c mem => by cases mem) (fun c mem => by cases mem)
  obtain ⟨next, withdraws⟩ := tells.consistent.withdraws ((quiet.connected client).mpr connected)
  exact ⟨next, tells.trans withdraws⟩

end Passes

/-- The client whose handler is called, if it is not a listener that accepts one. -/
def Event.handled : Event → Option ClientRef
  | .accepted _ => none
  | .hungUp client | .readable client _ | .writable client _ => some client

section Events
variable [CMemory]

theorem clientCreate_passes (registry : Registry world.Named world) (consistent : Consistent world map)
    (socket : Int) (allocated : Allocated world (clientCreate world socket)) :
    ∃ next, Passes world.allocated world (clientCreate world socket) map next := by
  have accepts := consistent.accepts socket
  obtain ⟨next, tells⟩ := accepts.consistent.notifies (clientCreate_notifies registry socket).2 allocated
  exact ⟨next, accepts.trans tells⟩

/-- Every handler finds the descriptors of what it enqueues. -/
theorem handleEvent_passes (registry : Registry world.Named world) (consistent : Consistent world map)
    (event : Event) (connected : ∀ c, event.handled = some c → world.Connected c)
    (allocated : Allocated world (handleEvent world event)) :
    Registry (handleEvent world event).Named (handleEvent world event) ∧
      ∃ next, Passes (event.handled.getD world.allocated) world (handleEvent world event) map next := by
  cases event with
  | accepted socket =>
    exact ⟨(clientCreate_notifies registry socket).1,
      clientCreate_passes registry consistent socket allocated⟩
  | hungUp client =>
    have here := connected client rfl
    obtain ⟨after, leaves⟩ := clientDisconnect_leaves registry here
    exact ⟨after, consistent.leaves here leaves allocated⟩
  | readable client result =>
    have here := connected client rfl
    obtain ⟨after, tells | leaves⟩ := clientDoRead_cases registry here result
    · exact ⟨after, consistent.notifies tells allocated⟩
    · exact ⟨after, consistent.leaves here leaves allocated⟩
  | writable client len =>
    have here := connected client rfl
    obtain ⟨after, tells | leaves | sent⟩ := clientDoWrite_cases registry here len
    · exact ⟨after, consistent.notifies tells allocated⟩
    · exact ⟨after, consistent.leaves here leaves allocated⟩
    · exact ⟨after, consistent.sentAll here sent⟩

end Events
end KommunikationNetze.Chat
