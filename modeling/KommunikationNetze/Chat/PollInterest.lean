import KommunikationNetze.Chat.Notifications

/-! The table as it will be once all queued updates are applied. It holds exactly the
connected clients, and asks for POLLOUT for those with pending output. The fold of the
queue is what every handler keeps; the table itself lags behind it. -/
namespace KommunikationNetze.Chat
open CLib Utils

abbrev ServerMap := Descriptor → Option (PollEntry Descriptor ServerBlock)

/-- Where a client is in the table. -/
def World.descriptor (world : World) (c : ClientRef) : Descriptor :=
  .client (world.client c).pollDescriptor

/-- The entry asks for POLLOUT. -/
def AsksOut (entry : PollEntry Descriptor ServerBlock) : Prop := entry.events &&& pollOut ≠ 0

/-- The entry of a client, with write interest if output is pending. -/
structure EntryOf (world : World) (c : ClientRef) (entry : PollEntry Descriptor ServerBlock) : Prop where
  block : entry.block = .client c
  fd : entry.fd = (world.client c).socket
  interest : AsksOut entry ↔ 0 < (world.client c).outBuffer.filled

structure Interests (world : World) (map : ServerMap) : Prop where
  client : ∀ c, world.Connected c → ∃ entry, map (world.descriptor c) = some entry ∧ EntryOf world c entry
  only : ∀ pd entry, map (.client pd) = some entry →
    ∃ c, world.Connected c ∧ (world.client c).pollDescriptor = pd
  watch : ∀ number entry, map (.watch number) = some entry → ∀ c, entry.block ≠ .client c

/-- How often the descriptor was or will be taken out of the table. -/
def World.removals (world : World) (pd : PollDescriptor) : Nat :=
  world.poll.updateQueue.count (.removeDescriptor pd)

/-- Every client has a descriptor of its own, which is removed once it has left. -/
structure Sound (world : World) : Prop where
  fresh : ∀ c, c < world.allocated → (world.client c).pollDescriptor < world.poll.descriptors
  injective : ∀ c d, c < world.allocated → d < world.allocated →
    (world.client c).pollDescriptor = (world.client d).pollDescriptor → c = d
  packed : ∀ c, Packed (world.client c).outBuffer
  removed : ∀ c, c < world.allocated →
    world.removals (world.client c).pollDescriptor = if world.Connected c then 0 else 1
  unused : ∀ pd, world.poll.descriptors ≤ pd → world.removals pd = 0

section Bits
variable (events : BitVec 16)

theorem or_pollOut : (events ||| pollOut) &&& pollOut ≠ 0 := by
  have out : (events ||| pollOut) &&& pollOut = pollOut := by
    ext i inside
    simp only [BitVec.getElem_and, BitVec.getElem_or]
    cases events[i] <;> cases (pollOut)[i] <;> rfl
  rw [out]
  decide

theorem andNot_pollOut : (events &&& ~~~pollOut) &&& pollOut = 0 := by
  rw [BitVec.and_assoc, BitVec.and_comm (~~~pollOut), BitVec.and_not_self]
  exact BitVec.and_zero

theorem or_pollOut_twice : (events ||| pollOut) ||| pollOut = events ||| pollOut := by
  rw [BitVec.or_assoc, BitVec.or_self]

end Bits

section Fold

theorem applyAll_append (updates more : List QueuedUpdate) (table : ServerTable) :
    applyAll (updates ++ more) table = (applyAll updates table).bind (applyAll more) :=
  List.foldlM_append

theorem applyAll_cons (update : QueuedUpdate) (rest : List QueuedUpdate) (table : ServerTable) :
    applyAll (update :: rest) table = (update.apply table).bind (applyAll rest) := rfl

/-- The entries of these clients ask for POLLOUT, the others are as before. -/
def asked (world : World) (targets : List ClientRef) (map : ServerMap) : ServerMap := fun d =>
  (map d).map fun entry =>
    if d ∈ targets.map world.descriptor then { entry with events := entry.events ||| pollOut } else entry

theorem asked_cons (found : map (world.descriptor c) = some entry) (targets : List ClientRef) :
    asked world targets (Function.update map (world.descriptor c)
      (some { entry with events := entry.events ||| pollOut })) = asked world (c :: targets) map := by
  funext d
  rw [asked, asked]
  by_cases same : d = world.descriptor c
  · subst d
    rw [Function.update_self, found, Option.map_some, Option.map_some, List.map_cons]
    rw [if_pos List.mem_cons_self]
    split
    · rw [or_pollOut_twice]
    · rfl
  · rw [Function.update_of_ne same, List.map_cons]
    simp only [List.mem_cons, same, false_or]

/-- What the lines of one handler enqueue finds its descriptors. -/
theorem applyAll_asks (targets : List ClientRef) {table : ServerTable} {map : ServerMap}
    (maps : Maps table map) (known : ∀ c ∈ targets, ∃ entry, map (world.descriptor c) = some entry) :
    ∃ after, applyAll ((targets.map (asksToWrite world)).map .client) table = some after ∧
      Maps after (asked world targets map) := by
  induction targets generalizing table map with
  | nil =>
    have nothing : asked world [] map = map := by
      funext d
      simp [asked]
    rw [nothing]
    exact ⟨table, rfl, maps⟩
  | cons c targets ih =>
    obtain ⟨entry, found⟩ := known c List.mem_cons_self
    obtain ⟨next, added, mapsNext⟩ := maps.modify found
      (fun entry => { entry with events := entry.events ||| pollOut }) rfl
    have still : ∀ d ∈ targets, ∃ other, Function.update map (world.descriptor c)
        (some { entry with events := entry.events ||| pollOut }) (world.descriptor d) = some other := by
      intro d mem
      by_cases same : world.descriptor d = world.descriptor c
      · exact ⟨_, by rw [same, Function.update_self]⟩
      · rw [Function.update_of_ne same]
        exact known d (List.mem_cons_of_mem _ mem)
    obtain ⟨after, applied, mapsAfter⟩ := ih mapsNext still
    rw [asked_cons found] at mapsAfter
    refine ⟨after, ?_, mapsAfter⟩
    have first : (QueuedUpdate.client (asksToWrite world c)).apply table = some next := added
    rw [List.map_cons, List.map_cons, applyAll_cons, first]
    exact applied

end Fold

/-- What holds of the worlds and the map between two handlers. -/
structure Consistent (world : World) (map : ServerMap) : Prop extends Sound world, Interests world map

section Handlers
variable {world after : World} {map : ServerMap}

theorem Notified.descriptor (notified : Notified targets world after) (c : ClientRef) :
    after.descriptor c = world.descriptor c := by
  rw [World.descriptor, World.descriptor, notified.pollDescriptor]

theorem Notified.removals (notified : Notified targets world after) (pd : PollDescriptor) :
    after.removals pd = world.removals pd := by
  have none : (targets.map (asksToWrite world)).count (.removeDescriptor pd) = 0 := by
    rw [List.count_eq_zero]
    intro mem
    obtain ⟨c, _, same⟩ := List.mem_map.mp mem
    cases same
  rw [World.removals, World.removals, notified.poll, List.count_append, none, Nat.add_zero]

theorem Sound.notified (sound : Sound world) (notified : Notified targets world after) : Sound after where
  fresh c below := by
    rw [notified.allocated] at below
    rw [notified.pollDescriptor, notified.poll]
    exact sound.fresh c below
  injective c d first second same := by
    rw [notified.allocated] at first second
    rw [notified.pollDescriptor, notified.pollDescriptor] at same
    exact sound.injective c d first second same
  packed c := notified.packed c (sound.packed c)
  removed c below := by
    rw [notified.allocated] at below
    rw [notified.pollDescriptor, notified.removals, sound.removed c below]
    exact if_congr (notified.connected c).symm rfl rfl
  unused pd beyond := by
    rw [notified.poll] at beyond
    rw [notified.removals]
    exact sound.unused pd beyond

theorem Sound.descriptor_injective (sound : Sound world) (first : world.Connected c)
    (second : world.Connected d) (same : world.descriptor c = world.descriptor d) : c = d :=
  sound.injective c d first.1 second.1 (Descriptor.client.inj same)

/-- Lines that are written ask for POLLOUT, and leave output pending. -/
theorem Consistent.notified (consistent : Consistent world map)
    (notified : Notified targets world after) (connected : ∀ c ∈ targets, world.Connected c)
    (pending : ∀ c ∈ targets, 0 < (after.client c).outBuffer.filled) :
    Consistent after (asked world targets map) where
  toSound := consistent.toSound.notified notified
  client c here := by
    rw [notified.connected] at here
    obtain ⟨entry, found, ⟨block, fd, interest⟩⟩ := consistent.client c here
    rw [notified.descriptor, asked, found, Option.map_some]
    by_cases told : c ∈ targets
    · rw [if_pos (List.mem_map_of_mem told)]
      refine ⟨_, rfl, block, fd.trans (notified.socket c).symm, ?_⟩
      exact iff_of_true (or_pollOut entry.events) (pending c told)
    · have outside : world.descriptor c ∉ targets.map world.descriptor := by
        intro mem
        obtain ⟨d, listed, same⟩ := List.mem_map.mp mem
        obtain rfl := consistent.toSound.descriptor_injective (connected d listed) here same
        exact told listed
      rw [if_neg outside]
      refine ⟨_, rfl, block, fd.trans (notified.socket c).symm, ?_⟩
      rw [notified.others c told]
      exact interest
  only pd entry found := by
    rw [asked, Option.map_eq_some_iff] at found
    obtain ⟨before, found, _⟩ := found
    obtain ⟨c, here, same⟩ := consistent.only pd before found
    exact ⟨c, (notified.connected c).mpr here, (notified.pollDescriptor c).trans same⟩
  watch number entry found c := by
    rw [asked, Option.map_eq_some_iff] at found
    obtain ⟨before, found, rfl⟩ := found
    have other := consistent.watch number before found c
    split
    · exact other
    · exact other

/-- Closing a connection changes nothing else that the poll sees. -/
theorem closeConnection_fields (world : World) (client c : ClientRef) :
    ((closeConnection world client).client c).socket = (world.client c).socket ∧
      ((closeConnection world client).client c).pollDescriptor = (world.client c).pollDescriptor ∧
      ((closeConnection world client).client c).outBuffer = (world.client c).outBuffer := by
  have keeps {α : Type} := World.setClient_keeps (α := α) world client
    { world.client client with socketOpen := false }
  exact ⟨keeps Client.socket rfl c, keeps Client.pollDescriptor rfl c, keeps Client.outBuffer rfl c⟩

theorem closeConnection_removals (world : World) (client : ClientRef) (pd : PollDescriptor) :
    (closeConnection world client).removals pd =
      world.removals pd + if pd = (world.client client).pollDescriptor then 1 else 0 := by
  refine List.count_append.trans (congrArg (world.removals pd + ·) ?_)
  rw [List.count_singleton]
  refine if_congr ?_ rfl rfl
  rw [beq_iff_eq, PollUpdate.removeDescriptor.injEq]
  exact eq_comm

theorem Sound.closed (sound : Sound world) (connected : world.Connected client) :
    Sound (closeConnection world client) where
  fresh c below := by
    rw [(closeConnection_fields world client c).2.1]
    exact sound.fresh c below
  injective c d first second equal := by
    rw [(closeConnection_fields world client c).2.1, (closeConnection_fields world client d).2.1] at equal
    exact sound.injective c d first second equal
  packed c := by
    rw [(closeConnection_fields world client c).2.2]
    exact sound.packed c
  removed c below := by
    rw [(closeConnection_fields world client c).2.1, closeConnection_removals, sound.removed c below]
    by_cases this : c = client
    · subst c
      have gone : ¬ (closeConnection world client).Connected client := fun here =>
        ((closeConnection_connected world client client).mp here).2 rfl
      rw [if_pos connected, if_pos rfl, if_neg gone]
    · have apart : (world.client c).pollDescriptor ≠ (world.client client).pollDescriptor := fun equal =>
        this (sound.injective c client below connected.1 equal)
      have still := closeConnection_connected world client c
      rw [if_neg apart, Nat.add_zero]
      exact if_congr (still.trans (and_iff_left this)).symm rfl rfl
  unused pd beyond := by
    have apart : pd ≠ (world.client client).pollDescriptor := fun equal =>
      absurd (equal ▸ sound.fresh client connected.1) (Nat.not_lt.mpr beyond)
    rw [closeConnection_removals, if_neg apart, Nat.add_zero]
    exact sound.unused pd beyond

/-- The last update of `ClientDisconnect` takes the client out of the table. -/
theorem Consistent.closed (consistent : Consistent world map) (connected : world.Connected client) :
    Consistent (closeConnection world client)
      (Function.update map (world.descriptor client) none) where
  toSound := consistent.toSound.closed connected
  client c here := by
    obtain ⟨here, other⟩ := (closeConnection_connected world client c).mp here
    obtain ⟨entry, found, ⟨block, fd, interest⟩⟩ := consistent.client c here
    obtain ⟨socket, pollDescriptor, outBuffer⟩ := closeConnection_fields world client c
    have apart : world.descriptor c ≠ world.descriptor client := fun equal =>
      other (consistent.toSound.descriptor_injective here connected equal)
    have descriptor : (closeConnection world client).descriptor c = world.descriptor c := by
      rw [World.descriptor, World.descriptor, pollDescriptor]
    rw [descriptor, Function.update_of_ne apart]
    refine ⟨entry, found, block, fd.trans socket.symm, ?_⟩
    rw [outBuffer]
    exact interest
  only pd entry found := by
    by_cases this : Descriptor.client pd = world.descriptor client
    · rw [this, Function.update_self] at found
      cases found
    · rw [Function.update_of_ne this] at found
      obtain ⟨c, here, rfl⟩ := consistent.only pd entry found
      refine ⟨c, (closeConnection_connected world client c).mpr ⟨here, ?_⟩,
        (closeConnection_fields world client c).2.1⟩
      rintro rfl
      exact this rfl
  watch number entry found := by
    rw [Function.update_of_ne (by simp [World.descriptor])] at found
    exact consistent.watch number entry found

end Handlers
end KommunikationNetze.Chat
