import KommunikationNetze.Chat.Server

/-! The dictionary of clients maps exactly the nicknames of the connected clients to
them. The invariant is stated for any set of members, because inside a handler the
client that comes or goes is connected without being registered. -/
namespace KommunikationNetze.Chat
open CLib Utils SearchTree

/-- A nickname as `ClientSetNickname` stores it. -/
def ValidNickname (nickname : CString) : Prop :=
  nickname ≠ [] ∧ ∀ c ∈ nickname, isspace c.val = false

structure Registry (members : ClientRef → Prop) (world : World) : Prop where
  head : HeadEntry world.clients
  ordered : SearchOrder world.clients.headEntry
  held : ∀ c, members c → ∃ nickname, (world.client c).nickname = some nickname ∧
    ValidNickname nickname ∧ dictionaryGet world.clients nickname = some c
  owned : ∀ key value, (key, value) ∈ world.clients.headEntry.walk → (key = [] ∧ value = none) ∨
    ∃ c, value = some c ∧ members c ∧ (world.client c).nickname = some key

section Without
variable {clients : Dictionary ClientRef} {nickname : Option CString}

theorem withoutNickname_get (ordered : SearchOrder clients.headEntry) (key : CString) :
    dictionaryGet (withoutNickname clients nickname) key =
      if nickname = some key then none else dictionaryGet clients key := by
  cases nickname with
  | none => rfl
  | some old =>
    rw [withoutNickname, dictionaryGet_remove ordered]
    simp only [Option.some.injEq, eq_comm]

theorem withoutNickname_walk (ordered : SearchOrder clients.headEntry)
    (mem : (key, value) ∈ (withoutNickname clients nickname).headEntry.walk) :
    (key, value) ∈ clients.headEntry.walk ∧ nickname ≠ some key := by
  cases nickname with
  | none => exact ⟨mem, by simp⟩
  | some old =>
    rw [withoutNickname, dictionaryRemove_headEntry, walk_entryRemove ordered] at mem
    obtain ⟨stored, other⟩ := List.mem_filter.mp mem
    exact ⟨stored, fun same => of_decide_eq_true other (Option.some.inj same).symm⟩

theorem withoutNickname_head (head : HeadEntry clients) (nonempty : nickname ≠ some []) :
    HeadEntry (withoutNickname clients nickname) := by
  cases nickname with
  | none => exact head
  | some old => exact apply_head head (.remove old) fun empty => nonempty (congrArg some empty)

theorem withoutNickname_ordered (ordered : SearchOrder clients.headEntry) :
    SearchOrder (withoutNickname clients nickname).headEntry := by
  cases nickname with
  | none => exact ordered
  | some old => exact searchOrder_entryRemove ordered old

end Without

namespace Registry
variable {members : ClientRef → Prop} {world after : World}

theorem initial : Registry serverCreate.Connected serverCreate where
  head := ⟨.nil, rfl⟩
  ordered := dictionaryCreate_ordered
  held c connected := absurd connected.1 (Nat.not_lt_zero c)
  owned key value mem := by
    simp only [serverCreate, dictionaryCreate, dictionaryEntryCreate, Tree.walk, List.nil_append,
      List.mem_singleton, Prod.mk.injEq] at mem
    exact .inl mem

/-- Only the tree and the nicknames of the members matter. -/
theorem frame (registry : Registry members world)
    (headEntry : after.clients.headEntry = world.clients.headEntry)
    (nicknames : ∀ c, members c → (after.client c).nickname = (world.client c).nickname) :
    Registry members after where
  head := by
    obtain ⟨left, shape⟩ := registry.head
    exact ⟨left, headEntry.trans shape⟩
  ordered := by
    rw [headEntry]
    exact registry.ordered
  held c member := by
    obtain ⟨nickname, set, valid, held⟩ := registry.held c member
    refine ⟨nickname, (nicknames c member).trans set, valid, ?_⟩
    exact (congrArg (entryGet · nickname) headEntry).trans held
  owned key value mem := by
    rw [headEntry] at mem
    rcases registry.owned key value mem with dummy | ⟨c, stored, member, set⟩
    · exact .inl dummy
    · exact .inr ⟨c, stored, member, (nicknames c member).trans set⟩

theorem congr {others : ClientRef → Prop} (registry : Registry members world)
    (same : ∀ c, members c ↔ others c) : Registry others world := by
  obtain rfl : members = others := funext fun c => propext (same c)
  exact registry

theorem output (registry : Registry members world) (output : OutputOnly world after) :
    Registry members after :=
  registry.frame output.headEntry fun c _ => output.nickname c

/-- What the dictionary returns is a member, under its current nickname. -/
theorem owner (registry : Registry members world) (found : dictionaryGet world.clients key = some c) :
    members c ∧ (world.client c).nickname = some key := by
  rcases registry.owned key (some c) (mem_walk_of_entryGet found) with ⟨_, none⟩ | ⟨d, same, member, set⟩
  · cases none
  · cases same
    exact ⟨member, set⟩

theorem nickname_ne_nil (registry : Registry members world) (member : members c) :
    (world.client c).nickname ≠ some [] := by
  obtain ⟨nickname, set, ⟨nonempty, _⟩, _⟩ := registry.held c member
  rw [set]
  exact fun empty => nonempty (Option.some.inj empty)

/-- Two members have different nicknames. -/
theorem nickname_injective (registry : Registry members world) (left : members c) (right : members d)
    (same : (world.client c).nickname = (world.client d).nickname) : c = d := by
  obtain ⟨nickname, set, _, held⟩ := registry.held c left
  obtain ⟨other, setOther, _, heldOther⟩ := registry.held d right
  obtain rfl : nickname = other := Option.some.inj (set.symm.trans (same.trans setOther))
  exact Option.some.inj (held.symm.trans heldOther)

/-- Without its entry a client is no member, and nobody else is affected. -/
theorem left (registry : Registry members world) (member : members client) :
    Registry (fun c => members c ∧ c ≠ client)
      { world with clients := withoutNickname world.clients (world.client client).nickname } where
  head := withoutNickname_head registry.head (registry.nickname_ne_nil member)
  ordered := withoutNickname_ordered registry.ordered
  held c other := by
    obtain ⟨nickname, set, valid, held⟩ := registry.held c other.1
    refine ⟨nickname, set, valid, ?_⟩
    rw [withoutNickname_get registry.ordered, if_neg]
    · exact held
    · intro same
      exact other.2 (registry.nickname_injective other.1 member (set.trans same.symm))
  owned key value mem := by
    obtain ⟨stored, other⟩ := withoutNickname_walk registry.ordered mem
    rcases registry.owned key value stored with dummy | ⟨c, held, member, set⟩
    · exact .inl dummy
    · refine .inr ⟨c, held, ⟨member, ?_⟩, set⟩
      rintro rfl
      exact other set

/-- A free and valid nickname makes the client a member under that nickname only. -/
theorem named (registry : Registry members world) (free : dictionaryGet world.clients nickname = none)
    (valid : ValidNickname nickname) (fresh : members client ∨ (world.client client).nickname = none) :
    Registry (fun c => members c ∨ c = client) (renamed world client nickname) where
  head := by
    refine apply_head (withoutNickname_head registry.head ?_) (.set nickname (some client)) valid.1
    rcases fresh with member | unnamed
    · exact registry.nickname_ne_nil member
    · simp [unnamed]
  ordered := searchOrder_entrySet (withoutNickname_ordered registry.ordered)
  held c member := by
    by_cases same : c = client
    · subst c
      refine ⟨nickname, ?_, valid, ?_⟩
      · simp [renamed, World.setClient]
      · rw [renamed, dictionaryGet_set, if_pos rfl]
    · have old := member.resolve_right same
      obtain ⟨own, set, validOwn, held⟩ := registry.held c old
      refine ⟨own, ?_, validOwn, ?_⟩
      · simpa [renamed, World.setClient, same] using set
      · have different : own ≠ nickname := by
          rintro rfl
          rw [free] at held
          cases held
        rw [renamed, dictionaryGet_set, if_neg different, withoutNickname_get registry.ordered, if_neg]
        · exact held
        · intro clash
          rcases fresh with member | unnamed
          · exact same (registry.nickname_injective old member (set.trans clash.symm))
          · rw [unnamed] at clash
            cases clash
  owned key value mem := by
    rw [renamed, dictionarySet_headEntry] at mem
    rcases mem_walk_entrySet mem with new | stored
    · obtain ⟨rfl, rfl⟩ := Prod.mk.inj new
      exact .inr ⟨client, rfl, .inr rfl, by simp [renamed, World.setClient]⟩
    · obtain ⟨stored, other⟩ := withoutNickname_walk registry.ordered stored
      rcases registry.owned key value stored with dummy | ⟨c, held, member, set⟩
      · exact .inl dummy
      · have different : c ≠ client := by
          rintro rfl
          exact other set
        refine .inr ⟨c, held, .inl member, ?_⟩
        simpa [renamed, World.setClient, different] using set

/-- Renaming a member keeps the registry, whether it succeeds or not. -/
theorem setNickname (registry : Registry members world) (member : members client) (nick : CString) :
    Registry members (clientSetNickname world client nick).2 := by
  rcases clientSetNickname_cases world client nick with ⟨same, _⟩ | ⟨same, _⟩ | ⟨changed, nonempty, free⟩
  · rw [same]
    exact registry
  · rw [same]
    exact registry
  · rw [changed]
    have valid : ValidNickname (strtrim nick) := ⟨nonempty, strtrim_not_isspace nick⟩
    refine (registry.named free valid (.inl member)).congr ?_
    intro c
    constructor
    · rintro (old | rfl)
      · exact old
      · exact member
    · exact .inl

theorem recorded (registry : Registry members world) (call : Call) :
    Registry members (world.record call) := registry.frame rfl fun _ _ => rfl

end Registry

/-- A change that the registry does not see. -/
structure SameRegistration (world after : World) : Prop where
  headEntry : after.clients.headEntry = world.clients.headEntry
  allocated : after.allocated = world.allocated
  nickname : ∀ c, (after.client c).nickname = (world.client c).nickname
  socketOpen : ∀ c, (after.client c).socketOpen = (world.client c).socketOpen

namespace SameRegistration

theorem refl (world : World) : SameRegistration world world where
  headEntry := rfl
  allocated := rfl
  nickname _ := rfl
  socketOpen _ := rfl

theorem trans (first : SameRegistration u v) (second : SameRegistration v w) :
    SameRegistration u w where
  headEntry := second.headEntry.trans first.headEntry
  allocated := second.allocated.trans first.allocated
  nickname c := (second.nickname c).trans (first.nickname c)
  socketOpen c := (second.socketOpen c).trans (first.socketOpen c)

theorem symm (same : SameRegistration world after) : SameRegistration after world where
  headEntry := same.headEntry.symm
  allocated := same.allocated.symm
  nickname c := (same.nickname c).symm
  socketOpen c := (same.socketOpen c).symm

theorem record (world : World) (call : Call) : SameRegistration world (world.record call) where
  headEntry := rfl
  allocated := rfl
  nickname _ := rfl
  socketOpen _ := rfl

theorem setClient (nickname : fields.nickname = (world.client client).nickname)
    (socketOpen : fields.socketOpen = (world.client client).socketOpen) :
    SameRegistration world (world.setClient client fields) where
  headEntry := rfl
  allocated := rfl
  nickname := World.setClient_keeps world client fields Client.nickname nickname
  socketOpen := World.setClient_keeps world client fields Client.socketOpen socketOpen

theorem setPoll (world : World) (poll : Poll ClientRef) :
    SameRegistration world { world with poll } where
  headEntry := rfl
  allocated := rfl
  nickname _ := rfl
  socketOpen _ := rfl

theorem setInBuffer (world : World) (client : ClientRef) (inBuffer : Buffer) :
    SameRegistration world (setInBuffer world client inBuffer) := setClient rfl rfl

theorem sent (world : World) (client : ClientRef) (bytes : List UInt8) (outBuffer : Buffer) :
    SameRegistration world
      ((world.record (.send client bytes)).setClient client { world.client client with outBuffer }) :=
  (record world _).trans (setClient rfl rfl)

theorem connected (same : SameRegistration world after) (c : ClientRef) :
    after.Connected c ↔ world.Connected c := by
  rw [World.Connected, World.Connected, same.allocated, same.socketOpen]

theorem registry (same : SameRegistration world after) (registry : Registry world.Connected world) :
    Registry after.Connected after :=
  (registry.frame same.headEntry fun c _ => same.nickname c).congr fun c => (same.connected c).symm

end SameRegistration

section TemporaryNickname

/-- The nickname the loop of `ClientCreate` tries in round `i`. -/
def temporaryNickname (i : Nat) : CString := literal "Derp" ++ decimal i

theorem temporaryNickname_valid (positive : i ≠ 0) : ValidNickname (temporaryNickname i) := by
  refine ⟨List.append_ne_nil_of_left_ne_nil (by decide) _, ?_⟩
  intro c mem
  rcases List.mem_append.mp mem with mem | mem
  · exact (by decide +kernel : ∀ c ∈ literal "Derp", isspace c.val = false) c mem
  · exact decimal_not_isspace positive c mem

theorem strtrim_valid (valid : ValidNickname nickname) : strtrim nickname = nickname := by
  obtain ⟨nonempty, clean⟩ := valid
  have taken : nickname.takeWhile (fun c => !isspace c.val) = nickname :=
    List.takeWhile_eq_self_iff.mpr fun c mem => by simp [clean c mem]
  obtain ⟨c, rest, rfl⟩ := List.exists_cons_of_ne_nil nonempty
  have first : isspace c.val = false := clean c List.mem_cons_self
  rw [strtrim, List.dropWhile_cons_of_neg (by simp [first]), taken]

/-- The loop takes the first free nickname it tries. -/
theorem setTemporaryNickname_cases (world : World) (client : ClientRef)
    (unnamed : (world.client client).nickname = none) (i rounds : Nat) (positive : i ≠ 0) :
    (∃ j, i ≤ j ∧ (∀ k, i ≤ k → k < j →
        ∃ other, dictionaryGet world.clients (temporaryNickname k) = some other) ∧
      dictionaryGet world.clients (temporaryNickname j) = none ∧
      setTemporaryNickname world client i rounds = renamed world client (temporaryNickname j)) ∨
    ∀ j, i ≤ j → j < i + rounds →
      ∃ other, dictionaryGet world.clients (temporaryNickname j) = some other := by
  induction rounds generalizing i with
  | zero => exact .inr fun j _ _ => by omega
  | succ rounds ih =>
    have valid := temporaryNickname_valid positive
    have trimmed := strtrim_valid valid
    rcases clientSetNickname_cases world client (temporaryNickname i) with
      ⟨refused, empty | taken⟩ | ⟨_, current⟩ | ⟨changed, _, free⟩
    · exact absurd (trimmed.symm.trans empty) valid.1
    · rw [trimmed] at taken
      have next : setTemporaryNickname world client i (rounds + 1) =
          setTemporaryNickname world client (i + 1) rounds := by
        rw [temporaryNickname] at refused
        simp only [setTemporaryNickname, refused]
      rcases ih (i + 1) (by omega) with ⟨j, above, earlier, free, found⟩ | rest
      · refine .inl ⟨j, by omega, fun k from_i below => ?_, free, next.trans found⟩
        by_cases same : k = i
        · exact same ▸ taken
        · exact earlier k (by omega) below
      · refine .inr fun j above below => ?_
        by_cases same : j = i
        · exact same ▸ taken
        · exact rest j (by omega) (by omega)
    · rw [unnamed] at current
      cases current
    · rw [trimmed] at changed free
      refine .inl ⟨i, Nat.le_refl i, fun k above below => absurd below (Nat.not_lt.mpr above), free, ?_⟩
      rw [temporaryNickname] at changed
      simp only [setTemporaryNickname, changed, temporaryNickname]

/-- More nicknames than members cannot all be taken. -/
theorem temporaryNickname_free (registry : Registry members world) (clients : List ClientRef)
    (listed : ∀ c, members c → c ∈ clients) (fewer : clients.length < rounds) :
    ¬∀ j, 1 ≤ j → j < 1 + rounds →
      ∃ other, dictionaryGet world.clients (temporaryNickname j) = some other := by
  intro taken
  have owned : ∀ j : Nat, ∃ c, 1 ≤ j → j < 1 + rounds → members c ∧
      (world.client c).nickname = some (temporaryNickname j) := by
    intro j
    by_cases tried : 1 ≤ j ∧ j < 1 + rounds
    · obtain ⟨c, found⟩ := taken j tried.1 tried.2
      exact ⟨c, fun _ _ => registry.owner found⟩
    · exact ⟨0, fun above below => absurd ⟨above, below⟩ tried⟩
  choose owner owns using owned
  have distinct : ((List.range' 1 rounds).map owner).Nodup := by
    refine List.Nodup.map_on ?_ List.nodup_range'
    intro i mi j mj same
    obtain ⟨ai, bi⟩ := List.mem_range'_1.mp mi
    obtain ⟨aj, bj⟩ := List.mem_range'_1.mp mj
    have left := (owns i ai bi).2
    rw [same] at left
    have names := Option.some.inj (left.symm.trans (owns j aj bj).2)
    exact decimal_injective (by omega) (by omega) (List.append_cancel_left names)
  have inside : (List.range' 1 rounds).map owner ⊆ clients := by
    intro c mem
    obtain ⟨j, mj, rfl⟩ := List.mem_map.mp mem
    obtain ⟨aj, bj⟩ := List.mem_range'_1.mp mj
    exact listed _ (owns j aj bj).1
  have length := (List.subperm_of_subset distinct inside).length_le
  rw [List.length_map, List.length_range'] at length
  omega

/-- The loop of `ClientCreate` succeeds while fewer clients are connected than there
are temporary nicknames, and takes the first that is free. -/
theorem setTemporaryNickname_first (registry : Registry members world)
    (unnamed : (world.client client).nickname = none) (clients : List ClientRef)
    (listed : ∀ c, members c → c ∈ clients) (fewer : clients.length < rounds) :
    ∃ j, 1 ≤ j ∧ (∀ k, 1 ≤ k → k < j →
        ∃ other, dictionaryGet world.clients (temporaryNickname k) = some other) ∧
      dictionaryGet world.clients (temporaryNickname j) = none ∧
      setTemporaryNickname world client 1 rounds = renamed world client (temporaryNickname j) := by
  rcases setTemporaryNickname_cases world client unnamed 1 rounds (by omega) with first | taken
  · exact first
  · exact absurd taken (temporaryNickname_free registry clients listed fewer)

theorem setTemporaryNickname_renamed (registry : Registry members world)
    (unnamed : (world.client client).nickname = none) (clients : List ClientRef)
    (listed : ∀ c, members c → c ∈ clients) (fewer : clients.length < rounds) :
    ∃ nickname, ValidNickname nickname ∧ dictionaryGet world.clients nickname = none ∧
      setTemporaryNickname world client 1 rounds = renamed world client nickname := by
  obtain ⟨j, positive, _, free, found⟩ :=
    setTemporaryNickname_first registry unnamed clients listed fewer
  exact ⟨temporaryNickname j, temporaryNickname_valid (by omega), free, found⟩

theorem allocateClient_registry (registry : Registry world.Connected world) (socket : Int) :
    Registry world.Connected (allocateClient world socket) := by
  refine registry.frame rfl ?_
  intro c connected
  rw [allocateClient_old world socket (Nat.ne_of_lt connected.1)]

theorem nameClient_registry (registry : Registry world.Connected world)
    (room : world.connectedClients.length < 2 ^ 32 - 2) (socket : Int) :
    Registry (nameClient world socket).Connected (nameClient world socket) := by
  have allocated := allocateClient_registry registry socket
  have unnamed : ((allocateClient world socket).client world.allocated).nickname = none := by
    rw [allocateClient_new]
    rfl
  obtain ⟨nickname, valid, free, found⟩ := setTemporaryNickname_renamed allocated unnamed
    world.connectedClients (fun c => World.mem_connectedClients.mpr) room
  have named := allocated.named free valid (.inr unnamed)
  rw [← found] at named
  exact named.congr fun c => (nameClient_connected world socket c).symm

end TemporaryNickname

section Handlers
variable [CMemory] {world : World}

theorem clientHandleLine_registry (registry : Registry members world) (member : members client)
    (line : CString) : Registry members (clientHandleLine world client line) := by
  obtain ⟨between, rfl | ⟨arg, rfl⟩, output⟩ := clientHandleLine_cases world client line
  · exact (registry.recorded _).output output
  · exact ((registry.recorded _).setNickname member arg).output output

theorem clientDisconnect_registry (registry : Registry world.Connected world)
    (connected : world.Connected client) :
    Registry (clientDisconnect world client).Connected (clientDisconnect world client) := by
  have told := (registry.left connected).output (serverSendChannelMessage_output
    (unregistered world client) (world.nicknameText client ++ literal " has left..."))
  have closed : Registry _ (clientDisconnect world client) :=
    told.frame rfl fun c _ => closeConnection_nickname _ client c
  exact closed.congr fun c => (clientDisconnect_connected world client c).symm

theorem clientCreate_registry (registry : Registry world.Connected world)
    (room : world.connectedClients.length < 2 ^ 32 - 2) (socket : Int) :
    Registry (clientCreate world socket).Connected (clientCreate world socket) := by
  have told := serverSendChannelMessage_output (nameClient world socket)
    ((nameClient world socket).nicknameText world.allocated ++ literal " has entered...")
  exact ((nameClient_registry registry room socket).output told).congr fun c =>
    (told.sameConnections.connected c).symm

theorem clientReceived_registry (registry : Registry world.Connected world)
    (connected : world.Connected client) (bytes : List UInt8) :
    Registry (clientReceived world client bytes).Connected (clientReceived world client bytes) := by
  have received := SameRegistration.record world (.recv client bytes)
  apply clientReceived_elim (P := fun after => Registry after.Connected after)
  · exact fun buffer => (received.trans (.setInBuffer _ _ _)).registry registry
  · intro buffer line rest
    have terminated := received.trans (.setInBuffer _ client buffer)
    have handled := clientHandleLine_registry (terminated.registry registry)
      ((terminated.connected client).mpr connected) line
    refine (SameRegistration.setInBuffer _ _ _).registry (handled.congr ?_)
    intro c
    exact ((clientHandleLine_sameConnections _ _ _).connected c).symm

theorem clientReceived_connected (world : World) (client : ClientRef) (bytes : List UInt8)
    (c : ClientRef) : (clientReceived world client bytes).Connected c ↔ world.Connected c := by
  have received := SameRegistration.record world (.recv client bytes)
  apply clientReceived_elim (P := fun after => after.Connected c ↔ world.Connected c)
  · exact fun buffer => (received.trans (.setInBuffer _ _ _)).connected c
  · intro buffer line rest
    have terminated := received.trans (.setInBuffer _ client buffer)
    refine ((SameRegistration.setInBuffer _ _ _).connected c).trans ?_
    exact ((clientHandleLine_sameConnections _ client line).connected c).trans (terminated.connected c)

/-- Only `ClientDisconnect` ends a connection. -/
theorem disconnect_cases (connected : world.Connected c)
    (gone : ¬(handleEvent world event).Connected c) :
    ∃ before, handleEvent world event = clientDisconnect before c ∧
      (before = world ∨ ∃ buffer, before = setInBuffer world c buffer) := by
  have leaves : ∀ {before : World} {client}, before.Connected c →
      ¬(clientDisconnect before client).Connected c → client = c := by
    intro before client connected gone
    by_contra different
    exact gone ((clientDisconnect_connected before client c).mpr ⟨connected, fun h => different h.symm⟩)
  cases event with
  | accepted socket => exact absurd ((clientCreate_connected world socket c).mpr (.inl connected)) gone
  | hungUp client =>
    obtain rfl := leaves connected gone
    exact ⟨world, rfl, .inl rfl⟩
  | readable client result =>
    have grown := SameRegistration.setInBuffer world client (makeRoom (world.client client).inBuffer)
    have still := (grown.connected c).mpr connected
    simp only [handleEvent, clientDoRead] at gone ⊢
    split at gone
    · obtain rfl := leaves still gone
      exact ⟨_, rfl, .inr ⟨_, rfl⟩⟩
    · obtain rfl := leaves still gone
      exact ⟨_, rfl, .inr ⟨_, rfl⟩⟩
    · exact absurd ((clientReceived_connected _ client _ c).mpr still) gone
  | writable client len =>
    simp only [handleEvent, clientDoWrite] at gone ⊢
    split at gone
    · rename_i failed
      obtain rfl := leaves connected gone
      exact ⟨world, if_pos failed, .inl rfl⟩
    · have sent := SameRegistration.sent world client ((world.client client).outBuffer.content.take len.toNat)
        (consume (world.client client).outBuffer len.toNat)
      split at gone
      · exact absurd ((sent.connected c).mpr connected) gone
      · exact absurd ((sent.connected c).mpr connected) gone

theorem clientDoRead_registry (registry : Registry world.Connected world)
    (connected : world.Connected client) (result : Option (List UInt8)) :
    Registry (clientDoRead world client result).Connected (clientDoRead world client result) := by
  have grown := SameRegistration.setInBuffer world client (makeRoom (world.client client).inBuffer)
  have still := (grown.connected client).mpr connected
  simp only [clientDoRead]
  split
  · exact clientDisconnect_registry (grown.registry registry) still
  · exact clientDisconnect_registry (grown.registry registry) still
  · exact clientReceived_registry (grown.registry registry) still _

theorem clientDoWrite_registry (registry : Registry world.Connected world)
    (connected : world.Connected client) (len : Int) :
    Registry (clientDoWrite world client len).Connected (clientDoWrite world client len) := by
  simp only [clientDoWrite]
  split
  · exact clientDisconnect_registry registry connected
  · have sent := SameRegistration.sent world client ((world.client client).outBuffer.content.take len.toNat)
      (consume (world.client client).outBuffer len.toNat)
    split
    · exact (sent.trans (.setPoll _ _)).registry registry
    · exact sent.registry registry

theorem handleEvent_registry (registry : Registry world.Connected world)
    (admissible : Admissible world event) :
    Registry (handleEvent world event).Connected (handleEvent world event) := by
  cases event with
  | accepted socket => exact clientCreate_registry registry admissible socket
  | hungUp client => exact clientDisconnect_registry registry admissible
  | readable client result => exact clientDoRead_registry registry admissible.1 result
  | writable client len => exact clientDoWrite_registry registry admissible.1 len

theorem reachable_registry (reachable : Reachable world) : Registry world.Connected world :=
  reachable.invariant (P := fun world => Registry world.Connected world) .initial handleEvent_registry

/-- In every reachable state the dictionary maps exactly the nicknames of the connected
clients to them. -/
theorem nickname_registry (reachable : Reachable world) :
    (∀ c, world.Connected c → ∃ nickname, (world.client c).nickname = some nickname ∧
      dictionaryGet world.clients nickname = some c ∧
      nickname ≠ [] ∧ ∀ char ∈ nickname, isspace char.val = false) ∧
    (∀ c d, world.Connected c → world.Connected d →
      (world.client c).nickname = (world.client d).nickname → c = d) ∧
    (∀ nickname c, dictionaryGet world.clients nickname = some c →
      world.Connected c ∧ (world.client c).nickname = some nickname) ∧
    ∀ nickname value, (nickname, value) ∈ DictionaryIterator.entries world.clients →
      ∃ c, value = some c ∧ world.Connected c ∧ (world.client c).nickname = some nickname := by
  have registry := reachable_registry reachable
  refine ⟨?_, fun c d => registry.nickname_injective, fun nickname c => registry.owner, ?_⟩
  · intro c connected
    obtain ⟨nickname, set, ⟨nonempty, clean⟩, held⟩ := registry.held c connected
    exact ⟨nickname, set, held, nonempty, clean⟩
  · intro nickname value mem
    have nonempty := DictionaryIterator.nonempty_of_mem_entries registry.head registry.ordered mem
    have stored := DictionaryIterator.mem_walk_of_mem_entries registry.head mem
    rcases registry.owned nickname value stored with ⟨empty, _⟩ | owner
    · exact absurd empty nonempty
    · exact owner

end Handlers

/-- The first client of a server. -/
theorem nickname_registry_first : ∃ nickname,
    ((@clientCreate .zeroed serverCreate 5).client 0).nickname = some nickname ∧
      dictionaryGet (@clientCreate .zeroed serverCreate 5).clients nickname = some 0 := by
  let _ := CMemory.zeroed
  have room : serverCreate.connectedClients.length < 2 ^ 32 - 2 := by decide
  have reachable : Reachable (clientCreate serverCreate 5) := ⟨[.accepted 5], .single ⟨room, rfl⟩⟩
  obtain ⟨nickname, set, held, _⟩ :=
    (nickname_registry reachable).1 0 ((clientCreate_connected serverCreate 5 0).mpr (.inr rfl))
  exact ⟨nickname, set, held⟩

end KommunikationNetze.Chat
