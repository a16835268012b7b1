import KommunikationNetze.Chat.InputStream
import KommunikationNetze.Chat.NicknameRuns

/-! Renaming is all or nothing. Either nothing at all changes, or the client has the new
nickname in its fields and in the dictionary, and nobody else is affected. But the server
aborts in between when the former nickname is freed inside its block. -/
namespace KommunikationNetze.Chat
open CLib Utils Transition

namespace NicknameState
variable (s : NicknameState)

/-- The pointers a call of `ClientSetNickname` frees. -/
def freedBy (client : ClientRef) (nick : CString) : List CharPointer :=
  ((s.setNickname client nick).2.freed.drop s.freed.length).map Prod.snd

/-- The call with `free` as it is: it aborts for a pointer that is not the one of a block. -/
def setNicknameOrAbort (client : ClientRef) (nick : CString) : Option (Bool × NicknameState) :=
  if ∀ ptr ∈ s.freedBy client nick, ptr.offset = 0 then some (s.setNickname client nick) else none

/-- The server with a client that `ClientCreate` has not given a nickname. -/
def allocateClient (socket : Int) : NicknameState := { s with world := Chat.allocateClient s.world socket }

/-- The loop of `ClientCreate` over the temporary nicknames. -/
def setTemporaryNickname (s : NicknameState) (client : ClientRef) : Nat → Nat → Option NicknameState
  | _, 0 => some s
  | i, rounds + 1 => do
    match ← s.setNicknameOrAbort client (literal "Derp" ++ decimal i) with
    | (true, s) => some s
    | (false, s) => setTemporaryNickname s client (i + 1) rounds

end NicknameState

/-- Another connected client has the nickname. -/
def HeldByOther (world : World) (client : ClientRef) (nickname : CString) : Prop :=
  ∃ other, world.Connected other ∧ other ≠ client ∧ (world.client other).nickname = some nickname

/-- The client has the nickname and its former one is free; other clients are as they were. -/
structure Renames (world after : World) (client : ClientRef) (nickname : CString) : Prop where
  given : (after.client client).nickname = some nickname
  maps : dictionaryGet after.clients nickname = some client
  former : ∀ old, (world.client client).nickname = some old → old ≠ nickname →
    dictionaryGet after.clients old = none
  others : ∀ other, other ≠ client → after.client other = world.client other
  entries : ∀ other, other ≠ client → ∀ key,
    dictionaryGet after.clients key = some other ↔ dictionaryGet world.clients key = some other

structure AllOrNothing (world : World) (client : ClientRef) (nick : CString) (result : Bool × World) :
    Prop where
  refused : result.1 = false ↔ strtrim nick = [] ∨ HeldByOther world client (strtrim nick)
  nothing : result.1 = false → result.2 = world
  all : result.1 = true → Renames world result.2 client (strtrim nick)

namespace AllOrNothing
variable {world after : World} {client : ClientRef} {nick : CString}

theorem of_false (held : strtrim nick = [] ∨ HeldByOther world client (strtrim nick)) :
    AllOrNothing world client nick (false, world) where
  refused := iff_of_true rfl held
  nothing _ := rfl
  all := Bool.noConfusion

theorem of_true (nonempty : strtrim nick ≠ []) (free : ¬HeldByOther world client (strtrim nick))
    (renames : Renames world after client (strtrim nick)) : AllOrNothing world client nick (true, after) where
  refused := iff_of_false Bool.noConfusion fun held => held.elim nonempty free
  nothing := Bool.noConfusion
  all _ := renames

end AllOrNothing

/-- A client keeps its own nickname without a look at the dictionary. -/
theorem clientSetNickname_current (nonempty : strtrim nick ≠ [])
    (current : (world.client client).nickname = some (strtrim nick)) :
    clientSetNickname world client nick = (true, world) := by
  have length : (strtrim nick).length ≠ 0 := fun zero => nonempty (List.eq_nil_of_length_eq_zero zero)
  have own : (world.client client).nickname.any (strcmp · (strtrim nick) = 0) = true := by
    rw [current, Option.any_some, strcmp_eq_zero.mpr rfl]
    rfl
  rw [clientSetNickname]
  simp only [if_neg length, own, if_true]

namespace Registry
variable {members : ClientRef → Prop} {world : World} {client : ClientRef}

/-- A free nickname goes to the client, and its former one to nobody. -/
theorem renames (registry : Registry members world) (free : dictionaryGet world.clients nickname = none)
    (fresh : members client ∨ (world.client client).nickname = none) :
    Renames world (renamed world client nickname) client nickname where
  given := congrArg Client.nickname (World.setClient_self world client _)
  maps := by rw [renamed, dictionaryGet_set, if_pos rfl]
  former old set other := by
    rw [renamed, dictionaryGet_set, if_neg other, withoutNickname_get registry.ordered, if_pos set]
  others other different := World.setClient_other world client _ different
  entries other different key := by
    rw [renamed, dictionaryGet_set]
    by_cases new : key = nickname
    · subst key
      rw [if_pos rfl, free]
      constructor
      · intro same
        exact absurd (Option.some.inj same).symm different
      · intro none
        cases none
    · rw [if_neg new, withoutNickname_get registry.ordered]
      by_cases old : (world.client client).nickname = some key
      · rw [if_pos old]
        constructor
        · intro none
          cases none
        · intro found
          obtain ⟨member, set⟩ := registry.owner found
          rcases fresh with own | unnamed
          · exact absurd (registry.nickname_injective member own (set.trans old.symm)) different
          · rw [unnamed] at old
            cases old
      · rw [if_neg old]

/-- A client that keeps its nickname has it in the dictionary already. -/
theorem keeps (registry : Registry members world) (member : members client)
    (current : (world.client client).nickname = some nickname) :
    Renames world world client nickname where
  given := current
  maps := by
    obtain ⟨own, set, _, held⟩ := registry.held client member
    rw [set] at current
    rw [← Option.some.inj current]
    exact held
  former old set other := absurd (Option.some.inj (set.symm.trans current)) other
  others _ _ := rfl
  entries _ _ _ := .rfl

/-- Whoever else has the nickname is found under it. -/
theorem held_of_heldByOther (registry : Registry members world)
    (others : ∀ c, c ≠ client → (members c ↔ world.Connected c))
    (held : HeldByOther world client nickname) :
    ∃ other, other ≠ client ∧ dictionaryGet world.clients nickname = some other := by
  obtain ⟨other, connected, different, set⟩ := held
  obtain ⟨own, stored, _, found⟩ := registry.held other ((others other different).mpr connected)
  obtain rfl := Option.some.inj (stored.symm.trans set)
  exact ⟨other, different, found⟩

theorem allOrNothing (registry : Registry members world)
    (others : ∀ c, c ≠ client → (members c ↔ world.Connected c))
    (fresh : members client ∨ (world.client client).nickname = none) (nick : CString) :
    AllOrNothing world client nick (clientSetNickname world client nick) := by
  have kept : (world.client client).nickname = some (strtrim nick) →
      members client ∧ ¬HeldByOther world client (strtrim nick) := by
    intro current
    rcases fresh with member | unnamed
    · refine ⟨member, fun held => ?_⟩
      obtain ⟨other, different, found⟩ := registry.held_of_heldByOther others held
      obtain ⟨its, set⟩ := registry.owner found
      exact different (registry.nickname_injective its member (set.trans current.symm))
    · rw [unnamed] at current
      cases current
  rcases clientSetNickname_cases world client nick with
    ⟨refused, empty | ⟨other, found⟩⟩ | ⟨same, current⟩ | ⟨changed, nonempty, free⟩
  · rw [refused]
    exact .of_false (.inl empty)
  · by_cases empty : strtrim nick = []
    · rw [refused]
      exact .of_false (.inl empty)
    obtain ⟨member, set⟩ := registry.owner found
    have different : other ≠ client := by
      rintro rfl
      rw [clientSetNickname_current empty set] at refused
      exact Bool.noConfusion (Prod.mk.inj refused).1
    rw [refused]
    exact .of_false (.inr ⟨other, (others other different).mp member, different, set⟩)
  · obtain ⟨member, alone⟩ := kept current
    rw [same]
    refine .of_true ?_ alone (registry.keeps member current)
    intro empty
    rw [empty] at current
    exact registry.nickname_ne_nil member current
  · rw [changed]
    refine .of_true nonempty ?_ (registry.renames free fresh)
    intro held
    obtain ⟨other, _, found⟩ := registry.held_of_heldByOther others held
    rw [free] at found
    cases found

end Registry

/-- The loop of `ClientCreate` ends with the first free nickname. -/
theorem nameClient_first (registry : Registry world.Connected world)
    (room : world.connectedClients.length < 2 ^ 32 - 2) (socket : Int) :
    ∃ i, 1 ≤ i ∧ dictionaryGet world.clients (temporaryNickname i) = none ∧
      (∀ j, 1 ≤ j → j < i → dictionaryGet world.clients (temporaryNickname j) ≠ none) ∧
      Renames (allocateClient world socket) (nameClient world socket) world.allocated
        (temporaryNickname i) := by
  have allocated := allocateClient_registry registry socket
  have unnamed : ((allocateClient world socket).client world.allocated).nickname = none := by
    rw [allocateClient_new]
    rfl
  obtain ⟨i, positive, earlier, free, found⟩ := setTemporaryNickname_first allocated unnamed
    world.connectedClients (fun c => World.mem_connectedClients.mpr) room
  refine ⟨i, positive, free, ?_, ?_⟩
  · intro j above below unused
    obtain ⟨other, taken⟩ := earlier j above below
    cases taken.symm.trans unused
  · rw [nameClient, found]
    exact allocated.renames free (.inr unnamed)

/-- The call of `ClientSetNickname` returns, and is all or nothing. -/
def NicknameState.AllOrNothing (s : NicknameState) (client : ClientRef) (nick : CString) : Prop :=
  ∃ result, s.setNicknameOrAbort client nick = some result ∧
    Chat.AllOrNothing s.world client nick (result.1, result.2.world)

section Free
variable {s : NicknameState} {client : ClientRef} {nick : CString}

theorem Changes.same {world after : World} (same : SameRegistration world after)
    (changes : Changes world client nick) : Changes after client nick := by
  obtain ⟨nonempty, other, free⟩ := changes
  exact ⟨nonempty, same.nickname client ▸ other,
    (congrArg (entryGet · (strtrim nick)) same.headEntry).trans free⟩

/-- A client that gets another nickname holds the pointer behind the whitespace. -/
theorem given_pointer (run : Run NicknameStep noClients events s) (same : SameRegistration s.world before)
    (changes : Changes before client nick)
    (kept : ∀ c, (after.client c).nickname = ((clientSetNickname before client nick).2.client c).nickname) :
    ∃ events t, Run NicknameStep noClients events t ∧ t.world = after ∧
      (t.world.client client).nickname = some (strtrim nick) ∧
      ∃ ptr ∈ t.nickname client, ptr.offset = (leadingSpace nick).length := by
  have called := congrArg Prod.snd (NicknameState.setNickname_world { s with world := before } client nick)
  have changed := setNickname_changed { s with world := before } changes
  rw [← called] at kept
  refine ⟨_, _, ((run.snoc (.other same.nickname)).snoc (.given changes)).snoc (.other kept), rfl, ?_, ?_⟩
  · rw [kept client, changed, renamed_nickname, if_pos rfl]
  · rw [changed]
    exact ⟨_, Function.update_self .., rfl⟩

theorem mem_freedBy {ptr : CharPointer} :
    ptr ∈ s.freedBy client nick ↔ Changes s.world client nick ∧ s.nickname client = some ptr := by
  by_cases changes : Changes s.world client nick
  · simp [NicknameState.freedBy, setNickname_changed s changes, changes]
  · simp [NicknameState.freedBy, setNickname_unchanged s changes, changes]

/-- The pointer to the nickname is where its block begins, if the nickname is freed. -/
theorem setNicknameOrAbort_isSome : (s.setNicknameOrAbort client nick).isSome ↔
    (Changes s.world client nick → ∀ ptr ∈ s.nickname client, ptr.offset = 0) := by
  have freed : (∀ ptr ∈ s.freedBy client nick, ptr.offset = 0) ↔
      (Changes s.world client nick → ∀ ptr ∈ s.nickname client, ptr.offset = 0) := by
    simp only [mem_freedBy, Option.mem_def, and_imp]
    exact forall_comm
  rw [← freed, NicknameState.setNicknameOrAbort]
  split
  · rename_i base
    exact iff_of_true rfl base
  · rename_i inside
    exact iff_of_false Bool.noConfusion inside

theorem NicknameState.allOrNothing_iff
    (whole : Chat.AllOrNothing s.world client nick (clientSetNickname s.world client nick)) :
    s.AllOrNothing client nick ↔
      (Changes s.world client nick → ∀ ptr ∈ s.nickname client, ptr.offset = 0) := by
  rw [← setNicknameOrAbort_isSome, NicknameState.AllOrNothing, Option.isSome_iff_exists]
  refine exists_congr fun result => and_iff_left_of_imp fun returns => ?_
  obtain ⟨_, same⟩ := Option.ite_none_right_eq_some.mp returns
  rw [← Option.some.inj same, s.setNickname_world]
  exact whole

theorem unchanged_of_false (refused : (s.setNickname client nick).1 = false) :
    ¬Changes s.world client nick := by
  rintro ⟨nonempty, other, free⟩
  have called := (congrArg Prod.fst (s.setNickname_world client nick)).symm.trans refused
  rcases clientSetNickname_cases s.world client nick with
    ⟨_, empty | ⟨_, taken⟩⟩ | ⟨same, _⟩ | ⟨changed, _⟩
  · exact nonempty empty
  · cases free.symm.trans taken
  · rw [same] at called
    cases called
  · rw [changed] at called
    cases called

/-- Without a nickname there is nothing to free, and the loop is that of `ClientCreate`. -/
theorem setTemporaryNickname_some (unnamed : s.nickname client = none) (i rounds : Nat) :
    ∃ t, s.setTemporaryNickname client i rounds = some t ∧
      t.world = setTemporaryNickname s.world client i rounds := by
  induction rounds generalizing s i with
  | zero => exact ⟨s, rfl, rfl⟩
  | succ rounds ih =>
    have called := s.setNickname_world client (literal "Derp" ++ decimal i)
    have returns : s.setNicknameOrAbort client (literal "Derp" ++ decimal i) =
        some (s.setNickname client (literal "Derp" ++ decimal i)) := by
      refine if_pos fun ptr freed => ?_
      cases unnamed.symm.trans (mem_freedBy.mp freed).2
    rw [NicknameState.setTemporaryNickname, setTemporaryNickname, returns, ← called]
    rcases result : s.setNickname client (literal "Derp" ++ decimal i) with ⟨_ | _, t⟩
    · have kept : t.nickname client = none := by
        have same := setNickname_unchanged s (unchanged_of_false (congrArg Prod.fst result))
        rw [result] at same
        exact (congrArg (NicknameState.nickname · client) same).trans unnamed
      exact ih kept (i + 1)
    · exact ⟨t, rfl, rfl⟩

variable {events : List NicknameEvent}

/-- The pointer to the nickname is where its block begins, or there was whitespace in front. -/
theorem base_iff (run : Run NicknameStep noClients events s) (client : ClientRef) :
    (∀ ptr ∈ s.nickname client, ptr.offset = 0) ↔
      ∀ last ∈ (givenTo client events).getLast?, ∀ first ∈ last.head?, isspace first.val = false := by
  have current := (accounted_run noClients_noNicknames run client).current
  simp only [← leadingSpace_length]
  cases given : (givenTo client events).getLast? with
  | none =>
    rw [given, Option.map_none, Option.map_eq_none_iff] at current
    simp [current]
  | some nick =>
    rw [given, Option.map_some, Option.map_eq_some_iff] at current
    obtain ⟨ptr, held, offset⟩ := current
    simp [held, offset]

theorem unnamed_pointer (run : Run NicknameStep noClients events s)
    (unnamed : (s.world.client client).nickname = none) : s.nickname client = none := by
  have held := (accounted_run noClients_noNicknames run client).held
  rw [unnamed] at held
  exact Option.isNone_iff_eq_none.mp (Option.isSome_eq_false_iff.mp held)

end Free

variable [CMemory]

/-- Wherever a handler sets a nickname, the registry is that of a reachable state, and there are
pointers of its nicknames. The call is all or nothing if and only if it changes nothing or the
client has got its nickname without whitespace in front. The calls for a new client always are,
and give it the first temporary nickname that is free. -/
theorem renaming_all_or_nothing (reachable : Reachable reached) (same : SameRegistration reached world) :
    (∃ events s, Run NicknameStep noClients events s ∧ s.world = world) ∧
    ∀ events s, Run NicknameStep noClients events s → s.world = world →
      (∀ client nick, world.Connected client → (s.AllOrNothing client nick ↔
        (Changes world client nick → ∀ last ∈ (givenTo client events).getLast?,
          ∀ first ∈ last.head?, isspace first.val = false))) ∧
      (∀ socket nick, (s.allocateClient socket).AllOrNothing world.allocated nick) ∧
      ∀ socket, Admissible world (.accepted socket) →
        ∃ i t, 1 ≤ i ∧ dictionaryGet world.clients (temporaryNickname i) = none ∧
          (∀ j, 1 ≤ j → j < i → dictionaryGet world.clients (temporaryNickname j) ≠ none) ∧
          (s.allocateClient socket).setTemporaryNickname world.allocated 1 (2 ^ 32 - 2) = some t ∧
          t.world = nameClient world socket ∧
          Renames (allocateClient world socket) t.world world.allocated (temporaryNickname i) := by
  have registry := same.registry (reachable_registry reachable)
  have nicknamed := (reachable_nicknamed reachable).same same
  refine ⟨nicknamed.run, ?_⟩
  rintro events s run rfl
  have new : s.nickname s.world.allocated = none := unnamed_pointer run (nicknamed.unnamed _ le_rfl)
  refine ⟨fun client nick connected => ?_, fun socket nick => ?_, fun socket room => ?_⟩
  · have whole := registry.allOrNothing (fun _ _ => .rfl) (.inl connected) nick
    rw [NicknameState.allOrNothing_iff whole, base_iff run client]
  · refine (NicknameState.allOrNothing_iff ?_).mpr fun _ ptr held => by cases new.symm.trans held
    refine (allocateClient_registry registry socket).allOrNothing ?_ (.inr ?_) nick
    · exact fun c different => ((allocateClient_connected s.world socket c).trans (or_iff_left different)).symm
    · exact congrArg Client.nickname (allocateClient_new s.world socket)
  · obtain ⟨i, positive, free, earlier, renames⟩ := nameClient_first registry room socket
    obtain ⟨t, loop, named⟩ := setTemporaryNickname_some (s := s.allocateClient socket) new 1 (2 ^ 32 - 2)
    have created : t.world = nameClient s.world socket := named
    exact ⟨i, t, positive, free, earlier, loop, created, created ▸ renames⟩

/-- /nick calls `ClientSetNickname` with all that follows the first space, and then it writes. -/
theorem clientHandleLine_renames (world : World) (client : ClientRef) (arg : CString) :
    OutputOnly (clientSetNickname (world.record (.handleLine client (literal "/nick " ++ arg))) client arg).2
      (clientHandleLine world client (literal "/nick " ++ arg)) := by
  have words : ∀ rest, strsep (some (literal "nick " ++ rest)) (literal " ") =
      (some (literal "nick"), some rest) := fun _ => rfl
  have slash : literal "/nick " ++ arg = ⟨47, by decide⟩ :: (literal "nick " ++ arg) := rfl
  rw [slash, clientHandleLine]
  simp only [if_true, words, commandDefs, List.find?_cons, Option.any_some, strcmp_self, decide_true,
    clientHandleNickCommand]
  split
  · rename_i result
    exact result ▸ serverSendChannelMessage_output _ _
  · rename_i result
    exact result ▸ clientWriteLine_output _ client _

section OneClient

omit [CMemory] in
theorem temporarilyNamed_world : temporarilyNamed.world = nameClient serverCreate 5 := by
  have rounds : 2 ^ 32 - 2 = (2 ^ 32 - 3) + 1 := rfl
  have first : literal "Derp" ++ decimal 1 = literal "Derp1" := by decide
  have done : (firstClient.setNickname 0 (literal "Derp1")).1 = true := by decide
  have called : (true, temporarilyNamed.world) =
      clientSetNickname (allocateClient serverCreate 5) serverCreate.allocated (literal "Derp1") :=
    done ▸ firstClient.setNickname_world 0 (literal "Derp1")
  rw [nameClient, rounds, setTemporaryNickname, first, ← called]

omit [CMemory] in
/-- The server with one client, before it tells so. -/
theorem temporarilyNamed_same : SameRegistration oneClient temporarilyNamed.world := by
  let _ := CMemory.zeroed
  have output : OutputOnly temporarilyNamed.world oneClient :=
    temporarilyNamed_world ▸ serverSendChannelMessage_output _ _
  exact .symm ⟨output.headEntry, output.allocated, output.nickname, output.sameConnections.socketOpen⟩

omit [CMemory] in
/-- The first client takes another nickname. -/
theorem renaming_all_or_nothing_first : temporarilyNamed.AllOrNothing 0 (literal " bob") := by
  let _ := CMemory.zeroed
  have calls := (renaming_all_or_nothing ⟨_, oneClient_spec.1⟩ temporarilyNamed_same).2 _ _
    temporarilyNamed_run rfl
  refine (calls.1 0 _ ((temporarilyNamed_same.connected 0).mpr (oneClient_connected.mpr rfl))).mpr ?_
  intro _ last given first head
  obtain rfl : literal "Derp1" = last := Option.some.inj given
  cases head
  rfl

omit [CMemory] in
theorem oneClient_inBuffer : (oneClient.client 0).inBuffer = .empty := congrArg Input.buffer oneClient_spec.2.2

omit [CMemory] in
/-- The client stays connected when it is read from. -/
theorem oneClient_read (bytes : List UInt8) (nonempty : bytes ≠ [])
    (fits : bytes.length ≤ offered (@makeRoom .zeroed .empty)) :
    @Reachable .zeroed (@clientDoRead .zeroed oneClient 0 (some bytes)) ∧
      ∀ c, (@clientDoRead .zeroed oneClient 0 (some bytes)).Connected c ↔ c = 0 := by
  let _ := CMemory.zeroed
  rw [← oneClient_inBuffer] at fits
  have step : ServerStep oneClient (.readable 0 (some bytes)) (clientDoRead oneClient 0 (some bytes)) :=
    ⟨⟨oneClient_connected.mpr rfl, fits⟩, rfl⟩
  refine ⟨⟨_, .snoc oneClient_spec.1 step⟩, fun c => ?_⟩
  obtain ⟨b, bytes, rfl⟩ := List.exists_cons_of_ne_nil nonempty
  rw [clientDoRead, clientReceived_connected, (SameRegistration.setInBuffer _ _ _).connected,
    oneClient_connected]

/-- A line that arrives as a whole is handled with the registration as it was. -/
theorem oneClient_line (line : CString) {bytes : List UInt8} (nonempty : bytes ≠ [])
    (newline : strchr (receive (makeRoom .empty) bytes).memory 10 = some n)
    (text : stringAt (memcpy (receive (makeRoom .empty) bytes).memory n [0]) = line) :
    ∃ world, SameRegistration oneClient world ∧
      SameRegistration (clientHandleLine world 0 line) (clientDoRead oneClient 0 (some bytes)) := by
  have grown := SameRegistration.setInBuffer oneClient 0 (makeRoom (oneClient.client 0).inBuffer)
  have buffer : ((setInBuffer oneClient 0 (makeRoom (oneClient.client 0).inBuffer)).client 0).inBuffer =
      makeRoom .empty := by
    rw [setInBuffer, World.setClient_self, oneClient_inBuffer]
  have read := clientReceived_line buffer newline
  simp only [text] at read
  obtain ⟨b, bytes, rfl⟩ := List.exists_cons_of_ne_nil nonempty
  rw [clientDoRead, read]
  exact ⟨_, (grown.trans (.record _ _)).trans (.setInBuffer _ 0 _), .setInBuffer _ 0 _⟩

/-- What the client sends to get a nickname behind two spaces. -/
def twoSpaces : List UInt8 := (literal "/nick " ++ literal " bob").bytes ++ [10]

omit [CMemory] in
/-- The client is renamed by the line, to a pointer inside a block. -/
theorem twoSpaces_spec : ∃ events s, Run NicknameStep noClients events s ∧
    s.world = @clientDoRead .zeroed oneClient 0 (some twoSpaces) ∧
    (s.world.client 0).nickname = some (literal "bob") ∧ ∃ ptr ∈ s.nickname 0, ptr.offset = 1 := by
  let _ := CMemory.zeroed
  have newline : strchr (receive (makeRoom .empty) twoSpaces).memory 10 = some 10 := by decide +kernel
  obtain ⟨world, arrived, handled⟩ := oneClient_line (literal "/nick " ++ literal " bob")
    (by decide) newline (by decide +kernel)
  have same := temporarilyNamed_same.symm.trans (arrived.trans (.record world
    (.handleLine 0 (literal "/nick " ++ literal " bob"))))
  have changes : Changes temporarilyNamed.world 0 (literal " bob") := by decide
  obtain ⟨events, s, run, reached, named, ptr, held, offset⟩ := given_pointer temporarilyNamed_run same
    (changes.same same) fun c => (handled.nickname c).trans ((clientHandleLine_renames world 0 _).nickname c)
  have bob : strtrim (literal " bob") = literal "bob" := by decide
  exact ⟨events, s, run, reached, bob ▸ named, ptr, held, offset⟩

omit [CMemory] in
/-- /nick eve is neither refused nor done after that: the server aborts. -/
theorem renaming_aborts : ∃ events s, Run NicknameStep noClients events s ∧ @Reachable .zeroed s.world ∧
    s.world.Connected 0 ∧ ¬HeldByOther s.world 0 (literal "eve") ∧
    s.setNicknameOrAbort 0 (literal "eve") = none ∧ ¬s.AllOrNothing 0 (literal "eve") := by
  let _ := CMemory.zeroed
  obtain ⟨events, s, run, world, bob, ptr, held, offset⟩ := twoSpaces_spec
  obtain ⟨reachable, connected⟩ := oneClient_read twoSpaces (by decide) (by decide +kernel)
  rw [← world] at reachable connected
  have free : ∀ other, dictionaryGet s.world.clients (literal "eve") ≠ some other := by
    intro other found
    obtain ⟨its, set⟩ := (reachable_registry reachable).owner found
    obtain rfl := (connected other).mp its
    exact absurd (Option.some.inj (bob.symm.trans set)) (by decide)
  have eve : strtrim (literal "eve") = literal "eve" := by decide
  have changes : Changes s.world 0 (literal "eve") := by
    refine ⟨by decide, ?_, ?_⟩
    · rw [bob]
      decide
    · rw [eve]
      exact Option.eq_none_iff_forall_ne_some.mpr free
  have aborts : s.setNicknameOrAbort 0 (literal "eve") = none := by
    refine if_neg fun base => ?_
    have zero := base ptr (mem_freedBy.mpr ⟨changes, held⟩)
    rw [offset] at zero
    cases zero
  refine ⟨events, s, run, reachable, (connected 0).mpr rfl, ?_, aborts, ?_⟩
  · rintro ⟨other, its, different, _⟩
    exact different ((connected other).mp its)
  · rintro ⟨result, returns, _⟩
    cases aborts.symm.trans returns

end OneClient
end KommunikationNetze.Chat
