import KommunikationNetze.Chat.Server

/-! The pointers behind the nicknames. A nickname is a copy of the argument, which `strtrim`
advances past its leading whitespace. The advanced pointer is stored, and it is what the
next change of the nickname frees. -/
namespace KommunikationNetze.Chat
open CLib Utils Transition

/-- A pointer into a block that `malloc` has returned. -/
structure CharPointer where
  allocation : Nat
  offset : Nat
  deriving DecidableEq

/-- The world with the pointers of its nicknames, and the nicknames that were freed. -/
structure NicknameState where
  world : World
  nickname : ClientRef → Option CharPointer
  allocations : Nat
  freed : List (ClientRef × CharPointer)

/-- What the first loop of `strtrim` skips. -/
def leadingSpace (string : CString) : CString := string.takeWhile fun c => isspace c.val

def strtrimPointer (string : CString) (ptr : CharPointer) : CharPointer :=
  { ptr with offset := ptr.offset + (leadingSpace string).length }

namespace NicknameState

/-- `ClientSetNickname` with the copy it makes and the pointer it frees. -/
def setNickname (s : NicknameState) (client : ClientRef) (nick : CString) : Bool × NicknameState :=
  let copy : CharPointer := { allocation := s.allocations, offset := 0 }
  let s := { s with allocations := s.allocations + 1 }
  let nickname := strtrim nick
  let pointer := strtrimPointer nick copy
  let fields := s.world.client client
  if nickname.length = 0 then (false, s)
  else if fields.nickname.any (strcmp · nickname = 0) then (true, s)
  else
    let clients := s.world.clients.lock
    if (dictionaryGet clients nickname).isSome then
      (false, { s with world := { s.world with clients := clients.unlock } })
    else
      let clients := withoutNickname clients fields.nickname
      let freed := s.freed ++ (s.nickname client).toList.map fun ptr => (client, ptr)
      let world := s.world.setClient client { fields with nickname := some nickname }
      let world := { world with clients := (dictionarySet clients nickname (some client)).unlock }
      (true, { s with world, freed, nickname := Function.update s.nickname client (some pointer) })

/-- Without the pointers it is `ClientSetNickname`. -/
theorem setNickname_world (s : NicknameState) (client : ClientRef) (nick : CString) :
    ((s.setNickname client nick).1, (s.setNickname client nick).2.world) =
      clientSetNickname s.world client nick := by
  simp only [setNickname, clientSetNickname]
  split
  · rfl
  · split
    · rfl
    · split <;> rfl

end NicknameState

/-- The client gets another nickname: it is not empty, not its own and nobody's. -/
def Changes (world : World) (client : ClientRef) (nick : CString) : Prop :=
  strtrim nick ≠ [] ∧ (world.client client).nickname ≠ some (strtrim nick) ∧
    dictionaryGet world.clients (strtrim nick) = none

instance (world : World) (client : ClientRef) (nick : CString) : Decidable (Changes world client nick) :=
  inferInstanceAs (Decidable (_ ∧ _ ∧ _))

section Cases
variable (s : NicknameState) {client : ClientRef} {nick : CString}

theorem setNickname_unchanged (unchanged : ¬Changes s.world client nick) :
    (s.setNickname client nick).2 = { s with allocations := s.allocations + 1 } := by
  by_cases empty : (strtrim nick).length = 0
  · simp only [NicknameState.setNickname, if_pos empty]
  by_cases own : (s.world.client client).nickname.any (strcmp · (strtrim nick) = 0) = true
  · simp only [NicknameState.setNickname, if_neg empty, if_pos own]
  have other : (s.world.client client).nickname ≠ some (strtrim nick) := by
    intro same
    exact own (by simp [same])
  have nonempty : strtrim nick ≠ [] := fun nil => empty (by rw [nil]; rfl)
  have taken : dictionaryGet s.world.clients (strtrim nick) ≠ none := fun free =>
    unchanged ⟨nonempty, other, free⟩
  have held : (dictionaryGet s.world.clients.lock (strtrim nick)).isSome = true :=
    Option.isSome_iff_ne_none.mpr taken
  simp only [NicknameState.setNickname, if_neg empty, if_neg own, if_pos held, Dictionary.unlock_lock]

theorem setNickname_changed (changes : Changes s.world client nick) :
    (s.setNickname client nick).2 =
      { world := renamed s.world client (strtrim nick)
        nickname := Function.update s.nickname client
          (some { allocation := s.allocations, offset := (leadingSpace nick).length })
        allocations := s.allocations + 1
        freed := s.freed ++ (s.nickname client).toList.map fun ptr => (client, ptr) } := by
  obtain ⟨nonempty, other, free⟩ := changes
  have empty : ¬(strtrim nick).length = 0 := fun zero => nonempty (List.eq_nil_of_length_eq_zero zero)
  have own : ¬(s.world.client client).nickname.any (strcmp · (strtrim nick) = 0) = true := by
    intro any
    obtain ⟨current, set, same⟩ := (Option.any_eq_true _ _).mp any
    exact other (set.trans (congrArg some (strcmp_eq_zero.mp (of_decide_eq_true same))))
  have unheld : ¬(dictionaryGet s.world.clients.lock (strtrim nick)).isSome = true := by
    rw [dictionaryGet_lock, free]
    nofun
  simp only [NicknameState.setNickname, if_neg empty, if_neg own, if_neg unheld, strtrimPointer,
    Nat.zero_add, renamed]
  cases (s.world.client client).nickname <;> simp [withoutNickname]

end Cases

inductive NicknameEvent where
  | given (client : ClientRef) (nick : CString)
  | refused (client : ClientRef) (nick : CString)
  | other

/-- A call of `ClientSetNickname`, or anything else the server does. -/
inductive NicknameStep (s : NicknameState) : NicknameEvent → NicknameState → Prop where
  | given (changes : Changes s.world client nick) :
      NicknameStep s (.given client nick) (s.setNickname client nick).2
  | refused (unchanged : ¬Changes s.world client nick) :
      NicknameStep s (.refused client nick) (s.setNickname client nick).2
  | other {world : World} (kept : ∀ c, (world.client c).nickname = (s.world.client c).nickname) :
      NicknameStep s .other { s with world }

/-- The arguments that gave the client a nickname. -/
def givenTo (c : ClientRef) (events : List NicknameEvent) : List CString :=
  events.filterMap fun
    | .given client nick => if client = c then some nick else none
    | _ => none

/-- The offsets of the freed nicknames of a client. -/
def freedOffsets (c : ClientRef) (freed : List (ClientRef × CharPointer)) : List Nat :=
  freed.filterMap fun entry => if entry.1 = c then some entry.2.offset else none

/-- No client has a nickname yet. -/
structure NoNicknames (s : NicknameState) : Prop where
  nickname : ∀ c, s.nickname c = none ∧ (s.world.client c).nickname = none
  freed : s.freed = []

/-- The pointer to a nickname stands behind the whitespace of its argument, and all earlier
nicknames were freed where they stood. -/
structure Accounted (c : ClientRef) (events : List NicknameEvent) (s : NicknameState) : Prop where
  held : (s.nickname c).isSome = (s.world.client c).nickname.isSome
  current : (s.nickname c).map CharPointer.offset =
    (givenTo c events).getLast?.map fun nick => (leadingSpace nick).length
  freed : freedOffsets c s.freed = (givenTo c events).dropLast.map fun nick => (leadingSpace nick).length

section Run
variable {c client : ClientRef} {nick : CString} {events : List NicknameEvent} {s after : NicknameState}

theorem givenTo_snoc (event : NicknameEvent) :
    givenTo c (events ++ [event]) = givenTo c events ++ givenTo c [event] := List.filterMap_append

theorem Accounted.frame (accounted : Accounted c events s) {event : NicknameEvent}
    (given : givenTo c [event] = []) (pointer : after.nickname c = s.nickname c)
    (nickname : (after.world.client c).nickname = (s.world.client c).nickname)
    (freed : freedOffsets c after.freed = freedOffsets c s.freed) :
    Accounted c (events ++ [event]) after := by
  have same : givenTo c (events ++ [event]) = givenTo c events := by
    rw [givenTo_snoc, given, List.append_nil]
  constructor
  · rw [pointer, nickname, accounted.held]
  · rw [pointer, same, accounted.current]
  · rw [freed, same, accounted.freed]

theorem freedOffsets_own (ptr : Option CharPointer) :
    freedOffsets c (ptr.toList.map fun ptr => (c, ptr)) = (ptr.map CharPointer.offset).toList := by
  cases ptr <;> simp [freedOffsets]

theorem freedOffsets_other (other : client ≠ c) (ptr : Option CharPointer) :
    freedOffsets c (ptr.toList.map fun ptr => (client, ptr)) = [] := by
  cases ptr <;> simp [freedOffsets, other]

theorem renamed_nickname (world : World) (client c : ClientRef) (nickname : CString) :
    ((renamed world client nickname).client c).nickname =
      if c = client then some nickname else (world.client c).nickname := by
  simp only [renamed, World.setClient, Function.update_apply]
  split <;> rfl

theorem Accounted.given (accounted : Accounted c events s) (changes : Changes s.world client nick) :
    Accounted c (events ++ [.given client nick]) (s.setNickname client nick).2 := by
  rw [setNickname_changed s changes]
  by_cases same : client = c
  · subst same
    obtain ⟨held, current, freed⟩ := accounted
    have given : givenTo client [.given client nick] = [nick] := by simp [givenTo]
    constructor
    · simp only [Function.update_self, renamed_nickname, if_true, Option.isSome_some]
    · rw [givenTo_snoc, given, List.getLast?_concat]
      simp only [Function.update_self, Option.map_some]
    · rw [givenTo_snoc, given, List.dropLast_concat, freedOffsets, List.filterMap_append, ← freedOffsets,
        ← freedOffsets, freedOffsets_own, freed, current]
      cases last : (givenTo client events).getLast? with
      | none => simp [List.getLast?_eq_none_iff.mp last]
      | some nick =>
        obtain ⟨earlier, shape⟩ := List.getLast?_eq_some_iff.mp last
        simp [shape]
  · have given : givenTo c [.given client nick] = [] := by simp [givenTo, same]
    refine accounted.frame given ?_ ?_ ?_
    · exact Function.update_of_ne (Ne.symm same) _ _
    · rw [renamed_nickname, if_neg (Ne.symm same)]
    · rw [freedOffsets, List.filterMap_append, ← freedOffsets, ← freedOffsets, freedOffsets_other same,
        List.append_nil]

theorem accounted_run (fresh : NoNicknames origin) (run : Run NicknameStep origin events s)
    (c : ClientRef) : Accounted c events s := by
  refine Run.history (P := Accounted c) ?_ ?_ run
  · obtain ⟨nickname, freed⟩ := fresh
    constructor
    · rw [(nickname c).1, (nickname c).2]
      rfl
    · rw [(nickname c).1]
      rfl
    · rw [freed]
      rfl
  · intro events s event after accounted step
    cases step with
    | given changes => exact accounted.given changes
    | refused unchanged =>
      rw [setNickname_unchanged s unchanged]
      exact accounted.frame rfl rfl rfl rfl
    | other kept => exact accounted.frame rfl rfl (kept c) rfl

theorem leadingSpace_length {string : CString} :
    (leadingSpace string).length = 0 ↔ ∀ first ∈ string.head?, isspace first.val = false := by
  cases string with
  | nil => exact iff_of_true rfl nofun
  | cons first rest =>
    cases space : isspace first.val <;> simp [leadingSpace, space]

/-- Every nickname is freed where it was allocated exactly if no argument that gave a
client a nickname starts with whitespace, but for the last one of each client. -/
theorem nickname_freed_at_base (fresh : NoNicknames origin) (run : Run NicknameStep origin events s) :
    (∀ entry ∈ s.freed, entry.2.offset = 0) ↔
      ∀ c, ∀ nick ∈ (givenTo c events).dropLast, ∀ first ∈ nick.head?, isspace first.val = false := by
  have offsets : ∀ c, (∀ offset ∈ freedOffsets c s.freed, offset = 0) ↔
      ∀ nick ∈ (givenTo c events).dropLast, ∀ first ∈ nick.head?, isspace first.val = false := by
    intro c
    rw [(accounted_run fresh run c).freed, List.forall_mem_map]
    exact forall₂_congr fun nick _ => leadingSpace_length
  simp only [← offsets, freedOffsets, List.mem_filterMap]
  constructor
  · rintro base c offset ⟨entry, mem, found⟩
    split at found
    · exact Option.some.inj found ▸ base entry mem
    · cases found
  · intro every entry mem
    exact every entry.1 entry.2.offset ⟨entry, mem, if_pos rfl⟩

end Run

/-- The server before any client came. -/
def noClients : NicknameState :=
  { world := serverCreate, nickname := fun _ => none, allocations := 0, freed := [] }

theorem noClients_noNicknames : NoNicknames noClients := ⟨fun _ => ⟨rfl, rfl⟩, rfl⟩

/-- The first client is connected. -/
def firstClient : NicknameState := { noClients with world := allocateClient serverCreate 5 }

theorem firstClient_run : Run NicknameStep noClients [.other] firstClient := by
  refine .single (.other fun c => ?_)
  by_cases new : c = 0
  · subst new
    rfl
  · exact congrArg Client.nickname (allocateClient_old serverCreate 5 new)

/-- The first client after it was given its temporary nickname. -/
def temporarilyNamed : NicknameState := (firstClient.setNickname 0 (literal "Derp1")).2

theorem temporarilyNamed_run :
    Run NicknameStep noClients [.other, .given 0 (literal "Derp1")] temporarilyNamed :=
  .snoc firstClient_run (.given (by decide))

/-- `/nick eve` -/
theorem nickname_freed_at_base_eve : ∃ events s, NoNicknames noClients ∧ Run NicknameStep noClients events s ∧
    events = [.other, .given 0 (literal "Derp1"), .given 0 (literal "eve")] ∧
    s.freed ≠ [] ∧ ∀ entry ∈ s.freed, entry.2.offset = 0 := by
  have eve : Changes temporarilyNamed.world 0 (literal "eve") := by decide
  have run := temporarilyNamed_run.snoc (.given eve)
  refine ⟨_, _, noClients_noNicknames, run, rfl, by decide, ?_⟩
  refine (nickname_freed_at_base noClients_noNicknames run).mpr fun c nick mem => ?_
  by_cases same : 0 = c
  · subst same
    have temporary : nick = literal "Derp1" := List.mem_singleton.mp mem
    intro first head
    subst temporary
    cases head
    rfl
  · simp [givenTo, same] at mem

/-- `/nick  bob` stores a pointer behind the second space, and `/nick eve` frees it. -/
theorem nickname_freed_inside : ∃ events s, NoNicknames noClients ∧ Run NicknameStep noClients events s ∧
    strsep (some (literal "nick  bob")) (literal " ") = (some (literal "nick"), some (literal " bob")) ∧
    events = [.other, .given 0 (literal "Derp1"), .given 0 (literal " bob"), .given 0 (literal "eve")] ∧
    ∃ entry ∈ s.freed, entry.2.offset ≠ 0 := by
  have bob : Changes temporarilyNamed.world 0 (literal " bob") := by decide
  have eve : Changes (temporarilyNamed.setNickname 0 (literal " bob")).2.world 0 (literal "eve") := by decide
  have third := (temporarilyNamed_run.snoc (.given bob)).snoc (.given eve)
  exact ⟨_, _, noClients_noNicknames, third, by decide, rfl, by decide⟩

end KommunikationNetze.Chat
