import KommunikationNetze.Chat.Broadcast
import KommunikationNetze.Chat.InputStream
import KommunikationNetze.Chat.Renaming
import KommunikationNetze.Library.Packing

/-! The lines of /list. As long as every entry has room on a line, they hold the entry of every
connected client once and the buffer is never overrun; a longer nickname overruns it. -/
namespace KommunikationNetze.Chat
open CLib Utils
variable [CMemory]

/-- What `ClientHandleListCommand` appends for a client. -/
def listText (world : World) (c : ClientRef) : CString :=
  literal "[" ++ world.nicknameText c ++ literal "] "

/-- The text of a line with these clients. -/
def listLine (world : World) (clients : List ClientRef) : CString :=
  Packing.line (listText world) clients

omit [CMemory] in
theorem listText_length (world : World) (c : ClientRef) :
    (listText world c).length = (world.nicknameText c).length + 3 := by
  have opening : (literal "[").length = 1 := rfl
  have closing : (literal "] ").length = 2 := rfl
  rw [listText, List.length_append, List.length_append, opening, closing]
  omega

section Lengths

/-- The flush at the start of an iteration for a client. -/
def listFlush (client : ClientRef) (state : World × CString) (name : CString) : World × CString :=
  let (world, currentLine) := state
  if (254 + 2 ^ 64 - currentLine.length) % 2 ^ 64 < name.length + 3 then
    (clientWriteLine world client currentLine, [])
  else (world, currentLine)

theorem listEntry_some (client : ClientRef) (state : World × CString) (key : CString) (c : ClientRef) :
    listEntry client state key (some c) =
      ((listFlush client state (state.1.nicknameText c)).1,
        (listFlush client state (state.1.nicknameText c)).2 ++ literal "[" ++
          state.1.nicknameText c ++ literal "] ") := rfl

/-- The lengths of `currentLine` in one iteration: where 254 is reduced by it, and after each
`strcat`. -/
def listEntryLengths (client : ClientRef) (state : World × CString) : Option ClientRef → List Nat
  | none => []
  | some c =>
    let name := state.1.nicknameText c
    let currentLine := (listFlush client state name).2
    [state.2.length, (currentLine ++ literal "[").length, (currentLine ++ literal "[" ++ name).length,
      (currentLine ++ literal "[" ++ name ++ literal "] ").length]

/-- An iteration that also records these lengths. -/
def listEntryRecorded (client : ClientRef) (state : List Nat × World × CString) (key : CString)
    (value : Option ClientRef) : List Nat × World × CString :=
  (state.1 ++ listEntryLengths client state.2 value, listEntry client state.2 key value)

/-- The lengths of `currentLine` in the whole loop of `ClientHandleListCommand`. -/
def listLengths (world : World) (client : ClientRef) : List Nat :=
  let (iter, clients) := dictionaryGetIterator world.clients
  (iteratorLoop (listEntryRecorded client) iter ([], { world with clients }, [])).1

end Lengths

/-- The loop has put these clients on lines and written those that were full. -/
structure Listing (world : World) (client : ClientRef) (lines : Packing.Lines ClientRef)
    (state : World × CString) : Prop where
  line : state.2 = listLine world lines.current
  calls : state.1.calls = world.calls ++
    lines.full.map fun clients => .writeLine client (listLine world clients) none
  nickname : ∀ c, (state.1.client c).nickname = (world.client c).nickname
  others : ∀ c, c ≠ client → state.1.client c = world.client c

namespace Listing
variable {world : World} {client : ClientRef} {lines : Packing.Lines ClientRef} {state : World × CString}

omit [CMemory] in
theorem start (world : World) (client : ClientRef) (clients : Dictionary ClientRef) :
    Listing world client Packing.start ({ world with clients }, []) where
  line := rfl
  calls := (List.append_nil _).symm
  nickname _ := rfl
  others _ _ := rfl

omit [CMemory] in
theorem nicknameText (listing : Listing world client lines state) (c : ClientRef) :
    state.1.nicknameText c = world.nicknameText c := by
  rw [World.nicknameText, World.nicknameText, listing.nickname]

/-- A written line is one more in the record. -/
theorem write (listing : Listing world client lines state) (currentLine : CString)
    (clients : List ClientRef) (now : currentLine = listLine world clients) :
    Listing world client { full := lines.full ++ [lines.current], current := clients }
      (clientWriteLine state.1 client state.2, currentLine) where
  line := now
  calls := by
    rw [List.map_append, List.map_singleton, ← List.append_assoc, ← listing.calls, ← listing.line]
    rfl
  nickname c := ((clientWriteLine_output state.1 client state.2).nickname c).trans (listing.nickname c)
  others c other := (World.setClient_other _ client _ other).trans (listing.others c other)

/-- While the line is not too long, the test of the flush does not wrap. -/
theorem flush (listing : Listing world client lines state)
    (fits : Packing.Fits (listText world) 254 lines) (c : ClientRef) :
    listFlush client state (state.1.nicknameText c) =
      if 254 - (listLine world lines.current).length < (listText world c).length then
        (clientWriteLine state.1 client state.2, [])
      else state := by
  obtain ⟨now, currentLine⟩ := state
  have line : currentLine = listLine world lines.current := listing.line
  have room : (listLine world lines.current).length ≤ 254 := fits.current
  have free : (254 + 2 ^ 64 - (listLine world lines.current).length) % 2 ^ 64 =
      254 - (listLine world lines.current).length := by omega
  simp only [listFlush, listing.nicknameText, line, free, listText_length]

/-- An iteration puts the entry of its client on the lines. -/
theorem step (listing : Listing world client lines state)
    (fits : Packing.Fits (listText world) 254 lines) (key : CString) (c : ClientRef) :
    Listing world client (Packing.put (listText world) 254 lines c)
      (listEntry client state key (some c)) := by
  have flushed := listing.flush fits c
  rw [listEntry_some, flushed, Packing.put, listing.nicknameText]
  change Listing world client (if 254 - (listLine world lines.current).length <
    (listText world c).length then _ else _) _
  split
  · apply listing.write
    rw [listLine, Packing.line_singleton]
    rfl
  · refine ⟨?_, listing.calls, listing.nickname, listing.others⟩
    rw [listLine, Packing.line_append, Packing.line_singleton, listText, listing.line, listLine]
    simp only [List.append_assoc]

end Listing

omit [CMemory] in
/-- The entry of the client has room on a line. -/
theorem listText_proper {world : World} (short : (world.nicknameText c).length ≤ 251) :
    Packing.Proper 254 (listText world c) := by
  rw [Packing.Proper, listText_length]
  omega

theorem listing_run {world : World} {client : ClientRef} (entries : List (CString × Option ClientRef))
    (short : ∀ c ∈ entries.filterMap Prod.snd, (world.nicknameText c).length ≤ 251)
    (listing : Listing world client lines state) (fits : Packing.Fits (listText world) 254 lines) :
    ∃ after, Packing.contents after = Packing.contents lines ++ entries.filterMap Prod.snd ∧
      Packing.Fits (listText world) 254 after ∧
      Listing world client after
        (entries.foldl (fun state entry => listEntry client state entry.1 entry.2) state) := by
  induction entries generalizing lines state with
  | nil => exact ⟨lines, (List.append_nil _).symm, fits, listing⟩
  | cons entry entries ih =>
    obtain ⟨key, value⟩ := entry
    cases value with
    | none => exact ih short listing fits
    | some c =>
      have visited : ((key, some c) :: entries).filterMap Prod.snd =
          c :: entries.filterMap Prod.snd := rfl
      rw [visited] at short ⊢
      obtain ⟨first, rest⟩ := List.forall_mem_cons.mp short
      obtain ⟨after, contents, fit, listed⟩ :=
        ih rest (listing.step fits key c) (fits.put (listText_proper first))
      refine ⟨after, ?_, fit, listed⟩
      rw [contents, Packing.contents_put, List.append_assoc, List.singleton_append]

/-- The handler writes one line for each line of a packing of the visited clients. -/
theorem clientHandleListCommand_lines {world : World} (head : HeadEntry world.clients)
    (short : ∀ c ∈ recipients world.clients, (world.nicknameText c).length ≤ 251)
    (client : ClientRef) (arg : Option CString) :
    ∃ lines : List (List ClientRef), lines.flatten = recipients world.clients ∧
      (∀ clients ∈ lines, Packing.Proper 254 (listLine world clients)) ∧
      (clientHandleListCommand world client arg).calls = world.calls ++
        lines.map (fun clients => .writeLine client (listLine world clients) none) ∧
      ∀ c, c ≠ client → (clientHandleListCommand world client arg).client c = world.client c := by
  have loop := DictionaryIterator.loop_entries (listEntry client) head
    ({ world with clients := (dictionaryGetIterator world.clients).2 }, [])
  obtain ⟨after, contents, fits, listing⟩ := listing_run (DictionaryIterator.entries world.clients)
    short (Listing.start world client (dictionaryGetIterator world.clients).2) Packing.Fits.start
  rw [← loop] at listing
  obtain ⟨all, proper⟩ := fits.close
  refine ⟨Packing.close (listText world) after, all.trans contents, proper, ?_⟩
  have handled : clientHandleListCommand world client arg =
      if 0 < (listLine world after.current).length then
        clientWriteLine (iteratorLoop (listEntry client) (iteratorFrom world.clients.headEntry)
          ({ world with clients := (dictionaryGetIterator world.clients).2 }, [])).1 client
          (listLine world after.current)
      else (iteratorLoop (listEntry client) (iteratorFrom world.clients.headEntry)
          ({ world with clients := (dictionaryGetIterator world.clients).2 }, [])).1 := by
    rw [← listing.line]
    rfl
  rw [handled]
  by_cases some : 0 < (listLine world after.current).length
  · have closed : Packing.close (listText world) after = after.full ++ [after.current] := if_pos some
    rw [if_pos some, closed]
    refine ⟨?_, fun c other => ?_⟩
    · rw [List.map_append, ← List.append_assoc, ← listing.calls]
      rfl
    · exact (World.setClient_other _ client _ other).trans (listing.others c other)
  · have closed : Packing.close (listText world) after = after.full := if_neg some
    rw [if_neg some, closed]
    exact ⟨listing.calls, listing.others⟩

section Recorded
variable {world : World} {client : ClientRef}

/-- The loop that records lengths, on the visited entries. -/
def recordedFold (client : ClientRef) (entries : List (CString × Option ClientRef))
    (state : List Nat × World × CString) : List Nat × World × CString :=
  entries.foldl (fun state entry => listEntryRecorded client state entry.1 entry.2) state

theorem listLengths_eq (head : HeadEntry world.clients) :
    listLengths world client = (recordedFold client (DictionaryIterator.entries world.clients)
      ([], { world with clients := (dictionaryGetIterator world.clients).2 }, [])).1 :=
  congrArg Prod.fst (DictionaryIterator.loop_entries (listEntryRecorded client) head _)

/-- What is recorded once stays in the record. -/
theorem recordedFold_keeps (entries : List (CString × Option ClientRef))
    (state : List Nat × World × CString) (mem : n ∈ state.1) :
    n ∈ (recordedFold client entries state).1 := by
  induction entries generalizing state with
  | nil => exact mem
  | cons entry entries ih => exact ih _ (List.mem_append_left _ mem)

/-- Behind the entry of a client the line is at least as long as the entry. -/
theorem recordedFold_long (entries : List (CString × Option ClientRef))
    (state : List Nat × World × CString)
    (nickname : ∀ c, (state.2.1.client c).nickname = (world.client c).nickname)
    (visited : c ∈ entries.filterMap Prod.snd) :
    ∃ n ∈ (recordedFold client entries state).1, (listText world c).length ≤ n := by
  induction entries generalizing state with
  | nil => cases visited
  | cons entry entries ih =>
    obtain ⟨key, value⟩ := entry
    have kept : ∀ d, ((listEntryRecorded client state key value).2.1.client d).nickname =
        (world.client d).nickname := fun d =>
      ((listEntry_output client state.2 key value).nickname d).trans (nickname d)
    cases value with
    | none => exact ih _ kept visited
    | some d =>
      have split : c ∈ d :: entries.filterMap Prod.snd := visited
      rcases List.mem_cons.mp split with rfl | later
      · have name : state.2.1.nicknameText c = world.nicknameText c := by
          rw [World.nicknameText, World.nicknameText, nickname]
        refine ⟨((listFlush client state.2 (world.nicknameText c)).2 ++ literal "[" ++
          world.nicknameText c ++ literal "] ").length,
          recordedFold_keeps entries (listEntryRecorded client state key (some c)) ?_, ?_⟩
        · refine List.mem_append_right _ ?_
          simp only [listEntryLengths, name]
          exact List.mem_of_mem_getLast? rfl
        · simp only [listText, List.length_append]
          omega
      · exact ih _ kept later

/-- While all entries have room, every recorded length fits the buffer. -/
theorem recordedFold_bounded (entries : List (CString × Option ClientRef))
    (state : List Nat × World × CString) (bounded : ∀ n ∈ state.1, n ≤ 254)
    (short : ∀ c ∈ entries.filterMap Prod.snd, (world.nicknameText c).length ≤ 251)
    (listing : Listing world client lines state.2) (fits : Packing.Fits (listText world) 254 lines) :
    ∀ n ∈ (recordedFold client entries state).1, n ≤ 254 := by
  induction entries generalizing lines state with
  | nil => exact bounded
  | cons entry entries ih =>
    obtain ⟨key, value⟩ := entry
    cases value with
    | none =>
      refine ih _ ?_ short listing fits
      intro n mem
      exact bounded n (by simpa only [listEntryRecorded, listEntryLengths, List.append_nil] using mem)
    | some c =>
      have visited : ((key, some c) :: entries).filterMap Prod.snd =
          c :: entries.filterMap Prod.snd := rfl
      rw [visited] at short
      obtain ⟨first, rest⟩ := List.forall_mem_cons.mp short
      have grown := fits.put (listText_proper first)
      have next := listing.step fits key c
      refine ih _ ?_ rest next grown
      intro n mem
      rcases List.mem_append.mp mem with earlier | now
      · exact bounded n earlier
      have before : state.2.2.length ≤ 254 := by
        rw [listing.line]
        exact fits.current
      have after : (listEntry client state.2 key (some c)).2.length ≤ 254 := by
        rw [next.line]
        exact grown.current
      rw [listEntry_some] at after
      simp only [List.length_append] at after
      simp only [listEntryLengths, List.mem_cons, List.not_mem_nil, or_false,
        List.length_append] at now
      omega

end Recorded

section Reachable
variable {world : World}

/-- No connected client has a nickname that is too long for a line. -/
def ShortNicknames (world : World) : Prop :=
  ∀ c nickname, world.Connected c → (world.client c).nickname = some nickname → nickname.length ≤ 251

omit [CMemory] in
theorem Registry.mem_recipients (registry : Registry world.Connected world) :
    c ∈ recipients world.clients ↔ world.Connected c := by
  rw [registry.ready.mem_recipients, registry.ready.registered]
  constructor
  · rintro ⟨key, found⟩
    exact (registry.owner found).1
  · intro connected
    obtain ⟨nickname, _, _, held⟩ := registry.held c connected
    exact ⟨nickname, held⟩

omit [CMemory] in
theorem Registry.shortNicknames (registry : Registry world.Connected world) :
    ShortNicknames world ↔ ∀ c ∈ recipients world.clients, (world.nicknameText c).length ≤ 251 := by
  constructor
  · intro short c mem
    have connected := registry.mem_recipients.mp mem
    obtain ⟨nickname, set, _, _⟩ := registry.held c connected
    rw [World.nicknameText, set]
    exact short c nickname connected set
  · intro short c nickname connected set
    have bound := short c (registry.mem_recipients.mpr connected)
    rw [World.nicknameText, set] at bound
    exact bound

theorem Registry.listLengths_bounded (registry : Registry world.Connected world) (client : ClientRef) :
    (∀ n ∈ listLengths world client, n ≤ 254) ↔ ShortNicknames world := by
  rw [registry.shortNicknames, listLengths_eq registry.head]
  constructor
  · intro bounded c visited
    obtain ⟨n, mem, long⟩ : ∃ n ∈ (recordedFold client (DictionaryIterator.entries world.clients)
        ([], { world with clients := (dictionaryGetIterator world.clients).2 }, [])).1,
        (listText world c).length ≤ n := recordedFold_long _ _ (fun _ => rfl) visited
    have bound := bounded n mem
    rw [listText_length] at long
    omega
  · intro short
    exact recordedFold_bounded (DictionaryIterator.entries world.clients) _ (fun n mem => by cases mem)
      short (Listing.start world client _) Packing.Fits.start

/-- Wherever a line is handled the registry is that of a reachable state. /list keeps within
its line buffer if and only if no nickname is longer than a line has room for. -/
theorem list_line_bounded (reachable : Reachable reached) (same : SameRegistration reached world)
    (client : ClientRef) : (∀ n ∈ listLengths world client, n ≤ 254) ↔ ShortNicknames world :=
  (same.registry (reachable_registry reachable)).listLengths_bounded client

/-- With such nicknames /list writes the entry of every connected client once, in the order
of the iterator and undivided, on lines that are neither empty nor too long. -/
theorem list_complete (reachable : Reachable reached) (same : SameRegistration reached world)
    (short : ShortNicknames world) (client : ClientRef) (arg : Option CString) :
    (recipients world.clients).Nodup ∧ (∀ c, c ∈ recipients world.clients ↔ world.Connected c) ∧
    ∃ lines : List (List ClientRef), lines.flatten = recipients world.clients ∧
      (clientHandleListCommand world client arg).calls = world.calls ++
        lines.map (fun clients => .writeLine client (listLine world clients) none) ∧
      (lines.map (listLine world)).flatten = (recipients world.clients).flatMap (listText world) ∧
      (∀ clients ∈ lines, 1 ≤ (listLine world clients).length ∧ (listLine world clients).length ≤ 254) ∧
      ∀ c, c ≠ client → (clientHandleListCommand world client arg).client c = world.client c := by
  have registry := same.registry (reachable_registry reachable)
  obtain ⟨lines, all, proper, calls, others⟩ :=
    clientHandleListCommand_lines registry.head (registry.shortNicknames.mp short) client arg
  refine ⟨registry.ready.recipients_nodup, fun c => registry.mem_recipients, lines, all, calls, ?_,
    proper, others⟩
  rw [← all, List.flatten_eq_flatMap, List.flatten_eq_flatMap, List.flatMap_map, List.flatMap_assoc]
  rfl

end Reachable

section OneClient

/-- A nickname that nobody else holds is given. -/
theorem clientHandleLine_nick {world : World} (registry : Registry world.Connected world)
    (connected : world.Connected client) (valid : ValidNickname name)
    (free : ¬HeldByOther world client name) :
    ((clientHandleLine world client (literal "/nick " ++ name)).client client).nickname = some name := by
  have trimmed := strtrim_valid valid
  have set := (registry.recorded (.handleLine client (literal "/nick " ++ name))).allOrNothing
    (fun _ _ => .rfl) (.inl connected) name
  rw [(clientHandleLine_renames world client name).nickname]
  cases result : (clientSetNickname (world.record (.handleLine client (literal "/nick " ++ name)))
    client name).1 with
  | true =>
    have given := (set.all result).given
    rwa [trimmed] at given
  | false =>
    rcases set.refused.mp result with empty | held
    · exact absurd (trimmed.symm.trans empty) valid.1
    · rw [trimmed] at held
      exact absurd held free

omit [CMemory] in
/-- The first client gets the first temporary nickname. -/
theorem oneClient_nickname : (oneClient.client 0).nickname = some (temporaryNickname 1) := by
  let _ := CMemory.zeroed
  obtain ⟨i, positive, _, earlier, renames⟩ :=
    nameClient_first Registry.initial (by decide : serverCreate.connectedClients.length < 2 ^ 32 - 2) 5
  have first : i = 1 := by
    by_contra later
    exact earlier 1 (Nat.le_refl 1) (by omega) (by decide +kernel)
  rw [first] at renames
  exact ((serverSendChannelMessage_output (nameClient serverCreate 5) _).nickname 0).trans renames.given

omit [CMemory] in
theorem oneClient_reachable : @Reachable .zeroed oneClient := ⟨[.accepted 5], oneClient_spec.1⟩

omit [CMemory] in
theorem oneClient_shortNicknames : ShortNicknames oneClient := by
  intro c nickname connected set
  obtain rfl := oneClient_connected.mp connected
  obtain rfl := Option.some.inj (oneClient_nickname.symm.trans set)
  decide +kernel

omit [CMemory] in
theorem list_line_bounded_oneClient :
    oneClient.Connected 0 ∧ ∀ n ∈ @listLengths .zeroed oneClient 0, n ≤ 254 := by
  refine ⟨oneClient_connected.mpr rfl, ?_⟩
  exact (@list_line_bounded .zeroed _ _ oneClient_reachable (.refl _) 0).mpr oneClient_shortNicknames

omit [CMemory] in
theorem list_complete_oneClient : ∃ lines : List (List ClientRef),
    lines.flatten = recipients oneClient.clients ∧
      (lines.map (listLine oneClient)).flatten =
        (recipients oneClient.clients).flatMap (listText oneClient) := by
  obtain ⟨_, _, lines, all, _, texts, _⟩ :=
    @list_complete .zeroed _ _ oneClient_reachable (.refl _) oneClient_shortNicknames 0 none
  exact ⟨lines, all, texts⟩

/-- A nickname of 252 bytes. -/
def longNickname : CString := (List.replicate 252 (literal "a")).flatten

/-- What the client sends to take it. -/
def longNicknameBytes : List UInt8 := (literal "/nick " ++ longNickname).bytes ++ [10]

omit [CMemory] in
/-- A client can take a nickname whose entry does not fit a line. -/
theorem list_line_overrun : ∃ world, @Reachable .zeroed world ∧ world.Connected 0 ∧
    ¬∀ n ∈ @listLengths .zeroed world 0, n ≤ 254 := by
  let _ := CMemory.zeroed
  obtain ⟨reachable, connected⟩ := oneClient_read longNicknameBytes (by decide) (by decide +kernel)
  have still := (connected 0).mpr rfl
  refine ⟨_, reachable, still, fun bounded => ?_⟩
  have short := ((reachable_registry reachable).listLengths_bounded 0).mp bounded 0 longNickname still ?_
  · exact absurd short (by decide +kernel)
  have newline : strchr (receive (makeRoom .empty) longNicknameBytes).memory 10 = some 258 := by
    decide +kernel
  obtain ⟨world, arrived, handled⟩ := oneClient_line (literal "/nick " ++ longNickname)
    (by decide) newline (by decide +kernel)
  refine (handled.nickname 0).trans ?_
  refine clientHandleLine_nick (arrived.registry (reachable_registry oneClient_reachable))
    ((arrived.connected 0).mpr (oneClient_connected.mpr rfl)) ⟨by decide, by decide +kernel⟩ ?_
  rintro ⟨other, its, different, _⟩
  exact different (oneClient_connected.mp ((arrived.connected other).mp its))

end OneClient
end KommunikationNetze.Chat
