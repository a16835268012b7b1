import KommunikationNetze.Chat.InputStream
import KommunikationNetze.Chat.Registry
import KommunikationNetze.Library.Splitting

/-! Whether the handled lines depend on how the stream was cut. One `ClientDoRead`
handles at most one line and finds no newline behind a zero byte, so every complete
line is handled at once exactly if no `recv` returns two newlines and no zero byte
stands before a newline. -/
namespace KommunikationNetze.Chat
open CLib Splitting

/-- The stream `recv` has returned for the client. -/
def stream (c : ClientRef) (events : List Event) : List UInt8 := (reads c events).flatMap (·.getD [])

/-- At most one newline in a chunk and none behind a zero byte of the stream. -/
structure OneLineAtATime (c : ClientRef) (events : List Event) : Prop where
  chunks : ∀ result ∈ reads c events, (result.getD []).count 10 ≤ 1
  clean : ∀ line ∈ complete 10 (stream c events), 0 ∉ line

@[simp] theorem stream_snoc (c : ClientRef) (events : List Event) (event : Event) :
    stream c (events ++ [event]) = stream c events ++ (event.read c).toList.flatMap (·.getD []) := by
  rw [stream, reads_snoc, List.flatMap_append]
  rfl

theorem OneLineAtATime.earlier (single : OneLineAtATime c (events ++ [event])) :
    OneLineAtATime c events where
  chunks result mem := single.chunks result (by simp [mem])
  clean line mem := by
    obtain ⟨added, grown⟩ := complete_append 10 (stream c events) ((event.read c).toList.flatMap (·.getD []))
    refine single.clean line ?_
    rw [stream_snoc, grown]
    exact List.mem_append_left _ mem

theorem OneLineAtATime.of_prefix (single : OneLineAtATime c events) (earlier : prior <+: events) :
    OneLineAtATime c prior := by
  obtain ⟨later, rfl⟩ := earlier
  induction later using List.reverseRecOn with
  | nil => simpa using single
  | append_singleton later event ih =>
    rw [← List.append_assoc] at single
    exact ih single.earlier

/-- The handled lines are the complete ones. What the buffer holds is the rest of the
stream, unless that has a zero byte and no newline can follow. -/
structure Cut (input : Input) (stream bytes rest : List UInt8) : Prop where
  holds : Holds input.buffer bytes
  lines : stream.splitOn 10 = input.handled.map CString.bytes ++ [rest]
  unhandled : 10 ∉ bytes
  unended : 10 ∉ rest
  same : bytes = rest ∨ 0 ∈ rest

theorem kept_cases (rest : List UInt8) : kept rest = rest ∨ (kept rest = [] ∧ 0 ∈ rest) := by
  cases rest with
  | nil => exact .inl rfl
  | cons b rest =>
    by_cases zero : b = 0
    · exact .inr ⟨if_pos zero, zero ▸ List.mem_cons_self⟩
    · exact .inl (if_neg zero)

section Received
variable {input : Input} {buffer : Buffer} {stream bytes rest : List UInt8}

/-- A chunk without a newline is added to what the buffer holds. -/
theorem Cut.receive_open {chunk : List UInt8} (cut : Cut input stream bytes rest)
    (received : Holds buffer (bytes ++ chunk)) (inside : (bytes ++ chunk).length < buffer.length)
    (newline : 10 ∉ chunk) (total : List UInt8) :
    Cut { received := total, handled := input.handled ++ (takeLine buffer).1.toList
          buffer := (takeLine buffer).2 }
      (stream ++ chunk) (bytes ++ chunk) (rest ++ chunk) := by
  obtain ⟨_, lines, unhandled, unended, same⟩ := cut
  have absent : 10 ∉ bytes ++ chunk := by simp [unhandled, newline]
  have taken := takeLine_of_absent received inside absent
  have open_ : 10 ∉ rest ++ chunk := by simp [unended, newline]
  refine ⟨?_, ?_, absent, open_, ?_⟩
  · rw [taken]
    exact received
  · rw [splitOn_append lines, taken, List.splitOn_eq_singleton open_, Option.toList_none, List.append_nil]
  · rcases same with rfl | zero
    · exact .inl rfl
    · exact .inr (List.mem_append_left _ zero)

/-- A chunk with one newline completes the line that the buffer holds. -/
theorem Cut.receive_line {before after : List UInt8} (cut : Cut input stream bytes rest)
    (received : Holds buffer (bytes ++ (before ++ 10 :: after))) (first : 10 ∉ before) (last : 10 ∉ after)
    (clean : ∀ line ∈ complete 10 (stream ++ (before ++ 10 :: after)), 0 ∉ line) (total : List UInt8) :
    Cut { received := total, handled := input.handled ++ (takeLine buffer).1.toList
          buffer := (takeLine buffer).2 }
      (stream ++ (before ++ 10 :: after)) (kept after) after := by
  obtain ⟨_, lines, _, unended, same⟩ := cut
  have line : 10 ∉ rest ++ before := by simp [unended, first]
  have ended : (rest ++ (before ++ 10 :: after)).splitOn 10 = [rest ++ before] ++ [after] := by
    rw [← List.append_assoc, List.splitOn_append_cons_self_of_not_mem line,
      List.splitOn_eq_singleton last]
    rfl
  have split : (stream ++ (before ++ 10 :: after)).splitOn 10 =
      (input.handled.map CString.bytes ++ [rest ++ before]) ++ [after] := by
    rw [splitOn_append lines, ended, List.append_assoc]
  have nonzero : 0 ∉ rest ++ before := by
    rw [complete_of_split split] at clean
    exact clean _ (by simp)
  have whole : bytes = rest :=
    same.resolve_right fun zero => nonzero (List.mem_append_left _ zero)
  have characters : (stringAt (rest ++ before)).bytes = rest ++ before :=
    bytes_stringAt_of_nonzero fun b mem zero => nonzero (zero ▸ mem)
  rw [whole, ← List.append_assoc, ← characters] at received
  obtain ⟨handled, left⟩ := takeLine_of_line received (by rwa [characters])
  refine ⟨left, ?_, ?_, last, ?_⟩
  · rw [split, handled, Option.toList_some, List.map_append, List.map_singleton, characters]
  · rcases kept_cases after with same | ⟨none, _⟩
    · rwa [same]
    · simp [none]
  · exact (kept_cases after).imp_right And.right

end Received

section Read
variable [CMemory]

theorem read_cut {input : Input} {stream : List UInt8} {result : Option (List UInt8)} (cut : Cut input stream bytes rest)
    (room : InRoom input.buffer result) (single : (result.getD []).count 10 ≤ 1)
    (clean : ∀ line ∈ complete 10 (stream ++ result.getD []), 0 ∉ line) :
    ∃ bytes rest, Cut (input.read result) (stream ++ result.getD []) bytes rest := by
  obtain ⟨grown, space, small⟩ := makeRoom_spec cut.holds room.below
  have cutGrown : Cut { input with buffer := makeRoom input.buffer } stream bytes rest :=
    ⟨grown, cut.lines, cut.unhandled, cut.unended, cut.same⟩
  cases result with
  | none =>
    rw [Option.getD_none, List.append_nil]
    exact ⟨bytes, rest, cutGrown⟩
  | some chunk =>
    cases chunk with
    | nil =>
      rw [Option.getD_some, List.append_nil]
      exact ⟨bytes, rest, cutGrown⟩
    | cons b chunk =>
      obtain ⟨received, inside⟩ := receive_spec grown space small room.fits
      rw [Option.getD_some] at single clean received inside ⊢
      have sameLength : (receive (makeRoom input.buffer) (b :: chunk)).length =
          (makeRoom input.buffer).length := rfl
      rw [read_bytes, Input.receive]
      generalize b :: chunk = chunk at *
      by_cases newline : 10 ∈ chunk
      · obtain ⟨before, after, rfl, first⟩ := List.eq_append_cons_of_mem newline
        have last : 10 ∉ after := by
          rw [List.count_append, List.count_cons_self] at single
          exact List.count_eq_zero.mp (by omega)
        exact ⟨_, _, cutGrown.receive_line received first last clean _⟩
      · exact ⟨_, _, cutGrown.receive_open received (sameLength ▸ inside) newline _⟩

end Read

section Run
variable [CMemory] {c : ClientRef}

/-- A step in which the client's buffer is not too long to be doubled. -/
def RoomStep (c : ClientRef) (world : World) (event : Event) (after : World) : Prop :=
  ServerStep world event after ∧ ∀ result, event.read c = some result →
    (world.client c).inBuffer.length < 2 ^ 31

/-- Whenever `ClientDoRead` has returned, the handled lines are the complete lines of
the stream so far. -/
def HandledAtOnce (c : ClientRef) (events : List Event) : Prop :=
  ∀ earlier world, earlier <+: events → Transition.Run (RoomStep c) serverCreate earlier world →
    (handledLines c world.calls).map CString.bytes = complete 10 (stream c earlier)

theorem cut_run (run : Transition.Run (RoomStep c) serverCreate events world)
    (single : OneLineAtATime c events) :
    ServerRun events world ∧ ∃ bytes rest, Cut (world.input c) (stream c events) bytes rest := by
  induction run with
  | start =>
    exact ⟨.start, [], [], .empty, rfl, List.not_mem_nil, List.not_mem_nil, .inl rfl⟩
  | @snoc events world event after _ step ih =>
    obtain ⟨⟨admissible, rfl⟩, below⟩ := step
    obtain ⟨run, bytes, rest, cut⟩ := ih single.earlier
    refine ⟨.snoc run ⟨admissible, rfl⟩, ?_⟩
    rw [step_input run event, stream_snoc]
    cases read : event.read c with
    | none => exact ⟨bytes, rest, by simpa using cut⟩
    | some result =>
      have chunk : (some result).toList.flatMap (·.getD []) = result.getD [] := by simp
      have lines := single.clean
      rw [stream_snoc, read, chunk] at lines
      rw [chunk]
      exact read_cut cut (admissible.inRoom read (below result read))
        (single.chunks result (by simp [read])) lines

theorem handled_of_single (run : Transition.Run (RoomStep c) serverCreate events world)
    (single : OneLineAtATime c events) :
    (handledLines c world.calls).map CString.bytes = complete 10 (stream c events) := by
  obtain ⟨_, bytes, rest, cut⟩ := cut_run run single
  exact (complete_of_split cut.lines).symm

theorem handledAtOnce_of_single (single : OneLineAtATime c events) : HandledAtOnce c events :=
  fun _ _ earlier run => handled_of_single run (single.of_prefix earlier)

theorem RoomStep.serverRun (run : Transition.Run (RoomStep c) serverCreate events world) :
    ServerRun events world := by
  induction run with
  | start => exact .start
  | snoc _ step ih => exact .snoc ih step.1

/-- One `ClientDoRead` handles at most one line. -/
theorem length_handled_read (input : Input) (result : Option (List UInt8)) :
    (input.read result).handled.length ≤ input.handled.length + 1 := by
  cases result with
  | none => exact Nat.le_succ _
  | some chunk =>
    cases chunk with
    | nil => exact Nat.le_succ _
    | cons b chunk =>
      rw [read_bytes, Input.receive, List.length_append]
      exact Nat.add_le_add_left (Option.length_toList_le) _

theorem single_of_handled (run : Transition.Run (RoomStep c) serverCreate events world)
    (handled : HandledAtOnce c events) : OneLineAtATime c events := by
  induction run with
  | start => exact ⟨by simp [reads], by simp [stream, reads, complete]⟩
  | @snoc events world event after before step ih =>
    have earlier : HandledAtOnce c events := fun prior world less run =>
      handled prior world (less.trans (List.prefix_append _ _)) run
    obtain ⟨chunks, _⟩ := ih earlier
    have old := earlier events world List.prefix_rfl before
    have new := handled _ after List.prefix_rfl (.snoc before step)
    obtain ⟨⟨admissible, rfl⟩, below⟩ := step
    have input := step_input (c := c) (RoomStep.serverRun before) event
    refine ⟨?_, ?_⟩
    · intro result mem
      rw [reads_snoc, List.mem_append, Option.mem_toList] at mem
      rcases mem with mem | read
      · exact chunks result mem
      · rw [read] at input
        have one := length_handled_read (world.input c) result
        have same : ((world.input c).read result).handled =
            handledLines c (handleEvent world event).calls := (congrArg Input.handled input).symm
        have newLength := congrArg List.length new
        have oldLength := congrArg List.length old
        rw [List.length_map, length_complete] at newLength oldLength
        rw [stream_snoc, read, List.count_append] at newLength
        rw [same, newLength] at one
        have own : (world.input c).handled.length = (stream c events).count 10 := oldLength
        rw [own] at one
        simp only [Option.toList_some, List.flatMap_cons, List.flatMap_nil, List.append_nil] at one
        omega
    · rw [← new]
      intro line mem zero
      obtain ⟨characters, _, rfl⟩ := List.mem_map.mp mem
      exact bytes_ne_zero characters 0 zero rfl

/-- Two ways of cutting a stream give the same lines, namely the complete ones and each
as soon as it is complete, exactly if both bring one line at a time. -/
theorem line_framing (first : Transition.Run (RoomStep c) serverCreate events world)
    (second : Transition.Run (RoomStep d) serverCreate others after)
    (same : stream c events = stream d others) :
    (HandledAtOnce c events ∧ HandledAtOnce d others ∧
        handledLines c world.calls = handledLines d after.calls ∧
        (handledLines c world.calls).map CString.bytes = complete 10 (stream c events)) ↔
      OneLineAtATime c events ∧ OneLineAtATime d others := by
  constructor
  · rintro ⟨left, right, _⟩
    exact ⟨single_of_handled first left, single_of_handled second right⟩
  · rintro ⟨left, right⟩
    have leftLines := handled_of_single first left
    have rightLines := handled_of_single second right
    refine ⟨handledAtOnce_of_single left, handledAtOnce_of_single right, ?_, leftLines⟩
    refine List.map_injective_iff.mpr (fun _ _ => bytes_injective) ?_
    rw [leftLines, rightLines, same]

/-- Reading one more chunk. -/
theorem read_run (run : Transition.Run (RoomStep c) serverCreate events world)
    (connected : world.Connected c) (room : InRoom (world.input c).buffer (some (b :: chunk))) :
    Transition.Run (RoomStep c) serverCreate (events ++ [.readable c (some (b :: chunk))])
        (clientDoRead world c (some (b :: chunk))) ∧
      (clientDoRead world c (some (b :: chunk))).Connected c ∧
      (clientDoRead world c (some (b :: chunk))).input c =
        (world.input c).read (some (b :: chunk)) := by
  refine ⟨.snoc run ⟨⟨⟨connected, room.fits⟩, rfl⟩, fun _ _ => room.below⟩, ?_, ?_⟩
  · exact (clientReceived_connected _ c _ c).mpr
      (((SameRegistration.setInBuffer world c _).connected c).mpr connected)
  · have input := step_input (c := c) (RoomStep.serverRun run) (.readable c (some (b :: chunk)))
    rw [Event.read, if_pos rfl] at input
    exact input

end Run

theorem oneClient_run : Transition.Run (@RoomStep .zeroed 0) serverCreate [.accepted 5] oneClient := by
  let _ := CMemory.zeroed
  have room : serverCreate.connectedClients.length < 2 ^ 32 - 2 := by decide
  exact .single ⟨⟨room, rfl⟩, fun _ read => by cases read⟩

/-- A line at once and in two pieces. -/
theorem line_framing_single :
    handledLines 0 (@clientDoRead .zeroed oneClient 0 (some [97, 10])).calls =
        handledLines 0
          (@clientDoRead .zeroed (@clientDoRead .zeroed oneClient 0 (some [97])) 0 (some [10])).calls ∧
      (handledLines 0 (@clientDoRead .zeroed oneClient 0 (some [97, 10])).calls).map CString.bytes =
        [[97]] := by
  let _ := CMemory.zeroed
  have start := oneClient_spec.2.2
  have whole : InRoom (oneClient.input 0).buffer (some [97, 10]) := by
    rw [start]
    exact ⟨by decide, by decide⟩
  have first : InRoom (oneClient.input 0).buffer (some [97]) := by
    rw [start]
    exact ⟨by decide, by decide⟩
  obtain ⟨run, _⟩ := read_run oneClient_run oneClient_spec.2.1 whole
  obtain ⟨prior, connected, input⟩ := read_run oneClient_run oneClient_spec.2.1 first
  have second : InRoom ((clientDoRead oneClient 0 (some [97])).input 0).buffer (some [10]) := by
    rw [input, start]
    exact ⟨by decide +kernel, by decide +kernel⟩
  obtain ⟨last, _⟩ := read_run prior connected second
  have single : OneLineAtATime 0 [.accepted 5, .readable 0 (some [97, 10])] := ⟨by decide, by decide⟩
  have pieces : OneLineAtATime 0 [.accepted 5, .readable 0 (some [97]), .readable 0 (some [10])] :=
    ⟨by decide, by decide⟩
  exact ((line_framing run last rfl).mpr ⟨single, pieces⟩).2.2

/-- The same stream at once and line by line: the second line is left in the buffer. -/
theorem line_framing_two_lines : ∃ events others world after,
    Transition.Run (@RoomStep .zeroed 0) serverCreate events world ∧
      Transition.Run (@RoomStep .zeroed 0) serverCreate others after ∧
      stream 0 events = [97, 10, 98, 10] ∧ stream 0 others = [97, 10, 98, 10] ∧
      (handledLines 0 world.calls).map CString.bytes = [[97]] ∧
      (handledLines 0 after.calls).map CString.bytes = [[97], [98]] := by
  let _ := CMemory.zeroed
  have start := oneClient_spec.2.2
  have both : InRoom (oneClient.input 0).buffer (some [97, 10, 98, 10]) := by
    rw [start]
    exact ⟨by decide, by decide⟩
  have one : InRoom (oneClient.input 0).buffer (some [97, 10]) := by
    rw [start]
    exact ⟨by decide, by decide⟩
  obtain ⟨run, _, input⟩ := read_run oneClient_run oneClient_spec.2.1 both
  obtain ⟨prior, connected, inputPrior⟩ := read_run oneClient_run oneClient_spec.2.1 one
  have other : InRoom ((clientDoRead oneClient 0 (some [97, 10])).input 0).buffer (some [98, 10]) := by
    rw [inputPrior, start]
    exact ⟨by decide +kernel, by decide +kernel⟩
  obtain ⟨last, _, inputLast⟩ := read_run prior connected other
  refine ⟨_, _, _, _, run, last, by decide, by decide, ?_, ?_⟩
  · have handled := congrArg Input.handled input
    rw [start] at handled
    exact (congrArg (List.map CString.bytes) handled).trans (by decide +kernel)
  · have handled := congrArg Input.handled inputLast
    rw [inputPrior, start] at handled
    exact (congrArg (List.map CString.bytes) handled).trans (by decide +kernel)

end KommunikationNetze.Chat
