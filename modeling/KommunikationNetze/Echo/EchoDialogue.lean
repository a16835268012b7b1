import KommunikationNetze.Echo.DialogueSteps

/-! The lines of a dialogue come back in order. The client either gets its whole line, or it
waits for what a `send` of the server has left. -/
namespace KommunikationNetze.Echo
open CLib Transition

section Runs
variable [CMemory] {lines : List EchoLine} {s t : Dialogue} {event : DialogueEvent}

theorem AcceptsAll.leavesLess {client : EchoClient} {event : EchoEvent} (all : AcceptsAll client event) :
    LeavesLess client event := by
  intro sendSize accepts
  rw [all sendSize accepts, Nat.sub_self]
  exact Nat.zero_le _

/-- The next byte arrives, and `send` accepts everything. -/
theorem DialogueInv.arrives (inv : DialogueInv lines s) (serves : s.serving = true) (some : s.requests ≠ []) :
    ∃ event t, UndisturbedStep AcceptsAll s event t := by
  obtain ⟨formed, _, _, _, _, _, state⟩ := inv
  obtain ⟨byte, rest, requests⟩ := List.exists_cons_of_ne_nil some
  have nonzero : byte ≠ 0 := fun zero => state.pending.2 (requests ▸ zero ▸ List.mem_cons_self)
  let event : EchoEvent :=
    { recvs := [.some [byte]], send := .some (strlen (readClientToBuffer s.server [.some [byte]]).1.buffer) }
  have all : AcceptsAll s.server event := by
    intro sendSize accepts
    simp only [accepted, event] at accepts
    split at accepts
    · exact (Option.some.inj accepts).symm
    · cases accepts
  have within : ∀ sendSize, accepted s.server event = .some sendSize →
      sendSize ≤ strlen (readClientToBuffer s.server event.recvs).1.buffer :=
    fun sendSize accepts => (all sendSize accepts).le
  obtain ⟨_, _, bytes, sent, _⟩ := process_piece formed
    (show 0 < [(⟨byte, nonzero⟩ : CChar)].length from Nat.one_pos) (show 1 < 254 by decide)
    (show event.recvs = [.some [byte]] from rfl) rfl within all.leavesLess
  have calls : RecvCalls (s.phase = .exited) s.requests event.recvs rest := by
    rw [requests]
    exact .last (show 0 < [byte].length from Nat.one_pos) (show 1 ≤ 255 by decide) (show 1 ≠ 254 by decide)
  exact ⟨.process event, _, .process serves calls within sent, (fun same => by cases same), rfl, all⟩

/-- Everything was printed, and the client is gone. -/
structure Finished (lines : List EchoLine) (s : Dialogue) : Prop where
  exited : s.phase = .exited
  closed : s.serving = false
  printed : s.printed = lines.map EchoLine.text

/-- The client waits, and the rest of its line is in the buffer of the server. -/
structure LeftBehind (s : Dialogue) : Prop where
  waits : ∃ loop, s.phase = .receive loop
  requests : s.requests = []
  replies : s.replies = []
  rest : writes s.server = true

omit [CMemory] in
theorem DialogueInv.waits (inv : DialogueInv lines s) (phase : s.phase = .receive loop)
    (requests : s.requests = []) (replies : s.replies = []) : LeftBehind s := by
  obtain ⟨_, _, _, _, _, _, state⟩ := inv
  rw [phase] at state
  obtain ⟨line, _, bytes, _, _, _, unanswered, part⟩ := state
  have rest : s.underWay = s.server.text.bytes := by
    rw [Dialogue.underWay, requests, replies, List.nil_append, List.append_nil]
  rw [rest] at part
  exact ⟨⟨loop, phase⟩, requests, replies,
    (writes_iff s.server).mpr (rest_newline part fun whole => unanswered ((answered_iff part).mpr whole))⟩

omit [CMemory] in
/-- The buffer of the client has room for another byte. -/
theorem DialogueInv.room (inv : DialogueInv lines s) (phase : s.phase = .receive loop) : loop.i < 254 := by
  obtain ⟨_, _, _, _, _, _, state⟩ := inv
  rw [phase] at state
  obtain ⟨line, _, bytes, _, _, filled, _, part⟩ := state
  have length := congrArg List.length part
  have short := line.length_text
  rw [List.length_append, length_bytes] at length
  rw [filled.i]
  omega

/-- Only a rest of a line that is left in the buffer can keep the two sides from going on. -/
theorem DialogueInv.next (inv : DialogueInv lines s) :
    Finished lines s ∨ LeftBehind s ∨ ∃ event t, UndisturbedStep AcceptsAll s event t := by
  cases phase : s.phase with
  | readline =>
    rcases inv.input phase with ⟨none, _⟩ | ⟨input, some, _⟩
    · exact .inr (.inr ⟨_, _, .endOfInput phase none, rfl⟩)
    · exact .inr (.inr ⟨_, _, .sendInput phase some, rfl⟩)
  | newline => exact .inr (.inr ⟨_, _, .sendNewline phase, rfl⟩)
  | receive loop =>
    have serves := inv.serving (by rw [phase]; exact fun same => by cases same)
    by_cases requests : s.requests = []
    · by_cases replies : s.replies = []
      · exact .inr (.inl (inv.waits phase requests replies))
      · obtain ⟨byte, rest, some⟩ := List.exists_cons_of_ne_nil replies
        have fits := inv.room phase
        exact .inr (.inr ⟨_, _, .recv phase (show s.replies = [byte] ++ rest from some) Nat.one_pos
          (Nat.sub_pos_of_lt fits), rfl⟩)
    · exact .inr (.inr (inv.arrives serves requests))
  | exited =>
    cases serving : s.serving with
    | true => exact .inr (.inr ⟨_, _, .hangUp phase serving, trivial⟩)
    | false =>
      obtain ⟨_, _, done, left, all, printed, state⟩ := inv
      rw [phase] at state
      rw [state.1, List.append_nil] at all
      exact .inl ⟨phase, serving, all ▸ printed⟩

theorem DialogueInv.stopped (inv : DialogueInv lines s)
    (last : ∀ event t, ¬UndisturbedStep AcceptsAll s event t) : Finished lines s ∨ LeftBehind s := by
  rcases inv.next with finished | behind | ⟨event, t, step⟩
  · exact .inl finished
  · exact .inr behind
  · exact absurd step (last event t)

theorem UndisturbedStep.accepts (step : UndisturbedStep AcceptsAll s event t) :
    UndisturbedStep LeavesLess s event t := by
  refine ⟨step.1, ?_⟩
  have undisturbed := step.2
  cases event with
  | client | hangUp => exact undisturbed
  | process => exact ⟨undisturbed.1, undisturbed.2.1, undisturbed.2.2.leavesLess⟩

omit [CMemory] in
theorem DialogueInv.clean (inv : DialogueInv lines s) (finished : Finished lines s) : s.server.leftOver.Clean := by
  obtain ⟨formed, _, _, left, _, _, state⟩ := inv
  rw [finished.exited] at state
  obtain ⟨before, _⟩ := List.append_eq_nil_iff.mp state.2
  apply formed.clean
  exact List.map_eq_nil_iff.mp (List.append_eq_nil_iff.mp before).2

theorem Finished.last (finished : Finished lines s) : ¬DialogueStep s event t := by
  obtain ⟨exited, closed, _⟩ := finished
  intro step
  cases step with
  | endOfInput phase | sendInput phase | sendNewline phase | recv phase | recvClosed phase | recvFails phase =>
    cases exited.symm.trans phase
  | sendFails phase => rcases phase with phase | phase <;> cases exited.symm.trans phase
  | process serving | hangUp _ serving => cases closed.symm.trans serving

theorem LeftBehind.last (behind : LeftBehind s) (inv : DialogueInv lines s) :
    ¬UndisturbedStep LeavesLess s event t := by
  obtain ⟨⟨loop, waits⟩, requests, replies, _⟩ := behind
  rintro ⟨step, undisturbed⟩
  cases step with
  | endOfInput phase | sendInput phase | sendNewline phase | hangUp phase => cases waits.symm.trans phase
  | sendFails | recvFails => cases undisturbed
  | recv _ some positive =>
    rw [replies] at some
    rw [(List.append_eq_nil_iff.mp some.symm).1] at positive
    cases positive
  | recvClosed _ _ closed =>
    have serves := inv.serving (by rw [waits]; exact fun same => by cases same)
    cases closed.symm.trans serves
  | process _ calls =>
    rw [requests] at calls
    rcases calls.single undisturbed.1 (Nat.zero_le _) with ⟨exited, _⟩ | ⟨piece, _, none, positive, _⟩
    · cases waits.symm.trans exited
    · rw [(List.append_eq_nil_iff.mp none.symm).1] at positive
      cases positive

theorem DialogueInv.run {left : LeftOver} (clean : left.Clean)
    (run : Run (UndisturbedStep LeavesLess) (dialogue left lines) events s) :
    DialogueInv lines s ∧ events.length ≤ 4 * (typed lines).length + 2 := by
  have start := inv_dialogue clean lines
  have bound : events.length + s.work ≤ (dialogue left lines).work :=
    run.length_le (P := DialogueInv lines) start (fun inv step => (inv.step step).1)
      fun inv step => (inv.step step).2
  rw [work_dialogue clean] at bound
  exact ⟨run.invariant start fun inv step => (inv.step step).1, Nat.le_of_add_right_le bound⟩

/-- What is printed are the first lines, no run is longer than this, and it can only end with
all lines printed or with the rest of a line in the buffer of the server. -/
theorem dialogue_lines {left : LeftOver} (clean : left.Clean)
    (run : Run (UndisturbedStep LeavesLess) (dialogue left lines) events s) :
    s.printed <+: lines.map EchoLine.text ∧ events.length ≤ 4 * (typed lines).length + 2 ∧
      ((∀ event t, ¬UndisturbedStep LeavesLess s event t) ↔ Finished lines s ∨ LeftBehind s) := by
  obtain ⟨inv, bound⟩ := DialogueInv.run clean run
  refine ⟨?_, bound, ?_, ?_⟩
  · obtain ⟨_, _, done, left, rfl, printed, _⟩ := inv
    rw [printed, List.map_append]
    exact List.prefix_append _ _
  · exact fun last => inv.stopped fun event t step => last event t step.accepts
  · rintro (finished | behind) event t step
    · exact finished.last step.1
    · exact behind.last inv step

/-- Nothing of a line stays in the buffer when every `send` accepts everything. -/
theorem DialogueInv.emptied (inv : DialogueInv lines s) (step : UndisturbedStep AcceptsAll s event t)
    (empty : 10 ∉ s.server.text.bytes) : 10 ∉ t.server.text.bytes := by
  obtain ⟨formed, _, _, _, _, _, state⟩ := inv
  obtain ⟨step, undisturbed⟩ := step
  cases step with
  | process serving calls within sent =>
    obtain ⟨few, nonzero⟩ := state.pending
    obtain ⟨succeeds, sends, all⟩ := undisturbed
    rcases calls.single succeeds few with ⟨exited, _, recvs, _⟩ | ⟨piece, recvs, requests, positive, short⟩
    · rw [processClient, recvs, readClientToBuffer, if_pos List.length_nil]
      exact empty
    · obtain ⟨piece, rfl⟩ := exists_bytes fun zero => nonzero (requests ▸ List.mem_append_left _ zero)
      rw [length_bytes] at positive short
      obtain ⟨_, _, _, _, _, _, nothing⟩ := process_piece formed positive short recvs sends within all.leavesLess
      exact nothing all
  | recv | recvClosed | recvFails =>
    rw [Dialogue.received_server]
    exact empty
  | _ => exact empty

/-- The rest of a line is never left behind. -/
structure EmptiedInv (lines : List EchoLine) (s : Dialogue) : Prop where
  inv : DialogueInv lines s
  empty : 10 ∉ s.server.text.bytes

theorem EmptiedInv.step (emptied : EmptiedInv lines s) (step : UndisturbedStep AcceptsAll s event t) :
    EmptiedInv lines t :=
  ⟨(emptied.inv.step step.accepts).1, emptied.inv.emptied step emptied.empty⟩

theorem EmptiedInv.finished (emptied : EmptiedInv lines s)
    (last : ∀ event t, ¬UndisturbedStep AcceptsAll s event t) : Finished lines s :=
  (emptied.inv.stopped last).resolve_right fun behind => emptied.empty ((writes_iff s.server).mp behind.rest)

/-- Every line comes back: when every `send` accepts everything, a run can be continued until
all lines are printed, and it ends only then. The memory is as clean as it was at the beginning. -/
theorem dialogue_completes {left : LeftOver} (clean : left.Clean)
    (run : Run (UndisturbedStep AcceptsAll) (dialogue left lines) events s) :
    ((∀ event t, ¬UndisturbedStep AcceptsAll s event t) ↔ Finished lines s) ∧
      ∃ more t, Run (UndisturbedStep AcceptsAll) s more t ∧ Finished lines t ∧ t.server.leftOver.Clean := by
  have start : EmptiedInv lines (dialogue left lines) :=
    ⟨inv_dialogue clean lines, by rw [dialogue_text clean]; exact List.not_mem_nil⟩
  have emptied := run.invariant start EmptiedInv.step
  refine ⟨⟨emptied.finished, fun finished event t step => finished.last step.1⟩, ?_⟩
  obtain ⟨more, t, rest, last⟩ : ∃ more t, Run (UndisturbedStep AcceptsAll) s more t ∧
      ∀ event u, ¬UndisturbedStep AcceptsAll t event u :=
    Run.exists_last (P := EmptiedInv lines) emptied EmptiedInv.step
      fun emptied step => (emptied.inv.step step.accepts).2
  have reached := rest.invariant emptied EmptiedInv.step
  exact ⟨more, t, rest, reached.finished last, reached.inv.clean (reached.finished last)⟩

end Runs

/-- A line of two letters. -/
def twoLetters : EchoLine where
  characters := literal "hi"
  newline := by decide
  other := by decide
  room k same := by
    have positive : 0 < 2 ^ k := Nat.two_pow_pos k
    have length : (literal "hi").length = 2 := by decide
    omega
  short := by decide

theorem dialogue_completes_twice : ∃ events s,
    Run (@UndisturbedStep .zeroed (@AcceptsAll .zeroed)) (dialogue .null [twoLetters, twoLetters]) events s ∧
      s.printed = [literal "hi\n", literal "hi\n"] := by
  let _ := CMemory.zeroed
  have idle : Run (UndisturbedStep AcceptsAll) (dialogue .null [twoLetters, twoLetters]) [] _ := .start
  obtain ⟨_, events, s, run, finished, _⟩ := dialogue_completes clean_null idle
  have text : twoLetters.text = literal "hi\n" := by decide
  refine ⟨events, s, run, finished.printed.trans ?_⟩
  simp only [List.map_cons, List.map_nil, text]

/-- Three bytes have arrived, and `send` accepts two of them. -/
def twoAccepted : EchoEvent := { recvs := [some [104, 105, 10]], send := some 2 }

/-- The newline is left behind, and both sides wait. -/
theorem dialogue_lines_left : ∃ events s,
    Run (@UndisturbedStep .zeroed (@LeavesLess .zeroed)) (dialogue .null [twoLetters]) events s ∧ LeftBehind s ∧
      ∀ event t, ¬@UndisturbedStep .zeroed (@LeavesLess .zeroed) s event t := by
  let _ := CMemory.zeroed
  have typing : Run (UndisturbedStep LeavesLess) (dialogue .null [twoLetters]) [.client true]
      { dialogue .null [twoLetters] with stdin := [], phase := .newline, requests := [104, 105] } := by
    obtain ⟨input, read, characters⟩ := readline_echoLine twoLetters []
    have sent := DialogueStep.sendInput (s := dialogue .null [twoLetters]) rfl read
    rw [characters] at sent
    exact .single ⟨sent, rfl⟩
  have asking : Run (UndisturbedStep LeavesLess) (dialogue .null [twoLetters]) _
      { dialogue .null [twoLetters] with stdin := [], phase := .receive .start, requests := [104, 105, 10] } :=
    typing.snoc ⟨.sendNewline rfl, rfl⟩
  have calls : RecvCalls (ClientPhase.receive .start = .exited) [104, 105, 10] twoAccepted.recvs [] :=
    .last (show 0 < [(104 : UInt8), 105, 10].length by decide) (by decide) (by decide)
  have two : ∀ sendSize, accepted (Echo.acceptNewClient .null) twoAccepted = some sendSize → sendSize = 2 := by
    intro sendSize accepts
    have called : accepted (Echo.acceptNewClient .null) twoAccepted = some 2 := rfl
    exact Option.some.inj (accepts.symm.trans called)
  have answering := asking.snoc ⟨.process rfl calls (fun n accepts => two n accepts ▸ by decide)
    (show _ = [] ++ [104, 105] from rfl), (fun same => by cases same), rfl,
    fun n accepts => two n accepts ▸ by decide⟩
  have waiting := answering.snoc ⟨.recv rfl (show _ = [104, 105] ++ [] from rfl) (show 0 < 2 by decide)
    (show 2 ≤ 254 by decide), rfl⟩
  have rest : writes (@processClient .zeroed (Echo.acceptNewClient .null) twoAccepted).1 = true := by decide +kernel
  refine ⟨_, _, waiting, ?_⟩
  suffices behind : LeftBehind _ from ⟨behind, (dialogue_lines clean_null waiting).2.2.mpr (.inr behind)⟩
  exact ⟨⟨_, rfl⟩, rfl, rfl, rest⟩

end KommunikationNetze.Echo
