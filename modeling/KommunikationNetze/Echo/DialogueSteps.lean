import KommunikationNetze.Echo.Dialogue

/-! What a step of a dialogue preserves. Nothing of a line is lost between the two sides, and
every step moves some of it on. -/
namespace KommunikationNetze.Echo
open CLib Transition

/-- What of a line is neither at the user's nor at the client. -/
def Dialogue.underWay (s : Dialogue) : List UInt8 := s.replies ++ s.server.text.bytes ++ s.requests

/-- The line whose turn it is, and the lines that are left. -/
def LineState (s : Dialogue) (left : List EchoLine) : ClientPhase → Prop
  | .readline => s.stdin = typed left ∧ s.underWay = []
  | .newline => ∃ line rest, left = line :: rest ∧ s.stdin = typed rest ∧ s.replies = [] ∧
      s.server.text.bytes ++ s.requests = line.characters.bytes
  | .receive loop => ∃ line rest bytes, left = line :: rest ∧ s.stdin = typed rest ∧ Filled loop bytes ∧
      ¬Answered bytes ∧ bytes ++ s.underWay = line.text.bytes
  | .exited => left = [] ∧ s.underWay = []

structure DialogueInv (lines : List EchoLine) (s : Dialogue) : Prop where
  formed : WellFormed s.server
  serving : s.phase ≠ .exited → s.serving = true
  line : ∃ done left, lines = done ++ left ∧ s.printed = done.map EchoLine.text ∧ LineState s left s.phase

/-- How many steps there are to do at most. -/
def ClientPhase.work : ClientPhase → List UInt8 → Nat
  | .readline, stdin | .receive _, stdin => 4 * stdin.length + 1
  | .newline, stdin => 4 * stdin.length + 4
  | .exited, _ => 0

def Dialogue.work (s : Dialogue) : Nat :=
  s.phase.work s.stdin + 2 * s.requests.length + s.server.text.length + s.replies.length + s.serving.toNat

theorem dialogue_text {left : LeftOver} (clean : left.Clean) (lines : List EchoLine) :
    (dialogue left lines).server.text = [] := clean.empty

theorem inv_dialogue {left : LeftOver} (clean : left.Clean) (lines : List EchoLine) :
    DialogueInv lines (dialogue left lines) where
  formed := clean.formed
  serving _ := rfl
  line := ⟨[], lines, rfl, rfl, rfl, by rw [Dialogue.underWay, dialogue_text clean]; rfl⟩

theorem work_dialogue {left : LeftOver} (clean : left.Clean) (lines : List EchoLine) :
    (dialogue left lines).work = 4 * (typed lines).length + 2 := by
  rw [Dialogue.work, dialogue_text clean]
  rfl

section Bytes
variable {client : EchoClient} {event : EchoEvent} {line : EchoLine} {bytes : List UInt8}

theorem writes_iff (client : EchoClient) : writes client = true ↔ 10 ∈ client.text.bytes := by
  have newline := strchr_isNone client.buffer
  rw [writes, EchoClient.text, bytes_stringAt, ← not_iff_not, ← newline]
  cases strchr client.buffer 10 <;> simp

theorem rest_newline (part : bytes ++ rest = line.text.bytes) (some : rest ≠ []) : 10 ∈ rest := by
  obtain ⟨front, last, rfl⟩ := (List.eq_nil_or_concat rest).resolve_left some
  rw [List.concat_eq_append, ← List.append_assoc, EchoLine.bytes_text] at part
  obtain ⟨_, newline⟩ := List.append_inj' part rfl
  rw [List.concat_eq_append, newline]
  exact List.mem_append_right _ List.mem_cons_self

/-- A part of a line is answered when it is the whole line. -/
theorem answered_iff (part : bytes ++ rest = line.text.bytes) : Answered bytes ↔ rest = [] := by
  have nonzero : ∀ byte ∈ bytes, decide (byte ≠ 0) = true := fun byte mem =>
    decide_eq_true (bytes_ne_zero line.text byte (part ▸ List.mem_append_left _ mem))
  have length := congrArg List.length part
  have short := line.length_text
  rw [List.length_append, length_bytes] at length
  rw [EchoLine.bytes_text] at part
  rw [Answered, List.takeWhile_eq_self_iff.mpr nonzero]
  constructor
  · rintro ⟨_, newline | full⟩
    · rcases List.eq_nil_or_concat rest with rfl | ⟨front, last, rfl⟩
      · rfl
      · rw [List.concat_eq_append, ← List.append_assoc] at part
        obtain ⟨early, _⟩ := List.append_inj' part rfl
        exact absurd (early ▸ List.mem_append_left front newline) line.newline
    · exact List.length_eq_zero_iff.mp (by omega)
  · rintro rfl
    rw [List.append_nil] at part
    subst part
    refine ⟨List.append_ne_nil_of_right_ne_nil _ (List.cons_ne_nil _ _), .inl ?_⟩
    exact List.mem_append_right _ List.mem_cons_self

theorem Filled.string {s : ReceiveState} {text : CString} (filled : Filled s text.bytes) :
    stringAt (s.buffer.set s.i 0) = text := by
  obtain ⟨buffer, i, inside⟩ := filled
  obtain ⟨zeros, room⟩ : ∃ zeros, 255 - text.bytes.length = zeros + 1 := ⟨254 - text.bytes.length, by omega⟩
  rw [buffer, i, room, List.set_append_right _ _ (Nat.le_refl _), Nat.sub_self, List.replicate_succ,
    List.set_cons_zero, stringAt_bytes_append]

variable [CMemory]

/-- The server is called for a piece without a zero byte. -/
theorem process_piece (formed : WellFormed client) {piece : CString} (positive : 0 < piece.length)
    (short : piece.length < 254) (recvs : event.recvs = [some piece.bytes]) (sends : event.send.isSome = true)
    (within : ∀ sendSize, accepted client event = some sendSize →
      sendSize ≤ strlen (readClientToBuffer client event.recvs).1.buffer)
    (leaves : LeavesLess client event) :
    WellFormed (processClient client event).1 ∧ (processClient client event).2 = true ∧
      ∃ bytes, (processClient client event).1.sent = client.sent ++ bytes ∧
        bytes ++ (processClient client event).1.text.bytes = client.text.bytes ++ piece.bytes ∧
        (bytes ≠ [] → 10 ∈ client.text.bytes ++ piece.bytes) ∧
        (AcceptsAll client event → 10 ∉ (processClient client event).1.text.bytes) := by
  obtain ⟨holds, _, sent⟩ := append_spec formed piece
  have read : readClientToBuffer client event.recvs = (client.append piece.bytes, true) := by
    rw [recvs, readClientToBuffer, length_bytes, if_neg (by omega), if_neg (by omega)]
  obtain ⟨sendSize, send⟩ := Option.isSome_iff_exists.mp sends
  have newline := writes_iff (client.append piece.bytes)
  rw [holds.text, bytes_append] at newline
  simp only [LeavesLess, AcceptsAll, accepted, read, send, Bool.true_and, holds.strlen] at within leaves ⊢
  simp only [processClient, read, send]
  by_cases called : writes (client.append piece.bytes) = true
  · simp only [called, if_true, Option.some.injEq, forall_eq'] at within leaves ⊢
    obtain ⟨after, sentAfter, _⟩ := write_spec holds within
    have kept : ((client.text ++ piece).drop sendSize).take sendSize = (client.text ++ piece).drop sendSize :=
      List.take_of_length_le (by rw [List.length_drop]; exact leaves)
    rw [kept] at after
    refine ⟨after.wellFormed, rfl, CString.bytes ((client.text ++ piece).take sendSize), ?_, ?_, ?_, ?_⟩
    · rw [sentAfter, sent]
    · rw [after.text, ← bytes_append, List.take_append_drop, bytes_append]
    · exact fun _ => newline.mp called
    · intro all
      rw [after.text, all, List.drop_length]
      exact List.not_mem_nil
  · simp only [called]
    refine ⟨holds.wellFormed, rfl, [], ?_, ?_, ?_, ?_⟩
    · rw [List.append_nil]
      exact sent
    · simp only [List.nil_append, Bool.false_eq_true, if_false, holds.text, bytes_append]
    · exact fun nonempty => absurd rfl nonempty
    · intro _ mem
      simp only [Bool.false_eq_true, if_false, holds.text, bytes_append] at mem
      exact called (newline.mpr mem)

end Bytes

section State
variable {s t : Dialogue} {left : List EchoLine} {phase : ClientPhase}

/-- What is to be read by the server is a part of a line. -/
theorem LineState.pending (state : LineState s left phase) : s.requests.length ≤ 253 ∧ 0 ∉ s.requests := by
  have part : ∀ {bytes : List UInt8} {text : CString}, bytes ++ s.requests = text.bytes → text.length ≤ 253 →
      s.requests.length ≤ 253 ∧ 0 ∉ s.requests := by
    intro bytes text same short
    have length := congrArg List.length same
    rw [List.length_append, length_bytes] at length
    refine ⟨by omega, fun mem => ?_⟩
    exact bytes_ne_zero text 0 (same ▸ List.mem_append_right _ mem) rfl
  cases phase with
  | readline => exact part (state.2.trans bytes_nil.symm) (Nat.zero_le _)
  | newline =>
    obtain ⟨line, _, _, _, _, same⟩ := state
    exact part same (line.short.trans (by decide))
  | receive loop =>
    obtain ⟨line, _, bytes, _, _, _, _, same⟩ := state
    rw [Dialogue.underWay, ← List.append_assoc] at same
    exact part same line.length_text
  | exited => exact part (state.2.trans bytes_nil.symm) (Nat.zero_le _)

/-- The server takes a piece and sends back what it does not keep. -/
theorem LineState.process (state : LineState s left phase) {bytes piece rest : List UInt8} {server : EchoClient}
    {serving : Bool} (requests : s.requests = piece ++ rest)
    (moved : bytes ++ server.text.bytes = s.server.text.bytes ++ piece)
    (called : bytes ≠ [] → 10 ∈ s.server.text.bytes ++ piece) :
    LineState { s with requests := rest, server, serving, replies := s.replies ++ bytes } left phase := by
  have same : Dialogue.underWay { s with requests := rest, server, serving, replies := s.replies ++ bytes } =
      s.underWay := by
    simp only [Dialogue.underWay, requests]
    rw [List.append_assoc s.replies, moved]
    simp only [List.append_assoc]
  cases phase with
  | readline => exact ⟨state.1, same.trans state.2⟩
  | newline =>
    obtain ⟨line, later, first, stdin, none, part⟩ := state
    rw [requests, ← List.append_assoc] at part
    have silent : bytes = [] := by
      by_contra some
      exact line.newline (part ▸ List.mem_append_left rest (called some))
    subst silent
    refine ⟨line, later, first, stdin, ?_, ?_⟩
    · exact (List.append_nil _).trans none
    · rw [← moved] at part
      exact part
  | receive loop =>
    obtain ⟨line, later, got, first, stdin, filled, unanswered, part⟩ := state
    exact ⟨line, later, got, first, stdin, filled, unanswered, same ▸ part⟩
  | exited => exact ⟨state.1, same.trans state.2⟩

/-- With so few bytes there is one call of `recv`. -/
theorem RecvCalls.single {exited : Prop} (calls : RecvCalls exited requests recvs rest)
    (succeeds : recvs.head? ≠ some none) (few : requests.length ≤ 253) :
    (exited ∧ requests = [] ∧ recvs = [some []] ∧ rest = []) ∨
    ∃ piece, recvs = [some piece] ∧ requests = piece ++ rest ∧ 0 < piece.length ∧ piece.length < 254 := by
  cases calls with
  | fails => exact absurd rfl succeeds
  | closed exits => exact .inl ⟨exits, rfl, rfl, rfl⟩
  | last positive fits other =>
    rw [List.length_append] at few
    exact .inr ⟨_, rfl, rfl, positive, by omega⟩
  | more full later =>
    rw [List.length_append] at few
    omega

end State

section Step
variable [CMemory] {lines : List EchoLine} {s t : Dialogue} {event : DialogueEvent}

/-- The client reads a line, or has read the last one. -/
theorem DialogueInv.input (inv : DialogueInv lines s) (phase : s.phase = .readline) :
    (readline s.stdin = none ∧ DialogueInv lines { s with phase := .exited }) ∨
    ∃ input, readline s.stdin = some input ∧
      let t := { s with
        stdin := behindLine s.stdin
        phase := .newline
        requests := s.requests ++ (stringAt input.memory).bytes }
      DialogueInv lines t ∧ t.work < s.work := by
  obtain ⟨formed, serving, done, left, all, printed, state⟩ := inv
  have serves := serving (by rw [phase]; exact fun same => by cases same)
  rw [phase] at state
  obtain ⟨stdin, nothing⟩ := state
  cases left with
  | nil =>
    refine .inl ⟨by rw [stdin]; exact readline_end, formed, fun _ => serves, done, [], all, printed, rfl, nothing⟩
  | cons line rest =>
    rw [typed_cons] at stdin
    obtain ⟨input, read, characters⟩ := readline_echoLine line (typed rest)
    have behind : behindLine (line.characters.bytes ++ 10 :: typed rest) = typed rest := behindLine_line line
    rw [← stdin] at read behind
    obtain ⟨before, requests⟩ := List.append_eq_nil_iff.mp nothing
    obtain ⟨replies, text⟩ := List.append_eq_nil_iff.mp before
    refine .inr ⟨input, read, ⟨formed, fun _ => serves, done, line :: rest, all, printed, line, rest, rfl, behind,
      replies, ?_⟩, ?_⟩
    · simp only [text, requests, characters, List.nil_append]
    · have length := congrArg List.length stdin
      simp only [List.length_append, List.length_cons, length_bytes] at length
      simp only [Dialogue.work, ClientPhase.work, phase, behind, requests, characters, List.nil_append,
        List.length_nil, length_bytes]
      omega

omit [CMemory] in
theorem DialogueInv.newline (inv : DialogueInv lines s) (phase : s.phase = .newline) :
    let t := { s with phase := .receive .start, requests := s.requests ++ [10] }
    DialogueInv lines t ∧ t.work < s.work := by
  obtain ⟨formed, serving, done, left, all, printed, state⟩ := inv
  rw [phase] at state
  obtain ⟨line, rest, first, stdin, replies, part⟩ := state
  have serves := serving (by rw [phase]; exact fun same => by cases same)
  refine ⟨⟨formed, fun _ => serves, done, left, all, printed, line, rest, [], first, stdin, filled_start,
    fun answered => answered.1 rfl, ?_⟩, ?_⟩
  · simp only [Dialogue.underWay, replies, List.nil_append]
    rw [← List.append_assoc, part, line.bytes_text]
  · simp only [Dialogue.work, ClientPhase.work, phase, List.length_append, List.length_singleton]
    omega

omit [CMemory] in
/-- The client goes on with its line, or prints it. -/
theorem DialogueInv.recv (inv : DialogueInv lines s) (phase : s.phase = .receive loop)
    (replies : s.replies = bytes ++ rest) (positive : 0 < bytes.length) (fits : bytes.length ≤ 254 - loop.i) :
    let t := { s with replies := rest }.received (.iterate (.running loop) (some bytes))
    DialogueInv lines t ∧ t.work < s.work := by
  obtain ⟨formed, serving, done, left, all, printed, state⟩ := inv
  have serves := serving (by rw [phase]; exact fun same => by cases same)
  rw [phase] at state
  obtain ⟨line, later, got, first, stdin, filled, _, part⟩ := state
  have after := filled.store fits
  have split : (got ++ bytes) ++ (rest ++ s.server.text.bytes ++ s.requests) = line.text.bytes := by
    rw [← part, Dialogue.underWay, replies]
    simp only [List.append_assoc]
  have length := congrArg List.length replies
  rw [List.length_append] at length
  rw [ReceiveLoop.iterate, ReceiveLoop.test]
  by_cases continues : (loop.store bytes).continues = true
  · rw [if_pos continues]
    refine ⟨⟨formed, fun _ => serves, done, left, all, printed, line, later, got ++ bytes, first, stdin, after,
      after.continues_iff.mp continues, split⟩, ?_⟩
    simp only [Dialogue.work, Dialogue.received, ClientPhase.work, phase, length]
    omega
  · rw [if_neg continues]
    have nothing : rest ++ s.server.text.bytes ++ s.requests = [] :=
      (answered_iff split).mp (not_not.mp (mt after.continues_iff.mpr continues))
    have text : stringAt ((loop.store bytes).buffer.set (loop.store bytes).i 0) = line.text := by
      rw [nothing, List.append_nil] at split
      exact (split ▸ after).string
    refine ⟨⟨formed, fun _ => serves, done ++ [line], later, ?_, ?_, stdin, nothing⟩, ?_⟩
    · rw [all, first, List.append_assoc, List.singleton_append]
    · simp only [Dialogue.received, printed, text, List.map_append, List.map_singleton]
    · simp only [Dialogue.work, Dialogue.received, ClientPhase.work, phase, length]
      omega

/-- The server is called for what has arrived, or for the end of the connection. -/
theorem DialogueInv.process (inv : DialogueInv lines s) {event : EchoEvent} (serves : s.serving = true)
    (calls : RecvCalls (s.phase = .exited) s.requests event.recvs rest)
    (within : ∀ sendSize, accepted s.server event = some sendSize →
      sendSize ≤ strlen (readClientToBuffer s.server event.recvs).1.buffer)
    (sent : (processClient s.server event).1.sent = s.server.sent ++ bytes)
    (undisturbed : Undisturbed LeavesLess s (.process event)) :
    let t := { s with
      requests := rest
      server := (processClient s.server event).1
      serving := (processClient s.server event).2
      replies := s.replies ++ bytes }
    DialogueInv lines t ∧ t.work < s.work := by
  obtain ⟨formed, serving, done, left, all, printed, state⟩ := inv
  obtain ⟨succeeds, sends, leaves⟩ := undisturbed
  obtain ⟨few, nonzero⟩ := state.pending
  rcases calls.single succeeds few with ⟨exited, requests, recvs, rfl⟩ | ⟨piece, recvs, requests, positive, short⟩
  · have processed : processClient s.server event = (s.server, false) := by
      rw [processClient, recvs, readClientToBuffer, if_pos List.length_nil]
    rw [processed] at sent ⊢
    obtain rfl : bytes = [] := List.self_eq_append_right.mp sent
    refine ⟨⟨formed, fun other => absurd exited other, done, left, all, printed, ?_⟩, ?_⟩
    · exact state.process (show s.requests = [] ++ [] from requests) (List.append_nil _).symm
        fun some => absurd rfl some
    · simp only [Dialogue.work, requests, serves, List.append_nil]
      exact Nat.lt_succ_self _
  · obtain ⟨piece, rfl⟩ := exists_bytes fun zero => nonzero (requests ▸ List.mem_append_left _ zero)
    rw [length_bytes] at positive short
    obtain ⟨after, stays, sentNow, same, moved, called, _⟩ :=
      process_piece formed positive short recvs sends within leaves
    obtain rfl := List.append_cancel_left (same.symm.trans sent)
    refine ⟨⟨after, fun _ => stays, done, left, all, printed, state.process requests moved called⟩, ?_⟩
    have length := congrArg List.length moved
    have less := congrArg List.length requests
    simp only [List.length_append, length_bytes] at length less
    simp only [Dialogue.work, stays, serves, List.length_append, less]
    omega

theorem DialogueInv.step (inv : DialogueInv lines s) (step : UndisturbedStep LeavesLess s event t) :
    DialogueInv lines t ∧ t.work < s.work := by
  obtain ⟨step, undisturbed⟩ := step
  cases step with
  | endOfInput phase read =>
    rcases inv.input phase with ⟨_, after⟩ | ⟨input, some, _⟩
    · refine ⟨after, ?_⟩
      simp only [Dialogue.work, ClientPhase.work, phase]
      omega
    · cases read.symm.trans some
  | sendInput phase read =>
    rcases inv.input phase with ⟨none, _⟩ | ⟨input, some, after⟩
    · cases read.symm.trans none
    · obtain rfl := Option.some.inj (some.symm.trans read)
      exact after
  | sendNewline phase => exact inv.newline phase
  | sendFails => cases undisturbed
  | recv phase replies positive fits => exact inv.recv phase replies positive fits
  | recvClosed phase _ closed =>
    have serves := inv.serving (by rw [phase]; exact fun same => by cases same)
    rw [closed] at serves
    cases serves
  | recvFails => cases undisturbed
  | process serving calls within sent => exact inv.process serving calls within sent undisturbed
  | hangUp exited serving =>
    refine ⟨{ inv with serving := fun other => absurd exited other }, ?_⟩
    simp only [Dialogue.work, serving]
    exact Nat.lt_succ_self _

end Step
end KommunikationNetze.Echo
