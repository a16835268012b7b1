import KommunikationNetze.Echo.EchoStream
import KommunikationNetze.Echo.Readline
import KommunikationNetze.Echo.ReceiveLoop

/-! A client of the echo server and its connection. The client waits for its line before it
reads another one. The server is called for the bytes that have arrived, and sends what it
has once a line ends there. -/
namespace KommunikationNetze.Echo
open CLib

/-- Where the client is in its `runloop`. -/
inductive ClientPhase where
  | readline
  | newline
  | receive (loop : ReceiveState)
  | exited

/-- The bytes on their way to the server and to the client are those that were sent and not
received. The server has closed the client when it does not serve it. -/
structure Dialogue where
  stdin : List UInt8
  phase : ClientPhase
  requests : List UInt8
  server : EchoClient
  serving : Bool
  replies : List UInt8
  printed : List CString

/-- What is left on the standard input behind a line. -/
def behindLine (stdin : List UInt8) : List UInt8 := (stdin.dropWhile (· ≠ 10)).drop 1

/-- `runloop` goes on behind a `recv`. -/
def Dialogue.received (s : Dialogue) : ReceiveLoop → Dialogue
  | .running loop => { s with phase := .receive loop }
  | .left loop =>
    { s with phase := .readline, printed := s.printed ++ [stringAt (loop.buffer.set loop.i 0)] }
  | .exited => { s with phase := .exited }

@[simp] theorem Dialogue.received_server (s : Dialogue) (loop : ReceiveLoop) :
    (s.received loop).server = s.server := by
  cases loop <;> rfl

/-- The calls of `recv` in one `readClientToBuffer`: what they return, and what they leave. -/
inductive RecvCalls (exited : Prop) : List UInt8 → List (Option (List UInt8)) → List UInt8 → Prop where
  | fails : RecvCalls exited requests [none] requests
  | closed (exits : exited) : RecvCalls exited [] [some []] []
  | last (positive : 0 < piece.length) (fits : piece.length ≤ 255) (other : piece.length ≠ 254) :
      RecvCalls exited (piece ++ rest) [some piece] rest
  | more (full : piece.length = 254) (later : RecvCalls exited rest recvs left) :
      RecvCalls exited (piece ++ rest) (some piece :: recvs) left

/-- A system call of the client succeeds or fails, the server is called for the client, or it is
told that the client hung up. -/
inductive DialogueEvent where
  | client (succeeds : Bool)
  | process (event : EchoEvent)
  | hangUp

/-- The socket of the client blocks, so `send` takes everything. The loop of `recv` is entered
with its first condition. -/
inductive DialogueStep [CMemory] (s : Dialogue) : DialogueEvent → Dialogue → Prop where
  | endOfInput (phase : s.phase = .readline) (read : readline s.stdin = none) :
      DialogueStep s (.client true) { s with phase := .exited }
  | sendInput (phase : s.phase = .readline) (read : readline s.stdin = some input) :
      DialogueStep s (.client true)
        { s with
          stdin := behindLine s.stdin
          phase := .newline
          requests := s.requests ++ (stringAt input.memory).bytes }
  | sendNewline (phase : s.phase = .newline) :
      DialogueStep s (.client true)
        { s with phase := .receive .start, requests := s.requests ++ [10] }
  | sendFails (phase : s.phase = .readline ∨ s.phase = .newline) :
      DialogueStep s (.client false) { s with phase := .exited }
  | recv (phase : s.phase = .receive loop) (replies : s.replies = bytes ++ rest)
      (positive : 0 < bytes.length) (fits : bytes.length ≤ 254 - loop.i) :
      DialogueStep s (.client true)
        ({ s with replies := rest }.received (.iterate (.running loop) (some bytes)))
  | recvClosed (phase : s.phase = .receive loop) (replies : s.replies = []) (closed : s.serving = false) :
      DialogueStep s (.client true) (s.received (.iterate (.running loop) (some [])))
  | recvFails (phase : s.phase = .receive loop) :
      DialogueStep s (.client false) (s.received (.iterate (.running loop) none))
  | process (serving : s.serving = true) (calls : RecvCalls (s.phase = .exited) s.requests event.recvs rest)
      (within : ∀ sendSize, accepted s.server event = some sendSize →
        sendSize ≤ strlen (readClientToBuffer s.server event.recvs).1.buffer)
      (sent : (processClient s.server event).1.sent = s.server.sent ++ bytes) :
      DialogueStep s (.process event)
        { s with
          requests := rest
          server := (processClient s.server event).1
          serving := (processClient s.server event).2
          replies := s.replies ++ bytes }
  | hangUp (exited : s.phase = .exited) (serving : s.serving = true) :
      DialogueStep s .hangUp { s with serving := false }

/-- What is sent back accepts everything. -/
def AcceptsAll [CMemory] (client : EchoClient) (event : EchoEvent) : Prop :=
  ∀ sendSize, accepted client event = some sendSize →
    sendSize = strlen (readClientToBuffer client event.recvs).1.buffer

/-- No system call fails that was called for a reason, and the `send` of the server is as it
should be. -/
def Undisturbed (sends : EchoClient → EchoEvent → Prop) (s : Dialogue) : DialogueEvent → Prop
  | .client succeeds => succeeds = true
  | .process event => event.recvs.head? ≠ some none ∧ event.send.isSome = true ∧ sends s.server event
  | .hangUp => True

def UndisturbedStep [CMemory] (sends : EchoClient → EchoEvent → Prop) (s : Dialogue) (event : DialogueEvent)
    (t : Dialogue) : Prop :=
  DialogueStep s event t ∧ Undisturbed sends s event

/-- A line that can be echoed: `readline` returns it, and with its newline it is no longer
than what the server reads at once. -/
structure EchoLine where
  characters : CString
  newline : 10 ∉ characters.bytes
  other : 255 ∉ characters.bytes
  room : ∀ k, characters.length ≠ 20 * 2 ^ k
  short : characters.length ≤ 252

/-- The line with its newline. -/
def EchoLine.text (line : EchoLine) : CString := line.characters ++ literal "\n"

def typed (lines : List EchoLine) : List UInt8 := lines.flatMap fun line => line.text.bytes

/-- The lines are typed, and then the end of the input. The server has accepted the client in
this memory. -/
def dialogue (left : LeftOver) (lines : List EchoLine) : Dialogue :=
  { stdin := typed lines, phase := .readline, requests := [], server := acceptNewClient left, serving := true
    replies := [], printed := [] }

section Line
variable (line : EchoLine) {rest : List UInt8}

theorem EchoLine.bytes_text : line.text.bytes = line.characters.bytes ++ [10] := by
  have newline : (literal "\n").bytes = [10] := by decide
  rw [EchoLine.text, bytes_append, newline]

theorem EchoLine.length_text : line.text.length ≤ 253 := by
  have short := line.short
  have length := congrArg List.length line.bytes_text
  simp only [length_bytes, List.length_append, List.length_singleton] at length
  omega

theorem typed_cons (lines : List EchoLine) :
    typed (line :: lines) = line.characters.bytes ++ 10 :: typed lines := by
  simp only [typed, List.flatMap_cons, EchoLine.bytes_text, List.append_assoc, List.singleton_append]

theorem behindLine_line : behindLine (line.characters.bytes ++ 10 :: rest) = rest := by
  have before : ∀ byte ∈ line.characters.bytes, decide (byte ≠ 10) = true := fun byte mem =>
    decide_eq_true fun same => line.newline (same ▸ mem)
  have rest : (10 :: rest).dropWhile (· ≠ 10) = 10 :: rest := rfl
  rw [behindLine, List.dropWhile_append_of_pos before, rest, List.drop_one, List.tail_cons]

variable [CMemory]

theorem readline_echoLine (rest : List UInt8) :
    ∃ input, readline (line.characters.bytes ++ 10 :: rest) = some input ∧
      stringAt input.memory = line.characters := by
  refine ⟨_, by rw [readline, read_line line.newline line.other, Option.map_some], ?_⟩
  have stored := stored_line line.characters.bytes
  have length := length_bytes line.characters
  have full : line.characters.bytes.length ≠ (line.characters.bytes.foldl LineBuffer.add .start).size := by
    intro same
    obtain ⟨k, exact⟩ := stored.full_iff.mp same
    exact line.room k (length.symm.trans exact)
  generalize line.characters.bytes.foldl LineBuffer.add .start = buffer at stored full
  have inside : line.characters.bytes.length < buffer.memory.length := by
    have fits := stored.inside
    have allocated := stored.allocated
    omega
  have front := take_set_last stored.content inside 0
  rw [LineBuffer.store, stored.index, ← List.take_append_drop (line.characters.bytes.length + 1)
    (buffer.memory.set line.characters.bytes.length 0), front, List.append_assoc, List.singleton_append,
    stringAt_bytes_append]

theorem readline_end : readline [] = none := rfl

end Line
end KommunikationNetze.Echo
