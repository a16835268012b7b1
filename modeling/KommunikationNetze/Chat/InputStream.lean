import KommunikationNetze.Chat.Server

/-! The input stream of a client. What a client's lines are depends on nothing but the
results of `recv` for it, so the server is first reduced to a fold over these, and
the buffer is then described as the bytes not yet handled, followed by zeros. -/
namespace KommunikationNetze.Chat
open CLib

def receivedBytes (c : ClientRef) (calls : List Call) : List UInt8 :=
  calls.flatMap fun
    | .recv d bytes => if d = c then bytes else []
    | _ => []

def handledLines (c : ClientRef) (calls : List Call) : List CString :=
  calls.filterMap fun
    | .handleLine d line => if d = c then some line else none
    | _ => none

/-- Lines as they stood in the stream. -/
def lineBytes (lines : List CString) : List UInt8 := lines.flatMap fun line => line.bytes ++ [10]

section Record
variable {c : ClientRef}

@[simp] theorem receivedBytes_append (calls added : List Call) :
    receivedBytes c (calls ++ added) = receivedBytes c calls ++ receivedBytes c added :=
  List.flatMap_append

@[simp] theorem handledLines_append (calls added : List Call) :
    handledLines c (calls ++ added) = handledLines c calls ++ handledLines c added :=
  List.filterMap_append

/-- What is written and sent to the channel is no input. -/
theorem OutputOnly.inputCalls (output : OutputOnly world after) :
    receivedBytes c after.calls = receivedBytes c world.calls ∧
      handledLines c after.calls = handledLines c world.calls := by
  obtain ⟨added, calls, kind⟩ := output.calls
  have received : receivedBytes c added = [] := by
    refine List.flatMap_eq_nil_iff.mpr ?_
    intro call mem
    rcases kind call mem with ⟨d, line, channel, rfl⟩ | ⟨clients, msg, rfl⟩ <;> rfl
  have handled : handledLines c added = [] := by
    refine List.filterMap_eq_nil_iff.mpr ?_
    intro call mem
    rcases kind call mem with ⟨d, line, channel, rfl⟩ | ⟨clients, msg, rfl⟩ <;> rfl
  rw [calls, receivedBytes_append, handledLines_append, received, handled]
  exact ⟨List.append_nil _, List.append_nil _⟩

end Record

/-- The input side of one client. -/
structure Input where
  received : List UInt8
  handled : List CString
  buffer : Buffer

/-- A client nothing was received from. -/
def Input.start : Input := { received := [], handled := [], buffer := .empty }

/-- The input side of a client as the server has it. -/
def World.input (world : World) (c : ClientRef) : Input :=
  { received := receivedBytes c world.calls, handled := handledLines c world.calls,
    buffer := (world.client c).inBuffer }

/-- The result of `recv` that an event brings for the client. -/
def Event.read (c : ClientRef) : Event → Option (Option (List UInt8))
  | .readable client result => if client = c then some result else none
  | _ => none

section Frame
variable {c : ClientRef}

theorem OutputOnly.input (output : OutputOnly world after) : after.input c = world.input c := by
  obtain ⟨received, handled⟩ := output.inputCalls (c := c)
  rw [World.input, World.input, received, handled, output.sameConnections.inBuffer]

theorem input_of_same {world after : World} (calls : after.calls = world.calls)
    (inBuffer : (after.client c).inBuffer = (world.client c).inBuffer) :
    after.input c = world.input c := by
  rw [World.input, World.input, calls, inBuffer]

theorem clientSetNickname_input (world : World) (client : ClientRef) (nick : CString) :
    (clientSetNickname world client nick).2.input c = world.input c :=
  input_of_same (clientSetNickname_calls world client nick)
    ((clientSetNickname_sameConnections world client nick).inBuffer c)

theorem closeConnection_input (world : World) (client : ClientRef) :
    (closeConnection world client).input c = world.input c := by
  exact input_of_same rfl (World.setClient_keeps world client
    { world.client client with socketOpen := false } Client.inBuffer rfl c)

theorem setInBuffer_input (world : World) (client : ClientRef) (buffer : Buffer) :
    (setInBuffer world client buffer).input c =
      if client = c then { world.input c with buffer } else world.input c := by
  by_cases same : client = c
  · subst c
    simp [World.input, setInBuffer, World.setClient]
  · simp [World.input, setInBuffer, World.setClient, same, Ne.symm same]

@[simp] theorem setInBuffer_inBuffer (world : World) (client : ClientRef) (buffer : Buffer) :
    ((setInBuffer world client buffer).client client).inBuffer = buffer := by
  simp [setInBuffer, World.setClient]

theorem record_recv_input (world : World) (client : ClientRef) (bytes : List UInt8) :
    (world.record (.recv client bytes)).input c = { world.input c with
      received := (world.input c).received ++ if client = c then bytes else [] } := by
  simp [World.input, World.record, receivedBytes, handledLines]

theorem record_handleLine_input (world : World) (client : ClientRef) (line : CString) :
    (world.record (.handleLine client line)).input c = { world.input c with
      handled := (world.input c).handled ++ if client = c then [line] else [] } := by
  by_cases same : client = c <;>
    simp [World.input, World.record, receivedBytes, handledLines, same]

theorem record_send_input (world : World) (client : ClientRef) (bytes : List UInt8) :
    (world.record (.send client bytes)).input c = world.input c := by
  simp [World.input, World.record, receivedBytes, handledLines]

end Frame

section Fold
variable [CMemory] {c : ClientRef}

theorem clientHandleLine_input (world : World) (client : ClientRef) (line : CString) :
    (clientHandleLine world client line).input c = { world.input c with
      handled := (world.input c).handled ++ if client = c then [line] else [] } := by
  rw [← record_handleLine_input]
  obtain ⟨between, rfl | ⟨arg, rfl⟩, output⟩ := clientHandleLine_cases world client line
  · exact output.input
  · exact output.input.trans (clientSetNickname_input _ client arg)

theorem clientDisconnect_input (world : World) (client : ClientRef) :
    (clientDisconnect world client).input c = world.input c := by
  have told := serverSendChannelMessage_output (unregistered world client)
    ((unregistered world client).nicknameText client ++ literal " has left...")
  exact (closeConnection_input _ client).trans told.input

/-- Only the new client starts over, and it had received nothing. -/
theorem clientCreate_input (world : World) (socket : Int)
    (unknown : world.allocated ≤ c → world.input c = .start) :
    (clientCreate world socket).input c = world.input c := by
  have told := serverSendChannelMessage_output (nameClient world socket)
    ((nameClient world socket).nicknameText world.allocated ++ literal " has entered...")
  refine told.input.trans (input_of_same (nameClient_calls world socket) ?_)
  rw [nameClient, (setTemporaryNickname_sameConnections _ _ _ _).inBuffer]
  by_cases same : c = world.allocated
  · have empty := congrArg Input.buffer (unknown (Nat.le_of_eq same.symm))
    rw [same, allocateClient_new, ← same]
    exact empty.symm
  · rw [allocateClient_old world socket same]

theorem clientDoWrite_input (world : World) (client : ClientRef) (len : Int) :
    (clientDoWrite world client len).input c = world.input c := by
  simp only [clientDoWrite]
  split
  · exact clientDisconnect_input world client
  · generalize (world.client client).outBuffer.content.take len.toNat = bytes
    refine Eq.trans ?_ (record_send_input world client bytes)
    have kept := World.setClient_keeps (world.record (.send client bytes)) client
      { world.client client with outBuffer := consume (world.client client).outBuffer len.toNat }
      Client.inBuffer rfl c
    split <;> exact input_of_same rfl kept

/-- The part of `ClientDoRead` on the buffer after `recv`: the line to handle, and the
buffer that is left after it. -/
def takeLine (buffer : Buffer) : Option CString × Buffer :=
  match strchr buffer.memory 10 with
  | none => (none, buffer)
  | some newlineSeparator =>
    let buffer := { buffer with memory := memcpy buffer.memory newlineSeparator [0] }
    (some (stringAt buffer.memory), dropLine buffer newlineSeparator)

/-- The branch of `ClientDoRead` after `recv` has stored these bytes. -/
def Input.receive (input : Input) (bytes : List UInt8) : Input :=
  let taken := takeLine (Chat.receive input.buffer bytes)
  { received := input.received ++ bytes, handled := input.handled ++ taken.1.toList, buffer := taken.2 }

/-- One `ClientDoRead` with this result of `recv`. -/
def Input.read (input : Input) (result : Option (List UInt8)) : Input :=
  let input := { input with buffer := makeRoom input.buffer }
  match result with
  | none | some [] => input
  | some (b :: bytes) => input.receive (b :: bytes)

/-- The handlers leave the input side alone, so the buffer that is left is the one the
line was taken from. -/
theorem clientReceived_input (world : World) (client : ClientRef) (bytes : List UInt8) :
    (clientReceived world client bytes).input c =
      if client = c then (world.input c).receive bytes else world.input c := by
  have recorded := record_recv_input (c := c) world client bytes
  have source : ((world.record (.recv client bytes)).client client).inBuffer =
      (world.client client).inBuffer := rfl
  simp only [clientReceived, source]
  by_cases same : client = c
  · subst c
    have own : (world.input client).buffer = (world.client client).inBuffer := rfl
    rw [if_pos rfl, Input.receive, own]
    generalize receive (world.client client).inBuffer bytes = buffer
    cases found : strchr buffer.memory 10 with
    | none => simp [takeLine, found, setInBuffer_input, recorded]
    | some newlineSeparator =>
      have left := (clientHandleLine_sameConnections (setInBuffer (world.record (.recv client bytes))
        client { buffer with memory := memcpy buffer.memory newlineSeparator [0] }) client
        (stringAt (memcpy buffer.memory newlineSeparator [0]))).inBuffer client
      simp only [setInBuffer_input, clientHandleLine_input, recorded, left]
      simp [takeLine, found, setInBuffer, World.setClient]
  · generalize receive (world.client client).inBuffer bytes = buffer
    cases strchr buffer.memory 10 with
    | none => simp [same, setInBuffer_input, recorded]
    | some newlineSeparator => simp [same, setInBuffer_input, clientHandleLine_input, recorded]

/-- What an event does to a client's input is decided by the result of `recv` for it. -/
theorem handleEvent_input (world : World) (event : Event)
    (unknown : world.allocated ≤ c → world.input c = .start) :
    (handleEvent world event).input c =
      match event.read c with
      | some result => (world.input c).read result
      | none => world.input c := by
  cases event with
  | accepted socket => exact clientCreate_input world socket unknown
  | hungUp client => exact clientDisconnect_input world client
  | writable client len => exact clientDoWrite_input world client len
  | readable client result =>
    simp only [handleEvent, clientDoRead, Event.read]
    split
    · rw [clientDisconnect_input, setInBuffer_input]
      by_cases same : client = c <;> simp [same, Input.read, World.input]
    · rw [clientDisconnect_input, setInBuffer_input]
      by_cases same : client = c <;> simp [same, Input.read, World.input]
    · rw [clientReceived_input, setInBuffer_input]
      by_cases same : client = c
      · subst c
        rw [if_pos rfl, if_pos rfl, if_pos rfl]
        rfl
      · rw [if_neg same, if_neg same, if_neg same]

end Fold

section Buffer

/-- The bytes in use and zeros behind them, at least one unless there is no block. -/
structure Holds (buffer : Buffer) (content : List UInt8) : Prop where
  memory : buffer.memory = content ++ List.replicate (buffer.length - content.length) 0
  filled : buffer.filled = content.length
  room : content.length < buffer.length ∨ (content = [] ∧ buffer.length = 0)

theorem Holds.empty : Holds .empty [] := ⟨rfl, rfl, .inr ⟨rfl, rfl⟩⟩

theorem Holds.content_eq (holds : Holds buffer bytes) : buffer.content = bytes := by
  rw [Buffer.content, holds.memory, holds.filled, List.take_left]

theorem Holds.inside (holds : Holds buffer bytes) : bytes.length ≤ buffer.length := by
  rcases holds.room with inside | ⟨nil, _⟩
  · exact Nat.le_of_lt inside
  · rw [nil]
    exact Nat.zero_le _

theorem Holds.length_memory (holds : Holds buffer bytes) : buffer.memory.length = buffer.length := by
  have inside := holds.inside
  rw [holds.memory, List.length_append, List.length_replicate]
  omega

section Growth
variable [CMemory]

/-- A grown block whose rest is cleared. -/
theorem clear_grown {bytes zeros : List UInt8} (grows : (bytes ++ zeros).length ≤ length) :
    memset (realloc (bytes ++ zeros) length) bytes.length 0 (length - bytes.length) =
      bytes ++ List.replicate (length - bytes.length) 0 := by
  obtain ⟨fresh, grown, freshLength⟩ := realloc_grow grows
  have count : (zeros ++ fresh).length = length - bytes.length := by
    rw [List.length_append] at grows ⊢
    rw [freshLength, List.length_append]
    omega
  rw [grown, List.append_assoc, ← count]
  exact memset_append bytes (zeros ++ fresh) 0

/-- The buffer grows when fewer than two bytes are free, and what it holds stays. -/
theorem makeRoom_spec (holds : Holds buffer bytes) (below : buffer.length < 2 ^ 31) :
    Holds (makeRoom buffer) bytes ∧ bytes.length + 2 ≤ (makeRoom buffer).length ∧
      (makeRoom buffer).length < 2 ^ 32 := by
  have inside := holds.inside
  have length := holds.length_memory
  have free : u32Sub buffer.length buffer.filled = buffer.length - bytes.length := by
    rw [holds.filled]
    exact u32Sub_of_le inside
  have double : u32 (buffer.length * 2) = buffer.length * 2 := u32_of_lt (by omega)
  simp only [makeRoom, free, double]
  split
  · generalize grown : (if buffer.length * 2 < 1024 then 1024 else buffer.length * 2) = newLength
    have enough : buffer.length ≤ newLength ∧ bytes.length + 2 ≤ newLength ∧ newLength < 2 ^ 32 := by
      split at grown <;> omega
    have rest : u32Sub newLength bytes.length = newLength - bytes.length :=
      u32Sub_of_le (by omega)
    have block : (bytes ++ List.replicate (buffer.length - bytes.length) 0).length ≤ newLength := by
      rw [← holds.memory, length]
      exact enough.1
    refine ⟨⟨?_, holds.filled, .inl (by simp only; omega)⟩, enough.2.1, enough.2.2⟩
    simp only [holds.filled, rest]
    rw [holds.memory]
    exact clear_grown block
  · exact ⟨holds, by omega, by omega⟩

end Growth

/-- What `recv` may store leaves a zero at the end. -/
theorem receive_spec (holds : Holds buffer bytes) (room : bytes.length + 2 ≤ buffer.length)
    (small : buffer.length < 2 ^ 32) (fits : added.length ≤ offered buffer) :
    Holds (receive buffer added) (bytes ++ added) ∧ (bytes ++ added).length < buffer.length := by
  have free : u32Sub buffer.length buffer.filled = buffer.length - bytes.length := by
    rw [holds.filled]
    exact u32Sub_of_le holds.inside
  have space : offered buffer = buffer.length - bytes.length - 1 := by
    rw [offered, free]
    exact u32Sub_of_le (by omega)
  rw [space] at fits
  have below : (bytes ++ added).length < buffer.length := by
    rw [List.length_append]
    omega
  have filled : u32 (buffer.filled + added.length) = (bytes ++ added).length := by
    rw [holds.filled, ← List.length_append]
    exact u32_of_lt (by omega)
  refine ⟨⟨?_, filled, .inl below⟩, below⟩
  simp only [receive, holds.filled]
  rw [holds.memory, memcpy_append, List.drop_replicate, List.length_append, Nat.sub_sub]

theorem takeLine_of_absent (holds : Holds buffer bytes) (inside : bytes.length < buffer.length)
    (absent : 10 ∉ bytes) : takeLine buffer = (none, buffer) := by
  have zeros : List.replicate (buffer.length - bytes.length) 0 =
      (0 : UInt8) :: List.replicate (buffer.length - bytes.length - 1) 0 := by
    rw [← List.replicate_succ]
    congr 1
    omega
  have missing : strchr buffer.memory 10 = none := by
    rw [holds.memory, zeros]
    exact strchr_of_absent absent (by decide)
  rw [takeLine, missing]

/-- The rest after a handled line is discarded when it looks like an empty string. -/
def kept : List UInt8 → List UInt8
  | [] => []
  | b :: rest => if b = 0 then [] else b :: rest

/-- The rest is moved to the beginning and what is behind it is cleared. -/
theorem dropLine_spec {buffer : Buffer} (before : List UInt8) (count : Nat)
    (memory : buffer.memory = before ++ rest ++ List.replicate (count + 1) 0)
    (filled : buffer.filled = before.length + rest.length)
    (length : buffer.length = before.length + rest.length + (count + 1))
    (ended : before.length = newlineSeparator + 1) :
    Holds (dropLine buffer newlineSeparator) (kept rest) := by
  have behind : buffer.memory.drop (newlineSeparator + 1) = rest ++ List.replicate (count + 1) 0 := by
    rw [memory, ← ended, List.append_assoc, List.drop_left]
  cases rest with
  | nil =>
    have nothing : stringAt (buffer.memory.drop (newlineSeparator + 1)) = [] := by
      rw [behind, List.replicate_succ]
      simp [stringAt]
    rw [dropLine, nothing, if_neg (by simp)]
    exact .empty
  | cons b rest =>
    by_cases zero : b = 0
    · have nothing : stringAt (buffer.memory.drop (newlineSeparator + 1)) = [] := by
        rw [behind, zero]
        simp [stringAt]
      rw [dropLine, nothing, if_neg (by simp), kept, if_pos zero]
      exact .empty
    · have something : 0 < (stringAt (buffer.memory.drop (newlineSeparator + 1))).length := by
        rw [behind]
        simp [stringAt, zero]
      have left : u32Sub buffer.filled (newlineSeparator + 1) = (b :: rest).length := by
        rw [u32Sub_of_le (by omega)]
        omega
      obtain ⟨junk, moved, junkLength⟩ :=
        memmove_append before (b :: rest) (List.replicate (count + 1) 0)
      rw [List.length_replicate] at junkLength
      have clear : u32Sub buffer.length (b :: rest).length = junk.length := by
        rw [u32Sub_of_le (by omega)]
        omega
      have start : memmove buffer.memory (newlineSeparator + 1) (b :: rest).length =
          b :: rest ++ junk := by
        rw [memory, ← ended, moved]
      simp only [dropLine, if_pos something, left, start, clear, memset_append, kept, if_neg zero]
      refine ⟨?_, rfl, .inl ?_⟩
      · simp only
        congr 2
        omega
      · simp only
        omega

theorem takeLine_of_line {line : CString} (holds : Holds buffer (line.bytes ++ 10 :: rest))
    (absent : 10 ∉ line.bytes) :
    (takeLine buffer).1 = some line ∧ Holds (takeLine buffer).2 (kept rest) := by
  obtain ⟨count, zeros⟩ : ∃ count, buffer.length - (line.bytes ++ 10 :: rest).length = count + 1 := by
    refine ⟨buffer.length - (line.bytes ++ 10 :: rest).length - 1, ?_⟩
    rcases holds.room with inside | ⟨nil, _⟩
    · omega
    · simp at nil
  have memory := holds.memory
  have filled := holds.filled
  rw [zeros, List.append_assoc, List.cons_append] at memory
  rw [List.length_append, List.length_cons, length_bytes] at filled zeros
  have found : strchr buffer.memory 10 = some line.length := by
    rw [memory, strchr_of_mem 10 absent (bytes_ne_zero line), length_bytes]
  have terminated : memcpy buffer.memory line.length [0] =
      line.bytes ++ 0 :: (rest ++ List.replicate (count + 1) 0) := by
    rw [memory, ← length_bytes, memcpy_append]
    simp
  have ended : (line.bytes ++ [0]).length = line.length + 1 := by
    rw [List.length_append, length_bytes, List.length_singleton]
  simp only [takeLine, found, terminated, stringAt_bytes_append, true_and]
  refine dropLine_spec (line.bytes ++ [0]) count ?_ ?_ ?_ ended
  · simp
  · rw [ended]
    simp only [filled]
    omega
  · rw [ended]
    simp only
    omega

/-- The line up to the first newline, if there is one. -/
theorem first_line (bytes : List UInt8) (newline : 10 ∈ bytes) (nonzero : 0 ∉ bytes) :
    ∃ (line : CString) (rest : List UInt8), bytes = line.bytes ++ 10 :: rest ∧ 10 ∉ line.bytes := by
  obtain ⟨before, rest, shape, absent⟩ := List.eq_append_cons_of_mem newline
  have characters : (stringAt before).bytes = before := by
    refine bytes_stringAt_of_nonzero fun b mem zero => nonzero ?_
    rw [shape]
    exact List.mem_append_left _ (zero ▸ mem)
  exact ⟨stringAt before, rest, by rw [characters, shape], by rwa [characters]⟩

theorem kept_of_nonzero (nonzero : 0 ∉ rest) : kept rest = rest := by
  cases rest with
  | nil => rfl
  | cons b rest =>
    have other : b ≠ 0 := fun zero => nonzero (zero ▸ List.mem_cons_self)
    rw [kept, if_neg other]

end Buffer

section Run
variable [CMemory] {c : ClientRef}

/-- The results of `recv` for the client. -/
def reads (c : ClientRef) (events : List Event) : List (Option (List UInt8)) :=
  events.filterMap (Event.read c)

omit [CMemory] in
@[simp] theorem reads_snoc (c : ClientRef) (events : List Event) (event : Event) :
    reads c (events ++ [event]) = reads c events ++ (event.read c).toList := by
  cases read : event.read c <;> simp [reads, read]

theorem read_none (input : Input) :
    input.read none = { input with buffer := makeRoom input.buffer } := rfl

theorem read_nil (input : Input) :
    input.read (some []) = { input with buffer := makeRoom input.buffer } := rfl

theorem read_bytes (input : Input) (b : UInt8) (bytes : List UInt8) :
    input.read (some (b :: bytes)) =
      { input with buffer := makeRoom input.buffer }.receive (b :: bytes) := rfl

omit [CMemory] in
theorem received_receive (input : Input) (bytes : List UInt8) :
    (input.receive bytes).received = input.received ++ bytes := rfl

theorem received_read (input : Input) (result : Option (List UInt8)) :
    (input.read result).received = input.received ++ result.getD [] := by
  cases result with
  | none => rw [read_none, Option.getD_none, List.append_nil]
  | some bytes =>
    cases bytes with
    | nil => rw [read_nil, Option.getD_some, List.append_nil]
    | cons b bytes => rw [read_bytes, received_receive, Option.getD_some]

theorem clientReceived_allocated (world : World) (client : ClientRef) (bytes : List UInt8) :
    (clientReceived world client bytes).allocated = world.allocated := by
  simp only [clientReceived]
  generalize receive _ bytes = buffer
  split
  · rfl
  · exact (clientHandleLine_sameConnections _ client _).allocated

theorem clientDisconnect_allocated (world : World) (client : ClientRef) :
    (clientDisconnect world client).allocated = world.allocated :=
  (serverSendChannelMessage_output (unregistered world client) _).allocated

theorem handleEvent_allocated (world : World) (event : Event) :
    world.allocated ≤ (handleEvent world event).allocated := by
  cases event with
  | accepted socket =>
    have told := (serverSendChannelMessage_output (nameClient world socket)
      ((nameClient world socket).nicknameText world.allocated ++ literal " has entered...")).allocated
    have created : (clientCreate world socket).allocated = world.allocated + 1 :=
      told.trans (nameClient_allocated world socket)
    exact created ▸ Nat.le_succ _
  | hungUp client => exact Nat.le_of_eq (clientDisconnect_allocated world client).symm
  | readable client result =>
    have grown : ∀ buffer, (setInBuffer world client buffer).allocated = world.allocated :=
      fun _ => rfl
    simp only [handleEvent, clientDoRead]
    generalize makeRoom (world.client client).inBuffer = buffer
    split
    · rw [clientDisconnect_allocated, grown]
    · rw [clientDisconnect_allocated, grown]
    · rw [clientReceived_allocated, grown]
  | writable client len =>
    simp only [handleEvent, clientDoWrite]
    split
    · rw [clientDisconnect_allocated]
    · split <;> exact Nat.le_refl _

/-- The input side of a client is decided by the results of `recv` for it alone, and
nothing is read for a client before it is allocated. -/
theorem input_run (run : ServerRun events world) :
    world.input c = (reads c events).foldl Input.read .start ∧
      (world.allocated ≤ c → reads c events = []) := by
  induction run with
  | start => exact ⟨rfl, fun _ => rfl⟩
  | @snoc events world event after _ step ih =>
    obtain ⟨admissible, rfl⟩ := step
    obtain ⟨folded, unread⟩ := ih
    have unknown : world.allocated ≤ c → world.input c = .start := fun unallocated => by
      rw [folded, unread unallocated, List.foldl_nil]
    rw [handleEvent_input world event unknown, reads_snoc]
    refine ⟨?_, ?_⟩
    · cases event.read c with
      | none => simpa using folded
      | some result => simp [folded]
    · intro unallocated
      have before := Nat.le_trans (handleEvent_allocated world event) unallocated
      have none : event.read c = none := by
        cases event with
        | readable client result =>
          have connected : client < world.allocated := admissible.1.1
          have other : client ≠ c := Nat.ne_of_lt (Nat.lt_of_lt_of_le connected before)
          exact if_neg other
        | _ => rfl
      rw [unread before, none]
      rfl

theorem step_input (run : ServerRun events world) (event : Event) :
    (handleEvent world event).input c =
      match event.read c with
      | some result => (world.input c).read result
      | none => world.input c := by
  refine handleEvent_input world event fun unallocated => ?_
  obtain ⟨folded, unread⟩ := input_run run
  rw [folded, unread unallocated, List.foldl_nil]

/-- What was received is the handled lines and these bytes, which the buffer holds. -/
structure Unhandled (input : Input) (bytes : List UInt8) : Prop where
  holds : Holds input.buffer bytes
  balance : input.received = lineBytes input.handled ++ bytes

/-- A `recv` within the offered room, with the buffer not too long to be doubled. -/
structure InRoom (buffer : Buffer) (result : Option (List UInt8)) : Prop where
  below : buffer.length < 2 ^ 31
  fits : (result.getD []).length ≤ offered (makeRoom buffer)

/-- Without zero bytes one `ClientDoRead` loses and invents nothing. -/
theorem read_unhandled {input : Input} {result : Option (List UInt8)}
    (unhandled : Unhandled input bytes) (nonzero : 0 ∉ bytes) (room : InRoom input.buffer result)
    (plain : 0 ∉ result.getD []) :
    ∃ rest, Unhandled (input.read result) rest ∧ 0 ∉ rest := by
  obtain ⟨holds, balance⟩ := unhandled
  obtain ⟨grown, space, small⟩ := makeRoom_spec holds room.below
  cases result with
  | none => exact ⟨bytes, ⟨grown, balance⟩, nonzero⟩
  | some chunk =>
    cases chunk with
    | nil => exact ⟨bytes, ⟨grown, balance⟩, nonzero⟩
    | cons b chunk =>
      obtain ⟨received, inside⟩ := receive_spec grown space small room.fits
      rw [Option.getD_some] at plain received inside
      have clean : 0 ∉ bytes ++ b :: chunk := by
        rw [List.mem_append]
        exact fun zero => zero.elim nonzero plain
      have sameLength : (receive (makeRoom input.buffer) (b :: chunk)).length =
          (makeRoom input.buffer).length := rfl
      rw [read_bytes, Input.receive]
      by_cases newline : 10 ∈ bytes ++ b :: chunk
      · obtain ⟨line, rest, shape, absent⟩ := first_line _ newline clean
        rw [shape] at received clean
        obtain ⟨handled, left⟩ := takeLine_of_line received absent
        have restClean : 0 ∉ rest := fun zero => clean (by simp [zero])
        rw [kept_of_nonzero restClean] at left
        refine ⟨rest, ⟨left, ?_⟩, restClean⟩
        simp only [handled, balance, lineBytes, Option.toList_some, List.flatMap_append,
          List.append_assoc, shape]
        simp
      · have taken := takeLine_of_absent received (sameLength ▸ inside) newline
        refine ⟨bytes ++ b :: chunk, ⟨?_, ?_⟩, clean⟩
        · rw [taken]
          exact received
        · simp only [taken, balance, Option.toList_none, List.append_nil, List.append_assoc]

/-- A step in which what is read for the client has no zero byte, while its buffer is
not too long to be doubled. -/
def PlainStep (c : ClientRef) (world : World) (event : Event) (after : World) : Prop :=
  ServerStep world event after ∧ ∀ result, event.read c = some result →
    (world.client c).inBuffer.length < 2 ^ 31 ∧ 0 ∉ result.getD []

theorem Admissible.inRoom (admissible : Admissible world event) (read : event.read c = some result)
    (below : (world.client c).inBuffer.length < 2 ^ 31) : InRoom (world.input c).buffer result := by
  cases event with
  | readable client =>
    simp only [Event.read] at read
    split at read
    · subst c
      cases read
      exact ⟨below, admissible.2⟩
    · cases read
  | _ => cases read

theorem unhandled_run (run : Transition.Run (PlainStep c) serverCreate events world) :
    ServerRun events world ∧ ∃ bytes, Unhandled (world.input c) bytes ∧ 0 ∉ bytes := by
  induction run with
  | start => exact ⟨.start, [], ⟨.empty, rfl⟩, List.not_mem_nil⟩
  | @snoc events world event after _ step ih =>
    obtain ⟨⟨admissible, rfl⟩, plain⟩ := step
    obtain ⟨run, bytes, unhandled, nonzero⟩ := ih
    refine ⟨.snoc run ⟨admissible, rfl⟩, ?_⟩
    rw [step_input run event]
    cases read : event.read c with
    | none => exact ⟨bytes, unhandled, nonzero⟩
    | some result =>
      obtain ⟨below, clean⟩ := plain result read
      exact read_unhandled unhandled nonzero (admissible.inRoom read below) clean

/-- All that `recv` returned, in order, as the record has it. -/
theorem received_run (run : ServerRun events world) :
    receivedBytes c world.calls = (reads c events).flatMap (·.getD []) := by
  have folded : ∀ (results : List (Option (List UInt8))) (input : Input), (results.foldl Input.read input).received =
      input.received ++ results.flatMap (·.getD []) := by
    intro results input
    induction results generalizing input with
    | nil => simp
    | cons result results ih =>
      rw [List.foldl_cons, ih, received_read, List.flatMap_cons, List.append_assoc]
  have received : receivedBytes c world.calls = (world.input c).received := rfl
  rw [received, (input_run run).1, folded]
  rfl

/-- Framing loses and invents nothing: what was received is the handled lines, each
with its newline, and then the bytes in use, and behind these the buffer is zero. -/
theorem input_stream (run : Transition.Run (PlainStep c) serverCreate events world) :
    (reads c events).flatMap (·.getD []) =
        lineBytes (handledLines c world.calls) ++ (world.client c).inBuffer.content ∧
      (world.client c).inBuffer.memory.length = (world.client c).inBuffer.length ∧
      (∀ b ∈ (world.client c).inBuffer.memory.drop (world.client c).inBuffer.filled, b = 0) ∧
      ((world.client c).inBuffer.filled < (world.client c).inBuffer.length ∨
        (world.client c).inBuffer.filled = 0 ∧ (world.client c).inBuffer.length = 0) := by
  obtain ⟨serverRun, bytes, ⟨holds, balance⟩, _⟩ := unhandled_run run
  have buffer : Holds (world.client c).inBuffer bytes := holds
  refine ⟨?_, buffer.length_memory, ?_, ?_⟩
  · rw [← received_run serverRun, buffer.content_eq]
    exact balance
  · intro b mem
    rw [buffer.memory, buffer.filled, List.drop_left] at mem
    exact List.eq_of_mem_replicate mem
  · rw [buffer.filled]
    rcases buffer.room with inside | ⟨nil, zero⟩
    · exact .inl inside
    · exact .inr ⟨congrArg List.length nil, zero⟩

end Run

/-- The branch of `clientReceived` for a whole line. -/
theorem clientReceived_line [CMemory] {world : World} (buffer : (world.client c).inBuffer = before)
    (found : strchr (receive before bytes).memory 10 = some n) :
    clientReceived world c bytes =
      let terminated := { receive before bytes with memory := memcpy (receive before bytes).memory n [0] }
      let world := clientHandleLine (setInBuffer (world.record (.recv c bytes)) c terminated) c
        (stringAt terminated.memory)
      setInBuffer world c (dropLine (world.client c).inBuffer n) := by
  have inBuffer : ((world.record (.recv c bytes)).client c).inBuffer = before := buffer
  simp only [clientReceived, inBuffer, found]

/-- A server with one client, which has received nothing. -/
def oneClient : World := @clientCreate .zeroed serverCreate 5

theorem oneClient_spec : @ServerRun .zeroed [.accepted 5] oneClient ∧ oneClient.Connected 0 ∧
    oneClient.input 0 = .start := by
  let _ := CMemory.zeroed
  have room : serverCreate.connectedClients.length < 2 ^ 32 - 2 := by decide
  have run : ServerRun [] serverCreate := .start
  exact ⟨.single ⟨room, rfl⟩, (clientCreate_connected serverCreate 5 0).mpr (.inr rfl),
    step_input run (.accepted 5)⟩

theorem oneClient_connected : oneClient.Connected c ↔ c = 0 := by
  let _ := CMemory.zeroed
  rw [oneClient, clientCreate_connected]
  refine or_iff_right ?_
  intro connected
  exact absurd connected.1 (Nat.not_lt_zero c)

/-- A line, the beginning of the next one, and nothing else. -/
theorem input_stream_sample :
    [104, 105, 10, 120] =
      lineBytes (handledLines 0 (@clientDoRead .zeroed oneClient 0 (some [104, 105, 10, 120])).calls) ++
        ((@clientDoRead .zeroed oneClient 0 (some [104, 105, 10, 120])).client 0).inBuffer.content := by
  let _ := CMemory.zeroed
  have empty : (oneClient.client 0).inBuffer = .empty := congrArg Input.buffer oneClient_spec.2.2
  have room : serverCreate.connectedClients.length < 2 ^ 32 - 2 := by decide
  have accepted : PlainStep 0 serverCreate (.accepted 5) oneClient :=
    ⟨⟨room, rfl⟩, fun _ read => by cases read⟩
  have readable : PlainStep 0 oneClient (.readable 0 (some [104, 105, 10, 120]))
      (clientDoRead oneClient 0 (some [104, 105, 10, 120])) := by
    refine ⟨⟨⟨oneClient_spec.2.1, ?_⟩, rfl⟩, ?_⟩
    · rw [empty]
      decide
    · rintro result ⟨⟩
      rw [empty]
      decide
  exact (input_stream (.snoc (.single accepted) readable)).1

end KommunikationNetze.Chat
