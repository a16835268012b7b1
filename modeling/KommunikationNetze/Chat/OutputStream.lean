import KommunikationNetze.Chat.Server

/-! The output stream of a client. What `send` has accepted and what is still in the
buffer should be the written lines. After a partial `send` the accepted bytes stay
accounted as filled, so this holds exactly as long as every `send` is complete. -/
namespace KommunikationNetze.Chat
open CLib

/-- The bytes `send` has accepted for the client. -/
def sentBytes (c : ClientRef) (calls : List Call) : List UInt8 :=
  calls.flatMap fun
    | .send d bytes => if d = c then bytes else []
    | _ => []

/-- The lines written to the client, each with its newline. -/
def writtenBytes (c : ClientRef) (calls : List Call) : List UInt8 :=
  calls.flatMap fun
    | .writeLine d line _ => if d = c then line.bytes ++ [10] else []
    | _ => []

@[simp] theorem sentBytes_append (c : ClientRef) (calls added : List Call) :
    sentBytes c (calls ++ added) = sentBytes c calls ++ sentBytes c added := List.flatMap_append

@[simp] theorem writtenBytes_append (c : ClientRef) (calls added : List Call) :
    writtenBytes c (calls ++ added) = writtenBytes c calls ++ writtenBytes c added := List.flatMap_append

@[simp] theorem sentBytes_send (c client : ClientRef) (bytes : List UInt8) :
    sentBytes c [.send client bytes] = if client = c then bytes else [] := List.append_nil _

@[simp] theorem sentBytes_writeLine (c client : ClientRef) (line : CString) (channel : Option Nat) :
    sentBytes c [.writeLine client line channel] = [] := rfl

@[simp] theorem writtenBytes_send (c client : ClientRef) (bytes : List UInt8) :
    writtenBytes c [.send client bytes] = [] := rfl

@[simp] theorem writtenBytes_writeLine (c client : ClientRef) (line : CString)
    (channel : Option Nat) : writtenBytes c [.writeLine client line channel] =
      if client = c then line.bytes ++ [10] else [] := List.append_nil _

section Buffer

/-- The block is as long as recorded and the bytes in use are inside. -/
structure Bounded (buffer : Buffer) : Prop where
  allocated : buffer.memory.length = buffer.length
  inside : buffer.filled ≤ buffer.length
  fits : buffer.length < 2 ^ 32

theorem Bounded.empty : Bounded .empty := ⟨rfl, Nat.le_refl _, by decide⟩

theorem Bounded.length_content (bounded : Bounded buffer) : buffer.content.length = buffer.filled := by
  have := bounded.allocated
  have := bounded.inside
  rw [Buffer.content, List.length_take]
  omega

/-- The length of a grown buffer does not wrap. -/
def Fits (buffer : Buffer) (line : CString) : Prop :=
  buffer.length - buffer.filled < line.length + 1 → buffer.length + (line.length + 1) < 2 ^ 32

variable [CMemory]

/-- There is room for the line behind the bytes in use, and these stay. -/
theorem makeLineRoom_spec (bounded : Bounded buffer) (fits : Fits buffer line) :
    Bounded (makeLineRoom buffer line) ∧ (makeLineRoom buffer line).filled = buffer.filled ∧
      ∃ rest, (makeLineRoom buffer line).memory = buffer.content ++ rest ∧
        line.length + 1 ≤ rest.length := by
  obtain ⟨allocated, inside, small⟩ := bounded
  have room : u32Sub buffer.length buffer.filled = buffer.length - buffer.filled :=
    u32Sub_of_le inside
  have left : (buffer.memory.drop buffer.filled).length = buffer.length - buffer.filled := by
    rw [List.length_drop, allocated]
  rw [makeLineRoom, room]
  split
  · rename_i short
    have length := u32_of_lt (fits short)
    obtain ⟨fresh, grown, freshLength⟩ :=
      realloc_grow (show buffer.memory.length ≤ buffer.length + (line.length + 1) by omega)
    refine ⟨⟨?_, ?_, ?_⟩, rfl, buffer.memory.drop buffer.filled ++ fresh, ?_, ?_⟩
    · simp only [length, length_realloc]
    · simp only [length]
      omega
    · simp only [length]
      exact fits short
    · simp only [length, grown]
      rw [← List.append_assoc, buffer.content_rest]
    · rw [List.length_append, left, freshLength]
      omega
  · refine ⟨⟨allocated, inside, small⟩, rfl, _, buffer.content_rest.symm, ?_⟩
    omega

theorem appendLine_spec (bounded : Bounded buffer) (fits : Fits buffer line) :
    Bounded (appendLine buffer line) ∧
      (appendLine buffer line).filled = buffer.filled + (line.length + 1) ∧
      (appendLine buffer line).content = buffer.content ++ (line.bytes ++ [10]) := by
  obtain ⟨⟨allocated, inside, small⟩, same, rest, memory, room⟩ := makeLineRoom_spec bounded fits
  have length := bounded.length_content
  have total : (makeLineRoom buffer line).length = buffer.filled + rest.length := by
    rw [← allocated, memory, List.length_append, length]
  have filled : u32 (buffer.filled + line.length) = buffer.filled + line.length :=
    u32_of_lt (by omega)
  have filledAfter : u32 (buffer.filled + line.length + 1) = buffer.filled + (line.length + 1) := by
    rw [u32_of_lt (by omega), Nat.add_assoc]
  have copied : memcpy (makeLineRoom buffer line).memory buffer.filled line.bytes =
      (buffer.content ++ line.bytes) ++ rest.drop line.length := by
    have copy := memcpy_append buffer.content line.bytes rest
    rw [length, length_bytes] at copy
    rw [memory, copy]
  have ended : memcpy ((buffer.content ++ line.bytes) ++ rest.drop line.length)
      (buffer.filled + line.length) [10] =
      buffer.content ++ (line.bytes ++ [10]) ++ (rest.drop line.length).drop 1 := by
    have copy := memcpy_append (buffer.content ++ line.bytes) [10] (rest.drop line.length)
    rw [List.length_append, length, length_bytes] at copy
    rw [copy, List.append_assoc buffer.content, List.length_singleton]
  have written : (appendLine buffer line).memory =
      buffer.content ++ (line.bytes ++ [10]) ++ (rest.drop line.length).drop 1 := by
    simp only [appendLine, same, filled, copied, ended]
  have count : (appendLine buffer line).filled = buffer.filled + (line.length + 1) := by
    simp only [appendLine, same, filled, filledAfter]
  have blockLength : (appendLine buffer line).length = buffer.filled + rest.length := by
    simp only [appendLine, total]
  refine ⟨⟨?_, ?_, ?_⟩, count, ?_⟩
  · rw [written, blockLength]
    simp only [List.length_append, length, length_bytes, List.length_drop, List.length_singleton]
    omega
  · rw [count, blockLength]
    omega
  · rw [blockLength, ← total]
    exact small
  · have taken : (buffer.content ++ (line.bytes ++ [10])).length = buffer.filled + (line.length + 1) := by
      rw [List.length_append, List.length_append, length, length_bytes, List.length_singleton]
    rw [Buffer.content, written, count, ← taken, List.take_left]

omit [CMemory] in
/-- Everything was sent, or the count of the bytes in use is as before. -/
theorem consume_spec (bounded : Bounded buffer) (accepted : Nat) (positive : 0 < accepted)
    (offered : accepted ≤ buffer.filled) :
    Bounded (consume buffer accepted) ∧
      (consume buffer accepted).filled = if accepted = buffer.filled then 0 else buffer.filled := by
  obtain ⟨allocated, inside, small⟩ := bounded
  by_cases complete : buffer.filled = accepted
  · rw [consume, if_pos complete, if_pos complete.symm]
    exact ⟨.empty, rfl⟩
  · rw [consume, if_neg complete, if_neg (Ne.symm complete)]
    refine ⟨⟨?_, inside, small⟩, rfl⟩
    have moved := List.length_take_of_le (show buffer.filled - accepted ≤
      (buffer.memory.drop accepted).length by rw [List.length_drop]; omega)
    simp only [memmove, memcpy, List.take_zero, List.nil_append, List.length_append, moved,
      List.length_drop]
    omega

end Buffer

/-- A call on a client. `send` is offered all bytes in use and accepts some of them. -/
inductive OutputCall where
  | writeLine (client : ClientRef) (line : CString)
  | doWrite (client : ClientRef) (accepted offered : Nat)

/-- The accepted bytes that stay accounted as filled. -/
def OutputCall.excess (c : ClientRef) : OutputCall → Nat
  | .doWrite client accepted offered => if client = c ∧ accepted ≠ offered then accepted else 0
  | .writeLine .. => 0

def excess (c : ClientRef) (calls : List OutputCall) : Nat := (calls.map (OutputCall.excess c)).sum

theorem excess_snoc (c : ClientRef) (calls : List OutputCall) (call : OutputCall) :
    excess c (calls ++ [call]) = excess c calls + call.excess c := by
  simp [excess]

theorem excess_doWrite {accepted offered : Nat} (positive : 0 < accepted) :
    OutputCall.excess c (.doWrite client accepted offered) = 0 ↔ (client = c → accepted = offered) := by
  simp only [OutputCall.excess]
  split
  · rename_i partly
    constructor
    · intro zero
      omega
    · intro complete
      exact absurd (complete partly.1) partly.2
  · rename_i other
    simpa using other

/-- A client nothing was written to. -/
def Fresh (c : ClientRef) (world : World) : Prop :=
  (world.client c).outBuffer = .empty ∧ sentBytes c world.calls = [] ∧ writtenBytes c world.calls = []

section Run
variable [CMemory]

inductive OutputStep (world : World) : OutputCall → World → Prop where
  | writeLine (fits : Fits (world.client client).outBuffer line) :
      OutputStep world (.writeLine client line) (clientWriteLine world client line)
  | doWrite {accepted : Nat} (positive : 0 < accepted)
      (within : accepted ≤ (world.client client).outBuffer.filled) :
      OutputStep world (.doWrite client accepted (world.client client).outBuffer.filled)
        (clientDoWrite world client accepted)

theorem clientDoWrite_calls (world : World) (client : ClientRef) {accepted : Nat}
    (positive : 0 < accepted) :
    (clientDoWrite world client accepted).calls =
      world.calls ++ [.send client ((world.client client).outBuffer.content.take accepted)] := by
  have accepts : ¬(accepted : Int) ≤ 0 := by omega
  simp only [clientDoWrite, if_neg accepts, Int.toNat_natCast]
  split <;> rfl

theorem clientDoWrite_outBuffer (world : World) (client c : ClientRef) {accepted : Nat}
    (positive : 0 < accepted) :
    ((clientDoWrite world client accepted).client c).outBuffer =
      if client = c then consume (world.client c).outBuffer accepted else (world.client c).outBuffer := by
  have accepts : ¬(accepted : Int) ≤ 0 := by omega
  have updated : ((world.setClient client { world.client client with
      outBuffer := consume (world.client client).outBuffer accepted }).client c).outBuffer =
      if client = c then consume (world.client c).outBuffer accepted else (world.client c).outBuffer := by
    by_cases same : client = c
    · subst c
      simp [World.setClient]
    · simp [World.setClient, same, Ne.symm same]
  simp only [clientDoWrite, if_neg accepts, Int.toNat_natCast]
  split <;> exact updated

theorem clientWriteLine_outBuffer (world : World) (client c : ClientRef) (line : CString) :
    ((clientWriteLine world client line).client c).outBuffer =
      if client = c then appendLine (world.client c).outBuffer line else (world.client c).outBuffer := by
  by_cases same : client = c
  · subst c
    simp [clientWriteLine, clientWriteLineFor, World.setClient, World.record]
  · simp [clientWriteLine, clientWriteLineFor, World.setClient, World.record, same, Ne.symm same]

/-- The balance of a client's stream. The excess is what the partial `send`s accepted. -/
structure Account (c : ClientRef) (calls : List OutputCall) (world : World) : Prop where
  bounded : Bounded (world.client c).outBuffer
  balance : (sentBytes c world.calls).length + (world.client c).outBuffer.filled =
    (writtenBytes c world.calls).length + excess c calls
  exact : excess c calls = 0 →
    sentBytes c world.calls ++ (world.client c).outBuffer.content = writtenBytes c world.calls

theorem account_writeLine (account : Account c calls world)
    (fits : Fits (world.client client).outBuffer line) :
    Account c (calls ++ [.writeLine client line]) (clientWriteLine world client line) := by
  obtain ⟨bounded, balance, exact⟩ := account
  have buffer := clientWriteLine_outBuffer world client c line
  have record : (clientWriteLine world client line).calls =
      world.calls ++ [.writeLine client line none] := rfl
  have excess : excess c (calls ++ [.writeLine client line]) = excess c calls := excess_snoc ..
  by_cases same : client = c
  · subst c
    obtain ⟨boundedAfter, filled, content⟩ := appendLine_spec bounded fits
    rw [if_pos rfl] at buffer
    refine ⟨buffer ▸ boundedAfter, ?_, ?_⟩
    · rw [buffer, filled, record, excess]
      simp only [sentBytes_append, sentBytes_writeLine, writtenBytes_append, writtenBytes_writeLine,
        if_true, List.append_nil, List.length_append, length_bytes, List.length_singleton]
      omega
    · intro none
      rw [excess] at none
      rw [buffer, content, record]
      simp only [sentBytes_append, sentBytes_writeLine, writtenBytes_append, writtenBytes_writeLine,
        if_true, List.append_nil, ← List.append_assoc, exact none]
  · rw [if_neg same] at buffer
    refine ⟨buffer ▸ bounded, ?_, ?_⟩
    · rw [buffer, record, excess]
      simpa [same] using balance
    · intro none
      rw [excess] at none
      rw [buffer, record]
      simpa [same] using exact none

theorem account_doWrite (account : Account c calls world) {accepted : Nat} (positive : 0 < accepted)
    (within : accepted ≤ (world.client client).outBuffer.filled) :
    Account c (calls ++ [.doWrite client accepted (world.client client).outBuffer.filled])
      (clientDoWrite world client accepted) := by
  obtain ⟨bounded, balance, exact⟩ := account
  have buffer := clientDoWrite_outBuffer world client c positive
  have record := clientDoWrite_calls world client positive
  have excess := excess_snoc c calls (.doWrite client accepted (world.client client).outBuffer.filled)
  by_cases same : client = c
  · subst c
    obtain ⟨boundedAfter, filled⟩ := consume_spec bounded accepted positive within
    have sent : ((world.client client).outBuffer.content.take accepted).length = accepted := by
      rw [List.length_take, bounded.length_content]
      omega
    rw [if_pos rfl] at buffer
    by_cases complete : accepted = (world.client client).outBuffer.filled
    · have all : (world.client client).outBuffer.content.take accepted =
          (world.client client).outBuffer.content :=
        List.take_of_length_le (by rw [bounded.length_content]; omega)
      have empty : consume (world.client client).outBuffer accepted = .empty := if_pos complete.symm
      have nothing : OutputCall.excess client
          (.doWrite client accepted (world.client client).outBuffer.filled) = 0 := by
        simp [OutputCall.excess, complete]
      rw [empty] at buffer
      rw [nothing, Nat.add_zero] at excess
      rw [all] at record sent
      refine ⟨buffer ▸ .empty, ?_, ?_⟩
      · rw [buffer, record, excess]
        simp only [sentBytes_append, sentBytes_send, writtenBytes_append, writtenBytes_send, if_true,
          List.append_nil, List.length_append, sent, Buffer.empty]
        omega
      · intro none
        rw [excess] at none
        rw [buffer, record, writtenBytes_append, writtenBytes_send, List.append_nil, ← exact none]
        simp [Buffer.empty, Buffer.content]
    · have partly : OutputCall.excess client
          (.doWrite client accepted (world.client client).outBuffer.filled) = accepted := by
        simp [OutputCall.excess, complete]
      rw [if_neg complete] at filled
      rw [partly] at excess
      refine ⟨buffer ▸ boundedAfter, ?_, ?_⟩
      · rw [buffer, filled, record, excess]
        simp only [sentBytes_append, sentBytes_send, writtenBytes_append, writtenBytes_send, if_true,
          List.append_nil, List.length_append, sent]
        omega
      · intro none
        omega
  · rw [if_neg same] at buffer
    have nothing : OutputCall.excess c
        (.doWrite client accepted (world.client client).outBuffer.filled) = 0 := by
      simp [OutputCall.excess, same]
    rw [nothing, Nat.add_zero] at excess
    refine ⟨buffer ▸ bounded, ?_, ?_⟩
    · rw [buffer, record, excess]
      simpa [same] using balance
    · intro none
      rw [excess] at none
      rw [buffer, record]
      simpa [same] using exact none

theorem account_run (fresh : Fresh c origin) (run : Transition.Run OutputStep origin calls world) :
    Account c calls world := by
  obtain ⟨empty, sent, written⟩ := fresh
  refine Transition.Run.history (P := Account c) ?_ ?_ run
  · refine ⟨empty ▸ .empty, ?_, ?_⟩
    · rw [empty, sent, written]
      rfl
    · intro _
      rw [empty, sent, written]
      rfl
  · intro calls world call after account step
    cases step with
    | writeLine fits => exact account_writeLine account fits
    | doWrite positive within => exact account_doWrite account positive within

/-- Every accepted count is positive, so there is no excess exactly if no `send` to the
client was partial. -/
theorem excess_eq_zero (run : Transition.Run OutputStep origin calls world) :
    excess c calls = 0 ↔
      ∀ accepted offered, .doWrite c accepted offered ∈ calls → accepted = offered := by
  induction run with
  | start => simp [excess]
  | snoc _ step ih =>
    rw [excess_snoc, Nat.add_eq_zero_iff, ih]
    cases step with
    | writeLine fits => simp [OutputCall.excess]
    | @doWrite client accepted positive within =>
      rw [excess_doWrite positive]
      simp only [List.mem_append, List.mem_singleton, OutputCall.doWrite.injEq]
      constructor
      · rintro ⟨earlier, last⟩ a o (mem | ⟨rfl, rfl, rfl⟩)
        · exact earlier a o mem
        · exact last rfl
      · intro complete
        exact ⟨fun a o mem => complete a o (.inl mem), fun same => complete _ _ (.inr ⟨same.symm, rfl, rfl⟩)⟩

/-- The stream is exact as long as every `send` accepts all it was offered, and from
the first partial `send` on it never is again. -/
theorem output_stream (fresh : Fresh c origin) (run : Transition.Run OutputStep origin calls world) :
    sentBytes c world.calls ++ (world.client c).outBuffer.content = writtenBytes c world.calls ↔
      ∀ accepted offered, .doWrite c accepted offered ∈ calls → accepted = offered := by
  obtain ⟨bounded, balance, exact⟩ := account_run fresh run
  rw [← excess_eq_zero run]
  constructor
  · intro same
    have length := congrArg List.length same
    rw [List.length_append, bounded.length_content] at length
    omega
  · exact exact

end Run

/-- A new client with one written line of two characters. -/
def lineWritten : World :=
  @clientWriteLine .zeroed (allocateClient serverCreate 5) 0 (literal "ab")

theorem lineWritten_run :
    Fresh 0 (allocateClient serverCreate 5) ∧
      Transition.Run (@OutputStep .zeroed) (allocateClient serverCreate 5)
        [.writeLine 0 (literal "ab")] lineWritten := by
  let _ := CMemory.zeroed
  refine ⟨?_, .single (.writeLine fun _ => by decide)⟩
  simp [Fresh, allocateClient, World.setClient, zeroClient, serverCreate, sentBytes, writtenBytes]

/-- All three bytes are sent at once. -/
theorem output_stream_complete :
    sentBytes 0 (@clientDoWrite .zeroed lineWritten 0 3).calls ++
        ((@clientDoWrite .zeroed lineWritten 0 3).client 0).outBuffer.content =
      writtenBytes 0 (@clientDoWrite .zeroed lineWritten 0 3).calls := by
  let _ := CMemory.zeroed
  have filled : (lineWritten.client 0).outBuffer.filled = 3 := by decide
  have step : OutputStep lineWritten (.doWrite 0 3 (lineWritten.client 0).outBuffer.filled)
      (clientDoWrite lineWritten 0 3) := .doWrite (by decide) (by decide)
  refine (output_stream lineWritten_run.1 (.snoc lineWritten_run.2 step)).mpr ?_
  simp [filled]

/-- `send` accepts only the first of the three bytes. -/
theorem output_stream_partial : ∃ calls world,
    Fresh 0 (allocateClient serverCreate 5) ∧
      Transition.Run (@OutputStep .zeroed) (allocateClient serverCreate 5) calls world ∧
      sentBytes 0 world.calls ++ (world.client 0).outBuffer.content ≠ writtenBytes 0 world.calls := by
  let _ := CMemory.zeroed
  have step : OutputStep lineWritten (.doWrite 0 1 (lineWritten.client 0).outBuffer.filled)
      (clientDoWrite lineWritten 0 1) := .doWrite (by decide) (by decide)
  exact ⟨_, _, lineWritten_run.1, .snoc lineWritten_run.2 step, by decide⟩

end KommunikationNetze.Chat
