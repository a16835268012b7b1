import KommunikationNetze.CLib.Buffer
import KommunikationNetze.Webserver.HTTP
import Mathlib.Data.List.Induction

/-! Reading a request. A `recv` that fills the space it was offered is followed by another one
before anything is parsed. Lengths are natural numbers: a request as long as memory is large
stays behind the bound of `size_t`. -/
namespace KommunikationNetze.Webserver
open CLib

/-- What follows the first occurrence of the needle, the needle included. -/
def strstr : CString → CString → Option CString
  | [], needle => if needle <+: [] then some [] else none
  | c :: haystack, needle =>
    if needle <+: c :: haystack then some (c :: haystack) else strstr haystack needle

def httpCanParseBuffer (buffer : CString) : Bool :=
  if (strstr buffer kHTTPContentDelimiter).isSome then true
  else if (strstr buffer (literal "\n\n")).isSome then true
  else false

inductive RecvResult where
  | received (bytes : List UInt8)
  | again
  | closed
  | error
  deriving DecidableEq

section Read
variable [CMemory]

/-- The buffer that the first call makes. -/
def allocatedBuffer : Buffer :=
  { memory := memset (realloc [] 255) 0 0 255, length := 255, filled := 0 }

/-- Not a lot of buffer is expanded. -/
def expandedBuffer (buffer : Buffer) : Buffer :=
  if buffer.length - buffer.filled < 10 then
    let length := buffer.length * 2
    { buffer with
      memory := memset (realloc buffer.memory length) buffer.filled 0 (length - buffer.filled)
      length }
  else buffer

/-- The space offered to `recv`, which always leaves a null terminator. -/
def offered (buffer : Buffer) : Nat := buffer.length - buffer.filled - 1

def storeBytes (buffer : Buffer) (bytes : List UInt8) : Buffer :=
  { buffer with
    memory := memcpy buffer.memory buffer.filled bytes, filled := buffer.filled + bytes.length }

/-- Where a connection is in `HTTPConnectionReadRequest`: at its beginning, with NULL or the
buffer of the last call, at the next round of its loop, or done with the request. -/
inductive ReadPosition where
  | called (buffer : Option Buffer)
  | looping (buffer : Buffer)
  | dispatched (buffer : Buffer)
  | returned
  deriving DecidableEq

/-- The buffer the next `recv` gets, if there is one. -/
def recvBuffer : ReadPosition → Option Buffer
  | .called none => some (expandedBuffer allocatedBuffer)
  | .called (some buffer) => some (expandedBuffer buffer)
  | .looping buffer => some (expandedBuffer buffer)
  | .dispatched _ => none
  | .returned => none

/-- Behind a `recv` without an error; it stored no bytes if it would have had to wait. -/
def afterRecv (buffer : Buffer) (bytes : List UInt8) : ReadPosition :=
  let filled := storeBytes buffer bytes
  if bytes.length = offered buffer then .looping filled
  else if httpCanParseBuffer (stringAt filled.memory) then .dispatched filled
  -- the poll calls again
  else .called (some filled)

/-- The way to the next `recv`. -/
def readNext (position : ReadPosition) (result : RecvResult) : ReadPosition :=
  match recvBuffer position with
  | none => position
  | some buffer =>
    match result with
    | .error => .returned
    | .again => afterRecv buffer []
    | .closed => .returned
    | .received bytes => afterRecv buffer (bytes.take (offered buffer))

/-- A new connection after some calls of `recv`. -/
def readAll (results : List RecvResult) : ReadPosition := results.foldl readNext (.called none)

end Read

section Delivery

/-- The bytes that a `recv` delivers. -/
def RecvResult.bytes : RecvResult → List UInt8
  | received bytes => bytes
  | _ => []

def received (results : List RecvResult) : List UInt8 := results.flatMap RecvResult.bytes

variable [CMemory]

/-- The buffer that fills up with what is delivered. -/
def bufferAfter (results : List RecvResult) : Buffer :=
  results.foldl (fun buffer result => storeBytes (expandedBuffer buffer) result.bytes) allocatedBuffer

/-- How much the `recv` behind these is offered. -/
def offeredAfter (results : List RecvResult) : Nat := offered (expandedBuffer (bufferAfter results))

/-- The request arrives in pieces, none of them empty or longer than the space offered. -/
structure Delivery (request : CString) (results : List RecvResult) : Prop where
  pieces : ∀ before result, before ++ [result] <+: results → result = .again ∨
    ∃ bytes, result = .received bytes ∧ bytes ≠ [] ∧ bytes.length ≤ offeredAfter before
  total : received results = request.bytes

/-- A blank line. -/
def Complete (bytes : List UInt8) : Prop :=
  kHTTPContentDelimiter.bytes <:+: bytes ∨ (literal "\n\n").bytes <:+: bytes

/-- Some `recv` after which the request is complete does not fill its space. -/
def Settles (results : List RecvResult) : Prop :=
  ∃ before result, before ++ [result] <+: results ∧
    Complete (received (before ++ [result])) ∧ result.bytes.length ≠ offeredAfter before

/-- At the end `HTTPProcessRequest` is dispatched, with the request up to some point behind a
blank line. -/
def Processed (request : CString) (results : List RecvResult) : Prop :=
  ∃ buffer string rest, readAll (results ++ [.closed]) = .dispatched buffer ∧
    buffer.memory = CString.bytes string ++ 0 :: rest ∧ string <+: request ∧ Complete string.bytes

end Delivery

section Buffer

/-- The buffer has this content, and zeros behind it. -/
structure Holds (buffer : Buffer) (content : List UInt8) : Prop where
  memory : buffer.memory = content ++ List.replicate (buffer.length - content.length) 0
  filled : buffer.filled = content.length
  room : content.length < buffer.length
  large : 255 ≤ buffer.length

theorem holds_allocated [CMemory] : Holds allocatedBuffer [] := by
  have zeros := memset_rest (Nat.zero_le (realloc [] 255).length) 0
  simp only [length_realloc, Nat.sub_zero, List.take_zero, List.nil_append] at zeros
  exact ⟨zeros, rfl, Nat.zero_lt_succ 254, le_rfl⟩

theorem Holds.length (holds : Holds buffer content) : buffer.memory.length = buffer.length := by
  have room := holds.room
  rw [holds.memory, List.length_append, List.length_replicate]
  omega

theorem holds_expanded [CMemory] (holds : Holds buffer content) :
    Holds (expandedBuffer buffer) content ∧ 9 ≤ offered (expandedBuffer buffer) := by
  have room := holds.room
  have large := holds.large
  have filled := holds.filled
  by_cases short : buffer.length - buffer.filled < 10
  · obtain ⟨fresh, grown, _⟩ := realloc_grow
      (show buffer.memory.length ≤ buffer.length * 2 by rw [holds.length]; omega)
    have size := length_realloc buffer.memory (buffer.length * 2)
    have inside : buffer.filled ≤ (realloc buffer.memory (buffer.length * 2)).length := by omega
    have cleared := memset_rest inside 0
    have kept : (realloc buffer.memory (buffer.length * 2)).take buffer.filled = content := by
      rw [grown, holds.memory, filled, List.append_assoc, List.take_left]
    rw [size, kept] at cleared
    rw [expandedBuffer, if_pos short]
    refine ⟨⟨?_, filled, ?_, ?_⟩, ?_⟩
    · rw [filled] at cleared ⊢
      exact cleared
    · exact room.trans (by dsimp only; omega)
    · exact large.trans (by dsimp only; omega)
    · simp only [offered]
      omega
  · rw [expandedBuffer, if_neg short]
    exact ⟨holds, by rw [offered]; omega⟩

theorem holds_store (holds : Holds buffer content) (fits : bytes.length ≤ offered buffer) :
    Holds (storeBytes buffer bytes) (content ++ bytes) := by
  have room := holds.room
  have filled := holds.filled
  have size : (content ++ bytes).length = content.length + bytes.length := List.length_append
  rw [offered] at fits
  refine ⟨?_, ?_, ?_, holds.large⟩
  · simp only [storeBytes]
    rw [holds.memory, filled, memcpy_append, List.drop_replicate, size, Nat.sub_sub]
  · simp only [storeBytes]
    omega
  · simp only [storeBytes]
    omega

/-- A content without zeros is terminated. -/
theorem Holds.terminated {string : CString} (holds : Holds buffer string.bytes) :
    ∃ rest, buffer.memory = string.bytes ++ 0 :: rest := by
  have room := holds.room
  obtain ⟨more, count⟩ := Nat.exists_eq_add_of_lt room
  refine ⟨List.replicate more 0, ?_⟩
  rw [holds.memory, ← List.replicate_succ]
  congr 2
  omega

theorem Holds.string {string : CString} (holds : Holds buffer string.bytes) : stringAt buffer.memory = string := by
  obtain ⟨rest, terminated⟩ := holds.terminated
  rw [terminated, stringAt_bytes_append]

end Buffer

section Strings

theorem strstr_isSome (haystack needle : CString) :
    (strstr haystack needle).isSome ↔ needle <:+: haystack := by
  induction haystack with
  | nil =>
    simp only [strstr, List.prefix_nil, List.infix_nil]
    split <;> simp [*]
  | cons c haystack ih =>
    simp only [strstr, List.infix_cons_iff, ← ih]
    split <;> simp [*]

theorem infix_bytes (s t : CString) : CString.bytes s <:+: CString.bytes t ↔ s <:+: t := by
  constructor
  · intro inside
    obtain ⟨part, inPart, same⟩ := List.infix_map_iff.mp inside
    rwa [bytes_injective same]
  · exact fun inside => inside.map Subtype.val

theorem canParseBuffer_iff (buffer : CString) :
    httpCanParseBuffer buffer = true ↔ Complete buffer.bytes := by
  simp only [httpCanParseBuffer, strstr_isSome, Complete, infix_bytes]
  split
  · simp [*]
  · split <;> simp [*]

end Strings

section Positions

theorem received_concat (results : List RecvResult) (result : RecvResult) :
    received (results ++ [result]) = received results ++ result.bytes := by
  simp [received]

variable [CMemory]

theorem bufferAfter_concat (results : List RecvResult) (result : RecvResult) :
    bufferAfter (results ++ [result]) = storeBytes (expandedBuffer (bufferAfter results)) result.bytes := by
  simp [bufferAfter]

theorem readAll_concat (results : List RecvResult) (result : RecvResult) :
    readAll (results ++ [result]) = readNext (readAll results) result := by
  simp [readAll]

/-- What arrives first is the beginning of the request. -/
theorem Delivery.init (delivery : Delivery request (results ++ [result])) :
    ∃ first, first <+: request ∧ Delivery first results ∧
      CString.bytes first ++ result.bytes = request.bytes := by
  have total := delivery.total
  rw [received_concat] at total
  obtain ⟨first, rest, rfl, same, _⟩ := List.map_eq_append_iff.mp total.symm
  refine ⟨first, List.prefix_append _ _, ⟨fun before other early => ?_, same.symm⟩, ?_⟩
  · exact delivery.pieces before other (early.trans (List.prefix_append _ _))
  · rw [← total, ← same]
    rfl

/-- The last piece fits into the space offered. -/
theorem Delivery.last (delivery : Delivery request (results ++ [result])) :
    (result = .again ∨ ∃ bytes, result = .received bytes) ∧
      result.bytes.length ≤ offeredAfter results := by
  rcases delivery.pieces results result (List.prefix_refl _) with rfl | ⟨bytes, rfl, _, fits⟩
  · exact ⟨.inl rfl, Nat.zero_le _⟩
  · exact ⟨.inr ⟨bytes, rfl⟩, fits⟩

/-- The buffer always has what was delivered. -/
theorem Delivery.holds (delivery : Delivery request results) :
    Holds (bufferAfter results) request.bytes := by
  induction results using List.reverseRecOn generalizing request with
  | nil =>
    rw [← delivery.total]
    exact holds_allocated
  | append_singleton results result ih =>
    obtain ⟨first, _, earlier, same⟩ := delivery.init
    rw [bufferAfter_concat, ← same]
    exact holds_store (holds_expanded (ih earlier)).1 delivery.last.2

theorem settles_concat (results : List RecvResult) (result : RecvResult) :
    Settles (results ++ [result]) ↔ Settles results ∨
      Complete (received (results ++ [result])) ∧ result.bytes.length ≠ offeredAfter results := by
  constructor
  · rintro ⟨before, other, early, complete, short⟩
    rcases List.prefix_concat_iff.mp early with same | earlier
    · obtain ⟨rfl, last⟩ := List.append_inj' same rfl
      obtain rfl := List.singleton_inj.mp last
      exact .inr ⟨complete, short⟩
    · exact .inl ⟨before, other, earlier, complete, short⟩
  · rintro (⟨before, other, early, complete, short⟩ | ⟨complete, short⟩)
    · exact ⟨before, other, early.trans (List.prefix_append _ _), complete, short⟩
    · exact ⟨results, result, List.prefix_refl _, complete, short⟩

/-- At a position before the next `recv`, with this buffer. -/
def Waits (position : ReadPosition) (buffer : Buffer) : Prop :=
  recvBuffer position = some (expandedBuffer buffer)

/-- A piece is stored as a whole. -/
theorem readNext_delivered (waits : Waits position (bufferAfter results))
    (delivery : Delivery request (results ++ [result])) :
    readNext position result =
      if result.bytes.length = offeredAfter results then .looping (bufferAfter (results ++ [result]))
      else if httpCanParseBuffer request then .dispatched (bufferAfter (results ++ [result]))
      else .called (some (bufferAfter (results ++ [result]))) := by
  obtain ⟨kind, fits⟩ := delivery.last
  have next : readNext position result =
      afterRecv (expandedBuffer (bufferAfter results)) result.bytes := by
    rw [Waits] at waits
    rcases kind with rfl | ⟨bytes, rfl⟩
    · simp only [readNext, waits, RecvResult.bytes]
    · have whole := List.take_of_length_le fits
      simp only [offeredAfter, RecvResult.bytes] at whole
      simp only [readNext, waits, RecvResult.bytes, whole]
  have string := delivery.holds.string
  rw [bufferAfter_concat] at string
  simp only [next, afterRecv, string, bufferAfter_concat]
  rfl

/-- The request is waited for until a `recv` settles it. -/
theorem readAll_delivered (delivery : Delivery request results) :
    (¬Settles results ∧ Waits (readAll results) (bufferAfter results)) ∨
    (Settles results ∧ ∃ buffer string, readAll results = .dispatched buffer ∧
      Holds buffer (CString.bytes string) ∧ string <+: request ∧ Complete string.bytes) := by
  induction results using List.reverseRecOn generalizing request with
  | nil =>
    refine .inl ⟨?_, rfl⟩
    rintro ⟨before, result, early, _⟩
    simp at early
  | append_singleton results result ih =>
    obtain ⟨first, early, earlier, same⟩ := delivery.init
    rw [readAll_concat, settles_concat, delivery.total, ← canParseBuffer_iff]
    rcases ih earlier with ⟨unsettled, waits⟩ | ⟨settled, buffer, string, position, holds, begin, complete⟩
    · rw [readNext_delivered waits delivery]
      by_cases full : result.bytes.length = offeredAfter results
      · rw [if_pos full]
        exact .inl ⟨by simp [unsettled, full], rfl⟩
      · rw [if_neg full]
        by_cases parses : httpCanParseBuffer request = true
        · rw [if_pos parses]
          exact .inr ⟨.inr ⟨parses, full⟩, _, request, rfl, delivery.holds, List.prefix_refl _,
            (canParseBuffer_iff request).mp parses⟩
        · rw [if_neg parses]
          exact .inl ⟨by simp [unsettled, parses], rfl⟩
    · rw [position]
      exact .inr ⟨.inl settled, buffer, string, rfl, holds, begin.trans early, complete⟩

end Positions

/-- A request that arrives is processed if and only if some `recv` behind its blank line does
not fill the space it is offered. -/
theorem read_request [CMemory] (delivery : Delivery request results) :
    Processed request results ↔ Settles results := by
  rcases readAll_delivered delivery with ⟨unsettled, waits⟩ | ⟨settled, buffer, string, position, rest⟩
  · refine iff_of_false ?_ unsettled
    rintro ⟨buffer, string, rest, last, _⟩
    rw [readAll_concat, readNext, waits] at last
    cases last
  · refine iff_of_true ?_ settled
    obtain ⟨holds, begin, complete⟩ := rest
    obtain ⟨more, terminated⟩ := holds.terminated
    refine ⟨buffer, string, more, ?_, terminated, begin, complete⟩
    rw [readAll_concat, position]
    rfl

/-- One character at a time: every space offered is larger. -/
def singly (request : CString) : List RecvResult := request.bytes.map fun byte => .received [byte]

theorem singly_concat (request : CString) (c : CChar) :
    singly (request ++ [c]) = singly request ++ [.received (CString.bytes [c])] := by
  simp [singly]

section Singly
variable [CMemory]

theorem Delivery.room (delivery : Delivery request results) : 9 ≤ offeredAfter results :=
  (holds_expanded delivery.holds).2

theorem delivery_nil : Delivery [] [] := by
  refine ⟨fun before result early => ?_, rfl⟩
  simp at early

theorem Delivery.concat {piece : CString} (delivery : Delivery request results)
    (nonempty : piece ≠ []) (fits : piece.length ≤ offeredAfter results) :
    Delivery (request ++ piece) (results ++ [.received piece.bytes]) := by
  constructor
  · intro before result early
    rcases List.prefix_concat_iff.mp early with same | earlier
    · obtain ⟨rfl, last⟩ := List.append_inj' same rfl
      obtain rfl := List.singleton_inj.mp last
      exact .inr ⟨_, rfl, fun empty => nonempty (List.map_eq_nil_iff.mp empty), by simpa using fits⟩
    · exact delivery.pieces before result earlier
  · rw [received_concat, delivery.total, bytes_append]
    rfl

theorem delivery_singly (request : CString) : Delivery request (singly request) := by
  induction request using List.reverseRecOn with
  | nil => exact delivery_nil
  | append_singleton request c ih =>
    rw [singly_concat]
    exact ih.concat (by simp) (le_trans (by simp) ih.room)

/-- The character behind the blank line does not fill the space. -/
theorem settles_singly (complete : Complete (CString.bytes request)) : Settles (singly request) := by
  cases request using List.reverseRecOn with
  | nil =>
    rw [← canParseBuffer_iff] at complete
    exact absurd complete (by decide)
  | append_singleton request c =>
    have room := (delivery_singly request).room
    rw [singly_concat]
    refine ⟨singly request, _, List.prefix_refl _, ?_, ?_⟩
    · rwa [← singly_concat, (delivery_singly _).total]
    · simp only [RecvResult.bytes, length_bytes, List.length_singleton]
      omega

/-- A request that ends with its first blank line can arrive as it is, however long it is. -/
theorem readAll_singly (complete : Complete (CString.bytes request))
    (first : ∀ begin, begin <+: request → Complete (CString.bytes begin) → begin = request) :
    ∃ buffer, readAll (singly request) = .dispatched buffer ∧ stringAt buffer.memory = request := by
  rcases readAll_delivered (delivery_singly request) with
    ⟨unsettled, _⟩ | ⟨_, buffer, string, position, holds, begin, blank⟩
  · exact absurd (settles_singly complete) unsettled
  · rw [first string begin blank] at holds
    exact ⟨buffer, position, holds.string⟩

end Singly

/-- A request of 254 characters, as many as the first `recv` is offered. -/
def fullRequest : CString :=
  literal "GET /" ++ List.replicate 236 ⟨97, by decide⟩ ++ literal " HTTP/1.0\r\n\r\n"

theorem fullRequest_complete : Complete fullRequest.bytes :=
  (canParseBuffer_iff fullRequest).mp (by decide +kernel)

theorem read_request_singly :
    let _ := CMemory.zeroed
    Processed fullRequest (singly fullRequest) := by
  let _ := CMemory.zeroed
  exact (read_request (delivery_singly fullRequest)).mpr (settles_singly fullRequest_complete)

/-- It fills the space, and the next `recv` returns 0. -/
theorem read_request_full :
    let _ := CMemory.zeroed
    Complete fullRequest.bytes ∧ Delivery fullRequest [.received fullRequest.bytes] ∧
      ¬Processed fullRequest [.received fullRequest.bytes] := by
  let _ := CMemory.zeroed
  refine ⟨fullRequest_complete, ?_, ?_⟩
  · exact delivery_nil.concat (by decide +kernel) (by decide +kernel)
  · rintro ⟨buffer, string, rest, last, _⟩
    have closed : readAll ([.received fullRequest.bytes] ++ [.closed]) = .returned := by decide +kernel
    cases closed.symm.trans last

end KommunikationNetze.Webserver
