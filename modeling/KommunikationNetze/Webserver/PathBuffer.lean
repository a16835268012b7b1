import KommunikationNetze.Webserver.ReadRequest
import KommunikationNetze.Webserver.RequestRecognition
import KommunikationNetze.Webserver.RequestRoundTrip
import KommunikationNetze.Webserver.ResolvePath

/-! The buffer in which the path of a request is put behind the document root. The limit of
both copies is the size of the whole buffer. -/
namespace KommunikationNetze.Webserver
open CLib

/-- `strncpy` writes `n` bytes, zeros behind a shorter string. -/
def strncpy (source : CString) (n : Nat) : List UInt8 :=
  source.bytes.take n ++ List.replicate (n - source.length) 0

/-- `strncat` writes at most `n` characters and a terminator behind the string in the block. A
block that is longer afterwards was overrun. -/
def strncat (memory : List UInt8) (source : CString) (n : Nat) : List UInt8 :=
  memcpy memory (stringAt memory).length (source.bytes.take n ++ [0])

variable (platform : Platform) (pathMax : Nat)

/-- The `PATH_MAX` bytes behind the pointer `path` of `HTTPResolvePath`, and what was written
behind them. -/
def pathBuffer (p : CString) : List UInt8 :=
  strncat (strncpy (kHTTPDocumentRoot platform) pathMax) p pathMax

/-- All that was written and the string with its terminator are in the buffer. -/
def InBuffer (p : CString) : Prop :=
  (pathBuffer platform pathMax p).length ≤ pathMax ∧
    (stringAt (pathBuffer platform pathMax p)).length + 1 ≤ pathMax

instance (p : CString) : Decidable (InBuffer platform pathMax p) := inferInstanceAs (Decidable (_ ∧ _))

theorem strncpy_eq (source : CString) (n : Nat) :
    strncpy source n = CString.bytes (source.take n) ++ List.replicate (n - source.length) 0 := by
  simp only [strncpy, CString.bytes, List.map_take]

theorem stringAt_strncpy (source : CString) (n : Nat) : stringAt (strncpy source n) = source.take n := by
  rw [strncpy_eq]
  cases n - source.length with
  | zero =>
    apply bytes_injective
    rw [List.replicate_zero, List.append_nil, bytes_stringAt_of_nonzero (bytes_ne_zero _)]
  | succ zeros => exact stringAt_bytes_append _ _

/-- The terminator of the root is overwritten by the path, whatever its length is. -/
theorem pathBuffer_eq (p : CString) :
    pathBuffer platform pathMax p =
      CString.bytes ((kHTTPDocumentRoot platform).take pathMax ++ p.take pathMax) ++
        0 :: List.replicate (pathMax - (kHTTPDocumentRoot platform).length - (min pathMax p.length + 1)) 0 := by
  have path : p.bytes.take pathMax = CString.bytes (p.take pathMax) := by
    simp only [CString.bytes, List.map_take]
  rw [pathBuffer, strncat, stringAt_strncpy, strncpy_eq,
    ← length_bytes ((kHTTPDocumentRoot platform).take pathMax), memcpy_append, path]
  simp only [bytes_append, List.append_assoc, List.singleton_append, List.drop_replicate,
    List.length_append, length_bytes, List.length_take, List.length_singleton]

/-- The string that `HTTPResolvePath` gives to `realpath`. -/
theorem stringAt_pathBuffer (p : CString) : stringAt (pathBuffer platform pathMax p) =
    (kHTTPDocumentRoot platform).take pathMax ++ p.take pathMax := by
  rw [pathBuffer_eq, stringAt_bytes_append]

theorem inBuffer_iff (p : CString) :
    InBuffer platform pathMax p ↔ (kHTTPDocumentRoot platform).length + p.length < pathMax := by
  have size : (pathBuffer platform pathMax p).length =
      min pathMax (kHTTPDocumentRoot platform).length + (min pathMax p.length + 1) +
        (pathMax - (kHTTPDocumentRoot platform).length - (min pathMax p.length + 1)) := by
    rw [pathBuffer_eq, List.length_append, length_bytes, List.length_append, List.length_take,
      List.length_take, List.length_cons, List.length_replicate]
    omega
  have used : (stringAt (pathBuffer platform pathMax p)).length =
      min pathMax (kHTTPDocumentRoot platform).length + min pathMax p.length := by
    rw [stringAt_pathBuffer, List.length_append, List.length_take, List.length_take]
  rw [InBuffer, size, used]
  omega

/-- The path of a request is the second token of its first line. -/
theorem accepted_path (accepted : httpRequestCreate buffer = some request) :
    httpRequestGetPath request = requestToken buffer 1 := by
  obtain ⟨actionLine, headers, method, path, version, more, fields, list, split, _, rfl⟩ :=
    httpRequestCreate_eq_some.mp accepted
  obtain ⟨_, _, same⟩ := requestWith_fields method path version fields
  rw [httpRequestGetPath, same, requestToken, list, List.head?_cons, Option.bind_some, split]
  rfl

/-- The path of an accepted request stays in the buffer if and only if it is shorter than what
the root leaves of it. -/
theorem path_buffer (platform : Platform) (pathMax : Nat)
    (accepted : httpRequestCreate buffer = some request) :
    (∀ p, httpRequestGetPath request = some p → InBuffer platform pathMax p) ↔
      ∀ token, requestToken buffer 1 = some token →
        (kHTTPDocumentRoot platform).length + token.length < pathMax := by
  simp only [accepted_path accepted, inBuffer_iff]

section Delivered

/-- A request line and a blank line. -/
def pathRequest (path : Token) : CString :=
  requestText ⟨literal "GET", by decide, by decide +kernel⟩ path
    ⟨literal "HTTP/1.0", by decide, by decide +kernel⟩ []

/-- There is no other blank line in front of the one it ends with. -/
theorem complete_prefix {line begin : CString} (free : ∀ c ∈ line, c ∉ kHTTPLineDelimiter)
    (early : begin <+: line ++ kHTTPContentDelimiter) (complete : Complete begin.bytes) :
    begin = line ++ kHTTPContentDelimiter := by
  have two : 2 ≤ begin.bytes.count 10 := by
    rcases complete with blank | blank
    · exact le_trans (by decide) (blank.sublist.count_le 10)
    · exact le_trans (by decide) (blank.sublist.count_le 10)
  by_contra shorter
  have cut : line ++ kHTTPContentDelimiter = (line ++ literal "\r\n\r") ++ [⟨10, by decide⟩] := by
    have split : kHTTPContentDelimiter = literal "\r\n\r" ++ [⟨10, by decide⟩] := by decide
    rw [split, List.append_assoc]
  rw [cut] at early shorter
  have before := (List.prefix_concat_iff.mp early).resolve_left shorter
  have none : (CString.bytes line).count 10 = 0 := by
    refine List.count_eq_zero.mpr fun mem => ?_
    obtain ⟨c, inLine, newline⟩ := List.mem_map.mp mem
    have last : (⟨10, by decide⟩ : CChar) ∈ kHTTPLineDelimiter := by decide
    exact free c inLine (by rwa [show c = ⟨10, by decide⟩ from Subtype.ext newline])
  have one : (CString.bytes (line ++ literal "\r\n\r")).count 10 = 1 := by
    rw [bytes_append, List.count_append, none]
    decide
  have few := (before.map Subtype.val).sublist.count_le 10
  simp only [CString.bytes] at two one
  omega

/-- However long the path is, the request arrives and is accepted with it. -/
theorem delivered_path [CMemory] (path : Token) :
    ∃ buffer request, readAll (singly (pathRequest path)) = .dispatched buffer ∧
      stringAt buffer.memory = pathRequest path ∧
      httpRequestCreate (pathRequest path) = some request ∧
      httpRequestGetPath request = some path.characters := by
  have shape : pathRequest path = requestLine ⟨literal "GET", by decide, by decide +kernel⟩ path
      ⟨literal "HTTP/1.0", by decide, by decide +kernel⟩ ++ kHTTPContentDelimiter := by
    have blank : kHTTPContentDelimiter = literal "\r\n" ++ literal "\r\n" := by decide
    simp [pathRequest, requestText, headerText, blank]
  have complete : Complete (pathRequest path).bytes := by
    rw [shape, bytes_append]
    exact .inl (List.suffix_append _ _).isInfix
  obtain ⟨buffer, position, string⟩ := readAll_singly complete fun begin early blank => by
    rw [shape] at early ⊢
    exact complete_prefix (requestLine_free _ _ _) early blank
  exact ⟨buffer, _, position, string, httpRequestCreate_requestText _ path _ [], rfl⟩

end Delivered

/-- The shortest path. -/
def shortPath : Token where
  characters := [slash]
  nonempty := by decide
  free := by decide +kernel

theorem path_buffer_short : ∃ request, httpRequestCreate (pathRequest shortPath) = some request ∧
    ∀ p, httpRequestGetPath request = some p → InBuffer .other 4096 p := by
  have accepted := accepted_of_isSome (pathRequest shortPath) (by decide +kernel)
  refine ⟨_, accepted, (path_buffer .other 4096 accepted).mpr ?_⟩
  have second : requestToken (pathRequest shortPath) 1 = some [slash] := by decide +kernel
  intro token found
  cases second.symm.trans found
  decide

/-- A path of 4096 characters. -/
def longPath : Token where
  characters := List.replicate 4096 slash
  nonempty := by
    rw [ne_eq, List.replicate_eq_nil_iff]
    omega
  free := fun c mem => by
    rw [List.eq_of_mem_replicate mem]
    decide

/-- It is received like any other and written past the end of the buffer. -/
theorem path_buffer_overrun :
    let _ := CMemory.zeroed
    ∃ buffer request, readAll (singly (pathRequest longPath)) = .dispatched buffer ∧
      stringAt buffer.memory = pathRequest longPath ∧
      httpRequestCreate (pathRequest longPath) = some request ∧
      httpRequestGetPath request = some longPath.characters ∧
      ¬InBuffer .other 4096 longPath.characters := by
  let _ := CMemory.zeroed
  obtain ⟨buffer, request, position, string, accepted, path⟩ := delivered_path longPath
  refine ⟨buffer, request, position, string, accepted, path, ?_⟩
  rw [inBuffer_iff, longPath, List.length_replicate]
  omega

end KommunikationNetze.Webserver
