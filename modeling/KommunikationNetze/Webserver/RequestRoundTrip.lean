import KommunikationNetze.Webserver.RequestGrammar

/-! A request that is written out and parsed again has the path and the headers it
was written from. Each level of the parser meets its tokens in the order in which
they were written, since empty tokens between two delimiters are skipped. -/
namespace KommunikationNetze.Webserver
open CLib Utils

/-- A part of the request line. -/
structure Token where
  characters : CString
  nonempty : characters ≠ []
  free : ∀ c ∈ characters, c ∉ literal " \r\n"

/-- A header that fits on a line. The parser never trims the end of a value, so only
its start has to be free of whitespace. -/
structure Header where
  key : CString
  value : CString
  key_nonempty : key ≠ []
  key_free : ∀ c ∈ key, c ∉ literal ":\r\n"
  value_free : ∀ c ∈ value, c ∉ literal "\r\n"
  value_start : ∀ c ∈ value.head?, isspace c.val = false

def requestLine (method path version : Token) : CString :=
  method.characters ++ literal " " ++ path.characters ++ literal " " ++ version.characters

def Header.line (header : Header) : CString := header.key ++ literal ": " ++ header.value

def headerText (headers : List Header) : CString :=
  headers.flatMap fun header => header.line ++ literal "\r\n"

def requestText (method path version : Token) (headers : List Header) : CString :=
  requestLine method path version ++ literal "\r\n" ++ headerText headers ++ literal "\r\n"

/-- The value of the last header with this key. -/
def lastValue (headers : List Header) (key : CString) : Option CString :=
  (headers.reverse.find? (·.key = key)).map Header.value

theorem lastValue_snoc (headers : List Header) (header : Header) (key : CString) :
    lastValue (headers ++ [header]) key =
      if key = header.key then some header.value else lastValue headers key := by
  by_cases same : header.key = key
  · simp [lastValue, same]
  · have other : ¬key = header.key := fun h => same h.symm
    simp [lastValue, same, other]

section Lines

theorem Token.free_space (token : Token) : ∀ c ∈ token.characters, c ∉ literal " " := by
  intro c mem space
  have more : literal " " ⊆ literal " \r\n" := by decide
  exact token.free c mem (more space)

theorem Token.free_line (token : Token) : ∀ c ∈ token.characters, c ∉ kHTTPLineDelimiter := by
  intro c mem delimiter
  have more : kHTTPLineDelimiter ⊆ literal " \r\n" := by decide
  exact token.free c mem (more delimiter)

/-- A written line is what the line delimiters leave of the text; the second of them
is still in front of the rest. -/
theorem strsepExt_written {line : CString} (nonempty : line ≠ [])
    (free : ∀ c ∈ line, c ∉ kHTTPLineDelimiter) (rest : CString) :
    strsepExt (some (line ++ literal "\r\n" ++ rest)) kHTTPLineDelimiter =
      (some line, some (literal "\n" ++ rest)) := by
  have shape : line ++ literal "\r\n" ++ rest = line ++ ⟨13, by decide⟩ :: (literal "\n" ++ rest) := by
    have split : literal "\r\n" = ⟨13, by decide⟩ :: literal "\n" := by decide
    rw [split, List.append_assoc, List.cons_append]
  rw [shape]
  exact strsepExt_token nonempty free (by decide) _

theorem requestLine_free (method path version : Token) :
    ∀ c ∈ requestLine method path version, c ∉ kHTTPLineDelimiter := by
  have space : ∀ c ∈ literal " ", c ∉ kHTTPLineDelimiter := by decide +kernel
  intro c mem
  simp only [requestLine, List.mem_append] at mem
  rcases mem with (((mem | mem) | mem) | mem) | mem
  · exact method.free_line c mem
  · exact space c mem
  · exact path.free_line c mem
  · exact space c mem
  · exact version.free_line c mem

theorem requestLine_nonempty (method path version : Token) : requestLine method path version ≠ [] := by
  simp [requestLine, method.nonempty]

theorem Header.line_free (header : Header) : ∀ c ∈ header.line, c ∉ kHTTPLineDelimiter := by
  have between : ∀ c ∈ literal ": ", c ∉ kHTTPLineDelimiter := by decide +kernel
  have more : kHTTPLineDelimiter ⊆ literal ":\r\n" := by decide
  intro c mem
  simp only [Header.line, List.mem_append] at mem
  rcases mem with (mem | mem) | mem
  · exact fun delimiter => header.key_free c mem (more delimiter)
  · exact between c mem
  · exact header.value_free c mem

theorem Header.line_nonempty (header : Header) : header.line ≠ [] := by
  simp [Header.line, header.key_nonempty]

end Lines

section Parse

/-- The three tokens of the request line. -/
theorem parseActionLine_requestLine (request : HTTPRequest) (method path version : Token) :
    httpRequestParseActionLine request (some (requestLine method path version)) =
      some { request with
        path := some path.characters
        method := methodOf method.characters
        version := versionOf version.characters } := by
  have space : literal " " = [⟨32, by decide⟩] := by decide
  have first := strsepExt_token method.nonempty method.free_space (c := ⟨32, by decide⟩) (by decide)
    (path.characters ++ ⟨32, by decide⟩ :: version.characters)
  have second := strsepExt_token path.nonempty path.free_space (c := ⟨32, by decide⟩) (by decide)
    version.characters
  have third := strsepExt_last version.nonempty version.free_space
  have shape : requestLine method path version = method.characters ++ ⟨32, by decide⟩ ::
      (path.characters ++ ⟨32, by decide⟩ :: version.characters) := by
    simp [requestLine, space]
  simp only [httpRequestParseActionLine, shape, first, second, third]

/-- The blank after the colon is trimmed off and nothing else. -/
theorem strtrim_value (header : Header) : strtrim (literal " " ++ header.value) = header.value := by
  have space : literal " " = [⟨32, by decide⟩] := by decide
  have blank : isspace 32 = true := by decide
  have kept : header.value.dropWhile (fun c => isspace c.val) = header.value := by
    cases shape : header.value with
    | nil => rfl
    | cons c rest =>
      have start := header.value_start c (by simp [shape])
      simp [start]
  simp [strtrim_eq, space, blank, kept]

theorem parseHeaderLine_line (request : HTTPRequest) (header : Header) :
    httpRequestParseHeaderLine request header.line =
      some { request with
        headerDictionary := dictionarySet request.headerDictionary header.key (some header.value) } := by
  have colon : literal ": " = ⟨58, by decide⟩ :: literal " " := by decide
  have more : kHTTPHeaderDelimiter ⊆ literal ":\r\n" := by decide
  have found := strsepExt_token header.key_nonempty
    (fun c mem delimiter => header.key_free c mem (more delimiter))
    (c := ⟨58, by decide⟩) (by decide) (literal " " ++ header.value)
  have shape : header.line = header.key ++ ⟨58, by decide⟩ :: (literal " " ++ header.value) := by
    simp [Header.line, colon]
  simp only [httpRequestParseHeaderLine, shape, found, strtrim_value]

/-- Delimiters in front of the text are skipped. -/
theorem parseHeader_delim {c : CChar} (request : HTTPRequest) (delimiter : c ∈ kHTTPLineDelimiter)
    (rest : CString) :
    httpRequestParseHeader request (some (c :: rest)) = httpRequestParseHeader request (some rest) := by
  rw [parseHeader_eq, strsepExt_delim delimiter, ← parseHeader_eq]

/-- The dictionary after the headers have been stored in order. -/
def storeHeaders (dict : Dictionary CString) (headers : List Header) : Dictionary CString :=
  headers.foldl (fun dict header => dictionarySet dict header.key (some header.value)) dict

theorem parseHeader_text (headers : List Header) (request : HTTPRequest) :
    httpRequestParseHeader request (some (headerText headers ++ literal "\r\n")) =
      some { request with headerDictionary := storeHeaders request.headerDictionary headers } := by
  induction headers generalizing request with
  | nil =>
    have shape : headerText [] ++ literal "\r\n" = [⟨13, by decide⟩, ⟨10, by decide⟩] := by decide
    rw [shape, parseHeader_delim _ (by decide), parseHeader_delim _ (by decide), parseHeader_eq,
      strsepExt_nil]
    rfl
  | cons header headers ih =>
    have shape : headerText (header :: headers) ++ literal "\r\n" =
        header.line ++ literal "\r\n" ++ (headerText headers ++ literal "\r\n") := by
      simp [headerText]
    have newline : literal "\n" = [⟨10, by decide⟩] := by decide
    rw [shape, parseHeader_eq, strsepExt_written header.line_nonempty header.line_free]
    simp only [parseHeaderLine_line, Option.bind_some]
    rw [newline, List.singleton_append, parseHeader_delim _ (by decide), ih]
    rfl

theorem dictionaryGet_storeHeaders (headers : List Header) (key : CString) :
    dictionaryGet (storeHeaders dictionaryCreate headers) key = lastValue headers key := by
  induction headers using List.reverseRecOn with
  | nil => simp [storeHeaders, lastValue]
  | append_singleton headers header ih =>
    have last : storeHeaders dictionaryCreate (headers ++ [header]) =
        dictionarySet (storeHeaders dictionaryCreate headers) header.key (some header.value) := by
      simp [storeHeaders]
    rw [last, dictionaryGet_set, lastValue_snoc, ih]

theorem httpRequestCreate_requestText (method path version : Token) (headers : List Header) :
    httpRequestCreate (requestText method path version headers) =
      some { method := methodOf method.characters, version := versionOf version.characters,
             path := some path.characters,
             headerDictionary := storeHeaders dictionaryCreate headers } := by
  have shape : requestText method path version headers =
      requestLine method path version ++ literal "\r\n" ++ (headerText headers ++ literal "\r\n") := by
    simp [requestText]
  have newline : literal "\n" = [⟨10, by decide⟩] := by decide
  rw [httpRequestCreate, httpRequestParse, shape,
    strsepExt_written (requestLine_nonempty method path version) (requestLine_free method path version)]
  simp only [parseActionLine_requestLine, Option.bind_some]
  rw [newline, List.singleton_append, parseHeader_delim _ (by decide), parseHeader_text]

end Parse

/-- Every request that is written out is parsed, with the path and for every key the
value of the last header that has it. -/
theorem request_round_trip (method path version : Token) (headers : List Header) :
    ∃ request, httpRequestCreate (requestText method path version headers) = some request ∧
      httpRequestGetPath request = some path.characters ∧
      ∀ key, httpRequestGetHeaderValueForKey request key = lastValue headers key :=
  ⟨_, httpRequestCreate_requestText method path version headers, rfl,
    dictionaryGet_storeHeaders headers⟩

/-- A key twice, and a value with a colon in it. -/
def repeatedHeaders : List Header :=
  [⟨literal "Host", literal "a", by decide +kernel, by decide +kernel, by decide +kernel,
      by decide +kernel⟩,
    ⟨literal "Range", literal "0:9", by decide +kernel, by decide +kernel, by decide +kernel,
      by decide +kernel⟩,
    ⟨literal "Host", literal "b", by decide +kernel, by decide +kernel, by decide +kernel,
      by decide +kernel⟩]

def repeatedText : CString :=
  requestText ⟨literal "HEAD", by decide +kernel, by decide +kernel⟩
    ⟨literal "/", by decide +kernel, by decide +kernel⟩
    ⟨literal "HTTP/1.1", by decide +kernel, by decide +kernel⟩ repeatedHeaders

example : repeatedText = literal "HEAD / HTTP/1.1\r\nHost: a\r\nRange: 0:9\r\nHost: b\r\n\r\n" := by
  decide +kernel

example : (httpRequestCreate repeatedText).map (fun request =>
    (httpRequestGetHeaderValueForKey request (literal "Host"),
      httpRequestGetHeaderValueForKey request (literal "Range"))) =
    some (some (literal "b"), some (literal "0:9")) := by
  decide +kernel

end KommunikationNetze.Webserver
