import KommunikationNetze.Webserver.ProcessRequest

/-! A transaction of the web server, from the bytes of a request to the bytes of its response:
however the request is cut into pieces and however little the socket takes at a time, the reply
is decided by the method, the path and the files. -/
namespace KommunikationNetze.Webserver
open CLib Utils

section BlankLine

/-- Nothing that begins with this element is found in a part without it. -/
theorem infix_skip {x : τ} {more line rest : List τ} (absent : x ∉ line)
    (found : x :: more <:+: line ++ rest) : x :: more <:+: rest := by
  induction line with
  | nil => exact found
  | cons c line ih =>
    obtain ⟨other, absent⟩ := not_or.mp (mt List.mem_cons.mpr absent)
    rcases List.infix_cons_iff.mp found with first | later
    · exact absurd (List.cons_prefix_cons.mp first).1 other
    · exact ih absent later

def carriageReturn : CChar := ⟨13, by decide⟩

def lineFeed : CChar := ⟨10, by decide⟩

/-- A line of a request: something without a line delimiter. -/
def RequestLine (line : CString) : Prop := line ≠ [] ∧ ∀ c ∈ line, c ∉ kHTTPLineDelimiter

/-- The lines as they are written, and the first half of the delimiter behind them. -/
def writtenHalf (lines : List CString) : CString :=
  lines.flatMap (· ++ literal "\r\n") ++ literal "\r"

theorem writtenHalf_cons (line : CString) (lines : List CString) :
    writtenHalf (line :: lines) = line ++ literal "\r\n" ++ writtenHalf lines := by
  rw [writtenHalf, writtenHalf, List.flatMap_cons, List.append_assoc]

/-- No line begins with a delimiter. -/
theorem writtenHalf_start {lines : List CString} (proper : ∀ line ∈ lines, RequestLine line)
    (c : CChar) (delimiter : c ∈ kHTTPLineDelimiter) (more : CString)
    (start : c :: more <+: writtenHalf lines) : more = [] ∧ c ∈ literal "\r" := by
  cases lines with
  | nil =>
    have whole : c :: more <+: [carriageReturn] := start
    obtain ⟨rfl, rest⟩ := List.cons_prefix_cons.mp whole
    exact ⟨List.prefix_nil.mp rest, List.mem_singleton_self _⟩
  | cons line lines =>
    obtain ⟨nonempty, free⟩ := proper line List.mem_cons_self
    obtain ⟨first, rest, rfl⟩ := List.exists_cons_of_ne_nil nonempty
    rw [writtenHalf_cons, List.append_assoc, List.cons_append] at start
    obtain ⟨rfl, _⟩ := List.cons_prefix_cons.mp start
    exact absurd delimiter (free c List.mem_cons_self)

theorem no_blank {lines : List CString} (proper : ∀ line ∈ lines, RequestLine line) :
    ¬kHTTPContentDelimiter <:+: writtenHalf lines ∧ ¬literal "\n\n" <:+: writtenHalf lines := by
  induction lines with
  | nil => decide +kernel
  | cons line lines ih =>
    obtain ⟨free, rest⟩ := List.forall_mem_cons.mp proper
    obtain ⟨noneBefore, noneLater⟩ := ih rest
    have start := writtenHalf_start rest
    have absent : ∀ c ∈ kHTTPLineDelimiter, c ∉ line := fun c delimiter mem => free.2 c mem delimiter
    have text : writtenHalf (line :: lines) = line ++ carriageReturn :: lineFeed :: writtenHalf lines := by
      rw [writtenHalf_cons, List.append_assoc]
      rfl
    have carriage : carriageReturn ∈ kHTTPLineDelimiter := by decide
    have feed : lineFeed ∈ kHTTPLineDelimiter := by decide
    have different : carriageReturn ≠ lineFeed := by decide
    rw [text]
    constructor
    · intro found
      have blank : carriageReturn :: lineFeed :: carriageReturn :: [lineFeed] <:+:
          carriageReturn :: lineFeed :: writtenHalf lines := infix_skip (absent _ carriage) found
      rcases List.infix_cons_iff.mp blank with here | later
      · have next := (List.cons_prefix_cons.mp (List.cons_prefix_cons.mp here).2).2
        cases (start _ carriage _ next).1
      rcases List.infix_cons_iff.mp later with here | later
      · exact different (List.cons_prefix_cons.mp here).1
      · exact noneBefore later
    · intro found
      have blank : lineFeed :: [lineFeed] <:+: carriageReturn :: lineFeed :: writtenHalf lines :=
        infix_skip (absent _ feed) found
      rcases List.infix_cons_iff.mp blank with here | later
      · exact different (List.cons_prefix_cons.mp here).1.symm
      rcases List.infix_cons_iff.mp later with here | later
      · have next := (List.cons_prefix_cons.mp here).2
        exact absurd (start _ feed _ next).2 (by decide)
      · exact noneLater later

/-- The text of a request is its lines and a blank one. -/
theorem requestText_half (method path version : Token) (headers : List Header) :
    requestText method path version headers =
      writtenHalf (requestLine method path version :: headers.map Header.line) ++ [lineFeed] := by
  have half : literal "\r\n" = literal "\r" ++ [lineFeed] := rfl
  rw [requestText, headerText, writtenHalf, List.flatMap_cons, List.flatMap_map, List.append_assoc _ _ [lineFeed],
    ← half]

theorem requestText_lines (method path version : Token) (headers : List Header) :
    ∀ line ∈ requestLine method path version :: headers.map Header.line, RequestLine line := by
  rw [List.forall_mem_cons, List.forall_mem_map]
  refine ⟨⟨requestLine_nonempty method path version, requestLine_free method path version⟩, ?_⟩
  exact fun header _ => ⟨header.line_nonempty, header.line_free⟩

/-- No part of the request is complete before its end. -/
theorem requestText_first {method path version : Token} {headers : List Header} {begin : CString}
    (early : begin <+: requestText method path version headers) (complete : Complete begin.bytes) :
    begin = requestText method path version headers := by
  rw [requestText_half] at early ⊢
  obtain ⟨noContent, noFeeds⟩ := no_blank (requestText_lines method path version headers)
  rcases List.prefix_concat_iff.mp early with whole | part
  · exact whole
  · rw [Complete, infix_bytes, infix_bytes] at complete
    rcases complete with content | feeds
    · exact absurd (content.trans part.isInfix) noContent
    · exact absurd (feeds.trans part.isInfix) noFeeds

end BlankLine

section Reply

/-- What is sent before the body of a response that sets no header. -/
def replyHead (status : CString) : CString :=
  literal "HTTP/1.0 " ++ status ++ literal "\r\nServer: webserver/dev\r\n\r\n"

/-- The regular file below the document root that a path names. Below is meant as the server
compares it: the path of the file begins with that of the root. -/
def requestedFile (platform : Platform) (files : FileSystem) (path : CString) : Option CString :=
  ((files.realpath (kHTTPDocumentRoot platform ++ path)).map CanonicalPath.string).filter fun real =>
    kHTTPDocumentRoot platform <+: real ∧ files.lstat real = some .regular

/-- The bytes that answer a request. The method is known by its first characters. -/
def reply (platform : Platform) (files : FileSystem) (contents : Int → List UInt8)
    (method path : CString) : List UInt8 :=
  if methodOf method = .kHTTPMethodGet then
    match requestedFile platform files path with
    | some real => (replyHead (literal "200 OK")).bytes ++ contents (files.openReadOnly real)
    | none => (replyHead (literal "404 Not Found") ++ literal "404/Not Found").bytes
  else (replyHead (literal "501 Not Implemented") ++ literal "500/Not Implemented").bytes

theorem answers_error (host : Host) (code : HTTPStatusCode) (string : CString) :
    Answers host (errorResponse code string)
      (responseText code httpResponseCreate.headerDictionary string).bytes := by
  have calls : errorResponse code string =
      responseAfter [.setStatusCode code, .setResponseString string] := rfl
  have valid : ∀ call ∈ [.setStatusCode code, .setResponseString string], ResponseCall.Valid call := by
    simp [ResponseCall.Valid]
  rw [calls]
  constructor
  · intro n
    obtain ⟨returned, suspended, wire, due, run, _, left, total, complete, _⟩ :=
      sendTimes_sends host (headers_after valid).sendable ⟨rfl, rfl, rfl⟩ (responseAfter_notStarted _) n
    refine ⟨returned, suspended, wire, run, ⟨due, total⟩, fun whole => ?_⟩
    have all := total
    rw [left.eq_nil (complete whole), List.append_nil] at all
    exact all
  · intro accepting _
    exact response_completes host accepting valid rfl rfl

variable {platform : Platform} {pathMax : Nat} {files : FileSystem} {method path version : Token}
  {headers : List Header}

theorem requestedFile_eq {p : CString} (fits : (kHTTPDocumentRoot platform ++ p).length < pathMax) :
    requestedFile platform files p =
      (httpResolvePath platform pathMax files.realpath p).filter fun real =>
        files.lstat real = some .regular := by
  ext real
  simp only [requestedFile, Option.filter_eq_some_iff, decide_eq_true_eq, Option.map_eq_some_iff,
    httpResolvePath_eq_some fits]
  constructor
  · rintro ⟨⟨path, found, rfl⟩, inside, regular⟩
    exact ⟨⟨path, found, rfl, inside⟩, regular⟩
  · rintro ⟨⟨path, found, rfl, inside⟩, regular⟩
    exact ⟨⟨path, found, rfl⟩, inside, regular⟩

/-- One response is made of the request, and it answers with the reply. -/
theorem process_answers {host : Host}
    (fits : (kHTTPDocumentRoot platform ++ path.characters).length < pathMax)
    (opened : ∀ real, requestedFile platform files path.characters = some real →
      0 < files.openReadOnly real ∧ host.Transfers (files.openReadOnly real))
    (noError : ∀ call, host.sendfile call ≠ .error) :
    ∃ response,
      httpProcessRequest platform pathMax files (requestText method path version headers) = some [response] ∧
      Answers host response
        (reply platform files host.contents method.characters path.characters) := by
  have notFound : Answers host (errorResponse .kHTTPBadNotFound (literal "404/Not Found"))
      (replyHead (literal "404 Not Found") ++ literal "404/Not Found").bytes := by
    have text : responseText .kHTTPBadNotFound httpResponseCreate.headerDictionary (literal "404/Not Found") =
        replyHead (literal "404 Not Found") ++ literal "404/Not Found" := by decide +kernel
    exact text ▸ answers_error host .kHTTPBadNotFound (literal "404/Not Found")
  have created := httpRequestCreate_requestText method path version headers
  have inBuffer : InBuffer platform pathMax path.characters :=
    (inBuffer_iff platform pathMax _).mpr (List.length_append.symm.trans_lt fits)
  rw [requestedFile_eq fits] at opened
  rw [reply, requestedFile_eq fits]
  simp only [httpProcessRequest, created, httpRequestGetMethod, httpRequestGetPath, Option.bind_some,
    Option.mem_def, Option.some.injEq, forall_eq', if_pos inBuffer]
  by_cases get : methodOf method.characters = .kHTTPMethodGet
  · simp only [get, ne_eq, not_true_eq_false, if_false, if_true]
    cases resolved : httpResolvePath platform pathMax files.realpath path.characters with
    | none => exact ⟨_, rfl, notFound⟩
    | some real =>
      simp only [Option.bind_some, Option.filter_some, decide_eq_true_eq]
      by_cases regular : files.lstat real = some .regular
      · obtain ⟨descriptor, transfers⟩ := opened real (by
          rw [resolved, Option.filter_some, if_pos (decide_eq_true regular)])
        simp only [regular, if_true]
        refine ⟨_, rfl, ?_⟩
        have head : headBytes .kHTTPOK httpResponseCreate.headerDictionary =
            (replyHead (literal "200 OK")).bytes := by decide +kernel
        exact head ▸ answers_file ⟨transfers, rfl, noError⟩ fun zero => absurd zero descriptor.ne'
      · rw [if_neg regular]
        refine ⟨errorResponse .kHTTPBadNotFound (literal "404/Not Found"), ?_, notFound⟩
        rcases type : files.lstat real with _ | ⟨_ | _⟩
        case some.regular => exact absurd type regular
        all_goals rfl
  · simp only [get, ne_eq, not_false_eq_true, if_true, if_false]
    have text : responseText .kHTTPErrorNotImplemented httpResponseCreate.headerDictionary
        (literal "500/Not Implemented") =
          replyHead (literal "501 Not Implemented") ++ literal "500/Not Implemented" := by decide +kernel
    exact ⟨_, rfl, text ▸ answers_error host .kHTTPErrorNotImplemented (literal "500/Not Implemented")⟩

end Reply

section Transaction
variable [CMemory] (platform : Platform) (pathMax : Nat) (files : FileSystem)
  {method path version : Token} {headers : List Header} {host : Host}

/-- However a request arrives and however its response is sent, the reply goes out: the pieces
are put together to the whole request, one response is made of it, and this answers. The last
`recv` must not fill its space, the path must fit its buffer, and no `sendfile` may fail. -/
theorem web_transaction (delivery : Delivery (requestText method path version headers) results)
    (settles : Settles results)
    (fits : (kHTTPDocumentRoot platform ++ path.characters).length < pathMax)
    (opened : ∀ real, requestedFile platform files path.characters = some real →
      0 < files.openReadOnly real ∧ host.Transfers (files.openReadOnly real))
    (noError : ∀ call, host.sendfile call ≠ .error) :
    ∃ buffer response, readAll results = .dispatched buffer ∧
      httpProcessRequest platform pathMax files (stringAt buffer.memory) = some [response] ∧
      Answers host response (reply platform files host.contents method.characters path.characters) := by
  obtain ⟨unsettled, _⟩ | ⟨_, buffer, string, position, holds, begin, complete⟩ :=
    readAll_delivered delivery
  · exact absurd settles unsettled
  · obtain rfl := requestText_first begin complete
    obtain ⟨response, processed, answers⟩ := process_answers fits opened noError
    exact ⟨buffer, response, position, holds.string.symm ▸ processed, answers⟩

end Transaction

/-- The document root has one file, which is opened as the descriptor 5. -/
def readable : FileSystem where
  realpath path := if path = literal "/home/speich/htdocs/b" then some
    { names := [literal "home", literal "speich", literal "htdocs", literal "b"],
      free := by decide, proper := by decide } else none
  lstat _ := some .regular
  openReadOnly _ := 5

/-- The path of this file. -/
def readablePath : Token where
  characters := literal "/b"
  nonempty := by decide
  free := by decide +kernel

theorem web_transaction_get : ∃ buffer response n suspended wire,
    @readAll .zeroed [.received (pathRequest readablePath).bytes] = .dispatched buffer ∧
      httpProcessRequest .other 4096 readable (stringAt buffer.memory) = some [response] ∧
      sendTimes slowHost response n = some (true, suspended, wire) ∧
      wire.sent = (literal "HTTP/1.0 200 OK\r\nServer: webserver/dev\r\n\r\nAB").bytes := by
  let _ := CMemory.zeroed
  have delivery : Delivery (pathRequest readablePath) [.received (pathRequest readablePath).bytes] :=
    delivery_nil.concat (by decide +kernel) (by decide +kernel)
  have settles : Settles [.received (pathRequest readablePath).bytes] := by
    refine ⟨[], _, List.prefix_refl _, ?_, by decide +kernel⟩
    rw [List.nil_append, delivery.total, ← canParseBuffer_iff]
    decide +kernel
  have transfers : slowHost.Transfers 5 := ⟨rfl, fun _ count sent => by cases sent; decide⟩
  have unfailing : ∀ call, slowHost.sendfile call ≠ .error := fun call failed => by cases failed
  obtain ⟨buffer, response, position, processed, answers⟩ := web_transaction .other 4096 readable
    delivery settles (by decide +kernel) (fun real _ => ⟨show (0 : Int) < 5 by decide, transfers⟩)
    unfailing
  have serving : slowHost.Serving := ⟨unfailing, fun call => ⟨call, 1, Nat.le_refl call, rfl⟩⟩
  obtain ⟨n, suspended, wire, run⟩ := answers.completes (fun _ => ⟨2, rfl⟩) serving
  obtain ⟨_, _, _, same, _, whole⟩ := answers.sends n
  cases run.symm.trans same
  refine ⟨buffer, response, n, suspended, wire, position, processed, run, (whole rfl).trans ?_⟩
  decide +kernel

end KommunikationNetze.Webserver
