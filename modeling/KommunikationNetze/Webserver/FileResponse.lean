import KommunikationNetze.Webserver.FileBody

/-! The stream of a response with a file. Nothing before the body depends on it, so a response
with an empty string goes before: where the file begins, the status line and the headers are
sent, and the file follows. -/
namespace KommunikationNetze.Webserver
open CLib Utils

/-- The same response with this string. -/
def HTTPResponse.withString (response : HTTPResponse) (string : Option CString) : HTTPResponse :=
  { response with responseString := string }

/-- The result of a call on the response with this string. -/
def stringResult (string : Option CString) (result : Bool × HTTPResponse × Wire) :
    Bool × HTTPResponse × Wire := (result.1, result.2.1.withString string, result.2.2)

section Before
variable {host : Host} {response : HTTPResponse} {wire : Wire} {string : Option CString}

theorem statusLine_withString :
    httpResponseSendStatusLine host (response.withString string) wire =
      (httpResponseSendStatusLine host response wire).map (stringResult string) := by
  have same : statusLineInfo (response.withString string) = statusLineInfo response := rfl
  rw [httpResponseSendStatusLine, httpResponseSendStatusLine, same, Option.map_map]
  congr 1
  funext info
  simp only [Function.comp_apply]
  rcases httpResponseSendString host wire info.gernal info.statusLine with ⟨_ | _, _, _⟩ <;> rfl

theorem headersEnd_withString (info : HTTPResponseSendHeadersInfo) :
    sendHeadersEnd host info (response.withString string) wire =
      stringResult string (sendHeadersEnd host info response wire) := by
  rw [sendHeadersEnd, sendHeadersEnd]
  split
  · rcases httpResponseSendString host wire info.general (literal "\r\n") with ⟨_ | _, _, _⟩ <;> rfl
  · rfl

theorem headers_withString (response : HTTPResponse) :
    httpResponseSendHeaders host (response.withString string) wire =
      (httpResponseSendHeaders host response wire).map (stringResult string) := by
  have same : headersInfo (response.withString string) =
      (headersInfo response).map fun started => (started.1, started.2.withString string) := by
    rw [headersInfo, headersInfo]
    simp only [HTTPResponse.withString]
    split <;> rfl
  rw [httpResponseSendHeaders, httpResponseSendHeaders, same]
  rcases headersInfo response with _ | ⟨info, begun⟩
  · rfl
  simp only [Option.map_some, Option.bind_some, Option.map_map]
  congr 1
  funext result
  obtain ⟨_ | _, last, after⟩ := result
  · rfl
  · exact headersEnd_withString last

/-- Nothing before the body depends on the string. -/
theorem sendBeforeBody_withString :
    sendBeforeBody host (response.withString string) wire =
      (sendBeforeBody host response wire).map (stringResult string) := by
  have fromStatusLine : ∀ response : HTTPResponse,
      sendBeforeBody.fromStatusLine host wire (response.withString string) =
        (sendBeforeBody.fromStatusLine host wire response).map (stringResult string) := by
    intro response
    rw [sendBeforeBody.fromStatusLine, sendBeforeBody.fromStatusLine, statusLine_withString]
    rcases httpResponseSendStatusLine host response wire with _ | ⟨_ | _, next, after⟩
    · rfl
    · rfl
    · exact headers_withString { next with sendStatus := .kHTTPResponseSendingHeaders }
  have status : (response.withString string).sendStatus = response.sendStatus := rfl
  rw [sendBeforeBody, sendBeforeBody, status]
  split
  · exact fromStatusLine { response with sendStatus := .kHTTPResponseSendingStatusLine }
  · exact fromStatusLine response
  · exact headers_withString response
  · rfl
  · rfl

end Before

section Times
variable {host : Host} {response : HTTPResponse} {fd : Int}

/-- What is sent before the body. -/
def headBytes (code : HTTPStatusCode) (dict : Dictionary CString) : List UInt8 :=
  (responseText code dict []).bytes

theorem sendTimes_succ (run : sendTimes host response n = some (returned, suspended, wire)) :
    sendTimes host response (n + 1) = httpResponseSend host suspended wire := by
  rw [sendTimes, run, Option.bind_some]

/-- Before the body, the response with the empty string is where the one with the file is. -/
theorem sendTimes_before (file : FileResponse fd response)
    (n : Nat) (defined : (sendTimes host (response.withString (some [])) n).isSome) :
    (∃ suspended wire, sendTimes host response n = some (false, suspended, wire) ∧ BeforeBody suspended ∧
      sendTimes host (response.withString (some [])) n =
        some (false, suspended.withString (some []), wire)) ∨
    ∃ k m begun start suspended wire, n = k + m + 1 ∧ BodyBegins host response k begun start ∧
      sendTimes host (response.withString (some [])) k =
        some (false, suspended.withString (some []), wire) ∧ BeforeBody suspended ∧
      sendBeforeBody host suspended wire = some (true, begun, start) := by
  induction n with
  | zero => exact .inl ⟨response, _, rfl, by simp [BeforeBody, file.status], rfl⟩
  | succ n ih =>
    have earlier : (sendTimes host (response.withString (some [])) n).isSome := by
      rw [sendTimes] at defined
      exact Option.isSome_of_isSome_bind defined
    rcases ih earlier with ⟨suspended, wire, run, early, twin⟩ |
      ⟨k, m, begun, start, suspended, wire, rfl, rest⟩
    · have twinEarly : (suspended.withString (some [])).sendStatus ≠ .kHTTPResponseSendingComplete := early.2
      rw [sendTimes_succ twin, httpResponseSend_eq twinEarly, sendBeforeBody_withString] at defined ⊢
      rw [sendTimes_succ run, httpResponseSend_eq early.2]
      cases steps : sendBeforeBody host suspended wire with
      | none =>
        rw [steps] at defined
        cases defined
      | some result =>
        obtain ⟨finished, next, after⟩ := result
        obtain ⟨keeps, ends⟩ := sendBeforeBody_keeps early steps
        cases finished with
        | false => exact .inl ⟨next, after, rfl, keeps.suspended rfl, rfl⟩
        | true =>
          refine .inr ⟨n, 0, next, after, suspended, wire, rfl, ⟨⟨suspended, wire, run, early, steps⟩, ?_⟩,
            twin, early, steps⟩
          rcases ends rfl with fresh | ⟨info, extra⟩
          · exact fresh
          · rw [steps] at defined
            simp [stringResult, HTTPResponse.withString, thenBody, sendFromBody, httpResponseSendBody,
              bodyInfo, extra] at defined
    · exact .inr ⟨k, m + 1, begun, start, suspended, wire, rfl, rest⟩

/-- The body of the empty string sends nothing and is over or is tried again. -/
theorem sendFromBody_empty {begun : HTTPResponse} (fresh : begun.sendStatusExtra = none)
    (call : sendFromBody host ({ begun with sendStatus := .kHTTPResponseSendingBody }.withString (some [])) start =
      some (returned, next, after)) :
    after.sent = start.sent ∧ (next.sendStatus = .kHTTPResponseSendingBody ∨
      next.sendStatus = .kHTTPResponseSendingComplete) := by
  simp only [HTTPResponse.withString, sendFromBody, httpResponseSendBody, bodyInfo, fresh,
    Option.map_some, httpResponseSendString, httpConnectionSend] at call
  cases sent : host.send start.calls with
  | none =>
    simp [sent] at call
    obtain ⟨_, rfl, rfl⟩ := call
    exact ⟨List.append_nil _, .inl rfl⟩
  | some count =>
    simp [sent] at call
    obtain ⟨_, rfl, rfl⟩ := call
    exact ⟨List.append_nil _, .inr rfl⟩

/-- Nothing of an empty body is due. -/
theorem Due.body_empty (due : Due code dict [] response rest)
    (body : response.sendStatus = .kHTTPResponseSendingBody ∨
      response.sendStatus = .kHTTPResponseSendingComplete) : rest = [] := by
  cases due with
  | complete => rfl
  | body info => exact List.drop_nil
  | notStarted status => simp [status] at body
  | statusLine info status => simp [status] at body
  | headers info status => simp [status] at body

variable {code : HTTPStatusCode} {dict : Dictionary CString}

/-- A response whose headers can be sent, with a file and this code. -/
structure CarriesHead (code : HTTPStatusCode) (dict : Dictionary CString) (fd : Int)
    (response : HTTPResponse) : Prop extends FileResponse fd response where
  code_eq : response.code = some code
  head_eq : response.headerDictionary.headEntry = dict.headEntry
  fresh : response.sendStatusExtra = none

/-- After any number of calls either a part of the head is sent and no call has returned true,
or the body has begun behind the whole head. -/
theorem sendTimes_head (sendable : Sendable dict) (head : CarriesHead code dict fd response) (n : Nat) :
    (∃ suspended wire, sendTimes host response n = some (false, suspended, wire) ∧
      wire.sent <+: headBytes code dict ∧ (host.Accepting → n ≤ wire.sent.length)) ∨
    ∃ k m begun start, n = k + m + 1 ∧ BodyBegins host response k begun start ∧
      start.sent = headBytes code dict := by
  have carries : Carries code dict [] (response.withString (some [])) := ⟨head.code_eq, head.head_eq, rfl⟩
  have times := sendTimes_sends host sendable carries ⟨head.status, head.fresh⟩
  obtain ⟨returned, now, wireNow, due, run, _, _, total, _, enough⟩ := times n
  rcases sendTimes_before head.toFileResponse n (by rw [run]; rfl) with
    ⟨suspended, wire, file, early, twin⟩ | ⟨k, m, begun, start, suspended, wire, rfl, begins, twin, early, steps⟩
  · cases twin.symm.trans run
    refine .inl ⟨suspended, _, file, ⟨due, total⟩, fun accepting => ?_⟩
    exact (enough accepting).resolve_left Bool.false_ne_true
  · refine .inr ⟨k, m, begun, start, rfl, begins, ?_⟩
    obtain ⟨_, next, after, rest, again, _, left, all, _⟩ := times (k + 1)
    have twinEarly : (suspended.withString (some [])).sendStatus ≠ .kHTTPResponseSendingComplete := early.2
    rw [sendTimes_succ twin, httpResponseSend_eq twinEarly, sendBeforeBody_withString, steps] at again
    obtain ⟨sent, body⟩ := sendFromBody_empty begins.fresh again
    rw [left.body_empty body, List.append_nil, sent] at all
    exact all

end Times

/-- `sendfile` does not fail, and does not answer EAGAIN forever. -/
structure Host.Serving (host : Host) : Prop where
  noError : ∀ call, host.sendfile call ≠ .error
  again : ∀ call, ∃ later count, call ≤ later ∧ host.sendfile later = .sent count

section Stream
variable {host : Host} {fd : Int}

/-- Every `sendfile` that is not at the end of the file comes closer to it. -/
theorem endsBody_later (transfers : host.Transfers fd) (serving : host.Serving) (first n : Nat) :
    ∃ k, n ≤ k ∧ EndsBody host fd first k := by
  generalize missing : (host.contents fd).length - fileSent host fd first n = rest
  induction rest using Nat.strong_induction_on generalizing n with
  | _ rest ih =>
    obtain ⟨later, count, after, sent⟩ := serving.again (first + n)
    obtain ⟨k, rfl⟩ := Nat.exists_eq_add_of_le ((Nat.le_add_right first n).trans after)
    have grows : fileSent host fd first n ≤ fileSent host fd first k :=
      fileSent_mono first (Nat.le_of_add_le_add_left after)
    have le : fileSent host fd first k ≤ (host.contents fd).length := fileSent_le first k
    by_cases atEnd : fileSent host fd first k = (host.contents fd).length
    · exact ⟨k, Nat.le_of_add_le_add_left after, .inr ⟨⟨count, sent⟩, atEnd⟩⟩
    · have positive := transfers.positive _ _ sent
      have next : fileSent host fd first (k + 1) =
          min (fileSent host fd first k + count) (host.contents fd).length := by
        rw [fileSent, sent]
      obtain ⟨j, above, ends⟩ := ih _ (by omega) (k + 1) rfl
      exact ⟨j, by omega, ends⟩

/-- Without an error the body ends at the end of the file. -/
theorem EndsBody.all (ends : EndsBody host fd first k) (noError : ∀ call, host.sendfile call ≠ .error) :
    (host.contents fd).take (fileSent host fd first k) = host.contents fd :=
  List.take_of_length_le (ends.resolve_left (noError _)).2.ge

variable {code : HTTPStatusCode} {dict : Dictionary CString} {response : HTTPResponse}

theorem file_sends (transfers : host.Transfers fd) (nonzero : fd ≠ 0) (sendable : Sendable dict)
    (head : CarriesHead code dict fd response) (n : Nat) :
    ∃ returned suspended wire, sendTimes host response n = some (returned, suspended, wire) ∧
      wire.sent <+: headBytes code dict ++ host.contents fd ∧
      (returned = true → (∀ call, host.sendfile call ≠ .error) →
        wire.sent = headBytes code dict ++ host.contents fd) := by
  rcases sendTimes_head sendable head n with ⟨suspended, wire, run, early, _⟩ |
    ⟨k, m, begun, start, rfl, begins, sent⟩
  · exact ⟨false, suspended, wire, run, early.trans (List.prefix_append _ _), Bool.noConfusion⟩
  · have body := begins.file head.toFileResponse
    obtain ⟨returned, next, after, run, ended, waits⟩ := bodyTimes_spec transfers nonzero body start (m + 1)
    rw [sendTimes_body begins, run]
    refine ⟨returned, _, after, rfl, ?_, ?_⟩
    · cases returned with
      | true =>
        obtain ⟨k, _, _, all⟩ := ended rfl
        rw [all, sent]
        exact (List.prefix_append_right_inj _).mpr (List.take_prefix _ _)
      | false =>
        rw [(waits rfl).2.sent, sent]
        exact (List.prefix_append_right_inj _).mpr (List.take_prefix _ _)
    · intro whole noError
      obtain ⟨k, _, ends, all⟩ := ended whole
      rw [all, ends.all noError, sent]

theorem file_completes (transfers : host.Transfers fd) (nonzero : fd ≠ 0) (sendable : Sendable dict)
    (head : CarriesHead code dict fd response) (accepting : host.Accepting) (serving : host.Serving) :
    ∃ n suspended wire, sendTimes host response n = some (true, suspended, wire) := by
  rcases sendTimes_head sendable head (headBytes code dict).length.succ with
    ⟨_, wire, _, early, enough⟩ | ⟨k, _, begun, start, _, begins, _⟩
  · have long := (enough accepting).trans early.length_le
    exact absurd long (Nat.not_succ_le_self _)
  · have body := begins.file head.toFileResponse
    obtain ⟨last, _, ends⟩ := endsBody_later transfers serving start.calls 0
    obtain ⟨returned, next, after, run, _, waits⟩ :=
      bodyTimes_spec transfers nonzero body start (last + 1)
    cases returned with
    | false => exact absurd ends ((waits rfl).1 last (Nat.lt_succ_self last))
    | true => exact ⟨_, _, after, by rw [sendTimes_body begins, run]; rfl⟩

/-- The calls of `HTTPResponseSend` send these bytes: a beginning of them at every time, all of
them when a call returns true, and some call does if the socket and the file go on. -/
structure Answers (host : Host) (response : HTTPResponse) (bytes : List UInt8) : Prop where
  sends : ∀ n, ∃ returned suspended wire, sendTimes host response n = some (returned, suspended, wire) ∧
    wire.sent <+: bytes ∧ (returned = true → wire.sent = bytes)
  completes : host.Accepting → host.Serving →
    ∃ n suspended wire, sendTimes host response n = some (true, suspended, wire)

/-- There is one answer to a host that takes all of it. -/
theorem Answers.unique (first : Answers host response bytes) (second : Answers host response other)
    (accepting : host.Accepting) (serving : host.Serving) : bytes = other := by
  obtain ⟨n, suspended, wire, run⟩ := first.completes accepting serving
  have whole : ∀ {bytes}, Answers host response bytes → wire.sent = bytes := by
    intro bytes answers
    obtain ⟨_, _, _, same, _, all⟩ := answers.sends n
    cases run.symm.trans same
    exact all rfl
  exact (whole first).symm.trans (whole second)

theorem CarriesHead.answers (head : CarriesHead code dict fd response) (sendable : Sendable dict)
    (transfers : host.Transfers fd) (nonzero : fd ≠ 0) (noError : ∀ call, host.sendfile call ≠ .error) :
    Answers host response (headBytes code dict ++ host.contents fd) where
  sends n := by
    obtain ⟨returned, suspended, wire, run, early, whole⟩ := file_sends transfers nonzero sendable head n
    exact ⟨returned, suspended, wire, run, early, fun done => whole done noError⟩
  completes := file_completes transfers nonzero sendable head

/-- The descriptor 0 counts as none: the body is over before anything of it is sent. -/
theorem CarriesHead.answers_zero (head : CarriesHead code dict 0 response) (sendable : Sendable dict) :
    Answers host response (headBytes code dict) := by
  have ends : ∀ {k m begun start}, BodyBegins host response k begun start →
      ∃ suspended, sendTimes host response (k + m + 1) = some (true, suspended, start) := by
    intro k m begun start begins
    have body := begins.file head.toFileResponse
    exact ⟨_, by rw [sendTimes_body begins, bodyTimes_zero rfl body]; rfl⟩
  constructor
  · intro n
    rcases sendTimes_head sendable head n with ⟨suspended, wire, run, early, _⟩ |
      ⟨k, m, begun, start, rfl, begins, sent⟩
    · exact ⟨false, suspended, wire, run, early, Bool.noConfusion⟩
    · obtain ⟨suspended, run⟩ := ends (m := m) begins
      exact ⟨true, suspended, start, run, sent ▸ List.prefix_refl _, fun _ => sent⟩
  · intro accepting _
    rcases sendTimes_head sendable head (headBytes code dict).length.succ with
      ⟨_, wire, _, early, enough⟩ | ⟨k, m, begun, start, same, begins, _⟩
    · exact absurd ((enough accepting).trans early.length_le) (Nat.not_succ_le_self _)
    · obtain ⟨suspended, run⟩ := ends (m := m) begins
      exact ⟨_, suspended, start, run⟩

theorem carriesHead_after (codeSet : (responseAfter calls).code = some code)
    (noString : (responseAfter calls).responseString = none)
    (descriptor : (responseAfter calls).responseFileDescriptor = fd) :
    CarriesHead code (responseAfter calls).headerDictionary fd (responseAfter calls) := by
  obtain ⟨status, fresh⟩ := responseAfter_notStarted calls
  exact ⟨⟨status, noString, descriptor⟩, codeSet, rfl, fresh⟩

/-- What is sent of a response with a file is at every time the beginning of its head and the
file. If no `sendfile` fails, a response that counts as sent is sent as a whole; and it is sent
in the end, if the socket goes on to take bytes. -/
theorem file_response_stream (transfers : host.Transfers fd) (nonzero : fd ≠ 0)
    (valid : ∀ call ∈ calls, call.Valid) (codeSet : (responseAfter calls).code = some code)
    (noString : (responseAfter calls).responseString = none)
    (descriptor : (responseAfter calls).responseFileDescriptor = fd) :
    (∀ n, ∃ returned suspended wire,
      sendTimes host (responseAfter calls) n = some (returned, suspended, wire) ∧
      wire.sent <+: headBytes code (responseAfter calls).headerDictionary ++ host.contents fd ∧
      (returned = true → (∀ call, host.sendfile call ≠ .error) →
        wire.sent = headBytes code (responseAfter calls).headerDictionary ++ host.contents fd)) ∧
    (host.Accepting → host.Serving → ∃ n suspended wire,
      sendTimes host (responseAfter calls) n = some (true, suspended, wire)) := by
  have head := carriesHead_after codeSet noString descriptor
  have sendable := (headers_after valid).sendable
  exact ⟨file_sends transfers nonzero sendable head, file_completes transfers nonzero sendable head⟩

end Stream

/-- A socket that takes three bytes at a time, and a file of two bytes. -/
def slowHost : Host where
  send _ := some 3
  sendfile _ := .sent 1
  contents _ := [65, 66]
  statSize _ := 2

theorem file_response_stream_slow : ∃ n suspended wire,
    sendTimes slowHost fileResponse n = some (true, suspended, wire) ∧
      wire.sent = (literal "HTTP/1.0 200 OK\r\nServer: webserver/dev\r\n\r\nAB").bytes := by
  have transfers : slowHost.Transfers 5 := ⟨rfl, fun _ count sent => by cases sent; decide⟩
  have valid : ∀ call ∈ [.setStatusCode .kHTTPOK, .setResponseFileDescriptor 5], ResponseCall.Valid call := by
    simp [ResponseCall.Valid]
  obtain ⟨stream, completes⟩ := file_response_stream transfers (by decide) valid rfl rfl rfl
  have unfailing : ∀ call, slowHost.sendfile call ≠ .error := fun call failed => by cases failed
  have serving : slowHost.Serving := ⟨unfailing, fun call => ⟨call, 1, Nat.le_refl call, rfl⟩⟩
  obtain ⟨n, suspended, wire, run⟩ := completes (fun _ => ⟨2, rfl⟩) serving
  obtain ⟨_, _, _, same, _, whole⟩ := stream n
  cases run.symm.trans same
  refine ⟨n, suspended, wire, run, (whole rfl unfailing).trans ?_⟩
  decide +kernel

end KommunikationNetze.Webserver
