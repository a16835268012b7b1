import KommunikationNetze.Webserver.HTTPResponse

/-! Sending a response is resumable and exact. At every point where a send can be
suspended, the accepted bytes and the bytes still due make up the whole response; each
step of the two state machines moves bytes from the second part to the first. -/
namespace KommunikationNetze.Webserver
open CLib Utils DictionaryIterator

section Text

def headerLine (entry : CString × Option CString) : CString :=
  entry.1 ++ literal ": " ++ entry.2.getD [] ++ literal "\r\n"

def headersText (entries : List (CString × Option CString)) : CString := entries.flatMap headerLine

/-- No name is so long that the line would be cut, and all codes have three digits. -/
theorem statusLineOf_some (code : HTTPStatusCode) :
    statusLineOf (some code) = literal "HTTP/1.0 " ++ decimal code.value ++ literal " " ++
      httpStatusNameFromCode code ++ literal "\r\n" := by
  cases code <;> decide +kernel

end Text

section Pieces

/-- Every send takes at least one byte, if there is one. -/
def Host.Accepting (host : Host) : Prop := ∀ call, ∃ count, host.send call = some (count + 1)

/-- A step that had `rest` to send has `due` left; false means it waits for the socket. -/
structure Moved (host : Host) (returned : Bool) (before after : Wire) (rest due : List UInt8) : Prop where
  total : after.sent ++ due = before.sent ++ rest
  grows : before.sent.length ≤ after.sent.length
  progress : returned = false → host.Accepting → before.sent.length < after.sent.length

theorem Moved.refl (wire : Wire) (rest : List UInt8) : Moved host true wire wire rest rest :=
  ⟨rfl, le_rfl, by simp⟩

theorem Moved.trans (first : Moved host true before middle rest left)
    (last : Moved host returned middle after left due) : Moved host returned before after rest due where
  total := last.total.trans first.total
  grows := first.grows.trans last.grows
  progress waits accepting := first.grows.trans_lt (last.progress waits accepting)

/-- What is to be sent later does not matter. -/
theorem Moved.append (moved : Moved host returned before after rest due) (later : List UInt8) :
    Moved host returned before after (rest ++ later) (due ++ later) where
  total := by rw [← List.append_assoc, moved.total, List.append_assoc]
  grows := moved.grows
  progress := moved.progress

/-- A string is sent from the first byte not yet sent. -/
theorem sendString_spec (host : Host) (wire : Wire) (info : HTTPResponseSendGeneralInfo)
    (string : CString) :
    match httpResponseSendString host wire info string with
    | (true, next, after) =>
        next.sentBytes = 0 ∧ Moved host true wire after (string.bytes.drop info.sentBytes) []
    | (false, next, after) =>
        (info.sentBytes ≤ string.length → next.sentBytes ≤ string.length) ∧
          Moved host false wire after (string.bytes.drop info.sentBytes)
            (string.bytes.drop next.sentBytes) := by
  have offered : (string.bytes.drop info.sentBytes).length = string.length - info.sentBytes := by
    rw [List.length_drop, length_bytes]
  simp only [httpResponseSendString, httpConnectionSend]
  cases answer : host.send wire.calls with
  | none =>
    refine ⟨id, by simp [Wire.accept], by simp [Wire.accept], ?_⟩
    intro _ accepting
    obtain ⟨count, taken⟩ := accepting wire.calls
    simp [taken] at answer
  | some count =>
    dsimp only
    by_cases short : info.sentBytes + min count (string.bytes.drop info.sentBytes).length < string.length
    · have taken : min count (string.bytes.drop info.sentBytes).length = count := by omega
      rw [if_pos short]
      refine ⟨fun _ => short.le, ?_, by simp [Wire.accept], ?_⟩
      · rw [taken, Wire.accept, List.append_assoc, ← List.drop_drop, List.take_append_drop]
      · intro _ accepting
        obtain ⟨more, positive⟩ := accepting wire.calls
        obtain rfl : count = more + 1 := Option.some.inj (answer.symm.trans positive)
        rw [Wire.accept, List.length_append, List.length_take, taken]
        omega
    · have enough : (string.bytes.drop info.sentBytes).length ≤ count := by omega
      rw [if_neg short]
      refine ⟨rfl, ?_, by simp [Wire.accept], by simp⟩
      rw [Wire.accept, List.take_of_length_le enough, List.append_nil]

end Pieces

namespace HTTPResponseSendHeadersInfo

/-- The text of the rounds from here on. -/
def text (info : HTTPResponseSendHeadersInfo) : CString :=
  match info.iter.upcoming with
  | [] => []
  | (key, value) :: rest =>
    match info.status with
    | .kHTTPResponseHeadersSendKey => headerLine (key, value) ++ headersText rest
    | .kHTTPResponseSendersSendKeyValueDelimiter =>
        literal ": " ++ value.getD [] ++ literal "\r\n" ++ headersText rest
    | .kHTTPResponseHeadersSendValue => value.getD [] ++ literal "\r\n" ++ headersText rest
    | .kHTTPResponseHeadersSendLineDelimiter => literal "\r\n" ++ headersText rest
    | .kHTTPResponseHeadersSendHeadersEnd => []

/-- Headers have values, and the last state is reached exactly behind the last one. -/
structure Ready (info : HTTPResponseSendHeadersInfo) : Prop where
  clean : info.iter.Clean
  values : ∀ entry ∈ info.iter.upcoming, entry.2 ≠ none
  atEnd : info.status = .kHTTPResponseHeadersSendHeadersEnd ↔ info.iter.upcoming = []

/-- The string that is sent next, the empty line after the last header. -/
def nextPiece (info : HTTPResponseSendHeadersInfo) : CString := info.piece.getD (literal "\r\n")

theorem Ready.of_general (ready : Ready info) (general : HTTPResponseSendGeneralInfo) :
    Ready { info with general } := ⟨ready.clean, ready.values, ready.atEnd⟩

/-- A round sends a piece of the text and leaves the rest of it. -/
theorem Ready.advance (ready : Ready info) (present : dictionaryIteratorGetKey info.iter = some key) :
    ∃ piece, info.piece = some piece ∧ info.text = piece ++ info.advance.text ∧ Ready info.advance := by
  obtain ⟨general, status, iter⟩ := info
  obtain ⟨clean, values, atEnd⟩ := ready
  have some_upcoming : iter.upcoming ≠ [] := by
    rw [ne_eq, ← getKey_none_iff, present]
    simp
  cases shape : iter.currentEntry with
  | nil => simp [dictionaryIteratorGetKey, shape] at present
  | node entryKey value left right =>
    have first : iter.upcoming = (entryKey, value) :: iter.stack.contents.flatMap order := by
      simp [upcoming, shape]
    obtain ⟨string, rfl⟩ := Option.ne_none_iff_exists'.mp (values (entryKey, value) (by simp [first]))
    cases status with
    | kHTTPResponseHeadersSendKey =>
      refine ⟨entryKey, by simp [piece, dictionaryIteratorGetKey, shape], ?_, clean, values, ?_⟩
      · simp [text, HTTPResponseSendHeadersInfo.advance, first, headerLine]
      · simp [HTTPResponseSendHeadersInfo.advance, some_upcoming]
    | kHTTPResponseSendersSendKeyValueDelimiter =>
      refine ⟨_, rfl, ?_, clean, values, ?_⟩
      · simp [text, HTTPResponseSendHeadersInfo.advance, first]
      · simp [HTTPResponseSendHeadersInfo.advance, some_upcoming]
    | kHTTPResponseHeadersSendValue =>
      refine ⟨string, by simp [piece, dictionaryIteratorGetValue, shape], ?_, clean, values, ?_⟩
      · simp [text, HTTPResponseSendHeadersInfo.advance, first]
      · simp [HTTPResponseSendHeadersInfo.advance, some_upcoming]
    | kHTTPResponseHeadersSendHeadersEnd => exact absurd (atEnd.mp rfl) some_upcoming
    | kHTTPResponseHeadersSendLineDelimiter =>
      obtain ⟨rest, cleanNext, more⟩ := next_spec (show iter.Clean from clean)
      rw [ne_eq, ← upcoming_nil_iff, ← ne_eq] at more
      have valuesNext : ∀ entry ∈ (dictionaryIteratorNext iter).2.upcoming, entry.2 ≠ none := by
        intro entry mem
        refine values entry ?_
        rw [first, ← rest]
        exact List.mem_cons_of_mem _ mem
      refine ⟨_, rfl, ?_, cleanNext, valuesNext, ?_⟩
      · simp only [text, first, HTTPResponseSendHeadersInfo.advance, ← rest]
        cases left : (dictionaryIteratorNext iter).2.upcoming with
        | nil => simp [headersText]
        | cons entry others =>
          have found : (dictionaryIteratorNext iter).1 = true := more.mpr (by simp [left])
          simp [found, headersText]
      · simp only [HTTPResponseSendHeadersInfo.advance]
        by_cases found : (dictionaryIteratorNext iter).1 = true
        · simpa [found] using more.mp found
        · have absent : (dictionaryIteratorNext iter).2.upcoming = [] := by
            by_contra present
            exact found (more.mpr present)
          simp [found, absent]

end HTTPResponseSendHeadersInfo

section Loop

variable (host : Host)

theorem sendHeadersLoop_end {info : HTTPResponseSendHeadersInfo} (absent : info.iter.upcoming = [])
    (wire : Wire) : sendHeadersLoop host info wire = some (true, info, wire) := by
  have key := (getKey_none_iff info.iter).mpr absent
  rw [sendHeadersLoop]
  split <;> simp_all

theorem sendHeadersLoop_round {info : HTTPResponseSendHeadersInfo}
    (present : dictionaryIteratorGetKey info.iter = some key) (sends : info.piece = some piece)
    (wire : Wire) :
    sendHeadersLoop host info wire =
      match httpResponseSendString host wire info.general piece with
      | (false, general, wire) => some (false, { info with general }, wire)
      | (true, general, wire) => sendHeadersLoop host { info with general }.advance wire := by
  rw [sendHeadersLoop]
  split
  · simp_all
  · simp_all
  · rename_i entryKey string foundKey found
    obtain rfl : string = piece := Option.some.inj (found.symm.trans sends)
    rfl

/-- The text of a suspended loop behind the bytes already sent of its first piece. -/
def HTTPResponseSendHeadersInfo.due (info : HTTPResponseSendHeadersInfo) : List UInt8 :=
  (info.text ++ literal "\r\n").bytes.drop info.general.sentBytes

/-- The loop always ends, with all headers sent or suspended in one of the pieces. -/
theorem sendHeadersLoop_spec {info : HTTPResponseSendHeadersInfo} (ready : info.Ready)
    (inside : info.general.sentBytes ≤ info.nextPiece.length) (wire : Wire) :
    ∃ finished next after, sendHeadersLoop host info wire = some (finished, next, after) ∧
      next.Ready ∧ next.general.sentBytes ≤ next.nextPiece.length ∧
      (finished = true → next.iter.upcoming = []) ∧
      Moved host finished wire after info.due next.due := by
  induction size : info.measure using Nat.strong_induction_on generalizing info wire with
  | _ n ih =>
    cases key : dictionaryIteratorGetKey info.iter with
    | none =>
      have absent := (getKey_none_iff info.iter).mp key
      exact ⟨true, info, wire, sendHeadersLoop_end host absent wire, ready, inside, fun _ => absent,
        .refl wire info.due⟩
    | some entryKey =>
      obtain ⟨piece, sends, text, _⟩ := ready.advance key
      have within : info.general.sentBytes ≤ piece.length := by
        simpa [HTTPResponseSendHeadersInfo.nextPiece, sends] using inside
      have due : ∀ sent, sent ≤ piece.length → (info.text ++ literal "\r\n").bytes.drop sent =
          piece.bytes.drop sent ++ (info.advance.text ++ literal "\r\n").bytes := by
        intro sent le
        rw [text, List.append_assoc, bytes_append piece,
          List.drop_append_of_le_length (by rwa [length_bytes])]
      have round := sendHeadersLoop_round host key sends wire
      have spec := sendString_spec host wire info.general piece
      generalize httpResponseSendString host wire info.general piece = result at round spec
      obtain ⟨whole, general, after⟩ := result
      cases whole with
      | false =>
        obtain ⟨bound, moved⟩ := spec
        refine ⟨false, _, _, round, ready.of_general general, ?_, by simp, ?_⟩
        · have same : ({ info with general } : HTTPResponseSendHeadersInfo).piece = some piece := sends
          rw [HTTPResponseSendHeadersInfo.nextPiece, same]
          exact bound within
        · have suspended : ({ info with general } : HTTPResponseSendHeadersInfo).due =
              piece.bytes.drop general.sentBytes ++ (info.advance.text ++ literal "\r\n").bytes :=
            due _ (bound within)
          rw [suspended, HTTPResponseSendHeadersInfo.due, due _ within]
          exact moved.append _
      | true =>
        obtain ⟨zero, moved⟩ := spec
        have smaller := measure_advance key sends general
        obtain ⟨_, _, _, readyNext⟩ := (ready.of_general general).advance key
        have start : ({ info with general }.advance).general.sentBytes = 0 := by
          obtain ⟨_, status, _⟩ := info
          cases status <;> exact zero
        have fresh : ({ info with general }.advance).due =
            (info.advance.text ++ literal "\r\n").bytes := by
          rw [HTTPResponseSendHeadersInfo.due, start, List.drop_zero]
          obtain ⟨_, status, _⟩ := info
          cases status <;> rfl
        obtain ⟨finished, next, last, loop, keep, stop, ends, movedLater⟩ :=
          ih _ (size ▸ smaller) readyNext (by omega) after rfl
        refine ⟨finished, next, last, round.trans loop, keep, stop, ends, ?_⟩
        have movedNow := moved.append (info.advance.text ++ literal "\r\n").bytes
        rw [← due _ within, List.nil_append, ← fresh] at movedNow
        exact movedNow.trans movedLater

end Loop

section Response

/-- A dictionary whose headers can be sent. Without any header the loop would not run
and the step would end in the state of its first header. -/
structure Sendable (dict : Dictionary CString) : Prop where
  head : HeadEntry dict
  nonempty : entries dict ≠ []
  values : ∀ entry ∈ entries dict, entry.2 ≠ none

variable (host : Host) (code : HTTPStatusCode) (dict : Dictionary CString) (body : CString)

/-- What is sent behind the status line. -/
def headerBlock : CString := headersText (entries dict) ++ literal "\r\n"

def responseText : CString := statusLineOf (some code) ++ (headerBlock dict ++ body)

/-- The fields that the sending only reads; the iterator counts its reference on the
dictionary but leaves the entries alone. -/
structure Carries (response : HTTPResponse) : Prop where
  code_eq : response.code = some code
  head_eq : response.headerDictionary.headEntry = dict.headEntry
  string_eq : response.responseString = some body

/-- What a response still has to send wherever it is suspended. -/
inductive Due (response : HTTPResponse) : List UInt8 → Prop where
  | notStarted : response.sendStatus = .kHTTPResponseSendingNotStarted →
      response.sendStatusExtra = none → Due response (responseText code dict body).bytes
  | statusLine (info : HTTPResponseSendStatusLineInfo) :
      response.sendStatus = .kHTTPResponseSendingStatusLine →
      response.sendStatusExtra = some (.statusLine info) →
      info.statusLine = statusLineOf (some code) →
      info.gernal.sentBytes ≤ info.statusLine.length →
      Due response (info.statusLine.bytes.drop info.gernal.sentBytes ++ (headerBlock dict ++ body).bytes)
  | headers (info : HTTPResponseSendHeadersInfo) :
      response.sendStatus = .kHTTPResponseSendingHeaders →
      response.sendStatusExtra = some (.headers info) → info.Ready →
      info.general.sentBytes ≤ info.nextPiece.length → Due response (info.due ++ body.bytes)
  | body (info : HTTPResponseSendBodyInfo) :
      response.sendStatus = .kHTTPResponseSendingBody →
      response.sendStatusExtra = some (.body info) →
      info.gernal.sentBytes ≤ body.length → Due response (body.bytes.drop info.gernal.sentBytes)
  | complete : response.sendStatus = .kHTTPResponseSendingComplete → Due response []

/-- The call returns, with part of the rest sent; true means that nothing is left. -/
def Sends (wire : Wire) (rest : List UInt8) (result : Option (Bool × HTTPResponse × Wire)) : Prop :=
  ∃ returned response after due, result = some (returned, response, after) ∧
    Carries code dict body response ∧ Due code dict body response due ∧
    Moved host returned wire after rest due ∧
    (returned = true → response.sendStatus = .kHTTPResponseSendingComplete)

variable {code dict body}

theorem Due.eq_nil (due : Due code dict body response rest)
    (complete : response.sendStatus = .kHTTPResponseSendingComplete) : rest = [] := by
  cases due with
  | complete => rfl
  | _ => simp_all

variable {host}

theorem Sends.of_moved (first : Moved host true wire middle rest left)
    (last : Sends host code dict body middle left result) :
    Sends host code dict body wire rest result := by
  obtain ⟨returned, response, after, due, call, carries, dueNow, moved, complete⟩ := last
  exact ⟨returned, response, after, due, call, carries, dueNow, first.trans moved, complete⟩

variable (host)

theorem sendFromBody_sends {response : HTTPResponse} (carries : Carries code dict body response)
    (status : response.sendStatus = .kHTTPResponseSendingBody)
    (started : bodyInfo host response = some info) (inside : info.gernal.sentBytes ≤ body.length)
    (wire : Wire) :
    Sends host code dict body wire (body.bytes.drop info.gernal.sentBytes)
      (sendFromBody host response wire) := by
  have spec := sendString_spec host wire info.gernal body
  simp only [sendFromBody, httpResponseSendBody, started, carries.string_eq, Option.map_some]
  generalize httpResponseSendString host wire info.gernal body = result at spec
  obtain ⟨whole, gernal, after⟩ := result
  cases whole with
  | false =>
    obtain ⟨bound, moved⟩ := spec
    exact ⟨false, _, _, _, rfl, ⟨carries.code_eq, carries.head_eq, rfl⟩,
      .body { info with gernal } status rfl (bound inside), moved, by simp⟩
  | true =>
    exact ⟨true, _, _, [], rfl, ⟨carries.code_eq, carries.head_eq, rfl⟩, .complete rfl, spec.2,
      fun _ => rfl⟩

theorem sendFromBody_start {response : HTTPResponse} (carries : Carries code dict body response)
    (status : response.sendStatus = .kHTTPResponseSendingBody)
    (fresh : response.sendStatusExtra = none) (wire : Wire) :
    Sends host code dict body wire body.bytes (sendFromBody host response wire) := by
  have started : ∃ info, bodyInfo host response = some info ∧ info.gernal.sentBytes = 0 := by
    simp [bodyInfo, fresh]
  obtain ⟨info, started, zero⟩ := started
  have sends := sendFromBody_sends host carries status started (by omega) wire
  rwa [zero, List.drop_zero] at sends

/-- Behind the last header: the empty line, and the body once that is sent. -/
theorem sendHeadersEnd_sends {response : HTTPResponse} (carries : Carries code dict body response)
    (status : response.sendStatus = .kHTTPResponseSendingHeaders) (ready : info.Ready)
    (absent : info.iter.upcoming = []) (inside : info.general.sentBytes ≤ info.nextPiece.length)
    (wire : Wire) :
    Sends host code dict body wire (info.due ++ body.bytes)
      (match sendHeadersEnd host info response wire with
      | (false, response, wire) => some (false, response, wire)
      | (true, response, wire) =>
          sendFromBody host { response with sendStatus := .kHTTPResponseSendingBody } wire) := by
  have atEnd := ready.atEnd.mpr absent
  have due : ∀ general : HTTPResponseSendGeneralInfo,
      ({ info with general } : HTTPResponseSendHeadersInfo).due =
        (literal "\r\n").bytes.drop general.sentBytes := by
    intro general
    simp [HTTPResponseSendHeadersInfo.due, HTTPResponseSendHeadersInfo.text, absent]
  have piece : ∀ general : HTTPResponseSendGeneralInfo,
      ({ info with general } : HTTPResponseSendHeadersInfo).nextPiece = literal "\r\n" := by
    intro general
    simp [HTTPResponseSendHeadersInfo.nextPiece, HTTPResponseSendHeadersInfo.piece, atEnd]
  have start : info.due = (literal "\r\n").bytes.drop info.general.sentBytes := due info.general
  have first : info.nextPiece = literal "\r\n" := piece info.general
  have spec := sendString_spec host wire info.general (literal "\r\n")
  rw [first] at inside
  rw [start]
  simp only [sendHeadersEnd, if_pos atEnd]
  generalize httpResponseSendString host wire info.general (literal "\r\n") = result at spec
  obtain ⟨whole, general, after⟩ := result
  cases whole with
  | false =>
    obtain ⟨bound, moved⟩ := spec
    refine ⟨false, _, _, _, rfl, ⟨carries.code_eq, carries.head_eq, carries.string_eq⟩,
      .headers { info with general } status rfl (ready.of_general general) ?_, ?_, by simp⟩
    · rw [piece general]
      exact bound inside
    · rw [due general]
      exact moved.append _
  | true =>
    refine .of_moved (spec.2.append _) (sendFromBody_start host ?_ ?_ ?_ after)
    · exact ⟨carries.code_eq, carries.head_eq, carries.string_eq⟩
    · rfl
    · rfl

theorem sendFromHeaders_sends {response : HTTPResponse} (carries : Carries code dict body response)
    (status : response.sendStatus = .kHTTPResponseSendingHeaders)
    (started : headersInfo response = some (info, next))
    (same : next.code = response.code ∧ next.sendStatus = response.sendStatus ∧
      next.headerDictionary.headEntry = response.headerDictionary.headEntry ∧
      next.responseString = response.responseString)
    (ready : info.Ready) (inside : info.general.sentBytes ≤ info.nextPiece.length) (wire : Wire) :
    Sends host code dict body wire (info.due ++ body.bytes) (sendFromHeaders host response wire) := by
  obtain ⟨sameCode, sameStatus, sameHead, sameString⟩ := same
  have kept : Carries code dict body next :=
    ⟨sameCode.trans carries.code_eq, sameHead.trans carries.head_eq, sameString.trans carries.string_eq⟩
  obtain ⟨finished, last, after, loop, readyLast, stop, ends, moved⟩ :=
    sendHeadersLoop_spec host ready inside wire
  simp only [sendFromHeaders, httpResponseSendHeaders, started, loop, Option.bind_some, Option.map_some]
  cases finished with
  | false =>
    exact ⟨false, _, _, _, rfl, ⟨kept.code_eq, kept.head_eq, kept.string_eq⟩,
      .headers last (sameStatus.trans status) rfl readyLast stop, moved.append _, by simp⟩
  | true =>
    have rest := sendHeadersEnd_sends host kept (sameStatus.trans status) readyLast (ends rfl) stop after
    exact .of_moved (moved.append _) rest

/-- The first call of the header step. -/
theorem sendFromHeaders_start {response : HTTPResponse} (sendable : Sendable dict)
    (carries : Carries code dict body response)
    (status : response.sendStatus = .kHTTPResponseSendingHeaders)
    (fresh : response.sendStatusExtra = none) (wire : Wire) :
    Sends host code dict body wire (headerBlock dict ++ body).bytes
      (sendFromHeaders host response wire) := by
  obtain ⟨_, _, _, clean⟩ := iteratorFrom_spec dict sendable.head
  have iter : iteratorFrom response.headerDictionary.headEntry = iteratorFrom dict.headEntry :=
    congrArg iteratorFrom carries.head_eq
  let info : HTTPResponseSendHeadersInfo :=
    { general := { sentBytes := 0 }, status := .kHTTPResponseHeadersSendKey,
      iter := iteratorFrom dict.headEntry }
  have ready : info.Ready :=
    ⟨clean, sendable.values, by simp [info], fun absent => absurd absent sendable.nonempty⟩
  have started : headersInfo response = some (info, { response with
      headerDictionary := (dictionaryGetIterator response.headerDictionary).2 }) := by
    simp only [headersInfo, fresh, dictionaryGetIterator, iter, info]
  have text : info.due = (headerBlock dict).bytes := by
    have all : info.text = headersText (entries dict) := by
      have upcoming : info.iter.upcoming = entries dict := rfl
      rw [HTTPResponseSendHeadersInfo.text, upcoming]
      cases entries dict <;> rfl
    rw [HTTPResponseSendHeadersInfo.due, all]
    rfl
  rw [bytes_append, ← text]
  exact sendFromHeaders_sends host carries status started ⟨rfl, rfl, rfl, rfl⟩ ready (Nat.zero_le _) wire

theorem sendFromStatusLine_sends {response : HTTPResponse} (sendable : Sendable dict)
    (carries : Carries code dict body response)
    (status : response.sendStatus = .kHTTPResponseSendingStatusLine)
    (started : statusLineInfo response = some info) (line : info.statusLine = statusLineOf (some code))
    (inside : info.gernal.sentBytes ≤ info.statusLine.length) (wire : Wire) :
    Sends host code dict body wire (info.statusLine.bytes.drop info.gernal.sentBytes ++
      (headerBlock dict ++ body).bytes) (sendFromStatusLine host response wire) := by
  have spec := sendString_spec host wire info.gernal info.statusLine
  simp only [sendFromStatusLine, httpResponseSendStatusLine, started, Option.bind_some, Option.map_some]
  generalize httpResponseSendString host wire info.gernal info.statusLine = result at spec
  obtain ⟨whole, gernal, after⟩ := result
  cases whole with
  | false =>
    obtain ⟨bound, moved⟩ := spec
    exact ⟨false, _, _, _, rfl, ⟨carries.code_eq, carries.head_eq, carries.string_eq⟩,
      .statusLine { info with gernal } status rfl line (bound inside), moved.append _, by simp⟩
  | true =>
    refine .of_moved (spec.2.append _) (sendFromHeaders_start host sendable ?_ ?_ ?_ after)
    · exact ⟨carries.code_eq, carries.head_eq, carries.string_eq⟩
    · rfl
    · rfl

/-- Every call, from wherever the response was suspended. -/
theorem httpResponseSend_sends {response : HTTPResponse} (sendable : Sendable dict)
    (carries : Carries code dict body response) (due : Due code dict body response rest) (wire : Wire) :
    Sends host code dict body wire rest (httpResponseSend host response wire) := by
  cases due with
  | notStarted status fresh =>
    simp only [httpResponseSend, status]
    rw [responseText, bytes_append]
    have started : statusLineInfo { response with sendStatus := .kHTTPResponseSendingStatusLine } =
        some { gernal := { sentBytes := 0 }, statusLine := statusLineOf (some code) } := by
      simp [statusLineInfo, fresh, carries.code_eq]
    have unchanged : Carries code dict body
        { response with sendStatus := .kHTTPResponseSendingStatusLine } :=
      ⟨carries.code_eq, carries.head_eq, carries.string_eq⟩
    exact sendFromStatusLine_sends host sendable unchanged rfl started rfl (Nat.zero_le _) wire
  | statusLine info status extra line inside =>
    simp only [httpResponseSend, status]
    exact sendFromStatusLine_sends host sendable carries status (by simp [statusLineInfo, extra])
      line inside wire
  | headers info status extra ready inside =>
    simp only [httpResponseSend, status]
    exact sendFromHeaders_sends host carries status (by simp [headersInfo, extra])
      ⟨rfl, rfl, rfl, rfl⟩ ready inside wire
  | body info status extra inside =>
    simp only [httpResponseSend, status]
    exact sendFromBody_sends host carries status (by simp [bodyInfo, extra]) inside wire
  | complete status =>
    simp only [httpResponseSend, status]
    exact ⟨true, response, wire, [], rfl, carries, .complete status, .refl wire [], fun _ => status⟩

end Response

/-- A call on a response before it is sent. -/
inductive ResponseCall where
  | setStatusCode (code : HTTPStatusCode)
  | setHeaderValue (key : CString) (value : Option CString)
  | setResponseString (string : CString)
  | setResponseFileDescriptor (fd : Int)

def ResponseCall.apply (response : HTTPResponse) : ResponseCall → HTTPResponse
  | .setStatusCode code => httpResponseSetStatusCode response code
  | .setHeaderValue key value => httpResponseSetHeaderValue response key value
  | .setResponseString string => httpResponseSetResponseString response string
  | .setResponseFileDescriptor fd => httpResponseSetResponseFileDescriptor response fd

/-- Header keys are not empty and header values are not NULL. -/
def ResponseCall.Valid : ResponseCall → Prop
  | .setHeaderValue key value => key ≠ [] ∧ value ≠ none
  | _ => True

def responseAfter (calls : List ResponseCall) : HTTPResponse :=
  calls.foldl ResponseCall.apply httpResponseCreate

section Headers

/-- What valid calls keep, the header of `HTTPResponseCreate` included. -/
structure Headers (dict : Dictionary CString) : Prop where
  head : HeadEntry dict
  ordered : SearchOrder dict.headEntry
  values : ∀ entry ∈ dict.headEntry.walk, entry.1 ≠ [] → entry.2 ≠ none
  server : dictionaryGet dict (literal "Server") ≠ none

theorem Headers.set {dict : Dictionary CString} (headers : Headers dict) (nonempty : key ≠ [])
    (present : value ≠ none) : Headers (dictionarySet dict key value) := by
  refine ⟨headEntry_set headers.head nonempty, searchOrder_set headers.ordered, ?_, ?_⟩
  · intro entry mem
    rcases mem_walk_entrySet mem with rfl | old
    · exact fun _ => present
    · exact headers.values entry old
  · rw [dictionaryGet_set]
    split
    · exact present
    · exact headers.server

theorem headers_create : Headers httpResponseCreate.headerDictionary where
  head := headEntry_set ⟨.nil, rfl⟩ (by decide)
  ordered := searchOrder_set dictionaryCreate_ordered
  values := by
    intro entry mem
    rcases mem_walk_entrySet mem with rfl | old
    · simp
    · obtain rfl : entry = ([], none) := by
        simpa [dictionaryCreate, dictionaryEntryCreate, SearchTree.Tree.walk] using old
      simp
  server := by
    have found : dictionaryGet httpResponseCreate.headerDictionary (literal "Server") =
        some (literal "webserver/dev") :=
      (dictionaryGet_set _ _ _ _).trans (if_pos rfl)
    rw [found]
    simp

theorem headers_apply (headers : Headers response.headerDictionary) {call : ResponseCall}
    (valid : call.Valid) : Headers (call.apply response).headerDictionary := by
  cases call with
  | setHeaderValue key value => exact headers.set valid.1 valid.2
  | _ => exact headers

theorem headers_after (valid : ∀ call ∈ calls, call.Valid) :
    Headers (responseAfter calls).headerDictionary := by
  induction calls using List.reverseRecOn with
  | nil => exact headers_create
  | append_singleton calls call ih =>
    have last : responseAfter (calls ++ [call]) = call.apply (responseAfter calls) := by
      simp [responseAfter]
    rw [last]
    exact headers_apply (ih fun c mem => valid c (by simp [mem])) (valid call (by simp))

theorem Headers.sendable {dict : Dictionary CString} (headers : Headers dict) : Sendable dict where
  head := headers.head
  nonempty := by
    obtain ⟨value, found⟩ := Option.ne_none_iff_exists'.mp headers.server
    have mem := (mem_entries headers.head headers.ordered).mpr found
    exact List.ne_nil_of_mem mem
  values := by
    intro entry mem
    exact headers.values entry (mem_walk_of_mem_entries headers.head mem)
      (nonempty_of_mem_entries headers.head headers.ordered mem)

/-- No call before the sending touches its state. -/
theorem responseAfter_notStarted (calls : List ResponseCall) :
    (responseAfter calls).sendStatus = .kHTTPResponseSendingNotStarted ∧
      (responseAfter calls).sendStatusExtra = none := by
  induction calls using List.reverseRecOn with
  | nil => exact ⟨rfl, rfl⟩
  | append_singleton calls call ih =>
    have last : responseAfter (calls ++ [call]) = call.apply (responseAfter calls) := by
      simp [responseAfter]
    rw [last]
    cases call <;> exact ih

end Headers

/-- What `n` calls of `HTTPResponseSend` in a row leave, with the result of the last one. -/
def sendTimes (host : Host) (response : HTTPResponse) : Nat → Option (Bool × HTTPResponse × Wire)
  | 0 => some (false, response, { sent := [], calls := 0 })
  | n + 1 => (sendTimes host response n).bind fun (_, response, wire) =>
      httpResponseSend host response wire

theorem sendTimes_sends (host : Host) {response : HTTPResponse} (sendable : Sendable dict)
    (carries : Carries code dict body response)
    (fresh : response.sendStatus = .kHTTPResponseSendingNotStarted ∧ response.sendStatusExtra = none)
    (n : Nat) :
    ∃ returned suspended wire due, sendTimes host response n = some (returned, suspended, wire) ∧
      Carries code dict body suspended ∧ Due code dict body suspended due ∧
      wire.sent ++ due = (responseText code dict body).bytes ∧
      (returned = true → suspended.sendStatus = .kHTTPResponseSendingComplete) ∧
      (host.Accepting → returned = true ∨ n ≤ wire.sent.length) := by
  induction n with
  | zero =>
    exact ⟨false, response, { sent := [], calls := 0 }, _, rfl, carries,
      .notStarted fresh.1 fresh.2, rfl, by simp, fun _ => .inr (Nat.zero_le _)⟩
  | succ n ih =>
    obtain ⟨returned, suspended, wire, due, calls, carriesNow, dueNow, total, complete, accepted⟩ := ih
    obtain ⟨again, next, after, left, call, carriesNext, dueNext, moved, completeNext⟩ :=
      httpResponseSend_sends host sendable carriesNow dueNow wire
    refine ⟨again, next, after, left, ?_, carriesNext, dueNext, moved.total.trans total, completeNext, ?_⟩
    · rw [sendTimes, calls, Option.bind_some]
      exact call
    · intro accepting
      rcases accepted accepting with done | many
      · have last : httpResponseSend host suspended wire = some (true, suspended, wire) := by
          simp only [httpResponseSend, complete done]
        left
        exact congrArg Prod.fst (Option.some.inj (call.symm.trans last))
      · cases again with
        | true => exact .inl rfl
        | false =>
          right
          have more := moved.progress rfl accepting
          omega

/-- If every send takes something, some call returns true. -/
theorem response_completes (host : Host) (accepting : host.Accepting)
    (valid : ∀ call ∈ calls, call.Valid) (codeSet : (responseAfter calls).code = some code)
    (bodySet : (responseAfter calls).responseString = some body) :
    ∃ n response wire, sendTimes host (responseAfter calls) n = some (true, response, wire) := by
  have sendable := (headers_after valid).sendable
  obtain ⟨returned, response, wire, due, sent, _, _, total, _, enough⟩ :=
    sendTimes_sends host sendable ⟨codeSet, rfl, bodySet⟩ (responseAfter_notStarted calls)
      ((responseText code (responseAfter calls).headerDictionary body).bytes.length + 1)
  have bound := congrArg List.length total
  rw [List.length_append] at bound
  rcases enough accepting with done | many
  · exact ⟨_, response, wire, done ▸ sent⟩
  · exact absurd many (by omega)

/-- However often a send is cut short, the bytes accepted after any number of calls are
the beginning of the status line, the headers in iterator order, an empty line and the
body, and all of it once a call returns true. Every header is sent once with its value. -/
theorem response_stream (host : Host) (valid : ∀ call ∈ calls, call.Valid)
    (codeSet : (responseAfter calls).code = some code)
    (bodySet : (responseAfter calls).responseString = some body) (n : Nat) :
    ∃ headers : List (CString × CString),
      entries (responseAfter calls).headerDictionary = headers.map (fun header => (header.1, some header.2)) ∧
      (headers.map Prod.fst).Nodup ∧
      (∀ key value, (key, value) ∈ headers ↔
        dictionaryGet (responseAfter calls).headerDictionary key = some value) ∧
      ∃ returned response wire,
        sendTimes host (responseAfter calls) n = some (returned, response, wire) ∧
        let expected := literal "HTTP/1.0 " ++ decimal code.value ++ literal " " ++
          httpStatusNameFromCode code ++ literal "\r\n" ++
          headers.flatMap (fun header => header.1 ++ literal ": " ++ header.2 ++ literal "\r\n") ++
          literal "\r\n" ++ body
        wire.sent <+: expected.bytes ∧ (returned = true → wire.sent = expected.bytes) := by
  have stored := headers_after valid
  have sendable := stored.sendable
  generalize dictionary : (responseAfter calls).headerDictionary = dict at stored sendable
  have pairs : entries dict =
      ((entries dict).map fun entry => (entry.1, entry.2.getD [])).map
        (fun header => (header.1, some header.2)) := by
    rw [List.map_map]
    refine (List.map_id _).symm.trans (List.map_congr_left ?_)
    rintro ⟨key, value⟩ mem
    obtain ⟨string, rfl⟩ := Option.ne_none_iff_exists'.mp (sendable.values _ mem)
    rfl
  generalize (entries dict).map (fun entry => (entry.1, entry.2.getD [])) = headers at pairs
  refine ⟨headers, pairs, ?_, ?_, ?_⟩
  · have nodup := entries_keys_nodup stored.head stored.ordered
    rwa [pairs, List.map_map] at nodup
  · intro key value
    have mem : (key, some value) ∈ entries dict ↔ Utils.dictionaryGet dict key = some value :=
      mem_entries stored.head stored.ordered
    rw [pairs] at mem
    rw [dictionaryGet_eq, ← mem]
    simp
  · obtain ⟨returned, response, wire, due, sent, _, dueNow, total, complete, _⟩ :=
      sendTimes_sends host sendable ⟨codeSet, congrArg Dictionary.headEntry dictionary, bodySet⟩
        (responseAfter_notStarted calls) n
    have text : responseText code dict body = literal "HTTP/1.0 " ++ decimal code.value ++ literal " " ++
        httpStatusNameFromCode code ++ literal "\r\n" ++
        headers.flatMap (fun header => header.1 ++ literal ": " ++ header.2 ++ literal "\r\n") ++
        literal "\r\n" ++ body := by
      simp only [responseText, statusLineOf_some, headerBlock, headersText, pairs, List.flatMap_map,
        headerLine, Option.getD_some, List.append_assoc]
    refine ⟨returned, response, wire, sent, ?_, ?_⟩
    · rw [← text, ← total]
      exact List.prefix_append _ _
    · intro whole
      rw [← text, ← total, dueNow.eq_nil (complete whole), List.append_nil]

/-- A socket that takes three bytes at a time. -/
theorem response_stream_slow : ∃ n response wire,
    sendTimes { send := fun _ => some 3, sendfile := fun _ => .error, contents := fun _ => [], statSize := fun _ => 0 }
        (responseAfter [.setStatusCode .kHTTPOK, .setResponseString (literal "hi")]) n =
      some (true, response, wire) ∧
    wire.sent = (literal "HTTP/1.0 200 OK\r\nServer: webserver/dev\r\n\r\nhi").bytes := by
  let host : Host :=
    { send := fun _ => some 3, sendfile := fun _ => .error, contents := fun _ => [], statSize := fun _ => 0 }
  let calls : List ResponseCall := [.setStatusCode .kHTTPOK, .setResponseString (literal "hi")]
  have valid : ∀ call ∈ calls, call.Valid := by simp [calls, ResponseCall.Valid]
  obtain ⟨n, response, wire, sent⟩ :=
    response_completes host (fun _ => ⟨2, rfl⟩) valid rfl rfl
  obtain ⟨headers, order, _, _, returned, _, _, same, _, whole⟩ :=
    response_stream host valid rfl rfl n
  cases sent.symm.trans same
  refine ⟨n, response, wire, sent, (whole rfl).trans ?_⟩
  have stored : entries (responseAfter calls).headerDictionary =
      [(literal "Server", some (literal "webserver/dev"))] := by decide
  rw [stored] at order
  obtain ⟨header, rfl, server⟩ := List.map_eq_singleton_iff.mp order.symm
  obtain ⟨key, value⟩ := header
  cases server
  decide +kernel

end KommunikationNetze.Webserver
