import KommunikationNetze.Webserver.Dictionary
import KommunikationNetze.Webserver.HTTP

/-! Responses of the web server and how they are sent. A send may take less than it is
offered, and the caller tries again when the socket is writable; what is left of the
current step is kept in `sendStatusExtra` until then. -/
namespace KommunikationNetze.Webserver
open CLib Utils

section Connection

inductive SendfileResult where
  | sent (count : Nat)
  | again
  | error

/-- What the kernel answers to the calls on the socket, in the order of the calls, and
the files behind the descriptors. A `none` of `send` is -1. -/
structure Host where
  send : Nat → Option Nat
  sendfile : Nat → SendfileResult
  contents : Int → List UInt8
  statSize : Int → Nat

/-- The bytes the socket has accepted and the number of calls made on it. -/
structure Wire where
  sent : List UInt8
  calls : Nat

def Wire.accept (wire : Wire) (bytes : List UInt8) : Wire :=
  { sent := wire.sent ++ bytes, calls := wire.calls + 1 }

variable (host : Host)

/-- `send` takes at most what it is offered. -/
def httpConnectionSend (wire : Wire) (buffer : List UInt8) : Option Nat × Wire :=
  match host.send wire.calls with
  | none => (none, wire.accept [])
  | some count => (some (min count buffer.length), wire.accept (buffer.take count))

/-- The result and the new offset. An error other than EAGAIN returns -1, which is
true; a finished file shows as a call that sends nothing. -/
def httpConnectionSendFD (wire : Wire) (fd : Int) (offset length : Nat) : Bool × Nat × Wire :=
  match host.sendfile wire.calls with
  | .error => (true, offset, wire.accept [])
  | .again => (false, offset, wire.accept [])
  | .sent count =>
      let bytes := ((host.contents fd).drop offset).take (min count length)
      (bytes.length = 0, offset + bytes.length, wire.accept bytes)

end Connection

inductive HTTPResponseSendStatus where
  | kHTTPResponseSendingNotStarted
  | kHTTPResponseSendingStatusLine
  | kHTTPResponseSendingHeaders
  | kHTTPResponseSendingBody
  | kHTTPResponseSendingComplete
  deriving DecidableEq, Repr

inductive HTTPResponseHeadersSendStatus where
  | kHTTPResponseHeadersSendKey
  | kHTTPResponseSendersSendKeyValueDelimiter
  | kHTTPResponseHeadersSendValue
  | kHTTPResponseHeadersSendLineDelimiter
  | kHTTPResponseHeadersSendHeadersEnd
  deriving DecidableEq, Repr

/-- The field all kinds of extra status start with. -/
structure HTTPResponseSendGeneralInfo where
  sentBytes : Nat

structure HTTPResponseSendStatusLineInfo where
  gernal : HTTPResponseSendGeneralInfo
  statusLine : CString

structure HTTPResponseSendBodyInfo where
  gernal : HTTPResponseSendGeneralInfo
  fileOffset : Nat
  fileSize : Nat

structure HTTPResponseSendHeadersInfo where
  general : HTTPResponseSendGeneralInfo
  status : HTTPResponseHeadersSendStatus
  iter : DictionaryIterator CString

/-- What `sendStatusExtra` points to. -/
inductive SendStatusExtra where
  | statusLine (info : HTTPResponseSendStatusLineInfo)
  | headers (info : HTTPResponseSendHeadersInfo)
  | body (info : HTTPResponseSendBodyInfo)

/-- No constant is 0, so that a status code not yet set is `none`. -/
structure HTTPResponse where
  code : Option HTTPStatusCode
  headerDictionary : Dictionary CString
  responseString : Option CString
  responseFileDescriptor : Int
  sendStatus : HTTPResponseSendStatus
  sendStatusExtra : Option SendStatusExtra

def httpResponseSetStatusCode (response : HTTPResponse) (code : HTTPStatusCode) : HTTPResponse :=
  { response with code }

def httpResponseSetHeaderValue (response : HTTPResponse) (key : CString) (value : Option CString) :
    HTTPResponse :=
  { response with headerDictionary := dictionarySet response.headerDictionary key value }

def httpResponseSetResponseString (response : HTTPResponse) (string : CString) : HTTPResponse :=
  { response with responseString := string }

def httpResponseSetResponseFileDescriptor (response : HTTPResponse) (fd : Int) : HTTPResponse :=
  { response with responseFileDescriptor := fd }

def httpResponseCreate : HTTPResponse :=
  httpResponseSetHeaderValue
    { code := none, headerDictionary := dictionaryCreate, responseString := none,
      responseFileDescriptor := 0, sendStatus := .kHTTPResponseSendingNotStarted,
      sendStatusExtra := none }
    (literal "Server") (literal "webserver/dev")

/-- `%3d` of a nonnegative number. -/
def decimalPadded (width n : Nat) : CString :=
  (literal " ").flatMap (List.replicate (width - (decimal n).length)) ++ decimal n

/-- What `snprintf` keeps of the line in its 255 bytes. A name that is NULL is printed
the way the C library does it. -/
def statusLineOf (code : Option HTTPStatusCode) : CString :=
  (literal "HTTP/1.0 " ++ decimalPadded 3 (code.elim 0 HTTPStatusCode.value) ++ literal " " ++
    code.elim (literal "(null)") httpStatusNameFromCode ++ literal "\r\n").take (255 - 1)

section Send

variable (host : Host)

/-- The general info is that of the current step. -/
def httpResponseSendString (wire : Wire) (info : HTTPResponseSendGeneralInfo) (string : CString) :
    Bool × HTTPResponseSendGeneralInfo × Wire :=
  match httpConnectionSend host wire (string.bytes.drop info.sentBytes) with
  | (none, wire) => (false, info, wire)
  | (some s, wire) =>
    let info := { info with sentBytes := info.sentBytes + s }
    if info.sentBytes < string.length then (false, info, wire)
    else (true, { info with sentBytes := 0 }, wire)

/-! The functions below return `none` where the source has no defined result: it would
read the extra status of another step, read a string through NULL or loop forever. -/

/-- The info of the step, which its first call makes. -/
def statusLineInfo (response : HTTPResponse) : Option HTTPResponseSendStatusLineInfo :=
  match response.sendStatusExtra with
  | none => some { gernal := { sentBytes := 0 }, statusLine := statusLineOf response.code }
  | some (.statusLine info) => some info
  | some _ => none

def httpResponseSendStatusLine (response : HTTPResponse) (wire : Wire) :
    Option (Bool × HTTPResponse × Wire) :=
  (statusLineInfo response).map fun info =>
    match httpResponseSendString host wire info.gernal info.statusLine with
    | (false, gernal, wire) =>
        (false, { response with sendStatusExtra := some (.statusLine { info with gernal }) }, wire)
    | (true, _, wire) => (true, { response with sendStatusExtra := none }, wire)

/-- The string the current round of the header loop sends; none after the last header. -/
def HTTPResponseSendHeadersInfo.piece (info : HTTPResponseSendHeadersInfo) : Option CString :=
  match info.status with
  | .kHTTPResponseHeadersSendKey => dictionaryIteratorGetKey info.iter
  | .kHTTPResponseSendersSendKeyValueDelimiter => some (literal ": ")
  | .kHTTPResponseHeadersSendValue => dictionaryIteratorGetValue info.iter
  | .kHTTPResponseHeadersSendLineDelimiter => some (literal "\r\n")
  | .kHTTPResponseHeadersSendHeadersEnd => none

/-- What a round does once its string is sent. -/
def HTTPResponseSendHeadersInfo.advance (info : HTTPResponseSendHeadersInfo) :
    HTTPResponseSendHeadersInfo :=
  match info.status with
  | .kHTTPResponseHeadersSendKey =>
      { info with status := .kHTTPResponseSendersSendKeyValueDelimiter }
  | .kHTTPResponseSendersSendKeyValueDelimiter =>
      { info with status := .kHTTPResponseHeadersSendValue }
  | .kHTTPResponseHeadersSendValue =>
      { info with status := .kHTTPResponseHeadersSendLineDelimiter }
  | .kHTTPResponseHeadersSendLineDelimiter =>
      let (more, iter) := dictionaryIteratorNext info.iter
      { info with
        iter
        status := if more then .kHTTPResponseHeadersSendKey else .kHTTPResponseHeadersSendHeadersEnd }
  | .kHTTPResponseHeadersSendHeadersEnd => info

/-- How many rounds the current header still takes. -/
def HTTPResponseHeadersSendStatus.rounds : HTTPResponseHeadersSendStatus → Nat
  | .kHTTPResponseHeadersSendKey => 4
  | .kHTTPResponseSendersSendKeyValueDelimiter => 3
  | .kHTTPResponseHeadersSendValue => 2
  | .kHTTPResponseHeadersSendLineDelimiter => 1
  | .kHTTPResponseHeadersSendHeadersEnd => 0

def HTTPResponseSendHeadersInfo.measure (info : HTTPResponseSendHeadersInfo) : Nat :=
  5 * info.iter.remaining + info.status.rounds

theorem measure_advance {info : HTTPResponseSendHeadersInfo} {key piece : CString}
    (present : dictionaryIteratorGetKey info.iter = some key) (sends : info.piece = some piece)
    (general : HTTPResponseSendGeneralInfo) :
    { info with general }.advance.measure < info.measure := by
  have current : info.iter.currentEntry ≠ .nil := by
    intro absent
    simp [dictionaryIteratorGetKey, absent] at present
  obtain ⟨_, status, iter⟩ := info
  have next : (dictionaryIteratorNext iter).2.remaining < iter.remaining :=
    DictionaryIterator.remaining_next current
  cases status with
  | kHTTPResponseHeadersSendLineDelimiter =>
    simp only [HTTPResponseSendHeadersInfo.advance, HTTPResponseSendHeadersInfo.measure]
    split <;> simp only [HTTPResponseHeadersSendStatus.rounds] <;> omega
  | kHTTPResponseHeadersSendHeadersEnd => simp [HTTPResponseSendHeadersInfo.piece] at sends
  | _ =>
    simp [HTTPResponseSendHeadersInfo.advance, HTTPResponseSendHeadersInfo.measure,
      HTTPResponseHeadersSendStatus.rounds]

/-- The loop of `HTTPResponseSendHeaders`: false if it returned from the function. -/
def sendHeadersLoop (info : HTTPResponseSendHeadersInfo) (wire : Wire) :
    Option (Bool × HTTPResponseSendHeadersInfo × Wire) :=
  match _present : dictionaryIteratorGetKey info.iter, _sends : info.piece with
  | none, _ => some (true, info, wire)
  | some _, none => none
  | some _, some piece =>
    match httpResponseSendString host wire info.general piece with
    | (false, general, wire) => some (false, { info with general }, wire)
    | (true, general, wire) => sendHeadersLoop { info with general }.advance wire
  termination_by info.measure
  decreasing_by exact measure_advance _present _sends general

/-- The info and the response, whose dictionary the new iterator retains. -/
def headersInfo (response : HTTPResponse) : Option (HTTPResponseSendHeadersInfo × HTTPResponse) :=
  match response.sendStatusExtra with
  | none =>
    let (iter, headerDictionary) := dictionaryGetIterator response.headerDictionary
    some ({ general := { sentBytes := 0 }, status := .kHTTPResponseHeadersSendKey, iter },
      { response with headerDictionary })
  | some (.headers info) => some (info, response)
  | some _ => none

/-- The part after the loop. The released iterator gives the dictionary back. -/
def sendHeadersEnd (info : HTTPResponseSendHeadersInfo) (response : HTTPResponse) (wire : Wire) :
    Bool × HTTPResponse × Wire :=
  if info.status = .kHTTPResponseHeadersSendHeadersEnd then
    match httpResponseSendString host wire info.general (literal "\r\n") with
    | (false, general, wire) =>
        (false, { response with sendStatusExtra := some (.headers { info with general }) }, wire)
    | (true, _, wire) =>
      let headerDictionary :=
        { response.headerDictionary with object := response.headerDictionary.object.release }
      (true, { response with headerDictionary, sendStatusExtra := none }, wire)
  else (true, { response with sendStatusExtra := some (.headers info) }, wire)

def httpResponseSendHeaders (response : HTTPResponse) (wire : Wire) :
    Option (Bool × HTTPResponse × Wire) :=
  (headersInfo response).bind fun (info, response) =>
    (sendHeadersLoop host info wire).map fun
      | (false, info, wire) =>
          (false, { response with sendStatusExtra := some (.headers info) }, wire)
      | (true, info, wire) => sendHeadersEnd host info response wire

def bodyInfo (response : HTTPResponse) : Option HTTPResponseSendBodyInfo :=
  match response.sendStatusExtra with
  | none =>
    let fileSize := if response.responseFileDescriptor ≠ 0 then
      host.statSize response.responseFileDescriptor else 0
    some { gernal := { sentBytes := 0 }, fileOffset := 0, fileSize }
  | some (.body info) => some info
  | some _ => none

def httpResponseSendBody (response : HTTPResponse) (wire : Wire) :
    Option (Bool × HTTPResponse × Wire) :=
  (bodyInfo host response).map fun info =>
    match response.responseString with
    | some string =>
      match httpResponseSendString host wire info.gernal string with
      | (false, gernal, wire) =>
          (false, { response with sendStatusExtra := some (.body { info with gernal }) }, wire)
      | (true, _, wire) => (true, { response with sendStatusExtra := none }, wire)
    | none =>
      if response.responseFileDescriptor ≠ 0 then
        match httpConnectionSendFD host wire response.responseFileDescriptor info.fileOffset
          (info.fileSize - info.fileOffset) with
        | (false, fileOffset, wire) =>
            (false, { response with sendStatusExtra := some (.body { info with fileOffset }) }, wire)
        | (true, _, wire) => (true, { response with sendStatusExtra := none }, wire)
      else (true, { response with sendStatusExtra := none }, wire)

/-! The cases of the switch fall through into each other. -/

def sendFromBody (response : HTTPResponse) (wire : Wire) : Option (Bool × HTTPResponse × Wire) :=
  (httpResponseSendBody host response wire).map fun
    | (false, response, wire) => (false, response, wire)
    | (true, response, wire) =>
        (true, { response with sendStatus := .kHTTPResponseSendingComplete }, wire)

def sendFromHeaders (response : HTTPResponse) (wire : Wire) : Option (Bool × HTTPResponse × Wire) :=
  (httpResponseSendHeaders host response wire).bind fun
    | (false, response, wire) => some (false, response, wire)
    | (true, response, wire) =>
        sendFromBody host { response with sendStatus := .kHTTPResponseSendingBody } wire

def sendFromStatusLine (response : HTTPResponse) (wire : Wire) : Option (Bool × HTTPResponse × Wire) :=
  (httpResponseSendStatusLine host response wire).bind fun
    | (false, response, wire) => some (false, response, wire)
    | (true, response, wire) =>
        sendFromHeaders host { response with sendStatus := .kHTTPResponseSendingHeaders } wire

def httpResponseSend (response : HTTPResponse) (wire : Wire) : Option (Bool × HTTPResponse × Wire) :=
  match response.sendStatus with
  | .kHTTPResponseSendingNotStarted =>
      sendFromStatusLine host { response with sendStatus := .kHTTPResponseSendingStatusLine } wire
  | .kHTTPResponseSendingStatusLine => sendFromStatusLine host response wire
  | .kHTTPResponseSendingHeaders => sendFromHeaders host response wire
  | .kHTTPResponseSendingBody => sendFromBody host response wire
  | .kHTTPResponseSendingComplete => some (true, response, wire)

end Send

end KommunikationNetze.Webserver
