import KommunikationNetze.Webserver.FileResponse
import KommunikationNetze.Webserver.PathBuffer

/-! What the web server makes of a request. Three system calls can fail on the way to the
file, and only the result of the last of them is not looked at. Before them the path has to go
into its buffer. -/
namespace KommunikationNetze.Webserver
open CLib

inductive FileType where
  | regular
  | other
  deriving DecidableEq, Repr

/-- What the system calls answer. A `none` is -1, and so is a negative descriptor. -/
structure FileSystem where
  realpath : CString → Option CanonicalPath
  lstat : CString → Option FileType
  openReadOnly : CString → Int

/-- The response of a branch that gives up. -/
def errorResponse (code : HTTPStatusCode) (string : CString) : HTTPResponse :=
  httpResponseSetResponseString (httpResponseSetStatusCode httpResponseCreate code) string

section Process

variable (platform : Platform) (pathMax : Nat) (files : FileSystem)

/-- The calls of `HTTPSendResponse`. What the server does is undefined when the path is written
past the end of its buffer. A NULL path is one more error of `lstat`. -/
def httpProcessRequest (buffer : CString) : Option (List HTTPResponse) :=
  match httpRequestCreate buffer with
  | none => some [errorResponse .kHTTPBadRequest (literal "400/Bad Request")]
  | some request =>
    -- only get is supported for now
    if httpRequestGetMethod request ≠ .kHTTPMethodGet then
      some [errorResponse .kHTTPErrorNotImplemented (literal "500/Not Implemented")]
    else if ∀ p ∈ httpRequestGetPath request, InBuffer platform pathMax p then
      let resolvedPath :=
        (httpRequestGetPath request).bind (httpResolvePath platform pathMax files.realpath)
      match resolvedPath, resolvedPath.bind files.lstat with
      | some resolvedPath, some .regular =>
        let response := httpResponseSetStatusCode httpResponseCreate .kHTTPOK
        some [httpResponseSetResponseFileDescriptor response (files.openReadOnly resolvedPath)]
      | _, _ => some [errorResponse .kHTTPBadNotFound (literal "404/Not Found")]
    else none

/-- The path of a request for a file is shorter than what the root leaves of the buffer. -/
def PathFits (buffer : CString) : Prop :=
  ∀ request p, httpRequestCreate buffer = some request → httpRequestGetMethod request = .kHTTPMethodGet →
    httpRequestGetPath request = some p → (kHTTPDocumentRoot platform).length + p.length < pathMax

/-- The request was parsed, its method is get, and its path was resolved to a regular file. -/
def FileRequested (buffer resolvedPath : CString) : Prop :=
  ∃ request path, httpRequestCreate buffer = some request ∧
    httpRequestGetMethod request = .kHTTPMethodGet ∧ httpRequestGetPath request = some path ∧
    httpResolvePath platform pathMax files.realpath path = some resolvedPath ∧
    files.lstat resolvedPath = some .regular

/-- The file is in the document root, and can be read. -/
def Served (resolvedPath : CString) : Prop :=
  Confined platform resolvedPath ∧ 0 ≤ files.openReadOnly resolvedPath

variable {platform pathMax files}

theorem fileRequested_iff (accepted : httpRequestCreate buffer = some request) (path : CString) :
    FileRequested platform pathMax files buffer path ↔
      httpRequestGetMethod request = .kHTTPMethodGet ∧
      (httpRequestGetPath request).bind (httpResolvePath platform pathMax files.realpath) = some path ∧
      files.lstat path = some .regular := by
  simp only [Option.bind_eq_some_iff]
  constructor
  · rintro ⟨_, requested, parsed, get, some, resolved, regular⟩
    cases accepted.symm.trans parsed
    exact ⟨get, ⟨requested, some, resolved⟩, regular⟩
  · rintro ⟨get, ⟨requested, some, resolved⟩, regular⟩
    exact ⟨request, requested, accepted, get, some, resolved, regular⟩

theorem fileRequested_unique (first : FileRequested platform pathMax files buffer path)
    (second : FileRequested platform pathMax files buffer other) : other = path := by
  obtain ⟨request, _, accepted, _⟩ := id first
  obtain ⟨_, resolved, _⟩ := (fileRequested_iff accepted path).mp first
  obtain ⟨_, again, _⟩ := (fileRequested_iff accepted other).mp second
  exact Option.some.inj (again.symm.trans resolved)

theorem pathFits_iff (accepted : httpRequestCreate buffer = some request) :
    PathFits platform pathMax buffer ↔ (httpRequestGetMethod request = .kHTTPMethodGet →
      ∀ p ∈ httpRequestGetPath request, InBuffer platform pathMax p) := by
  simp only [inBuffer_iff]
  constructor
  · exact fun fits get p path => fits request p accepted get path
  · intro fits other p parsed get path
    cases accepted.symm.trans parsed
    exact fits get p path

/-- The path of a request that can be processed fits. -/
theorem pathFits_of_some (processed : httpProcessRequest platform pathMax files buffer = some responses) :
    PathFits platform pathMax buffer := by
  cases accepted : httpRequestCreate buffer with
  | none =>
    intro request p parsed
    cases accepted.symm.trans parsed
  | some request =>
    refine (pathFits_iff accepted).mpr fun get => ?_
    by_contra overrun
    simp only [httpProcessRequest, accepted, get, ne_eq, not_true_eq_false, if_false, if_neg overrun]
      at processed
    cases processed

/-- One response is sent in any case. -/
theorem processRequest_cases (files : FileSystem) (fits : PathFits platform pathMax buffer) :
    (∃ path, FileRequested platform pathMax files buffer path ∧
      httpProcessRequest platform pathMax files buffer = some [httpResponseSetResponseFileDescriptor
        (httpResponseSetStatusCode httpResponseCreate .kHTTPOK) (files.openReadOnly path)]) ∨
    (∀ path, ¬FileRequested platform pathMax files buffer path) ∧ ∃ code string,
      httpProcessRequest platform pathMax files buffer = some [errorResponse code string] ∧
      400 ≤ code.value ∧ code.value < 600 := by
  cases accepted : httpRequestCreate buffer with
  | none =>
    simp only [httpProcessRequest, accepted]
    refine .inr ⟨?_, _, _, rfl, by decide, by decide⟩
    rintro path ⟨request, _, parsed, _⟩
    cases accepted.symm.trans parsed
  | some request =>
    simp only [httpProcessRequest, accepted, fileRequested_iff accepted]
    by_cases get : httpRequestGetMethod request = .kHTTPMethodGet
    · have inBuffer := (pathFits_iff accepted).mp fits get
      simp only [get, ne_eq, not_true_eq_false, if_false, if_pos inBuffer]
      cases resolved : (httpRequestGetPath request).bind
        (httpResolvePath platform pathMax files.realpath) with
      | none => exact .inr ⟨by simp, _, _, rfl, by decide, by decide⟩
      | some path =>
        simp only [Option.bind_some]
        rcases type : files.lstat path with _ | ⟨_ | _⟩
        case some.regular => exact .inl ⟨path, ⟨trivial, rfl, type⟩, rfl⟩
        all_goals
          refine .inr ⟨?_, _, _, rfl, by decide, by decide⟩
          rintro _ ⟨_, ⟨⟩, regular⟩
          cases type.symm.trans regular
    · simp only [get, ne_eq, not_false_eq_true, if_true]
      exact .inr ⟨by simp, _, _, rfl, by decide, by decide⟩

end Process

section Descriptors

variable (host : Host)

/-- `HTTPResponseSendBody` is called for this response, in its first call or a later one. -/
def BodyCalled (response called : HTTPResponse) : Prop :=
  (∃ n start, BodyBegins host response n called start) ∨
    ∃ n returned wire, sendTimes host response n = some (returned, called, wire) ∧
      called.sendStatus = .kHTTPResponseSendingBody

/-- The descriptors it gives to `fstat` and to `sendfile`. -/
def bodyDescriptors (response : HTTPResponse) : List Int :=
  if response.responseFileDescriptor ≠ 0 then
    (if response.sendStatusExtra.isNone then [response.responseFileDescriptor] else []) ++
      if response.responseString.isNone then [response.responseFileDescriptor] else []
  else []

variable {host}

theorem mem_bodyDescriptors (mem : fd ∈ bodyDescriptors response) :
    fd = response.responseFileDescriptor ∧ fd ≠ 0 := by
  simp only [bodyDescriptors] at mem
  split at mem
  · rename_i nonzero
    have same : fd = response.responseFileDescriptor := by
      rcases List.mem_append.mp mem with first | second
      · split at first <;> simp_all
      · split at second <;> simp_all
    exact ⟨same, same ▸ nonzero⟩
  · cases mem

theorem sendBeforeBody_descriptor
    (call : sendBeforeBody host response wire = some (returned, next, after)) :
    next.responseFileDescriptor = response.responseFileDescriptor := by
  by_cases early : BeforeBody response
  · exact (sendBeforeBody_keeps early call).1.descriptor
  · cases status : response.sendStatus <;> simp_all [BeforeBody, sendBeforeBody]

theorem send_descriptor (call : httpResponseSend host response wire = some (returned, next, after)) :
    next.responseFileDescriptor = response.responseFileDescriptor := by
  by_cases complete : response.sendStatus = .kHTTPResponseSendingComplete
  · simp only [httpResponseSend, complete] at call
    cases call
    rfl
  · rw [httpResponseSend_eq complete] at call
    obtain ⟨⟨finished, last, middle⟩, steps, rest⟩ := Option.bind_eq_some_iff.mp call
    have kept := sendBeforeBody_descriptor steps
    cases finished with
    | false =>
      cases rest
      exact kept
    | true =>
      rw [thenBody, sendFromBody_eq] at rest
      obtain ⟨⟨ended, final, _⟩, body, same⟩ := Option.map_eq_some_iff.mp rest
      obtain ⟨_, rfl⟩ := sendBody_frame body
      cases ended <;> cases same <;> exact kept

theorem sendTimes_descriptor (run : sendTimes host response n = some (returned, suspended, wire)) :
    suspended.responseFileDescriptor = response.responseFileDescriptor := by
  induction n generalizing returned suspended wire with
  | zero =>
    cases run
    rfl
  | succ n ih =>
    obtain ⟨⟨_, before, _⟩, earlier, call⟩ := Option.bind_eq_some_iff.mp run
    exact (send_descriptor call).trans (ih earlier)

theorem bodyCalled_descriptor (called : BodyCalled host response suspended) :
    suspended.responseFileDescriptor = response.responseFileDescriptor := by
  rcases called with ⟨n, start, begins⟩ | ⟨n, returned, wire, run, _⟩
  · obtain ⟨before, wire, run, _, call⟩ := begins.call
    exact (sendBeforeBody_descriptor call).trans (sendTimes_descriptor run)
  · exact sendTimes_descriptor run

end Descriptors

section File
variable {host : Host} {fd : Int}

/-- The descriptor is open for a file with these bytes, and no `sendfile` fails. -/
structure Host.Reads (host : Host) (fd : Int) (bytes : List UInt8) : Prop extends host.Transfers fd where
  contents_eq : host.contents fd = bytes
  noError : ∀ call, host.sendfile call ≠ .error

theorem created_sendable : Sendable httpResponseCreate.headerDictionary :=
  headers_create.sendable

theorem carriesHead_file (fd : Int) : CarriesHead .kHTTPOK httpResponseCreate.headerDictionary fd
    (httpResponseSetResponseFileDescriptor (httpResponseSetStatusCode httpResponseCreate .kHTTPOK) fd) :=
  ⟨⟨rfl, rfl, rfl⟩, rfl, rfl, rfl⟩

theorem answers_file (reads : host.Reads fd bytes) (opened : fd = 0 → bytes = []) :
    Answers host (httpResponseSetResponseFileDescriptor
        (httpResponseSetStatusCode httpResponseCreate .kHTTPOK) fd)
      (headBytes .kHTTPOK httpResponseCreate.headerDictionary ++ bytes) := by
  rcases eq_or_ne fd 0 with rfl | nonzero
  · rw [opened rfl, List.append_nil]
    exact (carriesHead_file 0).answers_zero created_sendable
  · rw [← reads.contents_eq]
    exact (carriesHead_file fd).answers created_sendable reads.toTransfers nonzero reads.noError

/-- Every descriptor is open for such a file. -/
def servingHost (bytes : List UInt8) : Host where
  send _ := some 1
  sendfile _ := .sent 1
  contents _ := bytes
  statSize _ := bytes.length

theorem servingHost_reads (fd : Int) (bytes : List UInt8) : (servingHost bytes).Reads fd bytes where
  size := rfl
  positive _ _ sent := by
    cases sent
    exact Nat.one_pos
  contents_eq := rfl
  noError _ failed := by cases failed

/-- Nothing of a file with the descriptor 0 is sent. -/
theorem empty_of_answers (answers : Answers (servingHost bytes) (httpResponseSetResponseFileDescriptor
        (httpResponseSetStatusCode httpResponseCreate .kHTTPOK) 0)
      (headBytes .kHTTPOK httpResponseCreate.headerDictionary ++ bytes)) : bytes = [] := by
  have accepting : (servingHost bytes).Accepting := fun _ => ⟨0, rfl⟩
  have serving : (servingHost bytes).Serving :=
    ⟨(servingHost_reads 0 bytes).noError, fun call => ⟨call, 1, Nat.le_refl call, rfl⟩⟩
  have nothing : Answers (servingHost bytes) _ _ := (carriesHead_file 0).answers_zero created_sendable
  exact List.append_right_eq_self.mp (answers.unique nothing accepting serving)

end File

/-- A 200 response carries a file of the document root: its head is followed by the bytes of the
file. Every other response is an error, and the body of a response is read from the file or not
from a descriptor at all. -/
structure CarriesFile (platform : Platform) (pathMax : Nat) (files : FileSystem)
    (contents : CString → List UInt8) (buffer : CString) (responses : List HTTPResponse) : Prop where
  ok : (∃ response ∈ responses, response.code = some .kHTTPOK) ↔
    ∃ path, FileRequested platform pathMax files buffer path ∧ Served platform files path
  otherwise : (¬∃ path, FileRequested platform pathMax files buffer path ∧ Served platform files path) →
    ∃ response code, responses = [response] ∧ response.code = some code ∧ 400 ≤ code.value ∧
      code.value < 600
  file : ∀ response ∈ responses, response.code = some .kHTTPOK → ∀ path,
    FileRequested platform pathMax files buffer path → ∀ host : Host,
      host.Reads (files.openReadOnly path) (contents path) →
        Answers host response (headBytes .kHTTPOK httpResponseCreate.headerDictionary ++ contents path)
  body : ∀ response ∈ responses, ∀ host called, BodyCalled host response called →
    ∀ fd ∈ bodyDescriptors called,
      ∃ path, FileRequested platform pathMax files buffer path ∧ fd = files.openReadOnly path ∧ 0 ≤ fd

section Carries
variable {platform : Platform} {pathMax : Nat} {files : FileSystem} {contents : CString → List UInt8}

/-- An error is sent when no file was requested. -/
theorem CarriesFile.of_error (none : ∀ path, ¬FileRequested platform pathMax files buffer path)
    (error : 400 ≤ code.value) (inside : code.value < 600) (string : CString) :
    CarriesFile platform pathMax files contents buffer [errorResponse code string] where
  ok := by
    refine iff_of_false ?_ fun ⟨path, requested, _⟩ => none path requested
    rintro ⟨response, mem, ok⟩
    rw [List.mem_singleton.mp mem] at ok
    obtain rfl : code = .kHTTPOK := Option.some.inj ok
    exact absurd error (by decide)
  otherwise _ := ⟨_, code, rfl, rfl, error, inside⟩
  file _ _ _ path requested := absurd requested (none path)
  body response mem host called body fd used := by
    obtain ⟨rfl, nonzero⟩ := mem_bodyDescriptors used
    rw [bodyCalled_descriptor body, List.mem_singleton.mp mem] at nonzero
    exact absurd rfl nonzero

/-- The file is sent that was requested. -/
theorem CarriesFile.of_file (requested : FileRequested platform pathMax files buffer path)
    (served : Served platform files path) (opened : files.openReadOnly path = 0 → contents path = []) :
    CarriesFile platform pathMax files contents buffer [httpResponseSetResponseFileDescriptor
      (httpResponseSetStatusCode httpResponseCreate .kHTTPOK) (files.openReadOnly path)] where
  ok := iff_of_true ⟨_, List.mem_singleton_self _, rfl⟩ ⟨path, requested, served⟩
  otherwise absent := absurd ⟨path, requested, served⟩ absent
  file response mem _ other again host reads := by
    rw [List.mem_singleton.mp mem]
    rw [fileRequested_unique requested again] at reads ⊢
    exact answers_file reads opened
  body response mem host called body fd used := by
    obtain ⟨rfl, _⟩ := mem_bodyDescriptors used
    have same : called.responseFileDescriptor = files.openReadOnly path := by
      rw [bodyCalled_descriptor body, List.mem_singleton.mp mem]
      rfl
    exact ⟨path, requested, same, same ▸ served.2⟩

end Carries

/-- That holds if and only if the path goes into its buffer and the requested file, if there is
one, is in the document root and can be opened, as another descriptor than 0 unless it is empty. -/
theorem process_request (platform : Platform) (pathMax : Nat) (files : FileSystem)
    (contents : CString → List UInt8) (buffer : CString) :
    (∃ responses, httpProcessRequest platform pathMax files buffer = some responses ∧
      CarriesFile platform pathMax files contents buffer responses) ↔
    PathFits platform pathMax buffer ∧ ∀ path, FileRequested platform pathMax files buffer path →
      Served platform files path ∧ (files.openReadOnly path = 0 → contents path = []) := by
  constructor
  · rintro ⟨responses, processed, carries⟩
    have fits := pathFits_of_some processed
    refine ⟨fits, fun path requested => ?_⟩
    rcases processRequest_cases files fits with ⟨other, again, sent⟩ | ⟨none, _⟩
    · obtain rfl := fileRequested_unique requested again
      obtain rfl := Option.some.inj (processed.symm.trans sent)
      obtain ⟨found, same, served⟩ := carries.ok.mp ⟨_, List.mem_singleton_self _, rfl⟩
      obtain rfl := fileRequested_unique requested same
      refine ⟨served, fun zero => ?_⟩
      have answers := carries.file _ (List.mem_singleton_self _) rfl _ requested (servingHost _)
        (servingHost_reads _ _)
      rw [zero] at answers
      exact empty_of_answers answers
    · exact absurd requested (none path)
  · rintro ⟨fits, all⟩
    rcases processRequest_cases files fits with
      ⟨path, requested, sent⟩ | ⟨none, code, string, sent, error, inside⟩
    · obtain ⟨served, opened⟩ := all path requested
      exact ⟨_, sent, .of_file requested served opened⟩
    · exact ⟨_, sent, .of_error none error inside string⟩

/-- The document root has one file, which nobody may read. -/
def unreadable : FileSystem where
  realpath _ := some
    { names := [literal "home", literal "speich", literal "htdocs", literal "a"],
      free := by decide, proper := by decide }
  lstat _ := some .regular
  openReadOnly _ := -1

/-- The status is that of a success although `open` failed. -/
theorem process_request_unreadable :
    ¬∃ responses,
      httpProcessRequest .other 4096 unreadable (literal "GET /a HTTP/1.0\r\n\r\n") = some responses ∧
      CarriesFile .other 4096 unreadable (fun _ => [65]) (literal "GET /a HTTP/1.0\r\n\r\n") responses := by
  have accepted := accepted_of_isSome (literal "GET /a HTTP/1.0\r\n\r\n") (by decide +kernel)
  have requested : FileRequested .other 4096 unreadable (literal "GET /a HTTP/1.0\r\n\r\n")
      (literal "/home/speich/htdocs/a") :=
    ⟨_, literal "/a", accepted, by decide +kernel, by decide +kernel, by decide +kernel, rfl⟩
  rintro ⟨responses, processed, carries⟩
  rcases processRequest_cases unreadable (pathFits_of_some processed) with ⟨path, _, sent⟩ | ⟨none, _⟩
  · obtain rfl := Option.some.inj (processed.symm.trans sent)
    obtain ⟨_, _, _, valid⟩ := carries.ok.mp ⟨_, List.mem_singleton_self _, rfl⟩
    exact absurd valid (show ¬(0 : Int) ≤ -1 by decide)
  · exact none _ requested

end KommunikationNetze.Webserver
