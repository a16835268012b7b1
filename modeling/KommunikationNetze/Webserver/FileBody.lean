import KommunikationNetze.Webserver.ResponseStream

/-! The body of a file. Every call of `HTTPResponseSendBody` makes one call of `sendfile`, and
there are further calls until one returns true. -/
namespace KommunikationNetze.Webserver

/-- The file does not change, and a `sendfile` that sends nothing is at its end. -/
structure Host.Transfers (host : Host) (fd : Int) : Prop where
  size : host.statSize fd = (host.contents fd).length
  positive : ∀ call count, host.sendfile call = .sent count → 0 < count

section Body

variable (host : Host) (fd : Int)

/-- How much of the file is sent by `n` calls of `sendfile`, of which this is the first. -/
def fileSent (first : Nat) : Nat → Nat
  | 0 => 0
  | n + 1 =>
    match host.sendfile (first + n) with
    | .sent count => min (fileSent first n + count) (host.contents fd).length
    | _ => fileSent first n

/-- No error before all of the file is sent. The descriptor 0 counts as none. -/
def SendsAll (first : Nat) : Prop :=
  (fd = 0 → host.contents fd = []) ∧
    ∀ n, host.sendfile (first + n) = .error → (host.contents fd).length ≤ fileSent host fd first n

/-- `HTTPResponseSendBody` is called up to `n` times, until it returns true. -/
def bodyTimes (response : HTTPResponse) (wire : Wire) : Nat → Option (Bool × HTTPResponse × Wire)
  | 0 => some (false, response, wire)
  | n + 1 => (bodyTimes response wire n).bind fun
    | (true, response, wire) => some (true, response, wire)
    | (false, response, wire) => httpResponseSendBody host response wire

/-- Whenever it returns true, the file follows what was sent before. -/
def BodyComplete (response : HTTPResponse) (wire : Wire) : Prop :=
  ∀ n after last, bodyTimes host response wire n = some (true, after, last) →
    last.sent = wire.sent ++ host.contents response.responseFileDescriptor

/-- The body is about to be sent, from this file. -/
structure FileBody (response : HTTPResponse) : Prop where
  fresh : response.sendStatusExtra = none
  string : response.responseString = none
  descriptor : response.responseFileDescriptor = fd

/-- The call that ends the body. -/
def EndsBody (first n : Nat) : Prop :=
  host.sendfile (first + n) = .error ∨
    (∃ count, host.sendfile (first + n) = .sent count) ∧ fileSent host fd first n = (host.contents fd).length

/-- The body is suspended behind `n` calls of `sendfile`. -/
structure Suspended (start : Wire) (n : Nat) (response : HTTPResponse) (wire : Wire) : Prop where
  string : response.responseString = none
  descriptor : response.responseFileDescriptor = fd
  info : ∃ gernal, bodyInfo host response = some
    { gernal, fileOffset := fileSent host fd start.calls n, fileSize := (host.contents fd).length }
  sent : wire.sent = start.sent ++ (host.contents fd).take (fileSent host fd start.calls n)
  calls : wire.calls = start.calls + n

variable {host fd}

theorem fileSent_le (first n : Nat) : fileSent host fd first n ≤ (host.contents fd).length := by
  induction n with
  | zero => exact Nat.zero_le _
  | succ n ih =>
    rw [fileSent]
    split
    · exact Nat.min_le_right _ _
    · exact ih

theorem fileSent_succ_le (first n : Nat) : fileSent host fd first n ≤ fileSent host fd first (n + 1) := by
  have le : fileSent host fd first n ≤ (host.contents fd).length := fileSent_le first n
  rw [fileSent]
  split
  · omega
  · exact le_rfl

theorem fileSent_mono (first : Nat) : Monotone (fileSent host fd first) :=
  monotone_nat_of_le_succ (fileSent_succ_le first)

/-- Suspended once more, behind a call that has sent so many further bytes. -/
theorem Suspended.more (suspended : Suspended host fd start n response wire) (count : Nat)
    (next : fileSent host fd start.calls (n + 1) = fileSent host fd start.calls n + count) :
    Suspended host fd start (n + 1)
      { response with sendStatusExtra := some (.body
          { gernal, fileOffset := fileSent host fd start.calls n + count
            fileSize := (host.contents fd).length }) }
      (wire.accept (((host.contents fd).drop (fileSent host fd start.calls n)).take count)) where
  string := suspended.string
  descriptor := suspended.descriptor
  info := by
    refine ⟨gernal, ?_⟩
    rw [next]
    rfl
  sent := by rw [Wire.accept, suspended.sent, next, List.take_add, List.append_assoc]
  calls := by rw [Wire.accept, suspended.calls, Nat.add_assoc]

/-- The last call sends nothing. -/
theorem Suspended.last (suspended : Suspended host fd start n response wire) :
    (wire.accept []).sent = start.sent ++ (host.contents fd).take (fileSent host fd start.calls n) := by
  rw [Wire.accept, List.append_nil, suspended.sent]

/-- One call: it goes on where the last one stopped, and ends the body or is suspended. -/
theorem sendBody_spec (transfers : host.Transfers fd) (nonzero : fd ≠ 0)
    (suspended : Suspended host fd start n response wire) :
    ∃ returned next after, httpResponseSendBody host response wire = some (returned, next, after) ∧
      (returned = true → EndsBody host fd start.calls n ∧
        after.sent = start.sent ++ (host.contents fd).take (fileSent host fd start.calls n)) ∧
      (returned = false → ¬EndsBody host fd start.calls n ∧ Suspended host fd start (n + 1) next after) := by
  obtain ⟨gernal, info⟩ := suspended.info
  have le : fileSent host fd start.calls n ≤ (host.contents fd).length := fileSent_le start.calls n
  obtain ⟨code, dict, string, descriptor, status, extra⟩ := response
  obtain rfl : string = none := suspended.string
  obtain rfl : descriptor = fd := suspended.descriptor
  simp only [httpResponseSendBody, info, Option.map_some, if_pos nonzero, httpConnectionSendFD,
    suspended.calls]
  cases answer : host.sendfile (start.calls + n) with
  | error => exact ⟨true, _, _, rfl, fun _ => ⟨.inl answer, suspended.last⟩, Bool.noConfusion⟩
  | again =>
    have same : fileSent host descriptor start.calls (n + 1) = fileSent host descriptor start.calls n := by
      rw [fileSent, answer]
    exact ⟨false, _, _, rfl, Bool.noConfusion, fun _ => ⟨by simp [EndsBody, answer], suspended.more 0 same⟩⟩
  | sent count =>
    have positive := transfers.positive _ _ answer
    have next : fileSent host descriptor start.calls (n + 1) = fileSent host descriptor start.calls n +
        min count ((host.contents descriptor).length - fileSent host descriptor start.calls n) := by
      simp only [fileSent, answer]
      omega
    have bytes : (((host.contents descriptor).drop (fileSent host descriptor start.calls n)).take
        (min count ((host.contents descriptor).length - fileSent host descriptor start.calls n))).length =
          min count ((host.contents descriptor).length - fileSent host descriptor start.calls n) := by
      rw [List.length_take, List.length_drop]
      omega
    dsimp only
    rw [bytes]
    by_cases atEnd : fileSent host descriptor start.calls n = (host.contents descriptor).length
    · have nothing :
          min count ((host.contents descriptor).length - fileSent host descriptor start.calls n) = 0 := by
        omega
      rw [nothing]
      exact ⟨true, _, _, rfl, fun _ => ⟨.inr ⟨⟨count, answer⟩, atEnd⟩, suspended.last⟩, Bool.noConfusion⟩
    · have something :
          ¬min count ((host.contents descriptor).length - fileSent host descriptor start.calls n) = 0 := by
        omega
      rw [decide_eq_false something]
      exact ⟨false, _, _, rfl, Bool.noConfusion, fun _ => ⟨by simp [EndsBody, answer, atEnd], suspended.more _ next⟩⟩

/-- The run is suspended as long as no call ended the body. -/
theorem bodyTimes_spec (transfers : host.Transfers fd) (nonzero : fd ≠ 0)
    (file : FileBody fd response) (start : Wire) (n : Nat) :
    ∃ returned next after, bodyTimes host response start n = some (returned, next, after) ∧
      (returned = true → ∃ k < n, EndsBody host fd start.calls k ∧
        after.sent = start.sent ++ (host.contents fd).take (fileSent host fd start.calls k)) ∧
      (returned = false → (∀ k < n, ¬EndsBody host fd start.calls k) ∧
        Suspended host fd start n next after) := by
  induction n with
  | zero =>
    have none : ∀ k < 0, ¬EndsBody host fd start.calls k :=
      fun _ before => absurd before (Nat.not_lt_zero _)
    refine ⟨false, response, start, rfl, Bool.noConfusion, fun _ =>
      ⟨none, file.string, file.descriptor, ?_, ?_, rfl⟩⟩
    · refine ⟨{ sentBytes := 0 }, ?_⟩
      simp only [bodyInfo, file.fresh, file.descriptor, if_pos nonzero, transfers.size]
      rfl
    · simp [fileSent]
  | succ n ih =>
    obtain ⟨returned, next, after, run, ended, waits⟩ := ih
    rw [bodyTimes, run, Option.bind_some]
    cases returned with
    | true =>
      obtain ⟨k, before, ends, sent⟩ := ended rfl
      exact ⟨true, next, after, rfl, fun _ => ⟨k, by omega, ends, sent⟩, Bool.noConfusion⟩
    | false =>
      obtain ⟨none, suspended⟩ := waits rfl
      obtain ⟨again, last, end_, call, endsNow, waitsNow⟩ := sendBody_spec transfers nonzero suspended
      refine ⟨again, last, end_, call, ?_, ?_⟩
      · intro whole
        obtain ⟨ends, sent⟩ := endsNow whole
        exact ⟨n, by omega, ends, sent⟩
      · intro cut
        obtain ⟨goes, still⟩ := waitsNow cut
        refine ⟨fun k before => ?_, still⟩
        rcases Nat.lt_succ_iff_lt_or_eq.mp before with earlier | rfl
        · exact none k earlier
        · exact goes

section Zero
variable (zero : fd = 0)
include zero

/-- The descriptor 0 counts as none: the first call ends the body. -/
theorem bodyTimes_zero (file : FileBody fd response) (start : Wire) (n : Nat) :
    bodyTimes host response start (n + 1) =
      some (true, { response with sendStatusExtra := none }, start) := by
  induction n with
  | zero =>
    simp [bodyTimes, httpResponseSendBody, bodyInfo, file.fresh, file.string, file.descriptor, zero]
  | succ n ih => rw [bodyTimes, ih, Option.bind_some]

theorem sendsAll_zero (first : Nat) : SendsAll host fd first ↔ host.contents fd = [] := by
  constructor
  · intro sends
    exact sends.1 zero
  · intro empty
    refine ⟨fun _ => empty, fun n _ => ?_⟩
    rw [empty]
    exact Nat.zero_le _

theorem bodyComplete_zero (file : FileBody fd response) (start : Wire) :
    BodyComplete host response start ↔ SendsAll host fd start.calls := by
  rw [BodyComplete, file.descriptor, sendsAll_zero zero]
  constructor
  · intro complete
    exact List.self_eq_append_right.mp (complete 1 _ _ (bodyTimes_zero zero file start 0))
  · intro empty n after last run
    cases n with
    | zero => cases run
    | succ n =>
      cases (bodyTimes_zero zero file start n).symm.trans run
      rw [empty, List.append_nil]

end Zero

/-- The body is complete when it is reported so if and only if no error comes before its end. -/
theorem bodyComplete_iff (transfers : host.Transfers fd) (file : FileBody fd response) (start : Wire) :
    BodyComplete host response start ↔ SendsAll host fd start.calls := by
  rcases eq_or_ne fd 0 with zero | nonzero
  · exact bodyComplete_zero zero file start
  · rw [BodyComplete, file.descriptor]
    constructor
    · intro complete
      refine ⟨fun zero => absurd zero nonzero, fun n failed => ?_⟩
      obtain ⟨returned, next, after, run, ended, waits⟩ :=
        bodyTimes_spec transfers nonzero file start (n + 1)
      cases returned with
      | false => exact absurd (.inl failed) ((waits rfl).1 n (Nat.lt_succ_self n))
      | true =>
        obtain ⟨k, before, _, sent⟩ := ended rfl
        have whole := congrArg List.length (sent.symm.trans (complete _ _ _ run))
        simp only [List.length_append, List.length_take] at whole
        have grows : fileSent host fd start.calls k ≤ fileSent host fd start.calls n :=
          fileSent_mono start.calls (Nat.le_of_lt_succ before)
        omega
    · rintro ⟨_, noError⟩ n after last run
      obtain ⟨returned, _, _, same, ended, _⟩ := bodyTimes_spec transfers nonzero file start n
      cases run.symm.trans same
      obtain ⟨k, _, ends, sent⟩ := ended rfl
      rw [sent, List.take_of_length_le]
      rcases ends with failed | ⟨_, all⟩
      · exact noError k failed
      · exact all.ge

end Body

section Response

variable (host : Host)

/-- What `HTTPResponseSend` does before the body: true means that the body follows. -/
def sendBeforeBody (response : HTTPResponse) (wire : Wire) : Option (Bool × HTTPResponse × Wire) :=
  match response.sendStatus with
  | .kHTTPResponseSendingNotStarted =>
      fromStatusLine { response with sendStatus := .kHTTPResponseSendingStatusLine }
  | .kHTTPResponseSendingStatusLine => fromStatusLine response
  | .kHTTPResponseSendingHeaders => httpResponseSendHeaders host response wire
  | .kHTTPResponseSendingBody => some (true, response, wire)
  | .kHTTPResponseSendingComplete => some (true, response, wire)
where
  fromStatusLine (response : HTTPResponse) : Option (Bool × HTTPResponse × Wire) :=
    (httpResponseSendStatusLine host response wire).bind fun
      | (false, response, wire) => some (false, response, wire)
      | (true, response, wire) =>
          httpResponseSendHeaders host { response with sendStatus := .kHTTPResponseSendingHeaders } wire

/-- The step that comes next is one before the body. -/
def BeforeBody (response : HTTPResponse) : Prop :=
  response.sendStatus ≠ .kHTTPResponseSendingBody ∧ response.sendStatus ≠ .kHTTPResponseSendingComplete

/-- The call behind `n` others comes to the body. -/
structure BodyBegins (response : HTTPResponse) (n : Nat) (begun : HTTPResponse) (start : Wire) : Prop where
  call : ∃ suspended wire, sendTimes host response n = some (false, suspended, wire) ∧
    BeforeBody suspended ∧ sendBeforeBody host suspended wire = some (true, begun, start)
  fresh : begun.sendStatusExtra = none

/-- Whenever `HTTPResponseSend` returns true, the file follows what was sent before the body. -/
def SendComplete (fd : Int) (response : HTTPResponse) : Prop :=
  ∀ n after last, sendTimes host response n = some (true, after, last) →
    ∃ k begun start, BodyBegins host response k begun start ∧ last.sent = start.sent ++ host.contents fd

/-- A response that was not yet sent, with a file. -/
structure FileResponse (fd : Int) (response : HTTPResponse) : Prop where
  status : response.sendStatus = .kHTTPResponseSendingNotStarted
  string : response.responseString = none
  descriptor : response.responseFileDescriptor = fd

/-- The call goes on with the body. -/
def thenBody : Bool × HTTPResponse × Wire → Option (Bool × HTTPResponse × Wire)
  | (false, response, wire) => some (false, response, wire)
  | (true, response, wire) =>
      sendFromBody host { response with sendStatus := .kHTTPResponseSendingBody } wire

variable {host}

theorem sendFromStatusLine_eq (response : HTTPResponse) (wire : Wire) :
    sendFromStatusLine host response wire =
      (sendBeforeBody.fromStatusLine host wire response).bind (thenBody host) := by
  rw [sendFromStatusLine, sendBeforeBody.fromStatusLine]
  rcases httpResponseSendStatusLine host response wire with _ | ⟨_ | _, next, after⟩ <;> rfl

theorem httpResponseSend_eq (waits : response.sendStatus ≠ .kHTTPResponseSendingComplete) (wire : Wire) :
    httpResponseSend host response wire = (sendBeforeBody host response wire).bind (thenBody host) := by
  obtain ⟨code, dict, string, fd, status, extra⟩ := response
  cases status with
  | kHTTPResponseSendingNotStarted => exact sendFromStatusLine_eq _ wire
  | kHTTPResponseSendingStatusLine => exact sendFromStatusLine_eq _ wire
  | kHTTPResponseSendingHeaders => rfl
  | kHTTPResponseSendingBody => rfl
  | kHTTPResponseSendingComplete => exact absurd rfl waits

/-- The steps before the body keep the body, and return false in one of them. -/
structure KeepsBody (before : HTTPResponse) (returned : Bool) (after : HTTPResponse) : Prop where
  string : after.responseString = before.responseString
  descriptor : after.responseFileDescriptor = before.responseFileDescriptor
  suspended : returned = false → BeforeBody after

theorem statusLine_keeps (early : BeforeBody response)
    (call : httpResponseSendStatusLine host response wire = some (returned, next, after)) :
    KeepsBody response returned next := by
  obtain ⟨info, _, same⟩ := Option.map_eq_some_iff.mp call
  split at same <;> cases same
  · exact ⟨rfl, rfl, fun _ => early⟩
  · exact ⟨rfl, rfl, Bool.noConfusion⟩

/-- The end of the headers leaves no extra status, or that of the headers if there are none. -/
def HeadersEnd (response : HTTPResponse) : Prop :=
  response.sendStatusExtra = none ∨ ∃ info, response.sendStatusExtra = some (.headers info)

theorem headersEnd_keeps (early : BeforeBody response)
    (call : sendHeadersEnd host info response wire = (returned, next, after)) :
    KeepsBody response returned next ∧ (returned = true → HeadersEnd next) := by
  rw [sendHeadersEnd] at call
  split at call
  · split at call <;> cases call
    · exact ⟨⟨rfl, rfl, fun _ => early⟩, Bool.noConfusion⟩
    · exact ⟨⟨rfl, rfl, Bool.noConfusion⟩, fun _ => .inl rfl⟩
  · cases call
    exact ⟨⟨rfl, rfl, Bool.noConfusion⟩, fun _ => .inr ⟨info, rfl⟩⟩

theorem headersInfo_keeps (early : BeforeBody response)
    (started : headersInfo response = some (info, next)) :
    next.responseString = response.responseString ∧
      next.responseFileDescriptor = response.responseFileDescriptor ∧ BeforeBody next := by
  rw [headersInfo] at started
  split at started <;> cases started <;> exact ⟨rfl, rfl, early⟩

theorem headers_keeps (early : BeforeBody response)
    (call : httpResponseSendHeaders host response wire = some (returned, next, after)) :
    KeepsBody response returned next ∧ (returned = true → HeadersEnd next) := by
  obtain ⟨⟨info, begun⟩, started, rest⟩ := Option.bind_eq_some_iff.mp call
  obtain ⟨string, descriptor, earlyBegun⟩ := headersInfo_keeps early started
  obtain ⟨⟨finished, last, middle⟩, _, same⟩ := Option.map_eq_some_iff.mp rest
  cases finished with
  | false =>
    cases same
    exact ⟨⟨string, descriptor, fun _ => earlyBegun⟩, Bool.noConfusion⟩
  | true =>
    obtain ⟨keeps, ends⟩ := headersEnd_keeps earlyBegun same
    exact ⟨⟨keeps.string.trans string, keeps.descriptor.trans descriptor, keeps.suspended⟩, ends⟩

theorem fromStatusLine_keeps (early : BeforeBody response)
    (call : sendBeforeBody.fromStatusLine host wire response = some (returned, next, after)) :
    KeepsBody response returned next ∧ (returned = true → HeadersEnd next) := by
  obtain ⟨⟨finished, last, middle⟩, line, rest⟩ := Option.bind_eq_some_iff.mp call
  have keeps := statusLine_keeps early line
  cases finished with
  | false =>
    cases rest
    exact ⟨keeps, Bool.noConfusion⟩
  | true =>
    obtain ⟨later, ends⟩ := headers_keeps (by simp [BeforeBody]) rest
    exact ⟨⟨later.string.trans keeps.string, later.descriptor.trans keeps.descriptor, later.suspended⟩,
      ends⟩

theorem sendBeforeBody_keeps (early : BeforeBody response)
    (call : sendBeforeBody host response wire = some (returned, next, after)) :
    KeepsBody response returned next ∧ (returned = true → HeadersEnd next) := by
  rw [sendBeforeBody] at call
  split at call
  · obtain ⟨keeps, ends⟩ := fromStatusLine_keeps (by simp [BeforeBody]) call
    exact ⟨⟨keeps.string, keeps.descriptor, keeps.suspended⟩, ends⟩
  · exact fromStatusLine_keeps early call
  · exact headers_keeps early call
  · exact absurd ‹_› early.1
  · exact absurd ‹_› early.2

/-- The response between two calls, the second part of which is the body. -/
def afterBody (result : Bool × HTTPResponse × Wire) : Bool × HTTPResponse × Wire :=
  (result.1, if result.1 then { result.2.1 with sendStatus := .kHTTPResponseSendingComplete }
    else result.2.1, result.2.2)

theorem sendFromBody_eq (response : HTTPResponse) (wire : Wire) :
    sendFromBody host response wire = (httpResponseSendBody host response wire).map afterBody := by
  rw [sendFromBody]
  congr 1
  funext result
  obtain ⟨returned, next, after⟩ := result
  cases returned <;> rfl

/-- A call for the body changes nothing of the response but where the call is. -/
theorem sendBody_frame (call : httpResponseSendBody host response wire = some (returned, next, after)) :
    ∃ extra, next = { response with sendStatusExtra := extra } := by
  obtain ⟨info, _, same⟩ := Option.map_eq_some_iff.mp call
  split at same
  · split at same <;> cases same <;> exact ⟨_, rfl⟩
  · split at same
    · split at same <;> cases same <;> exact ⟨_, rfl⟩
    · cases same
      exact ⟨_, rfl⟩

theorem bodyTimes_status (run : bodyTimes host response wire n = some (returned, next, after)) :
    next.sendStatus = response.sendStatus := by
  induction n generalizing returned next after with
  | zero =>
    cases run
    rfl
  | succ n ih =>
    obtain ⟨⟨ended, last, middle⟩, before, rest⟩ := Option.bind_eq_some_iff.mp run
    cases ended with
    | true =>
      cases rest
      exact ih before
    | false =>
      have kept := ih before
      obtain ⟨_, rfl⟩ := sendBody_frame rest
      exact kept

/-- From the call on that comes to the body, `HTTPResponseSend` calls `HTTPResponseSendBody`
until it returns true. -/
theorem sendTimes_body (begins : BodyBegins host response n begun start) (m : Nat) :
    sendTimes host response (n + m + 1) =
      (bodyTimes host { begun with sendStatus := .kHTTPResponseSendingBody } start (m + 1)).map afterBody := by
  induction m with
  | zero =>
    obtain ⟨suspended, wire, run, early, before⟩ := begins.call
    have call : httpResponseSend host suspended wire = (httpResponseSendBody host
        { begun with sendStatus := .kHTTPResponseSendingBody } start).map afterBody := by
      rw [httpResponseSend_eq early.2, before, Option.bind_some, thenBody, sendFromBody_eq]
    rw [Nat.add_zero, sendTimes, run]
    exact call
  | succ m ih =>
    rw [← Nat.add_assoc, sendTimes, ih]
    conv_rhs => rw [bodyTimes]
    cases run : bodyTimes host { begun with sendStatus := .kHTTPResponseSendingBody } start (m + 1) with
    | none => rfl
    | some result =>
      obtain ⟨returned, next, after⟩ := result
      have status := bodyTimes_status run
      cases returned with
      | true => rfl
      | false =>
        have call : httpResponseSend host next after = sendFromBody host next after := by
          simp only [httpResponseSend, status]
        exact call.trans (sendFromBody_eq next after)

/-- As long as the body is not reached, no call returns true. -/
theorem sendTimes_cases (file : FileResponse fd response)
    (run : sendTimes host response n = some (returned, suspended, wire)) :
    (returned = false ∧ BeforeBody suspended ∧ suspended.responseString = none ∧
      suspended.responseFileDescriptor = fd) ∨
    ∃ k m begun start, n = k + m + 1 ∧ BodyBegins host response k begun start := by
  induction n generalizing returned suspended wire with
  | zero =>
    cases run
    exact .inl ⟨rfl, by simp [BeforeBody, file.status], file.string, file.descriptor⟩
  | succ n ih =>
    obtain ⟨⟨waits, before, middle⟩, earlier, call⟩ := Option.bind_eq_some_iff.mp run
    rcases ih earlier with ⟨rfl, early, string, descriptor⟩ | ⟨k, m, begun, start, rfl, begins⟩
    · dsimp only at call
      rw [httpResponseSend_eq early.2] at call
      obtain ⟨⟨finished, next, after⟩, steps, rest⟩ := Option.bind_eq_some_iff.mp call
      obtain ⟨keeps, ends⟩ := sendBeforeBody_keeps early steps
      cases finished with
      | false =>
        cases rest
        exact .inl ⟨rfl, keeps.suspended rfl, keeps.string.trans string, keeps.descriptor.trans descriptor⟩
      | true =>
        rcases ends rfl with fresh | ⟨info, extra⟩
        · exact .inr ⟨n, 0, next, after, rfl, ⟨before, middle, earlier, early, steps⟩, fresh⟩
        · simp [thenBody, sendFromBody, httpResponseSendBody, bodyInfo, extra] at rest
    · exact .inr ⟨k, m + 1, begun, start, rfl, begins⟩

/-- The body begins once. -/
theorem bodyBegins_le (first : BodyBegins host response n begun start)
    (second : BodyBegins host response k other again) : k ≤ n := by
  by_contra later
  obtain ⟨suspended, wire, run, early, _⟩ := second.call
  obtain ⟨m, rfl⟩ := Nat.exists_eq_add_of_lt (Nat.lt_of_not_le later)
  rw [sendTimes_body first] at run
  obtain ⟨⟨returned, next, after⟩, body, same⟩ := Option.map_eq_some_iff.mp run
  have status := bodyTimes_status body
  cases returned with
  | true => cases same
  | false =>
    cases same
    exact early.1 status

theorem bodyBegins_unique (first : BodyBegins host response n begun start)
    (second : BodyBegins host response k other again) : again = start := by
  obtain rfl := Nat.le_antisymm (bodyBegins_le first second) (bodyBegins_le second first)
  obtain ⟨_, _, run, _, call⟩ := first.call
  obtain ⟨_, _, same, _, sameCall⟩ := second.call
  cases run.symm.trans same
  cases call.symm.trans sameCall
  rfl

theorem BodyBegins.file (begins : BodyBegins host response n begun start)
    (file : FileResponse fd response) :
    FileBody fd { begun with sendStatus := .kHTTPResponseSendingBody } := by
  obtain ⟨suspended, wire, run, early, call⟩ := begins.call
  rcases sendTimes_cases file run with ⟨_, _, string, descriptor⟩ | ⟨k, m, _, _, rfl, earlier⟩
  · obtain ⟨keeps, _⟩ := sendBeforeBody_keeps early call
    exact ⟨begins.fresh, keeps.string.trans string, keeps.descriptor.trans descriptor⟩
  · exact absurd (bodyBegins_le earlier begins) (by omega)

end Response

/-- The body of a file is complete whenever it is reported so if and only if no `sendfile`
fails before its end. -/
theorem file_body (transfers : Host.Transfers host fd) :
    (∀ response start, FileBody fd response →
      (BodyComplete host response start ↔ SendsAll host fd start.calls)) ∧
    ∀ response, FileResponse fd response →
      (SendComplete host fd response ↔
        ∀ n begun start, BodyBegins host response n begun start → SendsAll host fd start.calls) := by
  refine ⟨fun response start file => bodyComplete_iff transfers file start, fun response file => ?_⟩
  constructor
  · intro complete n begun start begins
    have body := begins.file file
    rw [← bodyComplete_iff transfers body]
    intro m after last run
    cases m with
    | zero => cases run
    | succ m =>
      have call := sendTimes_body begins m
      rw [run] at call
      obtain ⟨k, other, again, same, sent⟩ := complete _ _ _ call
      rw [body.descriptor, ← bodyBegins_unique begins same]
      exact sent
  · intro condition n after last run
    rcases sendTimes_cases file run with ⟨waits, _⟩ | ⟨k, m, begun, start, rfl, begins⟩
    · cases waits
    · have body := begins.file file
      rw [sendTimes_body begins] at run
      obtain ⟨⟨returned, next, final⟩, times, same⟩ := Option.map_eq_some_iff.mp run
      cases returned with
      | false => cases same
      | true =>
        cases same
        have whole := (bodyComplete_iff transfers body start).mpr (condition k begun start begins)
          (m + 1) next final times
        rw [body.descriptor] at whole
        exact ⟨k, begun, start, begins, whole⟩

/-- The client takes everything, but every call for the file of two bytes has this result. -/
def fileHost (result : SendfileResult) : Host where
  send _ := some 100
  sendfile _ := result
  contents _ := [65, 66]
  statSize _ := 2

def fileResponse : HTTPResponse := responseAfter [.setStatusCode .kHTTPOK, .setResponseFileDescriptor 5]

theorem file_body_sent : SendComplete (fileHost (.sent 1)) 5 fileResponse := by
  have transfers : (fileHost (.sent 1)).Transfers 5 :=
    ⟨rfl, fun _ count sent => by cases sent; decide⟩
  refine ((file_body transfers).2 fileResponse ⟨rfl, rfl, rfl⟩).mpr fun n begun start begins => ?_
  exact ⟨by decide, fun _ failed => by cases failed⟩

/-- The only `sendfile` fails, and the response counts as sent although it ends with the
empty line. -/
theorem file_body_error : ¬SendComplete (fileHost .error) 5 fileResponse := by
  have run : (sendTimes (fileHost .error) fileResponse 1).map (fun result =>
      (result.1, result.2.2.sent.getLast?)) = some (true, some 10) := by decide +kernel
  obtain ⟨⟨returned, after, last⟩, call, same⟩ := Option.map_eq_some_iff.mp run
  intro complete
  cases returned with
  | false => cases same
  | true =>
    obtain ⟨k, begun, start, _, sent⟩ := complete 1 after last call
    simp [sent, fileHost] at same

end KommunikationNetze.Webserver
