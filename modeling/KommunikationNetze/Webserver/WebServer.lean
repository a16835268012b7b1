import KommunikationNetze.Webserver.ServedAlone
import KommunikationNetze.Webserver.Transaction

/-! The web server as a whole: the poll thread, the workers and the closings of any number of
connections in any order, and what comes out of every socket. -/
namespace KommunikationNetze.Webserver
open CLib Transition

section Server
variable [CMemory] {outside : Outside} {s : Service} {method path version : Token} {headers : List Header}

/-- A part of a request that is dispatched is all of it. -/
theorem dispatched_whole {begin : CString} (early : begin <+: requestText method path version headers)
    (delivery : Delivery begin results) (dispatched : readAll results = .dispatched buffer) :
    stringAt buffer.memory = requestText method path version headers := by
  obtain ⟨_, waits⟩ | ⟨_, other, string, position, holds, part, complete⟩ := readAll_delivered delivery
  · rw [Waits, dispatched] at waits
    cases waits
  · obtain rfl := ReadPosition.dispatched.inj (dispatched.symm.trans position)
    rw [holds.string]
    exact requestText_first (part.trans early) complete

/-- In any interleaving the socket of a connection carries a beginning of the reply to the request
that has begun to arrive on it, and all of this reply when the server closes it. -/
theorem web_server (run : ServiceRun outside readEnd writeEnd s) {connection : Nat} {begin : CString}
    (early : begin <+: requestText method path version headers)
    (delivery : Delivery begin (s.exchange connection).results)
    (fits : (kHTTPDocumentRoot outside.platform ++ path.characters).length < outside.pathMax)
    (opened : ∀ real, requestedFile outside.platform (outside.files connection) path.characters = some real →
      0 < (outside.files connection).openReadOnly real ∧
        (outside.host connection).Transfers ((outside.files connection).openReadOnly real))
    (noError : ∀ call, (outside.host connection).sendfile call ≠ .error) :
    let bytes := reply outside.platform (outside.files connection) (outside.host connection).contents
      method.characters path.characters
    (s.exchange connection).wire.sent <+: bytes ∧
      (.closing connection ∈ s.state.running → (s.exchange connection).wire.sent = bytes) := by
  intro bytes
  have kept := run.kept
  have alone := kept.alone connection
  have sends : ∀ response returned, Sending outside connection (s.exchange connection) response returned →
      (s.exchange connection).wire.sent <+: bytes ∧
        (returned = true → (s.exchange connection).wire.sent = bytes) := by
    rintro response returned ⟨buffer, first, n, position, processed, calls⟩
    rw [dispatched_whole early delivery (alone.read.trans position)] at processed
    obtain ⟨one, made, answers⟩ := process_answers fits opened noError
    obtain rfl := List.singleton_inj.mp (Option.some.inj (processed.symm.trans made))
    obtain ⟨again, suspended, wire, run, part, whole⟩ := answers.sends n
    obtain ⟨rfl, _, rfl⟩ := Prod.mk.inj (Option.some.inj (calls.symm.trans run))
    exact ⟨part, whole⟩
  constructor
  · cases begun : (s.exchange connection).response with
    | none =>
      rw [alone.idle begun]
      exact List.nil_prefix
    | some response =>
      obtain ⟨returned, sending⟩ := alone.begun response begun
      exact (sends response returned sending).1
  · intro closing
    have placed : (connection, Phase.sent) ∈ s.state.phases :=
      mem_phases.mpr (.inr (.inr (.inr (.inr ⟨_, closing, rfl⟩))))
    obtain ⟨response, _, sending⟩ := kept.agrees _ placed
    exact (sends response true sending).2 rfl

end Server

/-- The request for a file that is not there arrives at once, and its reply is taken at once. -/
theorem web_server_missing : ∃ s, @ServiceRun .zeroed emptyRoot 3 4 s ∧ .closing 0 ∈ s.state.running ∧
    (s.exchange 0).wire.sent = (replyHead (literal "404 Not Found") ++ literal "404/Not Found").bytes := by
  let _ := CMemory.zeroed
  obtain ⟨s, run, thread, idle, queue, socket, new⟩ := accepted_service emptyRoot
  have delivery : Delivery (pathRequest readablePath) [.received (pathRequest readablePath).bytes] :=
    delivery_nil.concat (by decide +kernel) (by decide +kernel)
  have settles : Settles [.received (pathRequest readablePath).bytes] := by
    refine ⟨[], _, List.prefix_refl _, ?_, by decide +kernel⟩
    rw [List.nil_append, delivery.total, ← canParseBuffer_iff]
    decide +kernel
  obtain ⟨buffer, position⟩ :
      ∃ buffer, readAll [.received (pathRequest readablePath).bytes] = .dispatched buffer := by
    obtain ⟨unsettled, _⟩ | ⟨_, buffer, _, position, _⟩ := readAll_delivered delivery
    · exact absurd settles unsettled
    · exact ⟨buffer, position⟩
  have read : ReadCall (s.exchange 0).position [.received (pathRequest readablePath).bytes]
      (.dispatched buffer) := by
    rw [new]
    exact .last position fun buffer same => by cases same
  have dispatched := run.snoc (.createRead thread read (.dispatched buffer))
  have taken := dispatched.quiet (.takeProcessing 0 [] (by simp [Service.set, queue])) idle
    fun _ _ _ same => by cases same
  have processed : httpProcessRequest emptyRoot.platform emptyRoot.pathMax (emptyRoot.files 0)
      (stringAt buffer.memory) = some [errorResponse .kHTTPBadNotFound (literal "404/Not Found")] := by
    have created := httpRequestCreate_requestText ⟨literal "GET", by decide, by decide +kernel⟩ readablePath
      ⟨literal "HTTP/1.0", by decide, by decide +kernel⟩ []
    have get : methodOf (literal "GET") = .kHTTPMethodGet := by decide +kernel
    have inBuffer : InBuffer emptyRoot.platform emptyRoot.pathMax readablePath.characters :=
      (inBuffer_iff _ _ _).mpr (by decide)
    rw [dispatched_whole (List.prefix_refl _) delivery position]
    simp only [httpProcessRequest, created, httpRequestGetMethod, httpRequestGetPath, get, ne_eq,
      not_true_eq_false, if_false, Option.bind_some, Option.mem_def, Option.some.injEq, forall_eq',
      if_pos inBuffer]
    rfl
  have sending := taken.snoc (.processRequest (show _ = [] ++ Work.processing 0 :: s.state.running from rfl)
    (congrArg Exchange.position (Service.set_self ..)) processed)
  obtain ⟨last, wire, sent⟩ : ∃ last wire, httpResponseSend (emptyRoot.host 0)
      (errorResponse .kHTTPBadNotFound (literal "404/Not Found")) { sent := [], calls := 0 } =
        some (true, last, wire) := by
    have returns : (httpResponseSend (emptyRoot.host 0)
        (errorResponse .kHTTPBadNotFound (literal "404/Not Found")) { sent := [], calls := 0 }).map Prod.fst =
          some true := by decide +kernel
    obtain ⟨⟨_, last, wire⟩, calls, rfl⟩ := Option.map_eq_some_iff.mp returns
    exact ⟨last, wire, calls⟩
  have unsent : (s.exchange 0).wire = { sent := [], calls := 0 } := by rw [new]; rfl
  have done := sending.snoc (.sendComplete (show _ = [] ++ Work.sending 0 :: s.state.running from rfl) socket
    (congrArg Exchange.response (Service.set_self ..)) (by simpa only [Service.set_self, unsent] using sent))
  have missing : requestedFile emptyRoot.platform (emptyRoot.files 0) readablePath.characters = none := rfl
  have early : pathRequest readablePath <+: requestText ⟨literal "GET", by decide, by decide +kernel⟩ readablePath
      ⟨literal "HTTP/1.0", by decide, by decide +kernel⟩ [] := List.prefix_refl _
  refine ⟨_, done, List.mem_cons_self, ?_⟩
  refine ((web_server done early ?_ (by decide +kernel) ?_ ?_).2 List.mem_cons_self).trans ?_
  · simpa only [Service.set_self, new, newExchange, List.nil_append] using delivery
  · intro real found
    cases missing.symm.trans found
  · exact fun call failed => by cases failed
  · rw [reply, missing]
    rfl

end KommunikationNetze.Webserver
