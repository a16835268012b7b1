import KommunikationNetze.ChatClient.Relay
import KommunikationNetze.ChatClient.StartUpOrder

/-! What a call of a handler of the chat client does: it moves one of the two relays, and calls for
output exactly if there is something to write. -/
namespace KommunikationNetze.ChatClient
open CLib
open Chat (pollOut Bounded)

/-- The bytes that a block writes; the input of the GUI writes none. -/
def StartingClient.relay (client : StartingClient) : ClientBlock → Relay
  | .socket => client.outBuffer
  | .guiIn => .empty
  | .guiOut => client.inBuffer

/-- How many of them are still to be written. -/
def StartingClient.unsent (client : StartingClient) (b : ClientBlock) : Nat := (client.relay b).buffer.filled

section Handlers
variable [CMemory]

/-- A read delivers no more than there is room for, and doubling the length before it does not
wrap. The code checks no length. -/
def Fits (buffer : Buffer) (bytes : List UInt8) : Prop :=
  buffer.length < 2 ^ 31 ∧ bytes.length ≤ offeredRoom (makeRoom buffer)

/-- A write takes no more than it is offered, and at least one byte. -/
def Takes (buffer : Buffer) (len : Int) : Prop := len ≤ buffer.filled ∧ (0 < buffer.filled → 0 < len)

/-- The system call of a handler is answered as the system promises, if the buffer it reads to
is not too large. -/
def Answered (client : StartingClient) : Handler → SystemResult → Prop
  | .receive, .read (some bytes) => Fits client.inBuffer.buffer bytes
  | .guiRead, .read (some bytes) => Fits client.outBuffer.buffer bytes
  | .send, .written len => Takes client.outBuffer.buffer len
  | .guiWrite, .written len => Takes client.inBuffer.buffer len
  | _, _ => True

/-- A write takes everything. -/
def Whole (client : StartingClient) : Handler → SystemResult → Prop
  | .send, .written len => len = client.outBuffer.buffer.filled
  | .guiWrite, .written len => len = client.inBuffer.buffer.filled
  | _, _ => True

/-- The block whose bytes a handler writes. -/
def Handler.writes : Handler → Option ClientBlock
  | .send => some .socket
  | .guiWrite => some .guiOut
  | _ => none

omit [CMemory] in
theorem handlerOf_writes {block : Option ClientBlock} (calls : handlerOf revents block = handler)
    (writes : handler.writes = some b) : block = some b ∧ revents &&& pollOut ≠ 0 := by
  cases block with
  | none =>
    obtain rfl : Handler.ignore = handler := calls
    cases writes
  | some block =>
    replace calls : block.handler revents = handler := calls
    cases handler <;> cases writes <;> cases block <;> grind [ClientBlock.handler]

variable {relay after : Relay}

/-- One step of a relay, or none. -/
def Moves (whole : Prop) (relay after : Relay) : Prop :=
  after = relay ∨ ∃ label, RelayStep relay label after ∧
    (whole → ∀ accepted offered, label = .write accepted offered → accepted = offered)

theorem readInto_filled (bounded : Bounded relay.buffer) (fits : Fits relay.buffer bytes)
    (done : readInto relay (some bytes) = some (after, more)) :
    RelayStep relay (.read bytes) after ∧
      (more = false → bytes = [] ∧ after.buffer.filled = relay.buffer.filled) ∧
      (more = true → 0 < after.buffer.filled) := by
  obtain ⟨roomy, filled, _⟩ := makeRoom_spec bounded fits.1
  refine ⟨.read fits.1 fits.2 done, ?_⟩
  cases bytes with
  | nil =>
    obtain ⟨rfl, rfl⟩ := Prod.mk.inj (Option.some.inj done)
    exact ⟨fun _ => ⟨rfl, filled⟩, fun same => by cases same⟩
  | cons b rest =>
    obtain ⟨rfl, rfl⟩ := Prod.mk.inj (Option.some.inj done)
    refine ⟨(fun same => by cases same), fun _ => ?_⟩
    rw [(receive_spec roomy fits.2).2.1, List.length_cons]
    omega

theorem writeFrom_filled (bounded : Bounded relay.buffer) (pending : 0 < relay.buffer.filled)
    (takes : Takes relay.buffer len) (done : writeFrom relay len = some (after, outcome)) :
    RelayStep relay (.write len.toNat relay.buffer.filled) after ∧ outcome ≠ .nothing ∧
      (outcome = .everything → after.buffer.filled = 0) ∧
      (outcome = .partly → after.buffer.filled = relay.buffer.filled) := by
  have positive := takes.2 pending
  have within := takes.1
  obtain ⟨accepted, rfl⟩ := Int.eq_ofNat_of_zero_le (Int.le_of_lt positive)
  have step : RelayStep relay (.write accepted relay.buffer.filled) after :=
    .write (by omega) (by omega) done
  obtain ⟨_, filled⟩ := Chat.consume_spec bounded accepted (by omega) (by omega)
  rw [writeFrom, if_neg (by omega), if_neg (by omega)] at done
  obtain ⟨rfl, rfl⟩ := Prod.mk.inj (Option.some.inj done)
  refine ⟨step, ?_, ?_, ?_⟩
  · split <;> exact fun same => by cases same
  · intro everything
    split at everything
    · rename_i all
      exact filled.trans (if_pos all.symm)
    · cases everything
  · intro partly
    split at partly
    · cases partly
    · rename_i some
      exact filled.trans (if_neg (Ne.symm some))

theorem moves_read {whole : Prop} (step : RelayStep relay (.read bytes) after) : Moves whole relay after :=
  .inr ⟨_, step, fun _ _ _ same => by cases same⟩

theorem moves_write {whole : Prop} (step : RelayStep relay (.write accepted offered) after)
    (all : whole → accepted = offered) : Moves whole relay after := by
  refine .inr ⟨_, step, fun taken _ _ same => ?_⟩
  obtain ⟨rfl, rfl⟩ := RelayEvent.write.inj same
  exact all taken

/-- What a handler does, and what it calls for. -/
structure Handled (whole : Prop) (client next : StartingClient) (handler : Handler) (result : SystemResult)
    (call : Option EventCall) : Prop where
  moves : ∀ b, Moves whole (client.relay b) (next.relay b)
  asks : ∀ c, call = some c → (c.add = true ↔ 0 < next.unsent c.block)
  writes : ∀ c, call = some c → c.add = false → handler.writes = some c.block
  others : ∀ b, (∀ c, call = some c → c.block ≠ b) → next.unsent b = client.unsent b
  running : next.keepRunning ≠ client.keepRunning → handler = .quit ∨ result = .read (some [])

section Handled
variable {whole : Prop} {client next : StartingClient} {call : Option EventCall}

/-- The other relay stays. -/
def Only (b : ClientBlock) (client next : StartingClient) : Prop :=
  ∀ other, other ≠ b → next.relay other = client.relay other

/-- Both functions that read. -/
theorem handled_read (b : ClientBlock) (bounded : Bounded (client.relay b).buffer)
    (fits : Fits (client.relay b).buffer bytes) (read : readInto (client.relay b) (some bytes) = some (next.relay b, more)) (only : Only b client next)
    (called : call = if more then some ⟨true, b⟩ else none)
    (running : next.keepRunning = if more then client.keepRunning else false) :
    Handled whole client next handler (.read (some bytes)) call := by
  obtain ⟨step, nothing, something⟩ := readInto_filled bounded fits read
  have others : ∀ other, other ≠ b → next.unsent other = client.unsent other := by
    intro other different
    rw [StartingClient.unsent, only other different]
    rfl
  refine ⟨fun other => ?_, ?_, ?_, fun other apart => ?_, fun different => ?_⟩
  · by_cases same : other = b
    · rw [same]
      exact moves_read step
    · exact .inl (only other same)
  · intro c its
    cases more <;> cases called.symm.trans its
    exact iff_of_true rfl (something rfl)
  · intro c its removes
    cases more <;> cases called.symm.trans its
    cases removes
  · by_cases same : other = b
    · subst same
      cases more
      · exact (nothing rfl).2
      · exact absurd rfl (apart _ called)
    · exact others other same
  · cases more
    · rw [(nothing rfl).1]
      exact .inr rfl
    · exact absurd running different

/-- Both functions that write. -/
theorem handled_write (b : ClientBlock) (bounded : Bounded (client.relay b).buffer) (pending : 0 < client.unsent b)
    (takes : Takes (client.relay b).buffer len) (all : whole → len = (client.relay b).buffer.filled)
    (written : writeFrom (client.relay b) len = some (next.relay b, outcome)) (only : Only b client next)
    (writes : handler.writes = some b) (called : call = if outcome = .everything then some ⟨false, b⟩ else none)
    (running : outcome ≠ .nothing → next.keepRunning = client.keepRunning) :
    Handled whole client next handler (.written len) call := by
  obtain ⟨step, wrote, everything, partly⟩ := writeFrom_filled bounded pending takes written
  refine ⟨fun other => ?_, ?_, ?_, fun other apart => ?_, fun different => absurd (running wrote) different⟩
  · by_cases same : other = b
    · rw [same]
      exact moves_write step fun taken => Int.toNat_natCast _ ▸ congrArg Int.toNat (all taken)
    · exact .inl (only other same)
  · intro c its
    cases outcome <;> cases called.symm.trans its
    refine iff_of_false Bool.false_ne_true ?_
    rw [StartingClient.unsent, everything rfl]
    exact Nat.lt_irrefl 0
  · intro c its _
    cases outcome <;> cases called.symm.trans its
    exact writes
  · by_cases same : other = b
    · subst same
      cases outcome
      · exact absurd rfl wrote
      · exact absurd rfl (apart _ called)
      · exact partly rfl
    · rw [StartingClient.unsent, only other same]
      rfl

theorem handle_handled (done : client.handle handler result = some (next, call))
    (bounded : ∀ b, Bounded (client.relay b).buffer) (pending : ∀ b, handler.writes = some b → 0 < client.unsent b)
    (answered : Answered client handler result) (all : whole → Whole client handler result) :
    Handled whole client next handler result call := by
  cases handler with
  | quit =>
    cases result with
    | nothing =>
      obtain ⟨rfl, rfl⟩ := Prod.mk.inj (Option.some.inj done)
      refine ⟨fun b => .inl ?_, (fun _ same => by cases same), (fun _ same => by cases same), fun b _ => ?_,
        fun _ => .inl rfl⟩
      all_goals cases b <;> rfl
    | _ => cases done
  | ignore =>
    cases result with
    | nothing =>
      obtain ⟨rfl, rfl⟩ := Prod.mk.inj (Option.some.inj done)
      exact ⟨fun _ => .inl rfl, (fun _ same => by cases same), (fun _ same => by cases same), fun _ _ => rfl,
        fun different => absurd rfl different⟩
    | _ => cases done
  | receive =>
    cases result with
    | read bytes =>
      obtain ⟨⟨relay, more⟩, read, made⟩ := Option.map_eq_some_iff.mp done
      cases bytes with
      | none => cases read
      | some bytes =>
        cases more <;> obtain ⟨rfl, rfl⟩ := Prod.mk.inj made
        all_goals
          refine handled_read .guiOut (bounded _) answered read (fun other different => ?_) rfl rfl
          cases other <;> first | rfl | exact absurd rfl different
    | _ => cases done
  | guiRead =>
    cases result with
    | read bytes =>
      obtain ⟨⟨relay, more⟩, read, made⟩ := Option.map_eq_some_iff.mp done
      cases bytes with
      | none => cases read
      | some bytes =>
        cases more <;> obtain ⟨rfl, rfl⟩ := Prod.mk.inj made
        all_goals
          refine handled_read .socket (bounded _) answered read (fun other different => ?_) rfl rfl
          cases other <;> first | rfl | exact absurd rfl different
    | _ => cases done
  | send =>
    cases result with
    | written len =>
      obtain ⟨⟨relay, outcome⟩, written, made⟩ := Option.map_eq_some_iff.mp done
      cases outcome <;> obtain ⟨rfl, rfl⟩ := Prod.mk.inj made
      all_goals
        refine handled_write .socket (bounded _) (pending _ rfl) answered all written (fun other different => ?_)
          rfl rfl (fun wrote => ?_)
        · cases other <;> first | rfl | exact absurd rfl different
        · first | rfl | exact absurd rfl wrote
    | _ => cases done
  | guiWrite =>
    cases result with
    | written len =>
      obtain ⟨⟨relay, outcome⟩, written, made⟩ := Option.map_eq_some_iff.mp done
      cases outcome <;> obtain ⟨rfl, rfl⟩ := Prod.mk.inj made
      all_goals
        refine handled_write .guiOut (bounded _) (pending _ rfl) answered all written (fun other different => ?_)
          rfl rfl (fun wrote => ?_)
        · cases other <;> first | rfl | exact absurd rfl different
        · first | rfl | exact absurd rfl wrote
    | _ => cases done

end Handled

/-- The relay is that of a run of its own. -/
def Streams (whole : Prop) (relay : Relay) : Prop := ∃ events, RelayRun events relay ∧ (whole → Complete events)

theorem Streams.bounded {whole : Prop} (streams : Streams whole relay) : Bounded relay.buffer := by
  obtain ⟨_, run, _⟩ := streams
  obtain ⟨_, account⟩ := account_run run
  exact account.bounded

theorem Streams.moves {whole : Prop} (streams : Streams whole relay) (moves : Moves whole relay after) :
    Streams whole after := by
  rcases moves with rfl | ⟨label, step, all⟩
  · exact streams
  · obtain ⟨events, run, complete⟩ := streams
    refine ⟨_, run.snoc step, fun taken accepted offered mem => ?_⟩
    rcases List.mem_append.mp mem with old | new
    · exact complete taken accepted offered old
    · exact all taken accepted offered (List.mem_singleton.mp new).symm

end Handlers
end KommunikationNetze.ChatClient
