import KommunikationNetze.CLib.Buffer
import KommunikationNetze.Chat.Poll
import KommunikationNetze.Utils.DictionaryIterator
import Mathlib.Logic.Function.Basic

/-! The memory of the chat server. All handlers run on the poll thread, so the whole
server is one state that they pass on. The record of calls is not read by them. -/
namespace KommunikationNetze.Chat
open CLib Utils

/-- A pointer to a client. -/
abbrev ClientRef := Nat

structure Client where
  socket : Int
  /-- Until `close` of the socket. -/
  socketOpen : Bool
  pollDescriptor : PollDescriptor
  nickname : Option CString
  inBuffer : Buffer
  outBuffer : Buffer
  deriving DecidableEq

/-- The calls that are observed. A written line may belong to a channel message,
which is given by its number among all of them. -/
inductive Call where
  | recv (client : ClientRef) (bytes : List UInt8)
  | send (client : ClientRef) (bytes : List UInt8)
  | handleLine (client : ClientRef) (line : CString)
  | writeLine (client : ClientRef) (line : CString) (channel : Option Nat)
  | sendChannelMessage (clients : Dictionary ClientRef) (msg : CString)

/-- The channel messages sent so far, each with the dictionary at its start. -/
def channelMessages (calls : List Call) : List (Dictionary ClientRef × CString) :=
  calls.filterMap fun
    | .sendChannelMessage clients msg => some (clients, msg)
    | _ => none

structure World where
  clients : Dictionary ClientRef
  client : ClientRef → Client
  /-- How many clients were allocated so far. -/
  allocated : Nat
  poll : Poll ClientRef
  calls : List Call

/-- `memset(client, 0, sizeof(struct _Client))`. -/
def zeroClient : Client :=
  { socket := 0, socketOpen := false, pollDescriptor := 0, nickname := none,
    inBuffer := .empty, outBuffer := .empty }

/-- The state `ServerCreate` leaves. -/
def serverCreate : World :=
  { clients := dictionaryCreate, client := fun _ => zeroClient, allocated := 0,
    poll := pollCreate, calls := [] }

namespace World

def record (world : World) (call : Call) : World := { world with calls := world.calls ++ [call] }

def setClient (world : World) (client : ClientRef) (fields : Client) : World :=
  { world with client := Function.update world.client client fields }

section SetClient
variable (world : World) (client : ClientRef) (fields : Client)

@[simp] theorem setClient_self : (world.setClient client fields).client client = fields :=
  Function.update_self ..

theorem setClient_other (other : c ≠ client) :
    (world.setClient client fields).client c = world.client c := Function.update_of_ne other ..

/-- What is kept of the fields of one client is kept of all clients. -/
theorem setClient_keeps (view : Client → α) (kept : view fields = view (world.client client))
    (c : ClientRef) : view ((world.setClient client fields).client c) = view (world.client c) := by
  by_cases same : c = client
  · rw [same, setClient_self, kept]
  · rw [setClient_other world client fields same]

end SetClient

/-- The nickname as `%s` prints it. -/
def nicknameText (world : World) (client : ClientRef) : CString :=
  (world.client client).nickname.getD (literal "(null)")

/-- The client was accepted and its socket is not closed yet. -/
def Connected (world : World) (client : ClientRef) : Prop :=
  client < world.allocated ∧ (world.client client).socketOpen = true

instance (world : World) (client : ClientRef) : Decidable (world.Connected client) :=
  inferInstanceAs (Decidable (_ ∧ _))

def connectedClients (world : World) : List ClientRef :=
  (List.range world.allocated).filter (world.Connected ·)

theorem mem_connectedClients {world : World} : c ∈ world.connectedClients ↔ world.Connected c := by
  simp only [connectedClients, List.mem_filter, List.mem_range, decide_eq_true_eq]
  exact ⟨fun h => h.2, fun h => ⟨h.1, h⟩⟩

end World

/-- A change that reaches nothing but output buffers, the update queue, the locks and
the record: what is written and sent to the channel. -/
structure OutputOnly (world after : World) : Prop where
  headEntry : after.clients.headEntry = world.clients.headEntry
  allocated : after.allocated = world.allocated
  fields : ∀ c, after.client c = { world.client c with outBuffer := (after.client c).outBuffer }
  calls : ∃ added, after.calls = world.calls ++ added ∧ ∀ call ∈ added,
    (∃ c line channel, call = .writeLine c line channel) ∨
      ∃ clients msg, call = .sendChannelMessage clients msg

namespace OutputOnly

theorem refl (world : World) : OutputOnly world world where
  headEntry := rfl
  allocated := rfl
  fields _ := rfl
  calls := ⟨[], by simp, by simp⟩

/-- Taking an iterator changes nothing but the lock and the retain count. -/
theorem getIterator (world : World) :
    OutputOnly world { world with clients := (dictionaryGetIterator world.clients).2 } where
  headEntry := rfl
  allocated := rfl
  fields _ := rfl
  calls := ⟨[], by simp, by simp⟩

theorem trans (first : OutputOnly u v) (second : OutputOnly v w) : OutputOnly u w where
  headEntry := second.headEntry.trans first.headEntry
  allocated := second.allocated.trans first.allocated
  fields c := by rw [second.fields c, first.fields c]
  calls := by
    obtain ⟨before, callsBefore, kindBefore⟩ := first.calls
    obtain ⟨added, callsAdded, kindAdded⟩ := second.calls
    refine ⟨before ++ added, by rw [callsAdded, callsBefore, List.append_assoc], ?_⟩
    intro call mem
    rcases List.mem_append.mp mem with mem | mem
    · exact kindBefore call mem
    · exact kindAdded call mem

theorem nickname (output : OutputOnly world after) (c : ClientRef) :
    (after.client c).nickname = (world.client c).nickname := by rw [output.fields c]

end OutputOnly

/-- Handling a line neither opens nor closes a connection and reads no input. -/
structure SameConnections (world after : World) : Prop where
  allocated : after.allocated = world.allocated
  socketOpen : ∀ c, (after.client c).socketOpen = (world.client c).socketOpen
  inBuffer : ∀ c, (after.client c).inBuffer = (world.client c).inBuffer

namespace SameConnections

theorem refl (world : World) : SameConnections world world where
  allocated := rfl
  socketOpen _ := rfl
  inBuffer _ := rfl

theorem trans (first : SameConnections u v) (second : SameConnections v w) : SameConnections u w where
  allocated := second.allocated.trans first.allocated
  socketOpen c := (second.socketOpen c).trans (first.socketOpen c)
  inBuffer c := (second.inBuffer c).trans (first.inBuffer c)

theorem connected (same : SameConnections world after) (c : ClientRef) :
    after.Connected c ↔ world.Connected c := by
  rw [World.Connected, World.Connected, same.allocated, same.socketOpen]

end SameConnections

theorem OutputOnly.sameConnections (output : OutputOnly world after) : SameConnections world after where
  allocated := output.allocated
  socketOpen c := by rw [output.fields c]
  inBuffer c := by rw [output.fields c]

end KommunikationNetze.Chat
