import KommunikationNetze.Chat.Client

/-! The chat client between the socket and the GUI. Allocations succeed. After an error of
a system call the client aborts, and there is none. -/
namespace KommunikationNetze.ChatClient
open CLib
open Chat (PollDescriptor Poll pollIn pollOut pollCreate pollRegister pollDescriptorAddEvent
  pollDescriptorRemoveEvent receive consume)

/-- A buffer between two descriptors. What was read into it and written from it is
recorded and never read. -/
structure Relay where
  buffer : Buffer
  read : List UInt8
  written : List UInt8
  deriving DecidableEq

def Relay.empty : Relay := { buffer := .empty, read := [], written := [] }

/-- The blocks of the three descriptors. -/
inductive ClientBlock where
  | socket
  | guiIn
  | guiOut
  deriving DecidableEq

structure Client where
  guiInFD : Int
  guiOutFD : Int
  socket : Int
  poll : Poll ClientBlock
  keepRunning : Bool
  socketPollDescriptor : PollDescriptor
  guiInPollDescriptor : PollDescriptor
  guiOutPollDescriptor : PollDescriptor
  inBuffer : Relay
  outBuffer : Relay

/-- `ClientCreate`, once the GUI is started and the socket connected. -/
def clientCreate (socket guiInFD guiOutFD : Int) : Client :=
  let (socketPollDescriptor, poll) := pollRegister pollCreate socket pollIn none .socket
  let (guiInPollDescriptor, poll) := pollRegister poll guiInFD pollIn none .guiIn
  let (guiOutPollDescriptor, poll) := pollRegister poll guiOutFD 0 none .guiOut
  { guiInFD, guiOutFD, socket, poll, keepRunning := true, socketPollDescriptor
    guiInPollDescriptor, guiOutPollDescriptor, inBuffer := .empty, outBuffer := .empty }

section Read
variable [CMemory]

/-- The growth of the buffer in both reading functions. -/
def makeRoom (buffer : Buffer) : Buffer :=
  if u32Sub buffer.length buffer.filled < 1 then
    let length := u32 (buffer.length * 2)
    let length := if length < 1024 then 1024 else length
    let memory := realloc buffer.memory length
    { buffer with length, memory := memset memory buffer.filled 0 (u32Sub length buffer.filled) }
  else buffer

/-- The room offered to `recv` or `read`. -/
def offeredRoom (buffer : Buffer) : Nat := u32Sub buffer.length buffer.filled

/-- What both do with the buffer, and whether any byte was read. -/
def readInto (relay : Relay) : Option (List UInt8) → Option (Relay × Bool)
  | none => none
  | some [] => some ({ relay with buffer := makeRoom relay.buffer }, false)
  | some (b :: bytes) =>
    some ({ relay with
      buffer := receive (makeRoom relay.buffer) (b :: bytes), read := relay.read ++ b :: bytes }, true)

def clientReceive (client : Client) (result : Option (List UInt8)) : Option Client :=
  (readInto client.inBuffer result).map fun
    | (inBuffer, false) => { client with inBuffer, keepRunning := false }
    | (inBuffer, true) =>
      { client with
        inBuffer, poll := pollDescriptorAddEvent client.poll client.guiOutPollDescriptor pollOut }

def clientGUIRead (client : Client) (result : Option (List UInt8)) : Option Client :=
  (readInto client.outBuffer result).map fun
    | (outBuffer, false) => { client with outBuffer, keepRunning := false }
    | (outBuffer, true) =>
      { client with
        outBuffer, poll := pollDescriptorAddEvent client.poll client.socketPollDescriptor pollOut }

end Read

/-- Nothing, everything or only a part was written. -/
inductive Written where
  | nothing
  | everything
  | partly
  deriving DecidableEq

/-- What both writing functions do with the buffer. -/
def writeFrom (relay : Relay) (len : Int) : Option (Relay × Written) :=
  if len < 0 then none
  else if len = 0 then some (relay, .nothing)
  else
    some ({ relay with
        buffer := consume relay.buffer len.toNat
        written := relay.written ++ relay.buffer.content.take len.toNat },
      if relay.buffer.filled = len.toNat then .everything else .partly)

def clientSend (client : Client) (len : Int) : Option Client :=
  (writeFrom client.outBuffer len).map fun
    | (outBuffer, .nothing) => { client with outBuffer, keepRunning := false }
    | (outBuffer, .everything) =>
      { client with
        outBuffer, poll := pollDescriptorRemoveEvent client.poll client.socketPollDescriptor pollOut }
    | (outBuffer, .partly) => { client with outBuffer }

def clientGUIWrite (client : Client) (len : Int) : Option Client :=
  (writeFrom client.inBuffer len).map fun
    | (inBuffer, .nothing) => { client with inBuffer, keepRunning := false }
    | (inBuffer, .everything) =>
      { client with
        inBuffer, poll := pollDescriptorRemoveEvent client.poll client.guiOutPollDescriptor pollOut }
    | (inBuffer, .partly) => { client with inBuffer }

end KommunikationNetze.ChatClient
