import KommunikationNetze.CLib.Buffer

/-! A client of the echo server. Lengths are natural numbers: a string as long as memory is
large stays behind the bound of `size_t`. No function sets the buffer of a new client, so it
is what `malloc` left there: `CloseClient` neither frees nor clears the buffer of a client. -/
namespace KommunikationNetze.Echo
open CLib

/-- The empty list is NULL. What `recv` stored and what `send` accepted is recorded and
never read. -/
structure EchoClient where
  buffer : List UInt8
  bufferLen : Nat
  received : List UInt8
  sent : List UInt8
  deriving DecidableEq

/-- The fields in the memory of a new client before it was one. A pointer that is not NULL is
given by the bytes it points to. -/
structure LeftOver where
  buffer : List UInt8
  bufferLen : Nat

def LeftOver.null : LeftOver := { buffer := [], bufferLen := 0 }

def acceptNewClient (left : LeftOver) : EchoClient :=
  { buffer := left.buffer, bufferLen := left.bufferLen, received := [], sent := [] }

/-- `CloseClient` frees the memory of the client, where the pointer to its buffer stays. -/
def EchoClient.leftOver (client : EchoClient) : LeftOver :=
  { buffer := client.buffer, bufferLen := client.bufferLen }

def strlen (memory : List UInt8) : Nat := (stringAt memory).length

/-- The doubling of a length that is not 0, with enough fuel. -/
def doubled : Nat → Nat → Nat → Nat
  | 0, newSize, _ => newSize
  | fuel + 1, newSize, needed => if newSize < needed then doubled fuel (newSize * 2) needed else newSize

namespace EchoClient
variable [CMemory]

def allocated (client : EchoClient) : EchoClient :=
  if client.buffer = [] then
    { client with buffer := memset (realloc [] 20) 0 0 20, bufferLen := 20 }
  else client

/-- Room for so many bytes behind the string. -/
def resized (client : EchoClient) (size : Nat) : EchoClient :=
  let needed := strlen client.buffer + size
  if client.bufferLen < needed then
    let newSize := doubled needed client.bufferLen needed
    { client with buffer := realloc client.buffer newSize, bufferLen := newSize }
  else client

/-- The bytes of one `recv`, with the terminator, go behind the string. -/
def append (client : EchoClient) (bytes : List UInt8) : EchoClient :=
  let size := bytes.length + 1
  let client := client.allocated.resized size
  { client with
    buffer := memcpy client.buffer (strlen client.buffer) (bytes ++ [0])
    received := client.received ++ bytes }

end EchoClient

section Client
variable [CMemory]

/-- The list has what `recv` returns, none for an error and no byte for the end. -/
def readClientToBuffer (client : EchoClient) : List (Option (List UInt8)) → EchoClient × Bool
  | [] | none :: _ => (client, false)
  | some bytes :: rest =>
    if bytes.length = 0 then (client, false)
    else if bytes.length + 1 = 255 then readClientToBuffer (client.append bytes) rest
    else (client.append bytes, true)

/-- `send` accepts so many bytes, or fails. -/
def writeBufferToClient (client : EchoClient) : Option Nat → EchoClient × Bool
  | none => (client, false)
  | some sendSize =>
    let moved := memmove client.buffer sendSize (strlen client.buffer + 1 - sendSize)
    ({ client with
        buffer := memset moved sendSize 0 (client.bufferLen - sendSize)
        sent := client.sent ++ client.buffer.take sendSize }, true)

/-- What the system calls of one step return. -/
structure EchoEvent where
  recvs : List (Option (List UInt8))
  send : Option Nat

/-- A newline is in the string. -/
def writes (client : EchoClient) : Bool := (strchr client.buffer 10).isSome

def processClient (client : EchoClient) (event : EchoEvent) : EchoClient × Bool :=
  match readClientToBuffer client event.recvs with
  | (client, false) => (client, false)
  | (client, true) => if writes client then writeBufferToClient client event.send else (client, true)

/-- The run loop: once a step has returned false the client is closed. -/
def runloop (state : EchoClient × Bool) (event : EchoEvent) : EchoClient × Bool :=
  if state.2 then processClient state.1 event else state

def echoAfter (left : LeftOver) (events : List EchoEvent) : EchoClient × Bool :=
  events.foldl runloop (acceptNewClient left, true)

end Client
end KommunikationNetze.Echo
