import KommunikationNetze.Chat.World
import KommunikationNetze.Utils.StrHelper

/-! The client handlers of the chat server, in the order in which they call each
other. Allocations succeed, so the branches that only a failed one takes are left
out, and so is what is printed on the terminal. -/
namespace KommunikationNetze.Chat
open CLib Utils

variable [CMemory]

section Output

/-- The growth of the output buffer in `ClientWriteLine`. -/
def makeLineRoom (buffer : Buffer) (line : CString) : Buffer :=
  if u32Sub buffer.length buffer.filled < line.length + 1 then
    let length := u32 (buffer.length + (line.length + 1))
    { buffer with length, memory := realloc buffer.memory length }
  else buffer

/-- The buffer part of `ClientWriteLine`. -/
def appendLine (buffer : Buffer) (line : CString) : Buffer :=
  let buffer := makeLineRoom buffer line
  let memory := memcpy buffer.memory buffer.filled line.bytes
  let filled := u32 (buffer.filled + line.length)
  { buffer with memory := memcpy memory filled [10], filled := u32 (filled + 1) }

/-- `ClientWriteLine`; the first argument goes to the record only. -/
def clientWriteLineFor (channel : Option Nat) (world : World) (client : ClientRef) (line : CString) :
    World :=
  let world := world.record (.writeLine client line channel)
  let fields := world.client client
  let world := world.setClient client { fields with outBuffer := appendLine fields.outBuffer line }
  { world with poll := pollDescriptorAddEvent world.poll fields.pollDescriptor pollOut }

def clientWriteLine (world : World) (client : ClientRef) (line : CString) : World :=
  clientWriteLineFor none world client line

/-- The body of the loop of `ServerSendChannelMessage`. -/
def sendToEntry (number : Nat) (msg : CString) (world : World) (_ : CString) :
    Option ClientRef → World
  | some c => clientWriteLineFor (some number) world c msg
  | none => world

/-- The iterator is never released, so the dictionary stays locked and retained. -/
def serverSendChannelMessage (world : World) (msg : CString) : World :=
  let number := (channelMessages world.calls).length
  let world := world.record (.sendChannelMessage world.clients msg)
  let (iter, clients) := dictionaryGetIterator world.clients
  iteratorLoop (sendToEntry number msg) iter { world with clients }

end Output

section Nickname

/-- The dictionary without the entry of this nickname, if there is one. -/
def withoutNickname (clients : Dictionary ClientRef) : Option CString → Dictionary ClientRef
  | some nickname => dictionaryRemove clients nickname
  | none => clients

/-- Tells whether the nickname is set. The `free` of the former one, which may abort, is left to
`NicknameState`. -/
def clientSetNickname (world : World) (client : ClientRef) (nick : CString) : Bool × World :=
  let nickname := strtrim nick
  let fields := world.client client
  if nickname.length = 0 then (false, world)
  else if fields.nickname.any (strcmp · nickname = 0) then (true, world)
  else
    let clients := world.clients.lock
    if (dictionaryGet clients nickname).isSome then (false, { world with clients := clients.unlock })
    else
      let clients := withoutNickname clients fields.nickname
      let world := world.setClient client { fields with nickname := some nickname }
      (true, { world with clients := (dictionarySet clients nickname (some client)).unlock })

/-- The loop of `ClientCreate` over the temporary nicknames, from `i` on. -/
def setTemporaryNickname (world : World) (client : ClientRef) : Nat → Nat → World
  | _, 0 => world
  | i, rounds + 1 =>
    match clientSetNickname world client (literal "Derp" ++ decimal i) with
    | (true, world) => world
    | (false, world) => setTemporaryNickname world client (i + 1) rounds

end Nickname

section Connection

/-- The client `ClientCreate` fills in and registers with the poll, before it has a
nickname. It is the next one allocated. -/
def allocateClient (world : World) (socket : Int) : World :=
  let client := world.allocated
  let (pollDescriptor, poll) := pollRegister world.poll socket pollIn none client
  let world := { world with allocated := world.allocated + 1, poll }
  world.setClient client { zeroClient with socket, socketOpen := true, pollDescriptor }

/-- The state in which `ClientCreate` tells everybody: the client has a nickname. -/
def nameClient (world : World) (socket : Int) : World :=
  setTemporaryNickname (allocateClient world socket) world.allocated 1 (2 ^ 32 - 2)

def clientCreate (world : World) (socket : Int) : World :=
  let client := world.allocated
  let world := nameClient world socket
  serverSendChannelMessage world (world.nicknameText client ++ literal " has entered...")

/-- The state in which `ClientDisconnect` tells the others: the client is out of the
dictionary already. -/
def unregistered (world : World) (client : ClientRef) : World :=
  { world with clients := withoutNickname world.clients (world.client client).nickname }

/-- The end of `ClientDisconnect`. -/
def closeConnection (world : World) (client : ClientRef) : World :=
  let fields := world.client client
  let world := world.setClient client { fields with socketOpen := false }
  { world with poll := pollDescritptorRemove world.poll fields.pollDescriptor }

def clientDisconnect (world : World) (client : ClientRef) : World :=
  let world := unregistered world client
  let world := serverSendChannelMessage world (world.nicknameText client ++ literal " has left...")
  closeConnection world client

end Connection

section Commands

def clientHandleNickCommand (world : World) (client : ClientRef) : Option CString → World
  | none => clientWriteLine world client (literal "-> /nick <name>")
  | some arg =>
    let oldnick := world.nicknameText client
    match clientSetNickname world client arg with
    | (true, world) =>
        serverSendChannelMessage world (oldnick ++ literal " is now " ++ world.nicknameText client)
    | (false, world) => clientWriteLine world client (literal "-> This nick is already used.")

def clientHandleMsgCommand (world : World) (client : ClientRef) : Option CString → World
  | none => clientWriteLine world client (literal "-> /msg <name> <message>")
  | some arg =>
    match strsepExt (some arg) (literal " ") with
    | (some (c :: name), some (d :: message)) =>
      match dictionaryGet world.clients (c :: name) with
      | none => clientWriteLine world client (literal "-> Recipient unkown")
      | some recpt =>
        let msg := world.nicknameText client ++ literal "->" ++ world.nicknameText recpt ++
          literal ": " ++ d :: message
        clientWriteLine (clientWriteLine world client msg) recpt msg
    | _ => clientWriteLine world client (literal "-> /msg <name> <message>")

/-- The body of the loop of `ClientHandleListCommand`. The free room is a `size_t`. -/
def listEntry (client : ClientRef) (state : World × CString) (_ : CString) :
    Option ClientRef → World × CString
  | none => state
  | some c =>
    let (world, currentLine) := state
    let name := world.nicknameText c
    let (world, currentLine) :=
      if (254 + 2 ^ 64 - currentLine.length) % 2 ^ 64 < name.length + 3 then
        (clientWriteLine world client currentLine, [])
      else (world, currentLine)
    (world, currentLine ++ literal "[" ++ name ++ literal "] ")

def clientHandleListCommand (world : World) (client : ClientRef) (_ : Option CString) : World :=
  let (iter, clients) := dictionaryGetIterator world.clients
  let (world, currentLine) := iteratorLoop (listEntry client) iter ({ world with clients }, [])
  if 0 < currentLine.length then clientWriteLine world client currentLine else world

structure CommandDef where
  name : CString
  handler : World → ClientRef → Option CString → World

def commandDefs : List CommandDef :=
  [{ name := literal "nick", handler := clientHandleNickCommand },
   { name := literal "msg", handler := clientHandleMsgCommand },
   { name := literal "list", handler := clientHandleListCommand }]

def clientHandleLine (world : World) (client : ClientRef) (line : CString) : World :=
  let world := world.record (.handleLine client line)
  match line with
  | [] => world
  | first :: rest =>
    if first.val = 47 then
      let (command, args) := strsep (some rest) (literal " ")
      match commandDefs.find? fun c => command.any (strcmp c.name · = 0) with
      | some c => c.handler world client args
      | none => clientWriteLine world client (literal "Unkown command.")
    else serverSendChannelMessage world (world.nicknameText client ++ literal ": " ++ line)

end Commands

section Input

/-- The growth of the input buffer in `ClientDoRead`. -/
def makeRoom (buffer : Buffer) : Buffer :=
  if u32Sub buffer.length buffer.filled < 2 then
    let length := u32 (buffer.length * 2)
    let length := if length < 1024 then 1024 else length
    let memory := realloc buffer.memory length
    { buffer with length, memory := memset memory buffer.filled 0 (u32Sub length buffer.filled) }
  else buffer

/-- The room offered to `recv`. -/
def offered (buffer : Buffer) : Nat := u32Sub (u32Sub buffer.length buffer.filled) 1

/-- The bytes `recv` stores, and their account. -/
def receive (buffer : Buffer) (bytes : List UInt8) : Buffer :=
  { buffer with
    memory := memcpy buffer.memory buffer.filled bytes, filled := u32 (buffer.filled + bytes.length) }

/-- What `ClientDoRead` does with the buffer after the handled line, which ended at
this index. -/
def dropLine (buffer : Buffer) (newlineSeparator : Nat) : Buffer :=
  if 0 < (stringAt (buffer.memory.drop (newlineSeparator + 1))).length then
    let filled := u32Sub buffer.filled (newlineSeparator + 1)
    let memory := memmove buffer.memory (newlineSeparator + 1) filled
    { buffer with filled, memory := memset memory filled 0 (u32Sub buffer.length filled) }
  else .empty

def setInBuffer (world : World) (client : ClientRef) (inBuffer : Buffer) : World :=
  world.setClient client { world.client client with inBuffer }

/-- The branch of `ClientDoRead` after `recv` has stored these bytes. -/
def clientReceived (world : World) (client : ClientRef) (bytes : List UInt8) : World :=
  let world := world.record (.recv client bytes)
  let buffer := receive (world.client client).inBuffer bytes
  match strchr buffer.memory 10 with
  | none => setInBuffer world client buffer
  | some newlineSeparator =>
    let buffer := { buffer with memory := memcpy buffer.memory newlineSeparator [0] }
    let world := setInBuffer world client buffer
    let world := clientHandleLine world client (stringAt buffer.memory)
    setInBuffer world client (dropLine (world.client client).inBuffer newlineSeparator)

/-- The result of `recv` is an error or the bytes it has stored. -/
def clientDoRead (world : World) (client : ClientRef) (result : Option (List UInt8)) : World :=
  let world := setInBuffer world client (makeRoom (world.client client).inBuffer)
  match result with
  | none | some [] => clientDisconnect world client
  | some (b :: bytes) => clientReceived world client (b :: bytes)

end Input

section Write

/-- The buffer part of `ClientDoWrite` when `send` has accepted this many bytes. -/
def consume (buffer : Buffer) (len : Nat) : Buffer :=
  if buffer.filled = len then .empty
  else { buffer with memory := memmove buffer.memory len (buffer.filled - len) }

/-- The result of `send` is negative on an error. -/
def clientDoWrite (world : World) (client : ClientRef) (len : Int) : World :=
  if len ≤ 0 then clientDisconnect world client
  else
    let fields := world.client client
    let world := world.record (.send client (fields.outBuffer.content.take len.toNat))
    let world := world.setClient client { fields with outBuffer := consume fields.outBuffer len.toNat }
    if fields.outBuffer.filled = len.toNat then
      { world with poll := pollDescriptorRemoveEvent world.poll fields.pollDescriptor pollOut }
    else world

end Write
end KommunikationNetze.Chat
