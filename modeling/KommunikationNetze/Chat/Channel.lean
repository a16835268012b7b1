import KommunikationNetze.Chat.PrivateMessage

/-! What the chat server is for. The channel has members with nicknames; a member says lines,
and every line has its answer: the lines that are written, and to whom. -/
namespace KommunikationNetze.Chat
open CLib Utils

/-- Who is in the channel, under which nickname. -/
structure Channel where
  nickname : ClientRef → Option CString

/-- What a client does to the channel. -/
inductive Deed where
  | enters (client : ClientRef)
  | leaves (client : ClientRef)
  | speaks (client : ClientRef) (line : CString)

/-- What a line asks for. The words are taken apart as the server does it. -/
inductive Request where
  | nothing
  | message (text : CString)
  | nick (name : Option CString)
  | msg (words : Option (CString × CString))
  | list
  | unknown

/-- The nickname and the text of /msg, if neither is empty. -/
def msgWords (arg : CString) : Option (CString × CString) :=
  match strsepExt (some arg) (literal " ") with
  | (some (c :: name), some (d :: message)) => some (c :: name, d :: message)
  | _ => none

/-- The request in the words behind the slash. -/
def commandRequest (command args : Option CString) : Request :=
  if command = some (literal "nick") then .nick args
  else if command = some (literal "msg") then .msg (args.bind msgWords)
  else if command = some (literal "list") then .list
  else .unknown

def request : CString → Request
  | [] => .nothing
  | first :: rest =>
    if first.val = 47 then
      commandRequest (strsep (some rest) (literal " ")).1 (strsep (some rest) (literal " ")).2
    else .message (first :: rest)

/-- What /list says of a member. -/
def entryText (nickname : CString) : CString := literal "[" ++ nickname ++ literal "] "

namespace Channel

def empty : Channel := { nickname := fun _ => none }

def give (channel : Channel) (client : ClientRef) (nickname : CString) : Channel :=
  { nickname := Function.update channel.nickname client (some nickname) }

def without (channel : Channel) (client : ClientRef) : Channel :=
  { nickname := Function.update channel.nickname client none }

def Member (channel : Channel) (client : ClientRef) : Prop := channel.nickname client ≠ none

theorem without_member {channel : Channel} :
    (channel.without client).Member c ↔ channel.Member c ∧ c ≠ client := by
  simp only [Member, without]
  by_cases same : c = client
  · simp [same]
  · simp [same, Function.update_of_ne]

/-- Nobody else has the nickname. -/
def Free (channel : Channel) (client : ClientRef) (nickname : CString) : Prop :=
  ∀ other, other ≠ client → channel.nickname other ≠ some nickname

/-- Every member gets the text once, and nobody else gets anything. -/
def Told (channel : Channel) (text : CString) (lines : List (ClientRef × CString)) : Prop :=
  ∃ members : List ClientRef, members.Nodup ∧ (∀ c, c ∈ members ↔ channel.Member c) ∧
    lines = members.map fun c => (c, text)

/-- The client gets the entry of every member once and undivided, on lines that are neither
empty nor too long. -/
def Listed (channel : Channel) (client : ClientRef) (lines : List (ClientRef × CString)) : Prop :=
  ∃ nicknames : List (List CString), nicknames.flatten.Nodup ∧
    (∀ nickname, nickname ∈ nicknames.flatten ↔ ∃ c, channel.nickname c = some nickname) ∧
    (∀ names ∈ nicknames,
      1 ≤ (names.flatMap entryText).length ∧ (names.flatMap entryText).length ≤ 254) ∧
    lines = nicknames.map fun names => (client, names.flatMap entryText)

/-- A member with this nickname asks: what is written, and the channel afterwards. -/
inductive Answer (channel : Channel) (client : ClientRef) (own : CString) :
    Request → List (ClientRef × CString) → Channel → Prop
  | nothing : Answer channel client own .nothing [] channel
  | message : channel.Told (own ++ literal ": " ++ text) lines →
      Answer channel client own (.message text) lines channel
  | nickUsage : Answer channel client own (.nick none) [(client, literal "-> /nick <name>")] channel
  | nickRefused : strtrim nick = [] ∨ ¬channel.Free client (strtrim nick) →
      Answer channel client own (.nick (some nick))
        [(client, literal "-> This nick is already used.")] channel
  | nickGiven : strtrim nick ≠ [] → channel.Free client (strtrim nick) →
      (channel.give client (strtrim nick)).Told (own ++ literal " is now " ++ strtrim nick) lines →
      Answer channel client own (.nick (some nick)) lines (channel.give client (strtrim nick))
  | msgUsage : Answer channel client own (.msg none)
      [(client, literal "-> /msg <name> <message>")] channel
  | msgUnknown : (∀ c, channel.nickname c ≠ some name) →
      Answer channel client own (.msg (some (name, text)))
        [(client, literal "-> Recipient unkown")] channel
  | msgTold : channel.nickname recpt = some name →
      Answer channel client own (.msg (some (name, text)))
        [(client, messageText own name text), (recpt, messageText own name text)] channel
  | list : channel.Listed client lines → Answer channel client own .list lines channel
  | unknown : Answer channel client own .unknown [(client, literal "Unkown command.")] channel

end Channel

/-- A deed and the lines that are written because of it. -/
inductive ChannelStep : Channel → Deed × List (ClientRef × CString) → Channel → Prop
  | enters : ¬channel.Member client → 1 ≤ i → channel.Free client (temporaryNickname i) →
      (∀ j, 1 ≤ j → j < i → ¬channel.Free client (temporaryNickname j)) →
      (channel.give client (temporaryNickname i)).Told
        (temporaryNickname i ++ literal " has entered...") lines →
      ChannelStep channel (.enters client, lines) (channel.give client (temporaryNickname i))
  | leaves : channel.nickname client = some own →
      (channel.without client).Told (own ++ literal " has left...") lines →
      ChannelStep channel (.leaves client, lines) (channel.without client)
  | speaks : channel.nickname client = some own →
      channel.Answer client own (request line) lines after →
      ChannelStep channel (.speaks client line, lines) after

end KommunikationNetze.Chat
