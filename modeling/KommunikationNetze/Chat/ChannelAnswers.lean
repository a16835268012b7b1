import KommunikationNetze.Chat.Channel
import KommunikationNetze.Chat.ListCommand

/-! The handlers answer as the channel does. The registry of connected clients is the channel,
and the lines of the record that a handler adds are the lines of an answer. -/
namespace KommunikationNetze.Chat
open CLib Utils

/-- The lines that were written, with the clients they were written to. -/
def writtenLines (calls : List Call) : List (ClientRef × CString) :=
  calls.filterMap fun
    | .writeLine c line _ => some (c, line)
    | _ => none

@[simp] theorem writtenLines_append (calls added : List Call) :
    writtenLines (calls ++ added) = writtenLines calls ++ writtenLines added := List.filterMap_append

@[simp] theorem writtenLines_writeLine (c : ClientRef) (line : CString) (channel : Option Nat) :
    writtenLines [.writeLine c line channel] = [(c, line)] := rfl

theorem writtenLines_map (visited : List τ) (text : τ → ClientRef × CString) (channel : Option Nat) :
    writtenLines (visited.map fun c => .writeLine (text c).1 (text c).2 channel) = visited.map text := by
  rw [writtenLines, List.filterMap_map]
  exact (List.filterMap_eq_map (f := text)).symm ▸ rfl

theorem writtenLines_record (world : World) (silent : writtenLines [call] = []) :
    writtenLines (world.record call).calls = writtenLines world.calls := by
  rw [World.record, writtenLines_append, silent, List.append_nil]

/-- The channel this state of the server stands for. -/
def World.channel (world : World) : Channel :=
  { nickname := fun c => if world.Connected c then (world.client c).nickname else none }

section Channel
variable {world after : World} {client : ClientRef}

theorem World.channel_of_connected (connected : world.Connected c) :
    world.channel.nickname c = (world.client c).nickname := if_pos connected

theorem World.channel_eq_some :
    world.channel.nickname c = some nickname ↔
      world.Connected c ∧ (world.client c).nickname = some nickname := by
  by_cases connected : world.Connected c
  · rw [World.channel_of_connected connected, and_iff_right connected]
  · simp [World.channel, connected]

theorem World.channel_congr (connected : ∀ c, after.Connected c ↔ world.Connected c)
    (nickname : ∀ c, (after.client c).nickname = (world.client c).nickname) :
    after.channel = world.channel := by
  simp only [World.channel, connected, nickname]

theorem SameRegistration.channel (same : SameRegistration world after) :
    after.channel = world.channel := World.channel_congr same.connected same.nickname

theorem OutputOnly.channel (output : OutputOnly world after) : after.channel = world.channel :=
  World.channel_congr output.sameConnections.connected output.nickname

/-- Every connected client has a nickname. -/
theorem Registry.channel_member (registry : Registry world.Connected world) :
    world.channel.Member c ↔ world.Connected c := by
  simp only [Channel.Member, World.channel]
  split
  · rename_i connected
    obtain ⟨nickname, set, _⟩ := registry.held c connected
    simp [set, connected]
  · rename_i gone
    simp [gone]

/-- The dictionary finds a nickname if and only if somebody in the channel has it. -/
theorem Registry.channel_get (registry : Registry world.Connected world) :
    dictionaryGet world.clients nickname = some c ↔ world.channel.nickname c = some nickname := by
  rw [World.channel_eq_some]
  refine ⟨registry.owner, fun ⟨connected, set⟩ => ?_⟩
  obtain ⟨own, given, _, held⟩ := registry.held c connected
  obtain rfl := Option.some.inj (given.symm.trans set)
  exact held

theorem heldByOther_iff : HeldByOther world client nickname ↔ ¬world.channel.Free client nickname := by
  simp only [HeldByOther, Channel.Free, World.channel_eq_some, not_forall, not_not]
  constructor
  · rintro ⟨other, connected, different, set⟩
    exact ⟨other, different, connected, set⟩
  · rintro ⟨other, different, connected, set⟩
    exact ⟨other, connected, different, set⟩

end Channel

section Told
variable [CMemory] {world : World} {members : ClientRef → Prop}

/-- A channel message is told to the members of the registry. -/
theorem Registry.told (registry : Registry members world) (msg : CString) (channel : Channel)
    (same : ∀ c, channel.Member c ↔ members c) :
    ∃ lines, writtenLines (serverSendChannelMessage world msg).calls =
      writtenLines world.calls ++ lines ∧ channel.Told msg lines := by
  have ready := registry.ready
  refine ⟨(recipients world.clients).map fun c => (c, msg), ?_, recipients world.clients,
    ready.recipients_nodup, ?_, rfl⟩
  · rw [serverSendChannelMessage_calls registry.head, writtenLines_append]
    exact congrArg _ (writtenLines_map _ (fun c => (c, msg)) _)
  · intro c
    rw [ready.mem_recipients, ready.registered, same]
    constructor
    · rintro ⟨key, found⟩
      exact (registry.owner found).1
    · intro member
      obtain ⟨nickname, _, _, held⟩ := registry.held c member
      exact ⟨nickname, held⟩

end Told

section Members
variable {world after : World} {client : ClientRef}

theorem World.nicknameText_of (set : (world.client client).nickname = some own) :
    world.nicknameText client = own := by rw [World.nicknameText, set, Option.getD_some]

/-- A client that is given a nickname is in the channel under it; the others stay as they are. -/
theorem Renames.channel (renames : Renames world after client nickname)
    (connected : ∀ c, after.Connected c ↔ world.Connected c ∨ c = client) :
    after.channel = world.channel.give client nickname := by
  simp only [World.channel, Channel.give, Channel.mk.injEq]
  funext c
  by_cases same : c = client
  · subst c
    rw [Function.update_self, if_pos ((connected client).mpr (.inr rfl)), renames.given]
  · rw [Function.update_of_ne same, renames.others c same]
    exact if_congr ((connected c).trans (or_iff_left same)) rfl rfl

/-- The new client has no nickname yet. -/
theorem allocateClient_channel (world : World) (socket : Int) :
    (allocateClient world socket).channel = world.channel := by
  simp only [World.channel, Channel.mk.injEq]
  funext c
  by_cases same : c = world.allocated
  · have gone : ¬world.Connected c := fun connected => Nat.lt_irrefl _ (same ▸ connected.1)
    rw [if_neg gone, same, allocateClient_new]
    exact ite_self none
  · rw [allocateClient_old world socket same]
    exact if_congr ((allocateClient_connected world socket c).trans (or_iff_left same)) rfl rfl

/-- A nickname that the dictionary does not have is nobody's. -/
theorem Registry.channel_free (registry : Registry world.Connected world)
    (free : dictionaryGet world.clients nickname = none) (c : ClientRef) :
    world.channel.nickname c ≠ some nickname := by
  intro held
  rw [registry.channel_get.mpr held] at free
  cases free

variable [CMemory]

theorem clientCreate_entersChannel (registry : Registry world.Connected world)
    (room : world.connectedClients.length < 2 ^ 32 - 2) (socket : Int) :
    ∃ lines, writtenLines (clientCreate world socket).calls = writtenLines world.calls ++ lines ∧
      ChannelStep world.channel (.enters world.allocated, lines) (clientCreate world socket).channel := by
  obtain ⟨i, positive, free, earlier, renames⟩ := nameClient_first registry room socket
  have named := nameClient_registry registry room socket
  have gone : ¬world.Connected world.allocated := fun connected => Nat.lt_irrefl _ connected.1
  have given : (nameClient world socket).channel =
      world.channel.give world.allocated (temporaryNickname i) := by
    rw [renames.channel, allocateClient_channel]
    intro c
    rw [nameClient_connected, allocateClient_connected, or_assoc, or_self]
  obtain ⟨lines, written, told⟩ := named.told (temporaryNickname i ++ literal " has entered...")
    (nameClient world socket).channel fun c => named.channel_member
  have calls : clientCreate world socket = serverSendChannelMessage (nameClient world socket)
      (temporaryNickname i ++ literal " has entered...") := by
    rw [clientCreate, World.nicknameText_of renames.given]
  refine ⟨lines, ?_, ?_⟩
  · rw [calls, written, nameClient_calls]
  · rw [calls, (serverSendChannelMessage_output _ _).channel, given]
    refine .enters (mt registry.channel_member.mp gone) positive ?_ ?_ (given ▸ told)
    · exact fun other _ => registry.channel_free free other
    · intro j above below unused
      obtain ⟨other, found⟩ := Option.ne_none_iff_exists'.mp (earlier j above below)
      refine unused other ?_ (registry.channel_get.mp found)
      rintro rfl
      exact gone (registry.owner found).1

theorem clientDisconnect_leavesChannel (registry : Registry world.Connected world)
    (connected : world.Connected client) :
    ∃ lines, writtenLines (clientDisconnect world client).calls = writtenLines world.calls ++ lines ∧
      ChannelStep world.channel (.leaves client, lines) (clientDisconnect world client).channel := by
  obtain ⟨own, set, _⟩ := registry.held client connected
  have left := registry.left connected
  have text : (unregistered world client).nicknameText client = own := World.nicknameText_of set
  have gone : (clientDisconnect world client).channel = world.channel.without client := by
    have told := serverSendChannelMessage_output (unregistered world client)
      (world.nicknameText client ++ literal " has left...")
    simp only [World.channel, Channel.without, Channel.mk.injEq, clientDisconnect_connected]
    funext c
    by_cases same : c = client
    · subst c
      rw [Function.update_self, if_neg fun still => still.2 rfl]
    · rw [Function.update_of_ne same]
      refine if_congr (and_iff_left same) ?_ rfl
      exact (closeConnection_nickname _ client c).trans (told.nickname c)
  obtain ⟨lines, written, told⟩ := left.told (own ++ literal " has left...") (world.channel.without client)
    fun c => Channel.without_member.trans (and_congr_left fun _ => registry.channel_member)
  refine ⟨lines, ?_, ?_⟩
  · rw [clientDisconnect, text]
    exact written
  · rw [gone]
    exact .leaves ((World.channel_of_connected connected).trans set) told

end Members

section Answers
variable {world after : World} {client : ClientRef} {own : CString} {asked : Request}

/-- What a handler writes, and the channel it leaves, is the answer to this request. -/
def Answered (world : World) (client : ClientRef) (own : CString) (asked : Request) (after : World) :
    Prop :=
  ∃ lines, writtenLines after.calls = writtenLines world.calls ++ lines ∧
    world.channel.Answer client own asked lines after.channel

variable [CMemory]

theorem answered_writeLine
    (answer : world.channel.Answer client own asked [(client, text)] world.channel) :
    Answered world client own asked (clientWriteLine world client text) := by
  refine ⟨[(client, text)], by rw [clientWriteLine_calls, writtenLines_append]; rfl, ?_⟩
  rw [(clientWriteLine_output world client text).channel]
  exact answer

theorem clientHandleNickCommand_answered (registry : Registry world.Connected world)
    (connected : world.Connected client) (set : (world.client client).nickname = some own)
    (arg : Option CString) :
    Answered world client own (.nick arg) (clientHandleNickCommand world client arg) := by
  cases arg with
  | none => exact answered_writeLine .nickUsage
  | some nick =>
    have tried := registry.allOrNothing (fun _ _ => .rfl) (.inl connected) nick
    have same := clientSetNickname_sameConnections world client nick
    have calls := clientSetNickname_calls world client nick
    have named := (registry.setNickname connected nick).congr fun c => (same.connected c).symm
    have refused := tried.refused.trans (or_congr_right heldByOther_iff)
    rw [clientHandleNickCommand]
    cases result : clientSetNickname world client nick with
    | mk done between =>
    have nothing := tried.nothing
    have all := tried.all
    rw [result] at same calls named refused nothing all
    cases done with
    | false =>
      obtain rfl : between = world := nothing rfl
      exact answered_writeLine (.nickRefused (refused.mp rfl))
    | true =>
      obtain ⟨nonempty, free⟩ := not_or.mp (mt refused.mpr fun failed => by cases failed)
      have given : between.channel = world.channel.give client (strtrim nick) := by
        refine (all rfl).channel fun c => (same.connected c).trans (or_iff_left_of_imp ?_).symm
        rintro rfl
        exact connected
      obtain ⟨lines, written, told⟩ := named.told (own ++ literal " is now " ++ strtrim nick)
        between.channel fun c => named.channel_member
      simp only [World.nicknameText_of set, World.nicknameText_of (all rfl).given]
      refine ⟨lines, by rw [written, calls], ?_⟩
      rw [(serverSendChannelMessage_output between _).channel, given]
      exact .nickGiven nonempty (not_not.mp free) (given ▸ told)

/-- The handler, by the words of the request. -/
theorem clientHandleMsgCommand_words (world : World) (client : ClientRef) (arg : CString) :
    clientHandleMsgCommand world client (some arg) =
      match msgWords arg with
      | none => clientWriteLine world client (literal "-> /msg <name> <message>")
      | some (name, message) =>
        match dictionaryGet world.clients name with
        | none => clientWriteLine world client (literal "-> Recipient unkown")
        | some recpt =>
          let msg := messageText (world.nicknameText client) (world.nicknameText recpt) message
          clientWriteLine (clientWriteLine world client msg) recpt msg := by
  rw [clientHandleMsgCommand, msgWords]
  obtain ⟨_ | (_ | ⟨c, name⟩), _ | (_ | ⟨d, message⟩)⟩ := strsepExt (some arg) (literal " ") <;> rfl

theorem clientHandleMsgCommand_answered (registry : Registry world.Connected world)
    (set : (world.client client).nickname = some own) (arg : Option CString) :
    Answered world client own (.msg (arg.bind msgWords)) (clientHandleMsgCommand world client arg) := by
  cases arg with
  | none => exact answered_writeLine .msgUsage
  | some arg =>
    rw [clientHandleMsgCommand_words, Option.bind_some]
    cases msgWords arg with
    | none => exact answered_writeLine .msgUsage
    | some words =>
    obtain ⟨name, message⟩ := words
    cases found : dictionaryGet world.clients name with
    | none =>
      simp only [found]
      exact answered_writeLine (.msgUnknown (registry.channel_free found))
    | some recpt =>
      simp only [found, World.nicknameText_of set, World.nicknameText_of (registry.owner found).2]
      generalize text : messageText own name message = msg
      refine ⟨[(client, msg), (recpt, msg)], ?_, ?_⟩
      · rw [clientWriteLine_calls, clientWriteLine_calls, writtenLines_append, writtenLines_append,
          List.append_assoc]
        rfl
      · rw [((clientWriteLine_output world client msg).trans (clientWriteLine_output _ recpt msg)).channel]
        exact text ▸ .msgTold (registry.channel_get.mp found)

theorem clientHandleListCommand_answered (registry : Registry world.Connected world)
    (short : ShortNicknames world) (arg : Option CString) :
    Answered world client own .list (clientHandleListCommand world client arg) := by
  obtain ⟨lines, all, proper, calls, _⟩ :=
    clientHandleListCommand_lines registry.head (registry.shortNicknames.mp short) client arg
  have entries : ∀ clients, (clients.map world.nicknameText).flatMap entryText = listLine world clients :=
    fun clients => List.flatMap_map ..
  have visited : (lines.map (List.map world.nicknameText)).flatten =
      (recipients world.clients).map world.nicknameText := by rw [← all, List.map_flatten]
  refine ⟨lines.map fun clients => (client, listLine world clients), ?_, ?_⟩
  · rw [calls, writtenLines_append]
    exact congrArg _ (writtenLines_map lines (fun clients => (client, listLine world clients)) none)
  rw [(clientHandleListCommand_output world client arg).channel]
  refine .list ⟨lines.map (List.map world.nicknameText), ?_, ?_, ?_, ?_⟩
  · rw [visited]
    refine List.Nodup.map_on ?_ registry.ready.recipients_nodup
    intro c left d right text
    rw [registry.mem_recipients] at left right
    obtain ⟨nickname, given, _⟩ := registry.held c left
    obtain ⟨other, givenOther, _⟩ := registry.held d right
    rw [World.nicknameText_of given, World.nicknameText_of givenOther] at text
    exact registry.nickname_injective left right (given.trans (text ▸ givenOther.symm))
  · intro nickname
    rw [visited, List.mem_map]
    refine exists_congr fun c => ?_
    rw [registry.mem_recipients, World.channel_eq_some]
    refine and_congr_right fun connected => ?_
    obtain ⟨own, given, _⟩ := registry.held c connected
    rw [World.nicknameText_of given, given, Option.some.injEq]
  · intro names mem
    obtain ⟨clients, written, rfl⟩ := List.mem_map.mp mem
    rw [entries]
    exact proper clients written
  · rw [List.map_map]
    exact List.map_congr_left fun clients _ => congrArg _ (entries clients).symm

theorem message_answered (registry : Registry world.Connected world) (text : CString) :
    Answered world client own (.message text)
      (serverSendChannelMessage world (own ++ literal ": " ++ text)) := by
  obtain ⟨lines, written, told⟩ := registry.told (own ++ literal ": " ++ text) world.channel
    fun c => registry.channel_member
  refine ⟨lines, written, ?_⟩
  rw [(serverSendChannelMessage_output world _).channel]
  exact .message told

/-- The table of commands, searched by the word behind the slash. -/
theorem commandDefs_find (P : World → Prop) (command args : Option CString)
    (nick : command = some (literal "nick") → P (clientHandleNickCommand world client args))
    (msg : command = some (literal "msg") → P (clientHandleMsgCommand world client args))
    (list : command = some (literal "list") → P (clientHandleListCommand world client args))
    (unknown : command ≠ some (literal "nick") → command ≠ some (literal "msg") →
      command ≠ some (literal "list") → P (clientWriteLine world client (literal "Unkown command."))) :
    P (match commandDefs.find? fun c => command.any (strcmp c.name · = 0) with
      | some c => c.handler world client args
      | none => clientWriteLine world client (literal "Unkown command.")) := by
  have compares : ∀ name, command.any (strcmp name · = 0) = decide (command = some name) := by
    intro name
    cases command with
    | none => rfl
    | some word => rw [Option.any_some, decide_eq_decide, strcmp_eq_zero, Option.some.injEq, eq_comm]
  simp only [commandDefs, List.find?_cons, List.find?_nil, compares]
  by_cases isNick : command = some (literal "nick")
  · simp only [isNick, decide_true]
    exact nick isNick
  by_cases isMsg : command = some (literal "msg")
  · rw [decide_eq_false isNick]
    simp only [isMsg, decide_true]
    exact msg isMsg
  by_cases isList : command = some (literal "list")
  · rw [decide_eq_false isNick, decide_eq_false isMsg]
    simp only [isList, decide_true]
    exact list isList
  rw [decide_eq_false isNick, decide_eq_false isMsg, decide_eq_false isList]
  exact unknown isNick isMsg isList

theorem clientHandleLine_answered (registry : Registry world.Connected world)
    (connected : world.Connected client) (set : (world.client client).nickname = some own)
    (line : CString) (short : request line = .list → ShortNicknames world) :
    Answered world client own (request line) (clientHandleLine world client line) := by
  have same := SameRegistration.record world (.handleLine client line)
  have registry := same.registry registry
  have connected := (same.connected client).mpr connected
  have set : ((world.record (.handleLine client line)).client client).nickname = some own := set
  have written : writtenLines (world.record (.handleLine client line)).calls = writtenLines world.calls :=
    writtenLines_record world rfl
  suffices answered : Answered (world.record (.handleLine client line)) client own (request line)
      (clientHandleLine world client line) by
    rwa [Answered, written, same.channel] at answered
  cases line with
  | nil => exact ⟨[], (List.append_nil _).symm, .nothing⟩
  | cons first rest =>
    rw [request] at short ⊢
    simp only [clientHandleLine]
    split
    · rename_i slash
      rw [if_pos slash] at short
      generalize strsep (some rest) (literal " ") = words at short ⊢
      apply commandDefs_find
      · intro command
        rw [commandRequest, if_pos command]
        exact clientHandleNickCommand_answered registry connected set words.2
      · intro command
        rw [commandRequest, if_neg (by rw [command]; decide +kernel), if_pos command]
        exact clientHandleMsgCommand_answered registry set words.2
      · intro command
        have asked : commandRequest words.1 words.2 = .list := by
          rw [commandRequest, if_neg (by rw [command]; decide +kernel),
            if_neg (by rw [command]; decide +kernel), if_pos command]
        rw [asked]
        exact clientHandleListCommand_answered registry (short asked) words.2
      · intro nick msg list
        rw [commandRequest, if_neg nick, if_neg msg, if_neg list]
        exact answered_writeLine .unknown
    · rw [World.nicknameText_of set]
      exact message_answered registry _

end Answers

end KommunikationNetze.Chat
