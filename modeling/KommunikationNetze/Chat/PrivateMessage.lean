import KommunikationNetze.Chat.Registry

/-! Every connected client can be addressed by /msg: a nickname that was set is a word of the
command line, and under that word the dictionary has the client. -/
namespace KommunikationNetze.Chat
open CLib Utils
variable [CMemory]

/-- The line that a user types. -/
def messageLine (name text : CString) : CString := literal "/msg " ++ (name ++ literal " " ++ text)

/-- The line that both clients get. -/
def messageText (sender recipient text : CString) : CString :=
  sender ++ literal "->" ++ recipient ++ literal ": " ++ text

omit [CMemory] in
theorem not_mem_space (clean : isspace c.val = false) : c ∉ literal " " := by
  intro mem
  obtain rfl : c = ⟨32, by decide⟩ := List.mem_singleton.mp mem
  cases clean

/-- The first word of the line is the command, the rest its arguments. -/
theorem clientHandleLine_message (world : World) (client : ClientRef) (name text : CString) :
    clientHandleLine world client (messageLine name text) =
      clientHandleMsgCommand (world.record (.handleLine client (messageLine name text))) client
        (some (name ++ literal " " ++ text)) := by
  have words : ∀ rest, strsep (some (literal "msg " ++ rest)) (literal " ") =
      (some (literal "msg"), some rest) := fun _ => rfl
  have slash : messageLine name text =
      ⟨47, by decide⟩ :: (literal "msg " ++ (name ++ literal " " ++ text)) := rfl
  have nick : strcmp (literal "nick") (literal "msg") ≠ 0 := by decide +kernel
  rw [slash, clientHandleLine]
  simp only [if_true, words, commandDefs, List.find?_cons, Option.any_some, strcmp_self, nick,
    decide_false, decide_true]

/-- The two tokenisers take the arguments apart into the nickname and the text. -/
theorem clientHandleMsgCommand_found {world : World} {client recpt : ClientRef} {name text : CString}
    (valid : ValidNickname name) (nonempty : text ≠ [])
    (found : dictionaryGet world.clients name = some recpt) :
    clientHandleMsgCommand world client (some (name ++ literal " " ++ text)) =
      clientWriteLine (clientWriteLine world client
        (messageText (world.nicknameText client) (world.nicknameText recpt) text)) recpt
        (messageText (world.nicknameText client) (world.nicknameText recpt) text) := by
  obtain ⟨proper, clean⟩ := valid
  have token : strsepExt (some (name ++ literal " " ++ text)) (literal " ") =
      (some name, some text) := by
    have space : literal " " = [⟨32, by decide⟩] := rfl
    rw [List.append_assoc, space, List.singleton_append, ← space]
    refine strsepExt_token proper (fun c mem => not_mem_space (clean c mem)) ?_ text
    exact List.mem_singleton_self _
  obtain ⟨c, rest, rfl⟩ := List.exists_cons_of_ne_nil proper
  obtain ⟨d, message, rfl⟩ := List.exists_cons_of_ne_nil nonempty
  simp only [clientHandleMsgCommand, token, found]
  rfl

theorem clientWriteLine_calls (world : World) (client : ClientRef) (line : CString) :
    (clientWriteLine world client line).calls = world.calls ++ [.writeLine client line none] := rfl

theorem clientWriteLine_other (world : World) (line : CString) (other : c ≠ client) :
    (clientWriteLine world client line).client c = world.client c :=
  World.setClient_other _ client _ other

/-- Wherever a line is handled the registry is that of a reachable state. A private message
to a connected client reaches it, the sender gets a copy, and nobody else gets anything. -/
theorem private_message (reachable : Reachable reached) (same : SameRegistration reached world)
    (sender : world.Connected s) (recipient : world.Connected r) (text : CString)
    (nonempty : text ≠ []) :
    ∃ own name, (world.client s).nickname = some own ∧ (world.client r).nickname = some name ∧
      (clientHandleLine world s (messageLine name text)).calls =
        world.calls ++ [.handleLine s (messageLine name text),
          .writeLine s (messageText own name text) none,
          .writeLine r (messageText own name text) none] ∧
      ∀ c, c ≠ s → c ≠ r →
        (clientHandleLine world s (messageLine name text)).client c = world.client c := by
  have registry := same.registry (reachable_registry reachable)
  obtain ⟨own, set, _, _⟩ := registry.held s sender
  obtain ⟨name, given, valid, found⟩ := registry.held r recipient
  refine ⟨own, name, set, given, ?_⟩
  generalize handled : world.record (.handleLine s (messageLine name text)) = recorded
  have calls : recorded.calls = world.calls ++ [.handleLine s (messageLine name text)] := by
    rw [← handled]
    rfl
  have fields : recorded.client = world.client := by
    rw [← handled]
    rfl
  have known : dictionaryGet recorded.clients name = some r := by
    rw [← handled]
    exact found
  have senderText : recorded.nicknameText s = own := by
    rw [World.nicknameText, fields, set, Option.getD_some]
  have recipientText : recorded.nicknameText r = name := by
    rw [World.nicknameText, fields, given, Option.getD_some]
  rw [clientHandleLine_message, handled, clientHandleMsgCommand_found valid nonempty known,
    senderText, recipientText]
  constructor
  · rw [clientWriteLine_calls, clientWriteLine_calls, calls]
    simp only [List.append_assoc, List.cons_append, List.nil_append]
  · intro c notSender notRecipient
    rw [clientWriteLine_other _ _ notRecipient, clientWriteLine_other _ _ notSender, fields]

omit [CMemory] in
/-- The first client writes to itself. -/
theorem private_message_first : ∃ own name,
    ((@clientCreate .zeroed serverCreate 5).client 0).nickname = some own ∧
      ((@clientCreate .zeroed serverCreate 5).client 0).nickname = some name ∧
      (@clientHandleLine .zeroed (@clientCreate .zeroed serverCreate 5) 0
        (messageLine name (literal "hi"))).calls =
        (@clientCreate .zeroed serverCreate 5).calls ++
          [.handleLine 0 (messageLine name (literal "hi")),
            .writeLine 0 (messageText own name (literal "hi")) none,
            .writeLine 0 (messageText own name (literal "hi")) none] := by
  let _ := CMemory.zeroed
  have room : serverCreate.connectedClients.length < 2 ^ 32 - 2 := by decide
  have reachable : Reachable (clientCreate serverCreate 5) := ⟨[.accepted 5], .single ⟨room, rfl⟩⟩
  have connected := (clientCreate_connected serverCreate 5 0).mpr (.inr rfl)
  obtain ⟨own, name, set, given, calls, _⟩ := private_message reachable (.refl _) connected connected
    (literal "hi") (by decide +kernel)
  exact ⟨own, name, set, given, calls⟩

end KommunikationNetze.Chat
