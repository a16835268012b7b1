import KommunikationNetze.Chat.NicknamePointer
import KommunikationNetze.Chat.Registry

/-! The server with the pointers of its nicknames. A handler calls `ClientSetNickname` or keeps
all nicknames, so every run of the server is a run of the nicknames. -/
namespace KommunikationNetze.Chat
open CLib Utils Transition

/-- Calls of `ClientSetNickname` and changes that keep the nicknames have led here, and the
memory of a client that has not come yet has no nickname. -/
structure Nicknamed (world : World) : Prop where
  run : ∃ events s, Run NicknameStep noClients events s ∧ s.world = world
  unnamed : ∀ c, world.allocated ≤ c → (world.client c).nickname = none

namespace Nicknamed
variable {world after : World} {client : ClientRef}

theorem initial : Nicknamed serverCreate := ⟨⟨[], noClients, .start, rfl⟩, fun _ _ => rfl⟩

theorem keeps (nicknamed : Nicknamed world)
    (nickname : ∀ c, (after.client c).nickname = (world.client c).nickname)
    (allocated : world.allocated ≤ after.allocated) : Nicknamed after := by
  obtain ⟨⟨events, s, run, rfl⟩, unnamed⟩ := nicknamed
  exact ⟨⟨_, { s with world := after }, run.snoc (.other nickname), rfl⟩,
    fun c beyond => (nickname c).trans (unnamed c (allocated.trans beyond))⟩

theorem same (nicknamed : Nicknamed world) (same : SameRegistration world after) : Nicknamed after :=
  nicknamed.keeps same.nickname same.allocated.ge

theorem output (nicknamed : Nicknamed world) (output : OutputOnly world after) : Nicknamed after :=
  nicknamed.keeps output.nickname output.allocated.ge

theorem setNickname (nicknamed : Nicknamed world) (known : client < world.allocated) (nick : CString) :
    Nicknamed (clientSetNickname world client nick).2 := by
  obtain ⟨⟨events, s, run, rfl⟩, unnamed⟩ := nicknamed
  have called := congrArg Prod.snd (s.setNickname_world client nick)
  constructor
  · by_cases changes : Changes s.world client nick
    · exact ⟨_, _, run.snoc (.given changes), called⟩
    · exact ⟨_, _, run.snoc (.refused changes), called⟩
  · intro c beyond
    rw [(clientSetNickname_sameConnections s.world client nick).allocated] at beyond
    have other : c ≠ client := Nat.ne_of_gt (known.trans_le beyond)
    rcases clientSetNickname_cases s.world client nick with ⟨same, _⟩ | ⟨same, _⟩ | ⟨changed, _⟩
    · rw [same]
      exact unnamed c beyond
    · rw [same]
      exact unnamed c beyond
    · rw [changed, renamed_nickname, if_neg other]
      exact unnamed c beyond

theorem allocate (nicknamed : Nicknamed world) (socket : Int) : Nicknamed (allocateClient world socket) := by
  refine nicknamed.keeps (fun c => ?_) (Nat.le_succ _)
  by_cases new : c = world.allocated
  · rw [new, allocateClient_new, nicknamed.unnamed _ le_rfl]
    rfl
  · rw [allocateClient_old world socket new]

variable [CMemory]

theorem create (nicknamed : Nicknamed world) (socket : Int) : Nicknamed (clientCreate world socket) := by
  have named : Nicknamed (nameClient world socket) ∧
      world.allocated < (nameClient world socket).allocated := by
    refine setTemporaryNickname_invariant (P := fun between => Nicknamed between ∧
      world.allocated < between.allocated) ?_ ⟨nicknamed.allocate socket, Nat.lt_succ_self _⟩ 1 (2 ^ 32 - 2)
    intro between nick ⟨nicknamed, known⟩
    exact ⟨nicknamed.setNickname known nick,
      known.trans_eq (clientSetNickname_sameConnections between _ nick).allocated.symm⟩
  exact named.1.output (serverSendChannelMessage_output _ _)

theorem disconnect (nicknamed : Nicknamed world) (client : ClientRef) :
    Nicknamed (clientDisconnect world client) := by
  have unregistered : Nicknamed (unregistered world client) := nicknamed.keeps (fun _ => rfl) le_rfl
  have told := unregistered.output (serverSendChannelMessage_output _
    (world.nicknameText client ++ literal " has left..."))
  exact told.keeps (closeConnection_nickname _ client) le_rfl

theorem handleLine (nicknamed : Nicknamed world) (known : client < world.allocated) (line : CString) :
    Nicknamed (clientHandleLine world client line) := by
  have recorded := nicknamed.same (.record world (.handleLine client line))
  obtain ⟨between, rfl | ⟨arg, rfl⟩, output⟩ := clientHandleLine_cases world client line
  · exact recorded.output output
  · exact (recorded.setNickname known arg).output output

theorem received (nicknamed : Nicknamed world) (known : client < world.allocated) (bytes : List UInt8) :
    Nicknamed (clientReceived world client bytes) := by
  have recorded := nicknamed.same (.record world (.recv client bytes))
  apply clientReceived_elim (P := Nicknamed)
  · exact fun buffer => recorded.same (.setInBuffer _ _ _)
  · intro buffer line rest
    exact ((recorded.same (.setInBuffer _ client buffer)).handleLine known line).same (.setInBuffer _ _ _)

theorem handleEvent (nicknamed : Nicknamed world) (admissible : Admissible world event) :
    Nicknamed (handleEvent world event) := by
  cases event with
  | accepted socket => exact nicknamed.create socket
  | hungUp client => exact nicknamed.disconnect client
  | readable client result =>
    have grown := nicknamed.same (.setInBuffer world client (makeRoom (world.client client).inBuffer))
    simp only [Chat.handleEvent, clientDoRead]
    split
    · exact grown.disconnect client
    · exact grown.disconnect client
    · exact grown.received admissible.1.1 _
  | writable client len =>
    simp only [Chat.handleEvent, clientDoWrite]
    split
    · exact nicknamed.disconnect client
    · have sent := SameRegistration.sent world client ((world.client client).outBuffer.content.take len.toNat)
        (consume (world.client client).outBuffer len.toNat)
      split
      · exact nicknamed.same (sent.trans (.setPoll _ _))
      · exact nicknamed.same sent

end Nicknamed

/-- Whatever server is reached, there are pointers of its nicknames. -/
theorem reachable_nicknamed [CMemory] (reachable : Reachable world) : Nicknamed world :=
  reachable.invariant (P := Nicknamed) .initial Nicknamed.handleEvent

end KommunikationNetze.Chat
