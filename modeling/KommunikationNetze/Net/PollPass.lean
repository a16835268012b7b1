import KommunikationNetze.Chat.PollPass
import KommunikationNetze.Webserver.PollPass

/-! The pass over the table that both poll threads make when `poll` has returned. The number
it counts down is from before the updates, and the table from after them. -/
namespace KommunikationNetze.Net

/-- In any round after any rounds, with any updates between `poll` and the pass, both programs
call exactly the ready registrations that have not ended, everything once. The chat server
has to find the descriptors of its updates; in the web server a registration also ends when
its descriptor is registered again. -/
theorem poll_pass {B β κ : Type} :
    (∀ (rounds : List (Chat.PollRound B)) (round : Chat.PollRound B) (s called present : Chat.PollState B),
      Chat.pollRounds rounds = some s → s.updates round.beforePoll = some called →
      (called.callPoll round.revents).updates round.afterPoll = some present →
      ∃ done, present.pass round.meanwhile = some done ∧
        NotifiesReady (called.callPoll round.revents).table.notifications present.table.notifications
          (fun pd => .removeDescriptor pd ∈ present.applied) done.notified) ∧
    ∀ (updateFD : Int) (rounds : List (Webserver.PollRound β κ updateFD))
      (round : Webserver.PollRound β κ updateFD),
      ∃ s done, Webserver.pollRounds rounds = some s ∧ s.round round = some done ∧
        NotifiesReady (s.polled round).table.notifications (s.present round).table.notifications
          (Webserver.Ended (s.present round).applied) done.notified := by
  constructor
  · intro rounds round s called present reached before after
    exact Chat.PollState.pass_notifies reached before after
  · intro updateFD rounds round
    exact Webserver.PollState.pass_notifies rounds round

/-- Three registrations are ready. The first is removed before the pass, so that the last
takes its place, and a fourth one is added. -/
def removalRound : Chat.PollRound Nat where
  beforePoll := [.request (.register 3 Chat.pollIn none 30), .request (.register 4 Chat.pollIn (some 9) 40),
    .request (.register 5 Chat.pollIn none 50), .applyNext, .applyNext, .applyNext]
  revents _ := ⟨Chat.pollIn, by decide⟩
  afterPoll := [.request (.remove 0), .request (.register 6 Chat.pollIn none 60), .applyNext, .applyNext]
  meanwhile _ := []

theorem poll_pass_removal :
    ∃ done, Chat.pollStateCreate.round removalRound = some done ∧
      NotifiesReady
        [⟨0, none, 30, Chat.pollIn⟩, ⟨1, some 9, 40, Chat.pollIn⟩, ⟨2, none, 50, Chat.pollIn⟩]
        [⟨2, none, 50, Chat.pollIn⟩, ⟨1, some 9, 40, Chat.pollIn⟩, ⟨3, none, 60, 0⟩]
        (fun pd => Chat.PollUpdate.removeDescriptor pd ∈
          [.removeDescriptor 0, .register 3 6 Chat.pollIn none 60]) done.notified := by
  obtain ⟨done, passed, notifies⟩ :=
    (@poll_pass Nat Unit Unit).1 [] removalRound _ _ _ rfl rfl rfl
  exact ⟨done, passed, notifies⟩

end KommunikationNetze.Net
