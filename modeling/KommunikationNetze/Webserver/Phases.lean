import KommunikationNetze.Webserver.Service

/-! How far the connections are. A token for an answer stands for three phases, which a
connection goes through one after the other; since it has one token, it is in one phase. -/
namespace KommunikationNetze.Webserver
open Tokens

inductive Phase where
  | reading
  | parsed
  | sending
  | sent
  deriving DecidableEq

def Phase.stage : Phase → Stage
  | reading => .read
  | parsed | sending | sent => .answer

def Block.phase : Block → Option (Nat × Phase)
  | .wakeUp | .accept => none
  | .read connection => some (connection, .reading)
  | .send connection => some (connection, .sending)

def Work.phase : Work → Option (Nat × Phase)
  | .reading connection => some (connection, .reading)
  | .processing connection => some (connection, .parsed)
  | .sending connection => some (connection, .sending)
  | .closing connection => some (connection, .sent)
  | .over _ => none

def PollThread.phase : PollThread → Option (Nat × Phase)
  | .notify _ _ block _ => block.phase
  | .creating connection _ _ => some (connection, .reading)
  | _ => none

/-- The phases of the pending and running steps. -/
def State.phases (s : State) : Multiset (Nat × Phase) :=
  s.poll.registrations.filterMap (fun registration => registration.2.phase) + ↑s.thread.phase.toList +
    ↑(s.ioQueue.filterMap fun dispatched => dispatched.1.phase) +
    ↑(s.processingQueue.map fun connection => (connection, Phase.parsed)) +
    ↑(s.running.filterMap Work.phase)

def coarse (token : Nat × Phase) : Nat × Stage := (token.1, token.2.stage)

section Phases
variable {s t : State} {token : Nat × Phase}

theorem Block.token_phase (block : Block) : block.token = block.phase.map coarse := by
  cases block <;> rfl

theorem Work.token_phase (work : Work) : work.token = work.phase.map coarse := by
  cases work <;> rfl

theorem PollThread.token_phase (thread : PollThread) : thread.token = thread.phase.map coarse := by
  cases thread with
  | notify i n block hup => exact block.token_phase
  | _ => rfl

theorem steps_phases (s : State) : s.steps = s.phases.map coarse := by
  have thread : (↑s.thread.token.toList : Multiset (Nat × Stage)) =
      (↑s.thread.phase.toList : Multiset _).map coarse := by
    rw [PollThread.token_phase]
    cases s.thread.phase <;> rfl
  simp only [State.steps, State.phases, Multiset.map_add, thread, Multiset.map_filterMap, Multiset.map_coe,
    List.map_filterMap, List.map_map, Block.token_phase, funext Work.token_phase]
  rfl

theorem mem_phases : token ∈ s.phases ↔
    (∃ fd block, (fd, block) ∈ s.poll.registrations ∧ block.phase = some token) ∨
    s.thread.phase = some token ∨ (∃ block hup, (block, hup) ∈ s.ioQueue ∧ block.phase = some token) ∨
    (∃ connection ∈ s.processingQueue, (connection, .parsed) = token) ∨
    ∃ work ∈ s.running, work.phase = some token := by
  simp only [State.phases, Multiset.mem_add, Multiset.mem_filterMap, Multiset.mem_coe, Option.mem_toList,
    List.mem_filterMap, List.mem_map, Prod.exists, or_assoc]

theorem Inv.phase_known (inv : Inv 0 s) (mem : (connection, p) ∈ s.phases) : connection < s.connections := by
  have listed : coarse (connection, p) ∈ s.steps := by
    rw [steps_phases]
    exact Multiset.mem_map_of_mem coarse mem
  exact inv.linear.known (coarse (connection, p)) (by rw [zero_add]; exact listed)

/-- A connection whose token is taken out is in no phase. -/
theorem Inv.no_phase (inv : Inv ((connection, stage) ::ₘ 0) s) (p : Phase) : (connection, p) ∉ s.phases := by
  intro mem
  refine inv.not_mem_steps p.stage ?_
  rw [steps_phases]
  exact Multiset.mem_map_of_mem coarse mem

/-- Only places that carried a token before, or none. -/
theorem phases_subset (mem : token ∈ t.phases)
    (registrations : ∀ registration ∈ t.poll.registrations, registration ∈ s.poll.registrations)
    (thread : t.thread.phase = none ∨ t.thread.phase = s.thread.phase)
    (input : t.ioQueue ⊆ s.ioQueue) (processing : t.processingQueue ⊆ s.processingQueue)
    (running : ∀ work ∈ t.running, work ∈ s.running ∨ work.phase = none) : token ∈ s.phases := by
  rw [mem_phases] at mem ⊢
  rcases mem with ⟨fd, block, registered, its⟩ | at_ | ⟨block, hup, queued, its⟩ | ⟨c, queued, its⟩ |
    ⟨work, runs, its⟩
  · exact .inl ⟨fd, block, registrations _ registered, its⟩
  · rcases thread with none | same
    · rw [none] at at_
      cases at_
    · exact .inr (.inl (same ▸ at_))
  · exact .inr (.inr (.inl ⟨block, hup, input queued, its⟩))
  · exact .inr (.inr (.inr (.inl ⟨c, processing queued, its⟩)))
  · rcases running work runs with old | none
    · exact .inr (.inr (.inr (.inr ⟨work, old, its⟩)))
    · rw [none] at its
      cases its

/-- A step of the poll thread alone. -/
theorem phases_poll {poll : Poll Block} {thread : PollThread}
    (mem : token ∈ ({ s with poll, thread } : State).phases)
    (registrations : ∀ registration ∈ poll.registrations, registration ∈ s.poll.registrations)
    (phase : thread.phase = none) : token ∈ s.phases :=
  phases_subset mem registrations (.inl phase) (List.Subset.refl _) (List.Subset.refl _) fun _ => .inl

/-- A worker goes on. -/
theorem phases_work (running : s.running = before ++ work :: after) (next : Work) :
    ∀ token ∈ (s.work before next after).phases, token ∈ s.phases ∨ next.phase = some token := by
  intro token mem
  rw [mem_phases] at mem ⊢
  rcases mem with place | place | place | place | ⟨other, runs, its⟩
  · exact .inl (.inl place)
  · exact .inl (.inr (.inl place))
  · exact .inl (.inr (.inr (.inl place)))
  · exact .inl (.inr (.inr (.inr (.inl place))))
  · rcases List.mem_append.mp runs with front | back
    · refine .inl (.inr (.inr (.inr (.inr ⟨other, ?_, its⟩))))
      rw [running]
      exact List.mem_append_left _ front
    · rcases List.mem_cons.mp back with rfl | last
      · exact .inr its
      · refine .inl (.inr (.inr (.inr (.inr ⟨other, ?_, its⟩))))
        rw [running]
        exact List.mem_append_right _ (List.mem_cons_of_mem _ last)

/-- A descriptor is registered. -/
theorem phases_register (fd : Nat) (block : Block) :
    ∀ token ∈ ({ s with poll := pollRegister s.poll fd block } : State).phases,
      token ∈ s.phases ∨ block.phase = some token := by
  intro token mem
  rw [mem_phases] at mem ⊢
  rcases mem with ⟨other, its, registered, phase⟩ | place
  · rcases Multiset.mem_cons.mp ((Poll.registrations_register s.poll fd block) ▸ registered) with new | old
    · obtain ⟨rfl, rfl⟩ := Prod.mk.inj new
      exact .inr phase
    · exact .inl (.inl ⟨other, its, old, phase⟩)
  · exact .inl (.inr place)

/-- A call that returns is not elsewhere: the connection has no other one. -/
theorem Inv.returns (inv : Inv 0 s) (running : s.running = before ++ work :: after) (calls : work.calls = true)
    (next : Work) (other : next ≠ work) (quiet : Elsewhere s t) (now : t.running = before ++ next :: after) :
    False := by
  obtain ⟨token, phase⟩ : ∃ token, work.phase = some token := by
    cases work <;> first | exact ⟨_, rfl⟩ | cases calls
  have held : Inv ((token.1, token.2.stage) ::ₘ 0) (s.work before (.over token.1) after) := by
    refine inv.setWork running _ ?_
    rw [work.token_phase, phase]
    simp [Work.token, coarse]
  have still := quiet.running work (by rw [running]; simp) calls
  rw [now] at still
  refine held.no_phase token.2 (mem_phases.mpr (.inr (.inr (.inr (.inr ⟨work, ?_, phase⟩)))))
  simp only [State.work, List.mem_append, List.mem_cons] at still ⊢
  rcases still with front | same | back
  · exact .inl front
  · exact absurd same.symm other
  · exact .inr (.inr back)

/-- Where no call returns, a phase is only taken on by a new connection. -/
theorem Inv.phases_elsewhere (inv : Inv 0 s) (step : Step s t) (quiet : Elsewhere s t) :
    s.connections ≤ t.connections ∧ ∀ token ∈ t.phases,
      token ∈ s.phases ∨ token = (s.connections, .reading) ∧ t.connections = s.connections + 1 := by
  cases step with
  | applyUpdate update rest stage head =>
    obtain ⟨_, same⟩ := inv.sound.apply head
    refine ⟨le_rfl, fun token mem => .inl (phases_subset mem ?_ (.inr rfl) (List.Subset.refl _)
      (List.Subset.refl _) fun _ => .inl)⟩
    rw [same]
    exact fun _ => id
  | leavePoll revents thread =>
    refine ⟨le_rfl, fun token mem => .inl (phases_poll mem ?_ rfl)⟩
    rw [Poll.registrations_ready]
    exact fun _ => id
  | enterPoll | pollFails | startPass | threadReturns | endPass | skipEntry | wakeUp | listenerHup | listener
  | acceptFails | releaseCreated =>
    exact ⟨le_rfl, fun token mem => .inl (phases_poll mem (fun _ => id) rfl)⟩
  | notifyRepeat i socksToHandle entry hup thread found _ repeats =>
    have none : entry.block.phase = none := by
      cases block : entry.block <;> rw [block] at repeats <;> first | rfl | cases repeats
    exact ⟨le_rfl, fun token mem => .inl (phases_poll mem (fun _ => id) none)⟩
  | notifyOnce i socksToHandle entry hup thread found _ _ =>
    have waits := inv.waiting i (by rw [thread]; rfl) i entry le_rfl found
    obtain ⟨_, registrations⟩ := inv.sound.fire found waits
    refine ⟨le_rfl, fun token mem => .inl ?_⟩
    rw [mem_phases] at mem ⊢
    rw [← registrations]
    rcases mem with ⟨fd, block, registered, its⟩ | at_ | place
    · exact .inl ⟨fd, block, Multiset.mem_cons_of_mem registered, its⟩
    · exact .inl ⟨entry.fd, entry.block, Multiset.mem_cons_self _ _, at_⟩
    · exact .inr (.inr place)
  | dispatch i socksToHandle block hup thread _ =>
    refine ⟨le_rfl, fun token mem => .inl ?_⟩
    rw [mem_phases] at mem ⊢
    rcases mem with place | at_ | ⟨other, event, queued, its⟩ | place
    · exact .inl place
    · cases at_
    · rcases List.mem_append.mp queued with old | new
      · exact .inr (.inr (.inl ⟨other, event, old, its⟩))
      · obtain ⟨rfl, rfl⟩ := Prod.mk.inj (List.mem_singleton.mp new)
        exact .inr (.inl (by rw [thread]; exact its))
    · exact .inr (.inr (.inr place))
  | accept i socksToHandle fd thread free =>
    refine ⟨Nat.le_succ _, fun token mem => ?_⟩
    rw [mem_phases] at mem ⊢
    rcases mem with place | at_ | place
    · exact .inl (.inl place)
    · exact .inr ⟨(Option.some.inj at_).symm, rfl⟩
    · exact .inl (.inr (.inr place))
  | createRead connection i socksToHandle t thread read =>
    have still := quiet.creating _ _ _ thread
    cases still
  | takeInput block hup rest work queue start =>
    have phase : ∀ token, work.phase = some token → block.phase = some token := by
      cases block <;> cases hup <;> cases start <;> intro token its <;> first | exact its | cases its
    refine ⟨le_rfl, fun token mem => .inl ?_⟩
    rw [mem_phases] at mem ⊢
    rw [queue]
    rcases mem with place | place | ⟨other, event, queued, its⟩ | place | ⟨other, runs, its⟩
    · exact .inl place
    · exact .inr (.inl place)
    · exact .inr (.inr (.inl ⟨other, event, List.mem_cons_of_mem _ queued, its⟩))
    · exact .inr (.inr (.inr (.inl place)))
    · rcases List.mem_cons.mp runs with rfl | old
      · exact .inr (.inr (.inl ⟨block, hup, List.mem_cons_self, phase token its⟩))
      · exact .inr (.inr (.inr (.inr ⟨other, old, its⟩)))
  | takeProcessing connection rest queue =>
    refine ⟨le_rfl, fun token mem => .inl ?_⟩
    rw [mem_phases] at mem ⊢
    rw [queue]
    rcases mem with place | place | place | ⟨other, queued, its⟩ | ⟨other, runs, its⟩
    · exact .inl place
    · exact .inr (.inl place)
    · exact .inr (.inr (.inl place))
    · exact .inr (.inr (.inr (.inl ⟨other, List.mem_cons_of_mem _ queued, its⟩)))
    · rcases List.mem_cons.mp runs with rfl | old
      · exact .inr (.inr (.inr (.inl ⟨connection, List.mem_cons_self, Option.some.inj its⟩)))
      · exact .inr (.inr (.inr (.inr ⟨other, old, its⟩)))
  | readRequest connection before after t running read =>
    have now : (t.work before (.over connection) after).running = before ++ .over connection :: after := rfl
    exact (inv.returns running rfl _ (fun same => by cases same) quiet now).elim
  | processFails connection before after running | processRequest connection before after running =>
    exact (inv.returns running rfl _ (fun same => by cases same) quiet rfl).elim
  | sendIncomplete connection fd before after running socket
  | sendComplete connection fd before after running socket =>
    exact (inv.returns running rfl _ (fun same => by cases same) quiet rfl).elim
  | closeSocket connection fd before after running socket =>
    refine ⟨le_rfl, fun token mem => .inl (phases_subset mem (fun _ => id) (.inr rfl) (List.Subset.refl _)
      (List.Subset.refl _) fun work mem => ?_)⟩
    rcases List.mem_append.mp mem with front | back
    · exact .inl (by rw [running]; exact List.mem_append_left _ front)
    · rcases List.mem_cons.mp back with rfl | last
      · exact .inr rfl
      · exact .inl (by rw [running]; exact List.mem_append_right _ (List.mem_cons_of_mem _ last))
  | releaseBlock connection before after running =>
    refine ⟨le_rfl, fun token mem => .inl (phases_subset mem (fun _ => id) (.inr rfl) (List.Subset.refl _)
      (List.Subset.refl _) fun work mem => .inl ?_)⟩
    rw [running]
    simp only [List.mem_append, List.mem_cons] at mem ⊢
    exact mem.imp_right .inr
  | dealloc connection fd unreferenced fresh socket =>
    refine ⟨le_rfl, fun token mem => .inl (phases_subset mem ?_ (.inr rfl) (List.Subset.refl _)
      (List.Subset.refl _) fun _ => .inl)⟩
    simp only [Poll.registrations_unregister]
    exact fun _ => id
  | deallocClose connection fd before after deallocating socket =>
    exact ⟨le_rfl, fun token mem => .inl (phases_subset mem (fun _ => id) (.inr rfl) (List.Subset.refl _)
      (List.Subset.refl _) fun _ => .inl)⟩
  | listen fd free =>
    refine ⟨le_rfl, fun token mem => .inl ?_⟩
    rcases phases_register fd .accept token mem with old | new
    · exact old
    · cases new

end Phases
end KommunikationNetze.Webserver
