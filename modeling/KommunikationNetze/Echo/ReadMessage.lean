import KommunikationNetze.Echo.EchoStream

/-! Messages of any length at a client of the echo server. The terminator counts to the size
that is compared with the length of the array: the loop goes on after 254 bytes, and for
255 bytes the terminator stands behind the array. -/
namespace KommunikationNetze.Echo
open CLib

/-- The indices of its array that `readClientToBuffer` writes, `recv` from the first on and
the terminator behind. -/
def arrayWrites : List (Option (List UInt8)) → List Nat
  | [] | none :: _ => []
  | some bytes :: rest =>
    if bytes.length = 0 then []
    else if bytes.length + 1 = 255 then List.range bytes.length ++ bytes.length :: arrayWrites rest
    else List.range bytes.length ++ [bytes.length]

/-- The pieces in which `recv` returns the pending bytes. -/
structure Pending (bytes : CString) (pieces : List CString) : Prop where
  nonempty : bytes ≠ []
  all : pieces.flatten = bytes
  sizes : ∀ piece ∈ pieces, 0 < piece.length ∧ piece.length ≤ 255

/-- After the last piece there is an error. -/
def recvs (pieces : List CString) : List (Option (List UInt8)) :=
  pieces.map (fun piece => some piece.bytes) ++ [none]

/-- Some of the pieces, from the first on, were received and stand behind the string. -/
def Appends (client after : EchoClient) (pieces : List CString) : Prop :=
  ∃ count, after.received = client.received ++ CString.bytes (pieces.take count).flatten ∧
    Holds after (client.text ++ (pieces.take count).flatten)

/-- The call stays in its array, all that it received is in the buffer, and the client is
not closed. -/
structure ReadsMessage [CMemory] (client : EchoClient) (pieces : List CString) : Prop where
  inside : ∀ index ∈ arrayWrites (recvs pieces), index < 255
  appends : Appends client (readClientToBuffer client (recvs pieces)).1 pieces
  stays : (readClientToBuffer client (recvs pieces)).2 = true

/-- Any number of pieces of 254 bytes, and then a shorter one. -/
def EndsShort (pieces : List CString) : Prop :=
  ∃ full short rest, pieces = full ++ short :: rest ∧ (∀ piece ∈ full, piece.length = 254) ∧
    short.length < 254

section Pieces
variable {piece : CString} {pieces : List CString}

theorem not_endsShort_nil : ¬EndsShort [] := by
  rintro ⟨full, short, rest, same, _⟩
  exact List.append_ne_nil_of_right_ne_nil full (List.cons_ne_nil _ _) same.symm

theorem endsShort_cons : EndsShort (piece :: pieces) ↔
    piece.length < 254 ∨ piece.length = 254 ∧ EndsShort pieces := by
  constructor
  · rintro ⟨full, short, rest, same, whole, fewer⟩
    cases full with
    | nil =>
      obtain ⟨rfl, _⟩ := List.cons.inj same
      exact .inl fewer
    | cons first full =>
      obtain ⟨rfl, rfl⟩ := List.cons.inj same
      refine .inr ⟨whole _ List.mem_cons_self, full, short, rest, rfl, ?_, fewer⟩
      intro other mem
      exact whole other (List.mem_cons_of_mem _ mem)
  · rintro (fewer | ⟨whole, full, short, rest, rfl, others, fewer⟩)
    · exact ⟨[], piece, pieces, rfl, fun _ mem => absurd mem List.not_mem_nil, fewer⟩
    · refine ⟨piece :: full, short, rest, rfl, ?_, fewer⟩
      intro other mem
      rcases List.mem_cons.mp mem with rfl | later
      · exact whole
      · exact others other later

/-- When `recv` returns all that fits, the pending bytes decide. -/
theorem endsShort_of_greedy (pending : Pending bytes (piece :: pieces))
    (greedy : piece.length = min bytes.length 255) : EndsShort (piece :: pieces) ↔ bytes.length < 254 := by
  have total := congrArg List.length pending.all
  rw [List.flatten_cons, List.length_append] at total
  rw [endsShort_cons]
  refine ⟨?_, fun fewer => .inl (by omega)⟩
  rintro (fewer | ⟨whole, full, short, rest, rfl, _, _⟩)
  · omega
  · have positive := (pending.sizes short (by simp)).1
    rw [List.flatten_append, List.flatten_cons, List.length_append, List.length_append] at total
    omega

theorem recvs_cons (piece : CString) (pieces : List CString) :
    recvs (piece :: pieces) = some piece.bytes :: recvs pieces := rfl

end Pieces

section Read
variable [CMemory] {client : EchoClient} {piece : CString} {pieces : List CString}

/-- The array has room and the loop comes to its end exactly for such pieces. -/
theorem reads_iff (client : EchoClient)
    (sizes : ∀ piece ∈ pieces, 0 < piece.length ∧ piece.length ≤ 255) :
    ((∀ index ∈ arrayWrites (recvs pieces), index < 255) ∧
      (readClientToBuffer client (recvs pieces)).2 = true) ↔ EndsShort pieces := by
  induction pieces generalizing client with
  | nil => exact iff_of_false (fun reads => Bool.false_ne_true reads.2) not_endsShort_nil
  | cons piece pieces ih =>
    obtain ⟨positive, fits⟩ := sizes piece List.mem_cons_self
    have length := length_bytes piece
    have later := ih (client.append piece.bytes) fun other mem => sizes other (List.mem_cons_of_mem _ mem)
    rw [endsShort_cons, ← later, recvs_cons, readClientToBuffer, arrayWrites, length]
    simp only [if_neg (Nat.ne_of_gt positive)]
    by_cases whole : piece.length + 1 = 255
    · simp only [if_pos whole, List.forall_mem_append, List.forall_mem_cons, List.mem_range]
      constructor
      · rintro ⟨⟨_, _, inside⟩, stays⟩
        exact .inr ⟨Nat.succ.inj whole, inside, stays⟩
      · rintro (fewer | ⟨_, inside, stays⟩)
        · omega
        · exact ⟨⟨fun index below => by omega, by omega, inside⟩, stays⟩
    · simp only [if_neg whole, List.forall_mem_append, List.forall_mem_singleton, List.mem_range]
      constructor
      · rintro ⟨⟨_, inside⟩, _⟩
        exact .inl (by omega)
      · rintro (fewer | ⟨full, _⟩)
        · exact ⟨⟨fun index below => by omega, by omega⟩, trivial⟩
        · omega

/-- The first piece may be the one for which the buffer is allocated. -/
theorem read_first (formed : WellFormed client) (positive : 0 < piece.length)
    (later : ∀ client : EchoClient, Holds client client.text →
      Appends client (readClientToBuffer client (recvs pieces)).1 pieces) :
    Appends client (readClientToBuffer client (recvs (piece :: pieces))).1 (piece :: pieces) := by
  obtain ⟨after, received, _⟩ := append_spec formed piece
  rw [recvs_cons, readClientToBuffer, length_bytes, if_neg (Nat.ne_of_gt positive)]
  split
  · obtain ⟨count, rest, holds⟩ := later (client.append piece.bytes) (after.text.symm ▸ after)
    refine ⟨count + 1, ?_, ?_⟩
    · rw [rest, received, List.take_succ_cons, List.flatten_cons, bytes_append, List.append_assoc]
    · rw [List.take_succ_cons, List.flatten_cons, ← List.append_assoc, ← after.text]
      exact holds
  · refine ⟨1, ?_, ?_⟩
    · simpa using received
    · simpa using after

theorem read_appends (holds : Holds client client.text) (sizes : ∀ piece ∈ pieces, 0 < piece.length) :
    Appends client (readClientToBuffer client (recvs pieces)).1 pieces := by
  induction pieces generalizing client with
  | nil => exact ⟨0, (List.append_nil _).symm, (List.append_nil client.text).symm ▸ holds⟩
  | cons piece pieces ih =>
    apply read_first holds.wellFormed (sizes piece List.mem_cons_self)
    intro client holds
    exact ih holds fun other mem => sizes other (List.mem_cons_of_mem _ mem)

/-- A call reads such a message as it should exactly if the pieces end with a short one. -/
theorem read_message {bytes : CString} (formed : WellFormed client) (pending : Pending bytes pieces) :
    ReadsMessage client pieces ↔ EndsShort pieces := by
  rw [← reads_iff client pending.sizes]
  refine ⟨fun reads => ⟨reads.inside, reads.stays⟩, fun ⟨inside, stays⟩ => ⟨inside, ?_, stays⟩⟩
  cases pieces with
  | nil => exact absurd pending.all.symm pending.nonempty
  | cons piece pieces =>
    have positive := fun other mem => (pending.sizes other mem).1
    apply read_first formed (positive piece List.mem_cons_self)
    intro client holds
    exact read_appends holds fun other mem => positive other (List.mem_cons_of_mem _ mem)

end Read

def letters (count : Nat) : CString := (List.replicate count (literal "a")).flatten

theorem length_letters (count : Nat) : (letters count).length = count := by
  have one : (literal "a").length = 1 := by decide
  rw [letters, List.length_flatten, List.map_replicate, List.sum_replicate_nat, one, Nat.mul_one]

theorem letters_pending (positive : 0 < count) (fits : count ≤ 255) :
    Pending (letters count) [letters count] := by
  have length := length_letters count
  refine ⟨List.ne_nil_of_length_pos (length.symm ▸ positive), List.append_nil _, ?_⟩
  intro piece mem
  obtain rfl := List.mem_singleton.mp mem
  exact length.symm ▸ ⟨positive, fits⟩

/-- A message of three letters. -/
theorem read_message_letters : @ReadsMessage .zeroed (acceptNewClient .null) [letters 3] := by
  let _ := CMemory.zeroed
  refine (read_message (.inl rfl) (letters_pending (by decide) (by decide))).mpr ?_
  exact endsShort_cons.mpr (.inl (by decide))

/-- After 254 letters nothing is pending, and the client is closed. -/
theorem read_message_closed :
    Pending (letters 254) [letters 254] ∧ ¬@ReadsMessage .zeroed (acceptNewClient .null) [letters 254] := by
  let _ := CMemory.zeroed
  have pending := letters_pending (show 0 < 254 by decide) (by decide)
  refine ⟨pending, fun reads => ?_⟩
  have ends := (reads_iff (acceptNewClient .null) pending.sizes).mp ⟨reads.inside, reads.stays⟩
  rcases endsShort_cons.mp ends with fewer | more
  · rw [length_letters] at fewer
    exact Nat.lt_irrefl 254 fewer
  · exact not_endsShort_nil more.2

end KommunikationNetze.Echo
