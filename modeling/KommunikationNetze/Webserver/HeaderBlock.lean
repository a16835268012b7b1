import KommunikationNetze.Webserver.RequestGrammar

/-! What follows the header block of a request. The parser does not see the blank line: it
takes every further line for a header. -/
namespace KommunikationNetze.Webserver
open CLib Pieces

/-- It ends with the first blank line behind its first line. -/
def HeaderBlock (header : CString) : Prop :=
  ∃ gap line rest, header = gap ++ (line ++ rest) ∧ (∀ c ∈ gap, c ∈ kHTTPLineDelimiter) ∧
    line ≠ [] ∧ (∀ c ∈ line, c ∉ kHTTPLineDelimiter) ∧ (∀ c ∈ rest.head?, c ∈ kHTTPLineDelimiter) ∧
    kHTTPContentDelimiter <:+ rest ∧
    ∀ before after, rest = before ++ kHTTPContentDelimiter ++ after → after = []

/-- Both are accepted or none of them, with the same method, version, path and header values. -/
structure SameRequest (first second : CString) : Prop where
  accepted : (httpRequestCreate first).isSome ↔ (httpRequestCreate second).isSome
  method : ∀ request other, httpRequestCreate first = some request →
    httpRequestCreate second = some other → httpRequestGetMethod request = httpRequestGetMethod other
  version : ∀ request other, httpRequestCreate first = some request →
    httpRequestCreate second = some other → httpRequestGetVersion request = httpRequestGetVersion other
  path : ∀ request other, httpRequestCreate first = some request →
    httpRequestCreate second = some other → httpRequestGetPath request = httpRequestGetPath other
  headers : ∀ request other, httpRequestCreate first = some request →
    httpRequestCreate second = some other → ∀ key,
      httpRequestGetHeaderValueForKey request key = httpRequestGetHeaderValueForKey other key

/-- Unless the block itself is refused, the lines behind it are fields, and the last value of
a key among them is the one that the block gives it. -/
def Harmless (header body : CString) : Prop :=
  ∀ fields, 3 ≤ ((lines header).head?.elim [] tokens).length →
    (lines header).tail.mapM headerField = some fields →
      ∃ added, (lines body).mapM headerField = some added ∧
        ∀ key value, lastField added key = some value → lastField fields key = some value

/-- Lines do not go on behind a delimiter. -/
theorem lines_append {c : CChar} (delimiter : c ∈ kHTTPLineDelimiter) (before body : CString) :
    lines (before ++ [c] ++ body) = lines (before ++ [c]) ++ lines body := by
  have split : ∀ after, pieces (fun c : CChar => decide (c ∈ kHTTPLineDelimiter)) (before ++ c :: after) =
      pieces (fun c : CChar => decide (c ∈ kHTTPLineDelimiter)) before ++
        pieces (fun c : CChar => decide (c ∈ kHTTPLineDelimiter)) after := fun after =>
    pieces_append (by simpa using delimiter) before after
  rw [lines, lines, lines, List.append_assoc, List.singleton_append, split, split, pieces_nil,
    List.append_nil]

theorem HeaderBlock.lines_append (block : HeaderBlock header) (body : CString) :
    lines (header ++ body) = lines header ++ lines body := by
  obtain ⟨gap, line, rest, rfl, _, _, _, _, ⟨before, rfl⟩, _⟩ := block
  have ends : kHTTPContentDelimiter = literal "\r\n\r" ++ [⟨10, by decide⟩] := by decide
  have shape : gap ++ (line ++ (before ++ kHTTPContentDelimiter)) =
      gap ++ line ++ before ++ literal "\r\n\r" ++ [⟨10, by decide⟩] := by
    rw [ends]
    simp only [List.append_assoc]
  rw [shape]
  exact Webserver.lines_append (by decide) _ body

/-- The request line is there. -/
theorem HeaderBlock.exists_lines (block : HeaderBlock header) :
    ∃ actionLine headers, lines header = actionLine :: headers := by
  obtain ⟨gap, line, rest, rfl, delimiters, nonempty, free, next, ends, _⟩ := block
  have skip : ∀ c ∈ gap, decide (c ∈ kHTTPLineDelimiter) = true := fun c mem =>
    decide_eq_true (delimiters c mem)
  have clean : ∀ c ∈ line, decide (c ∈ kHTTPLineDelimiter) = false := fun c mem =>
    decide_eq_false (free c mem)
  rw [lines, pieces_separators skip]
  cases rest with
  | nil => exact ⟨line, [], by rw [List.append_nil, pieces_last nonempty clean]⟩
  | cons c rest =>
    exact ⟨line, _, pieces_first nonempty clean (decide_eq_true (next c rfl)) rest⟩

/-- A later field takes the place of an earlier one. -/
theorem lastField_append (fields added : List (CString × CString)) (key : CString) :
    lastField (fields ++ added) key = (lastField added key).or (lastField fields key) := by
  rw [lastField, List.reverse_append, List.find?_append, Option.map_or]
  rfl

/-- More fields behind those of a request leave it as it is exactly if they say nothing else. -/
theorem requestWith_append (method path version : CString) (fields added : List (CString × CString)) :
    (∀ key, httpRequestGetHeaderValueForKey (requestWith method path version (fields ++ added)) key =
      httpRequestGetHeaderValueForKey (requestWith method path version fields) key) ↔
    ∀ key value, lastField added key = some value → lastField fields key = some value := by
  refine forall_congr' fun key => ?_
  rw [getHeader_requestWith, getHeader_requestWith, lastField_append]
  cases lastField added key with
  | none => simp
  | some value => simp [eq_comm]

/-- Two refused requests are the same. -/
theorem sameRequest_of_refused (first : httpRequestCreate header = none)
    (second : httpRequestCreate other = none) : SameRequest header other := by
  constructor
  · rw [first, second]
  all_goals
    intro request other accepted
    rw [first] at accepted
    cases accepted

/-- Two requests with the same first line, one of which has further fields. -/
theorem sameRequest_fields (first : httpRequestCreate header = some (requestWith method path version fields))
    (both : httpRequestCreate other = some (requestWith method path version (fields ++ added))) :
    SameRequest other header ↔
      ∀ key value, lastField added key = some value → lastField fields key = some value := by
  have repeats := requestWith_append method path version fields added
  have firstFields := requestWith_fields method path version fields
  have bothFields := requestWith_fields method path version (fields ++ added)
  constructor
  · intro same
    exact repeats.mp (same.headers _ _ both first)
  · intro agree
    constructor
    · rw [first, both]
      simp
    all_goals
      intro request again accepted same
      rw [both] at accepted
      rw [first] at same
      cases accepted
      cases same
    · exact bothFields.1.trans firstFields.1.symm
    · exact bothFields.2.1.trans firstFields.2.1.symm
    · exact bothFields.2.2.trans firstFields.2.2.symm
    · exact repeats.mpr agree

/-- What follows the header block of a request makes no difference exactly if it has no lines
but fields that repeat what the block says, or the block is refused. -/
theorem header_block_end (block : HeaderBlock header) (body : CString) :
    SameRequest (header ++ body) header ↔ Harmless header body := by
  obtain ⟨actionLine, headers, list⟩ := block.exists_lines
  have first := httpRequestCreate_eq header
  have both := httpRequestCreate_eq (header ++ body)
  rw [block.lines_append, list, List.cons_append, requestOf, List.mapM_append] at both
  rw [list, requestOf] at first
  simp only [Harmless, list, List.head?_cons, Option.elim_some, List.tail_cons]
  rcases split : tokens actionLine with _ | ⟨method, _ | ⟨path, _ | ⟨version, more⟩⟩⟩
  case cons.cons.cons =>
    rw [split] at first both
    cases stored : headers.mapM headerField with
    | none =>
      rw [stored] at first both
      exact iff_of_true (sameRequest_of_refused both first) (fun fields _ none => by cases none)
    | some fields =>
      rw [stored] at first both
      cases more : (lines body).mapM headerField with
      | none =>
        rw [more] at both
        refine iff_of_false (fun same => ?_) (fun harmless => ?_)
        · have accepted := same.accepted
          rw [first, both] at accepted
          simp at accepted
        · obtain ⟨added, all, _⟩ := harmless fields (by simp) rfl
          cases all
      | some added =>
        rw [more] at both
        rw [sameRequest_fields first both]
        constructor
        · intro agree _ _ stored
          cases stored
          exact ⟨added, rfl, agree⟩
        · intro harmless
          obtain ⟨_, stored, agree⟩ := harmless fields (by simp) rfl
          cases stored
          exact agree
  all_goals
    rw [split] at first both
    exact iff_of_true (sameRequest_of_refused both first)
      (fun fields three => absurd three (by simp))

/-- A line and what follows it, if that holds only the blank line it ends with. -/
theorem headerBlock_line {line rest : CString} (nonempty : line ≠ [])
    (free : ∀ c ∈ line, c ∉ kHTTPLineDelimiter) (delimited : ∀ c ∈ rest.head?, c ∈ kHTTPLineDelimiter)
    (ends : kHTTPContentDelimiter <:+ rest)
    (once : ∀ n < rest.length, kHTTPContentDelimiter <+: rest.drop n →
      rest.length = n + kHTTPContentDelimiter.length) : HeaderBlock (line ++ rest) := by
  refine ⟨[], line, rest, rfl, by simp, nonempty, free, delimited, ends, fun before after split => ?_⟩
  have size := congrArg List.length split
  simp only [List.length_append] at size
  have positive : 0 < kHTTPContentDelimiter.length := by decide
  have last := once before.length (by omega) ?_
  · exact List.eq_nil_of_length_eq_zero (by omega)
  · rw [split, List.append_assoc, List.drop_left]
    exact List.prefix_append _ _

/-- The header line is repeated behind the block. -/
theorem header_block_end_repeated :
    SameRequest (literal "GET / HTTP/1.0" ++ literal "\r\nA: b\r\n\r\n" ++ literal "A: b")
      (literal "GET / HTTP/1.0" ++ literal "\r\nA: b\r\n\r\n") := by
  have block : HeaderBlock (literal "GET / HTTP/1.0" ++ literal "\r\nA: b\r\n\r\n") :=
    headerBlock_line (by decide +kernel) (by decide +kernel) (by decide +kernel) (by decide +kernel)
      (by decide +kernel)
  refine (header_block_end block (literal "A: b")).mpr fun fields _ stored => ?_
  obtain rfl : [(literal "A", literal "b")] = fields := Option.some.inj (.trans (by decide +kernel) stored)
  exact ⟨[(literal "A", literal "b")], by decide +kernel, fun key value same => same⟩

/-- A body of one character makes the parser refuse the request in front of it. -/
theorem header_block_end_body :
    HeaderBlock (literal "GET / HTTP/1.0\r\n\r\n") ∧
      ¬SameRequest (literal "GET / HTTP/1.0\r\n\r\n" ++ literal "x")
        (literal "GET / HTTP/1.0\r\n\r\n") := by
  have block : HeaderBlock (literal "GET / HTTP/1.0" ++ kHTTPContentDelimiter) :=
    headerBlock_line (by decide +kernel) (by decide +kernel) (by decide +kernel) (List.suffix_refl _)
      (by decide +kernel)
  refine ⟨block, fun same => ?_⟩
  have accepted := same.accepted
  rw [httpRequestCreate_eq, httpRequestCreate_eq] at accepted
  revert accepted
  decide +kernel

end KommunikationNetze.Webserver
