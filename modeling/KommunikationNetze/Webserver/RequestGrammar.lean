import KommunikationNetze.Library.Pieces
import KommunikationNetze.Webserver.HTTPRequest
import Mathlib.Data.List.Induction

/-! What a request consists of: lines, of which the first has tokens and the others have a key
and a value. The parser never looks at an empty line, and computes just this. -/
namespace KommunikationNetze.Webserver
open CLib Utils Pieces

/-- The maximal runs of characters that end no line. -/
def lines (buffer : CString) : List CString := pieces (· ∈ kHTTPLineDelimiter) buffer

def tokens (line : CString) : List CString := pieces (· ∈ literal " ") line

/-- The key and the value of a header line. Colons in front of the key are skipped, and there
has to be one behind it. -/
def headerField (line : CString) : Option (CString × CString) :=
  let line := line.dropWhile (· ∈ kHTTPHeaderDelimiter)
  match line.dropWhile (· ∉ kHTTPHeaderDelimiter) with
  | [] => none
  | _ :: value => some (line.takeWhile (· ∉ kHTTPHeaderDelimiter), strtrim value)

def storeField (request : HTTPRequest) (field : CString × CString) : HTTPRequest :=
  { request with headerDictionary := dictionarySet request.headerDictionary field.1 (some field.2) }

/-- The value of the last field with this key. -/
def lastField (fields : List (CString × CString)) (key : CString) : Option CString :=
  (fields.reverse.find? (·.1 = key)).map Prod.snd

/-- The request of a first line with these tokens and of these fields. -/
def requestWith (method path version : CString) (fields : List (CString × CString)) : HTTPRequest :=
  fields.foldl storeField
    { method := methodOf method, version := versionOf version, path := some path
      headerDictionary := dictionaryCreate }

/-- The request of these lines. -/
def requestOf : List CString → Option HTTPRequest
  | [] => none
  | actionLine :: headers =>
    match tokens actionLine with
    | method :: path :: version :: _ =>
      (headers.mapM headerField).map (requestWith method path version)
    | _ => none

section Tokenizer

/-- Delimiters in front of a string are skipped, and one `strsep` takes the token. -/
theorem strsepExt_eq (string delim : CString) :
    strsepExt (some string) delim =
      match string.dropWhile (· ∈ delim) with
      | [] => (none, none)
      | c :: rest => strsep (some (c :: rest)) delim := by
  induction string with
  | nil => exact strsepExt_nil delim
  | cons c string ih =>
    by_cases delimiter : c ∈ delim
    · rw [strsepExt_delim delimiter, ih, List.dropWhile_cons_of_pos (by simpa using delimiter)]
    · rw [List.dropWhile_cons_of_neg (by simpa using delimiter), strsepExt]
      have token : ∃ d token, (strsep (some (c :: string)) delim).1 = some (d :: token) := by
        refine ⟨c, string.takeWhile (· ∉ delim), ?_⟩
        rw [strsep, List.takeWhile_cons_of_pos (by simpa using delimiter)]
        split <;> rfl
      obtain ⟨d, token, found⟩ := token
      split
      · rename_i empty
        rw [found] at empty
        cases empty
      · rfl

theorem strsepExt_delims {gap : CString} (delimiters : ∀ c ∈ gap, c ∈ delim) (rest : CString) :
    strsepExt (some (gap ++ rest)) delim = strsepExt (some rest) delim := by
  induction gap with
  | nil => rfl
  | cons c gap ih =>
    obtain ⟨first, others⟩ := List.forall_mem_cons.mp delimiters
    rw [List.cons_append, strsepExt_delim first, ih others]

/-- The tokens from a pointer on. -/
def piecesAt (delim : CString) (stringp : Option CString) : List CString :=
  stringp.elim [] (pieces (· ∈ delim))

/-- A call takes the first token off. -/
theorem strsepExt_pieces (delim : CString) (stringp : Option CString) :
    (strsepExt stringp delim).1 = (piecesAt delim stringp).head? ∧
      piecesAt delim (strsepExt stringp delim).2 = (piecesAt delim stringp).tail := by
  cases stringp with
  | none =>
    rw [strsepExt_none]
    exact ⟨rfl, rfl⟩
  | some string =>
    simp only [piecesAt, Option.elim_some]
    rcases split_first (· ∈ delim) string with
      delimiters | ⟨gap, token, rest, rfl, delimiters, nonempty, free, ends⟩
    · have skipped := strsepExt_delims (fun c mem => of_decide_eq_true (delimiters c mem)) []
      rw [List.append_nil, strsepExt_nil] at skipped
      rw [skipped, pieces_of_separators delimiters]
      exact ⟨rfl, rfl⟩
    · have clean : ∀ c ∈ token, c ∉ delim := fun c mem => of_decide_eq_false (free c mem)
      rw [strsepExt_delims (fun c mem => of_decide_eq_true (delimiters c mem)),
        pieces_separators delimiters]
      rcases ends with rfl | ⟨c, after, rfl, delimiter⟩
      · rw [List.append_nil, strsepExt_last nonempty clean, pieces_last nonempty free]
        exact ⟨rfl, rfl⟩
      · rw [strsepExt_token nonempty clean (of_decide_eq_true delimiter),
          pieces_first nonempty free delimiter]
        exact ⟨rfl, rfl⟩

end Tokenizer

section Parser

theorem parseActionLine_eq (request : HTTPRequest) (line : Option CString) :
    httpRequestParseActionLine request line =
      match piecesAt (literal " ") line with
      | method :: path :: version :: _ =>
        some { request with path, method := methodOf method, version := versionOf version }
      | _ => none := by
  obtain ⟨method, afterMethod⟩ := strsepExt_pieces (literal " ") line
  obtain ⟨path, afterPath⟩ := strsepExt_pieces (literal " ") (strsepExt line (literal " ")).2
  obtain ⟨version, _⟩ := strsepExt_pieces (literal " ")
    (strsepExt (strsepExt line (literal " ")).2 (literal " ")).2
  rw [afterMethod] at path afterPath
  rw [afterPath] at version
  simp only [httpRequestParseActionLine, method, path, version]
  rcases piecesAt (literal " ") line with _ | ⟨a, _ | ⟨b, _ | ⟨c, more⟩⟩⟩ <;> rfl

theorem parseHeaderLine_eq (request : HTTPRequest) (line : CString) :
    httpRequestParseHeaderLine request line = (headerField line).map (storeField request) := by
  rw [httpRequestParseHeaderLine, strsepExt_eq, headerField]
  cases line.dropWhile (· ∈ kHTTPHeaderDelimiter) with
  | nil => rfl
  | cons c rest =>
    simp only [strsep]
    cases (c :: rest).dropWhile (· ∉ kHTTPHeaderDelimiter) <;> rfl

/-- One round of the loop. -/
theorem parseHeader_eq (request : HTTPRequest) (buffer : Option CString) :
    httpRequestParseHeader request buffer =
      match strsepExt buffer kHTTPLineDelimiter with
      | (none, _) => some request
      | (some line, rest) => (httpRequestParseHeaderLine request line).bind fun request =>
          httpRequestParseHeader request rest := by
  rw [httpRequestParseHeader]
  generalize strsepExt buffer kHTTPLineDelimiter = result
  obtain ⟨line, rest⟩ := result
  cases line <;> rfl

/-- The loop takes the lines one after another. -/
theorem parseHeader_lines (request : HTTPRequest) (buffer : Option CString) :
    httpRequestParseHeader request buffer =
      ((piecesAt kHTTPLineDelimiter buffer).mapM headerField).map (·.foldl storeField request) := by
  generalize list : piecesAt kHTTPLineDelimiter buffer = remaining
  induction remaining generalizing request buffer with
  | nil =>
    have line := (strsepExt_pieces kHTTPLineDelimiter buffer).1
    rw [list] at line
    rw [parseHeader_eq]
    generalize strsepExt buffer kHTTPLineDelimiter = result at line
    obtain ⟨first, rest⟩ := result
    obtain rfl : first = none := line
    rfl
  | cons first others ih =>
    obtain ⟨line, behind⟩ := strsepExt_pieces kHTTPLineDelimiter buffer
    rw [list] at line behind
    rw [parseHeader_eq]
    generalize strsepExt buffer kHTTPLineDelimiter = result at line behind
    obtain ⟨token, rest⟩ := result
    obtain rfl : token = some first := line
    simp only [parseHeaderLine_eq, ih _ _ behind, List.mapM_cons]
    cases headerField first with
    | none => rfl
    | some field => cases others.mapM headerField <;> rfl

/-- The parser computes the request of the lines. -/
theorem httpRequestCreate_eq (buffer : CString) : httpRequestCreate buffer = requestOf (lines buffer) := by
  obtain ⟨actionLine, headers⟩ := strsepExt_pieces kHTTPLineDelimiter (some buffer)
  rw [httpRequestCreate, httpRequestParse]
  simp only [parseActionLine_eq, parseHeader_lines, actionLine, headers]
  rw [show piecesAt kHTTPLineDelimiter (some buffer) = lines buffer from rfl]
  cases lines buffer with
  | nil => rfl
  | cons actionLine headers =>
    simp only [List.head?_cons, List.tail_cons, requestOf, tokens, piecesAt, Option.elim_some]
    split <;> rfl

end Parser

section Accepted

/-- A request is accepted if its first line has three tokens and all other lines are fields. -/
theorem httpRequestCreate_eq_some :
    httpRequestCreate buffer = some request ↔ ∃ actionLine headers method path version more fields,
      lines buffer = actionLine :: headers ∧ tokens actionLine = method :: path :: version :: more ∧
      headers.mapM headerField = some fields ∧ request = requestWith method path version fields := by
  rw [httpRequestCreate_eq]
  constructor
  · intro accepted
    cases list : lines buffer with
    | nil =>
      rw [list] at accepted
      cases accepted
    | cons actionLine headers =>
      rw [list, requestOf] at accepted
      split at accepted
      · rename_i method path version more split
        obtain ⟨fields, stored, rfl⟩ := Option.map_eq_some_iff.mp accepted
        exact ⟨actionLine, headers, method, path, version, more, fields, rfl, split, stored, rfl⟩
      · cases accepted
  · rintro ⟨actionLine, headers, method, path, version, more, fields, list, split, stored, rfl⟩
    simp only [list, requestOf, split, stored, Option.map_some]

theorem accepted_of_isSome (buffer : CString) (accepted : (requestOf (lines buffer)).isSome) :
    httpRequestCreate buffer = some ((requestOf (lines buffer)).get accepted) := by
  rw [httpRequestCreate_eq, Option.some_get]

/-- Fields only go into the dictionary. -/
theorem foldl_storeField (fields : List (CString × CString)) (request : HTTPRequest) :
    fields.foldl storeField request = { request with
      headerDictionary := (fields.foldl storeField request).headerDictionary } := by
  induction fields generalizing request with
  | nil => rfl
  | cons field fields ih =>
    rw [List.foldl_cons, ih]
    rfl

theorem requestWith_fields (method path version : CString) (fields : List (CString × CString)) :
    (requestWith method path version fields).method = methodOf method ∧
      (requestWith method path version fields).version = versionOf version ∧
      (requestWith method path version fields).path = some path := by
  rw [requestWith, foldl_storeField]
  exact ⟨rfl, rfl, rfl⟩

theorem lastField_snoc (fields : List (CString × CString)) (field : CString × CString) (key : CString) :
    lastField (fields ++ [field]) key = if key = field.1 then some field.2 else lastField fields key := by
  by_cases same : field.1 = key
  · simp [lastField, same]
  · have other : ¬key = field.1 := fun h => same h.symm
    simp [lastField, same, other]

/-- For every key the value of its last field. -/
theorem getHeader_requestWith (method path version : CString) (fields : List (CString × CString))
    (key : CString) :
    httpRequestGetHeaderValueForKey (requestWith method path version fields) key =
      lastField fields key := by
  induction fields using List.reverseRecOn with
  | nil => exact dictionaryGet_create key
  | append_singleton fields field ih =>
    rw [requestWith, List.foldl_append, ← requestWith, lastField_snoc, ← ih]
    exact dictionaryGet_set _ _ _ _

end Accepted
end KommunikationNetze.Webserver
