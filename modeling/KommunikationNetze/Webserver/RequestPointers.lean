import KommunikationNetze.Webserver.RequestGrammar

/-! The pointers that the parser passes on. Every tokenising call can return NULL, so the
parser is written out a second time here with the calls that take a string; behind a
NULL pointer the result is arbitrary. -/
namespace KommunikationNetze.Webserver
open CLib Utils

/-- A call of a function that takes strings, with the pointers it gets. -/
inductive StringCall where
  | strlen (string : Option CString)
  | strncmp (string word : Option CString)
  | strtrim (string : Option CString)
  | dictionarySet (key value : Option CString)
  deriving DecidableEq

def StringCall.pointers : StringCall → List (Option CString)
  | strlen string => [string]
  | strncmp string word => [string, word]
  | strtrim string => [string]
  | dictionarySet key value => [key, value]

/-- A result and the calls made for it. -/
structure Traced (α : Type) where
  result : α
  calls : List StringCall

namespace Traced
variable {α β : Type}

instance : Monad Traced where
  pure result := ⟨result, []⟩
  bind first next := ⟨(next first.result).result, first.calls ++ (next first.result).calls⟩

@[simp] theorem pure_result (result : α) : (pure result : Traced α).result = result := rfl

@[simp] theorem pure_calls (result : α) : (pure result : Traced α).calls = [] := rfl

@[simp] theorem bind_result (first : Traced α) (next : α → Traced β) :
    (first >>= next).result = (next first.result).result := rfl

@[simp] theorem bind_calls (first : Traced α) (next : α → Traced β) :
    (first >>= next).calls = first.calls ++ (next first.result).calls := rfl

def strlen (string : Option CString) : Traced Nat :=
  ⟨(string.getD []).length, [.strlen string]⟩

def strncmp (string : Option CString) (word : CString) (n : Nat) : Traced Int :=
  ⟨CLib.strncmp (string.getD []) word n, [.strncmp string (some word)]⟩

def strtrim (string : Option CString) : Traced CString :=
  ⟨Webserver.strtrim (string.getD []), [.strtrim string]⟩

def dictionarySet (dict : Dictionary CString) (key value : Option CString) :
    Traced (Dictionary CString) :=
  ⟨Webserver.dictionarySet dict (key.getD []) value, [.dictionarySet key value]⟩

/-- The length is taken only behind the test of the pointer. -/
def strsepExt (stringp : Option CString) (delim : CString) :
    Traced (Option CString × Option CString) :=
  match _found : (strsep stringp delim).1 with
  | none => pure (none, (strsep stringp delim).2)
  | some value => do
    let length ← strlen (some value)
    if length = 0 then strsepExt (strsep stringp delim).2 delim
    else pure (some value, (strsep stringp delim).2)
  termination_by strsepMeasure stringp
  decreasing_by exact strsepMeasure_strsep stringp delim _found

theorem strsepExt_none_eq {stringp : Option CString} (found : (strsep stringp delim).1 = none) :
    strsepExt stringp delim = pure (none, (strsep stringp delim).2) := by
  rw [strsepExt]
  split
  · rfl
  · simp_all

theorem strsepExt_some_eq {stringp : Option CString} (found : (strsep stringp delim).1 = some value) :
    strsepExt stringp delim = (do
      let length ← strlen (some value)
      if length = 0 then strsepExt (strsep stringp delim).2 delim
      else pure (some value, (strsep stringp delim).2)) := by
  conv_lhs => rw [strsepExt]
  split
  · simp_all
  · rename_i other
    rw [found] at other
    cases other
    rfl

/-- It returns what the function of the parser does. -/
theorem strsepExt_result (stringp : Option CString) (delim : CString) :
    (strsepExt stringp delim).result = Utils.strsepExt stringp delim := by
  induction stringp using Utils.strsepExt.induct delim with
  | case1 stringp empty ih => rw [strsepExt_some_eq empty, strsepExt_of_empty empty, ← ih]; rfl
  | case2 stringp nonempty =>
    rw [strsepExt_of_ne_empty nonempty]
    cases found : (strsep stringp delim).1 with
    | none =>
      rw [strsepExt_none_eq found, ← found]
      rfl
    | some value =>
      have positive : ¬value.length = 0 := fun zero => nonempty (by
        rw [found, List.eq_nil_of_length_eq_zero zero])
      rw [strsepExt_some_eq found]
      simp only [bind_result, strlen, Option.getD_some, if_neg positive, pure_result]
      rw [← found]

def httpRequestParseActionLine (request : HTTPRequest) (line : Option CString) :
    Traced (Option HTTPRequest) := do
  let (methodString, line) ← strsepExt line (literal " ")
  let (path, line) ← strsepExt line (literal " ")
  let (versionString, _) ← strsepExt line (literal " ")
  if methodString = none then
    return none
  let get ← strncmp methodString (literal "GET") (literal "GET").length
  let method : HTTPMethod := if get = 0 then .kHTTPMethodGet else .kHTTPMethodUnkown
  if versionString = none then
    return none
  let version ← versionCalls versionString
  return some { request with path, method, version }
where
  versionCalls (versionString : Option CString) : Traced HTTPVersion := do
    let first ← strncmp versionString (literal "HTTP/1.0") (literal "HTTP/1.0").length
    if first = 0 then
      return .kHTTPVersion_1_0
    let second ← strncmp versionString (literal "HTTP/1.1") (literal "HTTP/1.1").length
    if second = 0 then
      return .kHTTPVersion_1_1
    return .kHTTPVersionUnkown

def httpRequestParseHeaderLine (request : HTTPRequest) (line : Option CString) :
    Traced (Option HTTPRequest) := do
  let (key, line) ← strsepExt line kHTTPHeaderDelimiter
  if line = none then
    return none
  let value ← strtrim line
  let headerDictionary ← dictionarySet request.headerDictionary key (some value)
  return some { request with headerDictionary }

/-- The loop takes the next line before every test. -/
def httpRequestParseHeader (request : HTTPRequest) (buffer : Option CString) :
    Traced (Option HTTPRequest) :=
  match _found : (strsepExt buffer kHTTPLineDelimiter).result.1 with
  | none => do
    let _ ← strsepExt buffer kHTTPLineDelimiter
    return some request
  | some line => do
    let _ ← strsepExt buffer kHTTPLineDelimiter
    match ← httpRequestParseHeaderLine request (some line) with
    | none => return none
    | some request =>
      httpRequestParseHeader request (strsepExt buffer kHTTPLineDelimiter).result.2
  termination_by strsepMeasure buffer
  decreasing_by
    rw [strsepExt_result] at _found ⊢
    exact strsepMeasure_strsepExt buffer kHTTPLineDelimiter _found

def httpRequestParse (request : HTTPRequest) (buffer : CString) : Traced (Option HTTPRequest) := do
  let (actionLine, buffer) ← strsepExt (some buffer) kHTTPLineDelimiter
  match ← httpRequestParseActionLine request actionLine with
  | none => return none
  | some request => httpRequestParseHeader request buffer

def httpRequestCreate (buffer : CString) : Traced (Option HTTPRequest) :=
  httpRequestParse
    { method := .kHTTPMethodGet, version := .kHTTPVersion_1_0, path := none,
      headerDictionary := dictionaryCreate } buffer

theorem versionCalls_result (versionString : CString) :
    (httpRequestParseActionLine.versionCalls (some versionString)).result =
      versionOf versionString := by
  simp only [httpRequestParseActionLine.versionCalls, versionOf, bind_result, strncmp,
    Option.getD_some]
  split
  · rfl
  · rw [bind_result]
    split <;> rfl

theorem httpRequestParseActionLine_result (request : HTTPRequest) (line : Option CString) :
    (httpRequestParseActionLine request line).result =
      Webserver.httpRequestParseActionLine request line := by
  simp only [httpRequestParseActionLine, Webserver.httpRequestParseActionLine, bind_result,
    strsepExt_result]
  obtain ⟨methodString, afterMethod⟩ := Utils.strsepExt line (literal " ")
  obtain ⟨path, afterPath⟩ := Utils.strsepExt afterMethod (literal " ")
  obtain ⟨versionString, _⟩ := Utils.strsepExt afterPath (literal " ")
  cases methodString with
  | none => rfl
  | some methodString =>
    cases versionString with
    | none => rfl
    | some versionString =>
      simp only [reduceCtorEq, if_false, bind_result, versionCalls_result]
      rfl

/-- The rest is NULL unless there is a key. -/
theorem strsepExt_rest (found : Utils.strsepExt (some string) delim = (key, some rest)) :
    ∃ characters, key = some characters ∧ characters ≠ [] ∧ ∀ c ∈ characters, c ∉ delim := by
  have token := (strsepExt_pieces delim (some string)).1
  have once := strsepExt_eq string delim
  rw [found] at token once
  cases key with
  | none =>
    split at once
    · cases once
    · rw [strsep] at once
      split at once <;> cases once
  | some characters =>
    have piece := Pieces.mem_pieces (List.mem_of_head? token.symm)
    exact ⟨characters, rfl, piece.1, fun c mem => of_decide_eq_false (piece.2.1 c mem)⟩

theorem httpRequestParseHeaderLine_result (request : HTTPRequest) (line : CString) :
    (httpRequestParseHeaderLine request (some line)).result =
      Webserver.httpRequestParseHeaderLine request line := by
  simp only [httpRequestParseHeaderLine, Webserver.httpRequestParseHeaderLine, bind_result,
    strsepExt_result]
  rcases found : Utils.strsepExt (some line) kHTTPHeaderDelimiter with ⟨key, _ | rest⟩
  · cases key <;> rfl
  · obtain ⟨characters, rfl, _⟩ := strsepExt_rest found
    rfl

theorem httpRequestParseHeader_none {buffer : Option CString} (request : HTTPRequest)
    (found : (strsepExt buffer kHTTPLineDelimiter).result.1 = none) :
    httpRequestParseHeader request buffer = (do
      let _ ← strsepExt buffer kHTTPLineDelimiter
      return some request) := by
  rw [httpRequestParseHeader]
  split
  · rfl
  · simp_all

theorem httpRequestParseHeader_some {buffer : Option CString} (request : HTTPRequest)
    (found : (strsepExt buffer kHTTPLineDelimiter).result.1 = some line) :
    httpRequestParseHeader request buffer = (do
      let _ ← strsepExt buffer kHTTPLineDelimiter
      match ← httpRequestParseHeaderLine request (some line) with
      | none => return none
      | some request =>
        httpRequestParseHeader request (strsepExt buffer kHTTPLineDelimiter).result.2) := by
  conv_lhs => rw [httpRequestParseHeader]
  split
  · simp_all
  · rename_i other
    rw [found] at other
    cases other
    rfl

theorem httpRequestParseHeader_result (request : HTTPRequest) (buffer : Option CString) :
    (httpRequestParseHeader request buffer).result =
      Webserver.httpRequestParseHeader request buffer := by
  induction request, buffer using httpRequestParseHeader.induct with
  | case1 request buffer found =>
    rw [httpRequestParseHeader_none request found, parseHeader_eq, ← strsepExt_result]
    rcases split : (strsepExt buffer kHTTPLineDelimiter).result with ⟨line, rest⟩
    rw [split] at found
    obtain rfl : line = none := found
    rfl
  | case2 request buffer line found ih =>
    rw [httpRequestParseHeader_some request found, parseHeader_eq, ← strsepExt_result]
    simp only [bind_result, httpRequestParseHeaderLine_result]
    rcases split : (strsepExt buffer kHTTPLineDelimiter).result with ⟨token, rest⟩
    rw [split] at found ih
    obtain rfl : token = some line := found
    dsimp only
    cases Webserver.httpRequestParseHeaderLine request line with
    | none => rfl
    | some request => exact ih request

theorem httpRequestCreate_result (buffer : CString) :
    (httpRequestCreate buffer).result = Webserver.httpRequestCreate buffer := by
  simp only [httpRequestCreate, Webserver.httpRequestCreate, httpRequestParse,
    Webserver.httpRequestParse, bind_result, strsepExt_result, httpRequestParseActionLine_result]
  obtain ⟨actionLine, rest⟩ := Utils.strsepExt (some buffer) kHTTPLineDelimiter
  dsimp only
  cases Webserver.httpRequestParseActionLine _ actionLine with
  | none => rfl
  | some request => exact httpRequestParseHeader_result request rest

end Traced

/-- No pointer is NULL, and a key of the dictionary is neither empty nor has a colon. -/
structure StringCall.Valid (call : StringCall) : Prop where
  pointers : ∀ pointer ∈ call.pointers, pointer ≠ none
  key : ∀ key value, call = .dictionarySet key value →
    ∃ characters, key = some characters ∧ characters ≠ [] ∧ ∀ c ∈ characters, c ∉ literal ":"

namespace Traced

def Valid (traced : Traced α) : Prop := ∀ call ∈ traced.calls, call.Valid

theorem valid_pure (result : α) : (pure result : Traced α).Valid := fun _ mem => by cases mem

theorem valid_bind {first : Traced α} {next : α → Traced β} (before : first.Valid)
    (behind : (next first.result).Valid) : (first >>= next).Valid := by
  intro call mem
  rcases List.mem_append.mp mem with early | late
  · exact before call early
  · exact behind call late

theorem valid_call (valid : call.Valid) (result : α) : Valid ⟨result, [call]⟩ := by
  intro other mem
  rwa [List.mem_singleton.mp mem]

theorem valid_strlen (string : CString) : (strlen (some string)).Valid :=
  valid_call ⟨by simp [StringCall.pointers], fun _ _ same => by cases same⟩ _

theorem valid_strncmp (string word : CString) (n : Nat) : (strncmp (some string) word n).Valid :=
  valid_call ⟨by simp [StringCall.pointers], fun _ _ same => by cases same⟩ _

theorem valid_strtrim (string : CString) : (strtrim (some string)).Valid :=
  valid_call ⟨by simp [StringCall.pointers], fun _ _ same => by cases same⟩ _

theorem valid_dictionarySet {key : CString} (dict : Dictionary CString) (nonempty : key ≠ [])
    (free : ∀ c ∈ key, c ∉ literal ":") (value : CString) :
    (dictionarySet dict (some key) (some value)).Valid := by
  refine valid_call ⟨by simp [StringCall.pointers], fun _ _ same => ?_⟩ _
  cases same
  exact ⟨key, rfl, nonempty, free⟩

theorem valid_strsepExt (stringp : Option CString) (delim : CString) :
    (strsepExt stringp delim).Valid := by
  induction stringp using strsepExt.induct delim with
  | case1 stringp found =>
    rw [strsepExt_none_eq found]
    exact valid_pure _
  | case2 stringp value found ih =>
    rw [strsepExt_some_eq found]
    refine valid_bind (valid_strlen value) ?_
    split
    · exact ih
    · exact valid_pure _

theorem valid_versionCalls (versionString : CString) :
    (httpRequestParseActionLine.versionCalls (some versionString)).Valid := by
  refine valid_bind (valid_strncmp _ _ _) ?_
  split
  · exact valid_pure _
  · refine valid_bind (valid_strncmp _ _ _) ?_
    split <;> exact valid_pure _

theorem valid_httpRequestParseActionLine (request : HTTPRequest) (line : Option CString) :
    (httpRequestParseActionLine request line).Valid := by
  refine valid_bind (valid_strsepExt _ _) (valid_bind (valid_strsepExt _ _)
    (valid_bind (valid_strsepExt _ _) ?_))
  simp only [strsepExt_result]
  obtain ⟨methodString, afterMethod⟩ := Utils.strsepExt line (literal " ")
  obtain ⟨path, afterPath⟩ := Utils.strsepExt afterMethod (literal " ")
  obtain ⟨versionString, _⟩ := Utils.strsepExt afterPath (literal " ")
  cases methodString with
  | none => exact valid_pure _
  | some methodString =>
    refine valid_bind (valid_strncmp _ _ _) ?_
    cases versionString with
    | none => exact valid_pure _
    | some versionString => exact valid_bind (valid_versionCalls _) (valid_pure _)

/-- A rest means that there is a key. -/
theorem valid_httpRequestParseHeaderLine (request : HTTPRequest) (line : CString) :
    (httpRequestParseHeaderLine request (some line)).Valid := by
  refine valid_bind (valid_strsepExt _ _) ?_
  rw [strsepExt_result]
  rcases found : Utils.strsepExt (some line) kHTTPHeaderDelimiter with ⟨key, _ | rest⟩
  · exact valid_pure _
  · obtain ⟨characters, rfl, nonempty, free⟩ := strsepExt_rest found
    exact valid_bind (valid_strtrim _) (valid_bind (valid_dictionarySet _ nonempty free _) (valid_pure _))

theorem valid_httpRequestParseHeader (request : HTTPRequest) (buffer : Option CString) :
    (httpRequestParseHeader request buffer).Valid := by
  induction request, buffer using httpRequestParseHeader.induct with
  | case1 request buffer found =>
    rw [httpRequestParseHeader_none request found]
    exact valid_bind (valid_strsepExt _ _) (valid_pure _)
  | case2 request buffer line found ih =>
    rw [httpRequestParseHeader_some request found]
    refine valid_bind (valid_strsepExt _ _) (valid_bind (valid_httpRequestParseHeaderLine _ _) ?_)
    split
    · exact valid_pure _
    · exact ih _

theorem valid_httpRequestCreate (buffer : CString) : (httpRequestCreate buffer).Valid := by
  refine valid_bind (valid_strsepExt _ _) (valid_bind (valid_httpRequestParseActionLine _ _) ?_)
  split
  · exact valid_pure _
  · exact valid_httpRequestParseHeader _ _

end Traced

section Acceptance

/-- Behind its leading colons the line has another one. -/
def KeepsColon (line : CString) : Prop := ∃ c ∈ line.dropWhile (· ∈ literal ":"), c ∈ literal ":"

theorem headerField_isSome (line : CString) : (headerField line).isSome ↔ KeepsColon line := by
  rw [headerField, KeepsColon, kHTTPHeaderDelimiter]
  generalize line.dropWhile (· ∈ literal ":") = behind
  cases rest : behind.dropWhile (· ∉ literal ":") with
  | nil =>
    have free := List.dropWhile_eq_nil_iff.mp rest
    refine iff_of_false (by simp) ?_
    rintro ⟨c, mem, colon⟩
    exact of_decide_eq_true (free c mem) colon
  | cons c value =>
    refine iff_of_true rfl ?_
    by_contra none
    have free : behind.dropWhile (· ∉ literal ":") = [] := List.dropWhile_eq_nil_iff.mpr fun c mem =>
      decide_eq_true fun colon => none ⟨c, mem, colon⟩
    rw [free] at rest
    cases rest

/-- The key of a field starts with a character that is no colon. -/
theorem headerField_key (stored : headerField line = some field) : field.1 ≠ [] := by
  have start := List.head?_dropWhile_not (· ∈ kHTTPHeaderDelimiter) line
  rw [headerField] at stored
  cases behind : line.dropWhile (· ∈ kHTTPHeaderDelimiter) with
  | nil =>
    rw [behind] at stored
    cases stored
  | cons c rest =>
    rw [behind] at stored start
    have free : c ∉ kHTTPHeaderDelimiter := of_decide_eq_false start
    split at stored
    · cases stored
    · obtain rfl := Option.some.inj stored
      simp [free]

theorem isSome_mapM (f : α → Option β) (list : List α) :
    (list.mapM f).isSome ↔ ∀ a ∈ list, (f a).isSome := by
  induction list with
  | nil => simp
  | cons a list ih =>
    rw [List.mapM_cons, List.forall_mem_cons, ← ih]
    cases f a with
    | none => simp
    | some b => cases list.mapM f <;> simp

theorem mem_mapM {f : α → Option β} {list : List α} (all : list.mapM f = some results)
    (mem : b ∈ results) : ∃ a ∈ list, f a = some b := by
  induction list generalizing results with
  | nil =>
    cases all
    cases mem
  | cons a list ih =>
    rw [List.mapM_cons] at all
    obtain ⟨first, found, rest⟩ := Option.bind_eq_some_iff.mp all
    obtain ⟨others, remaining, same⟩ := Option.bind_eq_some_iff.mp rest
    obtain rfl := Option.some.inj same
    rcases List.mem_cons.mp mem with rfl | later
    · exact ⟨a, List.mem_cons_self, found⟩
    · obtain ⟨c, inList, result⟩ := ih remaining later
      exact ⟨c, List.mem_cons_of_mem a inList, result⟩

/-- Its path is a token of a line, and its dictionary still has the reserved head entry. -/
structure WellFormed (request : HTTPRequest) : Prop where
  path : ∃ path, httpRequestGetPath request = some path ∧ path ≠ [] ∧ ∀ c ∈ path, c ∉ literal " \r\n"
  head : HeadEntry request.headerDictionary

theorem headEntry_requestWith (method path version : CString) {fields : List (CString × CString)}
    (keys : ∀ field ∈ fields, field.1 ≠ []) :
    HeadEntry (requestWith method path version fields).headerDictionary := by
  induction fields using List.reverseRecOn with
  | nil => exact ⟨.nil, rfl⟩
  | append_singleton fields field ih =>
    rw [requestWith, List.foldl_append, ← requestWith]
    exact headEntry_set (ih fun other mem => keys other (List.mem_append_left _ mem))
      (keys field (List.mem_append_right _ (List.mem_singleton_self field)))

theorem wellFormed_of_accepted (accepted : httpRequestCreate buffer = some request) :
    WellFormed request := by
  obtain ⟨actionLine, headers, method, path, version, more, fields, list, split, stored, rfl⟩ :=
    httpRequestCreate_eq_some.mp accepted
  obtain ⟨nonempty, noSpace, inLine⟩ := Pieces.mem_pieces (show path ∈ tokens actionLine by simp [split])
  obtain ⟨_, noEnd, _⟩ := Pieces.mem_pieces (show actionLine ∈ lines buffer by simp [list])
  constructor
  · refine ⟨path, (requestWith_fields method path version fields).2.2, nonempty, fun c mem => ?_⟩
    have parts : literal " \r\n" = literal " " ++ kHTTPLineDelimiter := by decide
    rw [parts, List.mem_append, not_or]
    exact ⟨of_decide_eq_false (noSpace c mem), of_decide_eq_false (noEnd c (inLine mem))⟩
  · refine headEntry_requestWith method path version fun field mem => ?_
    obtain ⟨line, _, found⟩ := mem_mapM stored mem
    exact headerField_key found

/-- A request is accepted exactly if its first line has three tokens and all others keep a
colon. It is well-formed then, and in no case a string function gets NULL. -/
theorem request_acceptance (buffer : CString) :
    ((httpRequestCreate buffer).isSome ↔ ∃ actionLine headers, lines buffer = actionLine :: headers ∧
      3 ≤ (tokens actionLine).length ∧ ∀ line ∈ headers, KeepsColon line) ∧
    (∀ request, httpRequestCreate buffer = some request → WellFormed request) ∧
    (Traced.httpRequestCreate buffer).result = httpRequestCreate buffer ∧
    (Traced.httpRequestCreate buffer).Valid := by
  refine ⟨?_, fun request => wellFormed_of_accepted, Traced.httpRequestCreate_result buffer,
    Traced.valid_httpRequestCreate buffer⟩
  rw [httpRequestCreate_eq]
  cases list : lines buffer with
  | nil => simp [requestOf]
  | cons actionLine headers =>
    have fields := isSome_mapM headerField headers
    simp only [headerField_isSome] at fields
    rw [requestOf]
    rcases split : tokens actionLine with _ | ⟨method, _ | ⟨path, _ | ⟨version, more⟩⟩⟩
    case cons.cons.cons => simp [split, fields]
    all_goals simp [split]

end Acceptance
end KommunikationNetze.Webserver
