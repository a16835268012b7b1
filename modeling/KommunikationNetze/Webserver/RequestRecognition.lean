import KommunikationNetze.Webserver.RequestGrammar

/-! The method and the version of a request. Both comparisons end with the known word, so a
token that goes on behind the word counts as the word. -/
namespace KommunikationNetze.Webserver
open CLib

/-- A token of the first line. -/
def requestToken (buffer : CString) (index : Nat) : Option CString :=
  (lines buffer).head?.bind fun line => (tokens line)[index]?

/-- The known words are recognised, and every other token is unknown. -/
structure ExactRecognition (buffer : CString) (request : HTTPRequest) : Prop where
  get : httpRequestGetMethod request = .kHTTPMethodGet ↔
    requestToken buffer 0 = some (literal "GET")
  otherMethod : httpRequestGetMethod request = .kHTTPMethodUnkown ↔
    requestToken buffer 0 ≠ some (literal "GET")
  version_1_0 : httpRequestGetVersion request = .kHTTPVersion_1_0 ↔
    requestToken buffer 2 = some (literal "HTTP/1.0")
  version_1_1 : httpRequestGetVersion request = .kHTTPVersion_1_1 ↔
    requestToken buffer 2 = some (literal "HTTP/1.1")
  otherVersion : httpRequestGetVersion request = .kHTTPVersionUnkown ↔
    requestToken buffer 2 ≠ some (literal "HTTP/1.0") ∧
      requestToken buffer 2 ≠ some (literal "HTTP/1.1")

/-- The token starts with the word and goes on. -/
def Extends (word : CString) (token : Option CString) : Prop :=
  ∃ characters ∈ token, word <+: characters ∧ characters ≠ word

instance (word : CString) (token : Option CString) : Decidable (Extends word token) :=
  inferInstanceAs (Decidable (∃ characters ∈ token, _ ∧ _))

/-- A comparison that ends with the word is exact unless the token goes on. -/
theorem prefix_exact_iff (word token : CString) :
    (word <+: token ↔ token = word) ↔ ¬Extends word (some token) := by
  constructor
  · rintro exactly ⟨_, ⟨⟩, starts, longer⟩
    exact longer (exactly.mp starts)
  · intro alone
    constructor
    · intro starts
      by_contra longer
      exact alone ⟨token, rfl, starts, longer⟩
    · rintro rfl
      exact List.prefix_refl _

theorem methodOf_get (token : CString) :
    methodOf token = .kHTTPMethodGet ↔ literal "GET" <+: token := by
  simp only [methodOf, strncmp_eq_zero]
  split <;> simp [*]

theorem methodOf_unknown (token : CString) :
    methodOf token = .kHTTPMethodUnkown ↔ ¬methodOf token = .kHTTPMethodGet := by
  cases methodOf token <;> decide

/-- Both versions have as many characters, so a token starts with one of them at most. -/
theorem not_both_versions {token : CString} (first : literal "HTTP/1.0" <+: token) :
    ¬literal "HTTP/1.1" <+: token := by
  intro second
  have nested := List.prefix_of_prefix_length_le first second (by decide)
  exact absurd nested (by decide)

theorem versionOf_1_0 (token : CString) :
    versionOf token = .kHTTPVersion_1_0 ↔ literal "HTTP/1.0" <+: token := by
  simp only [versionOf, strncmp_eq_zero]
  split
  · simp [*]
  · split <;> simp [*]

theorem versionOf_1_1 (token : CString) :
    versionOf token = .kHTTPVersion_1_1 ↔ literal "HTTP/1.1" <+: token := by
  simp only [versionOf, strncmp_eq_zero]
  split
  · rename_i first
    simp [not_both_versions first]
  · split <;> simp [*]

theorem versionOf_unknown (token : CString) :
    versionOf token = .kHTTPVersionUnkown ↔
      ¬versionOf token = .kHTTPVersion_1_0 ∧ ¬versionOf token = .kHTTPVersion_1_1 := by
  cases versionOf token <;> decide

/-- The parser classifies the first and the third token. -/
theorem accepted_tokens (accepted : httpRequestCreate buffer = some request) :
    ∃ method version, requestToken buffer 0 = some method ∧ requestToken buffer 2 = some version ∧
      httpRequestGetMethod request = methodOf method ∧
      httpRequestGetVersion request = versionOf version := by
  obtain ⟨actionLine, headers, method, path, version, more, fields, list, split, _, rfl⟩ :=
    httpRequestCreate_eq_some.mp accepted
  obtain ⟨sameMethod, sameVersion, _⟩ := requestWith_fields method path version fields
  refine ⟨method, version, ?_, ?_, sameMethod, sameVersion⟩ <;>
    simp [requestToken, list, split]

/-- Recognition is exact if and only if the first token does not go on behind `GET` and the
third does not go on behind a version. -/
theorem exact_recognition (accepted : httpRequestCreate buffer = some request) :
    ExactRecognition buffer request ↔
      ¬Extends (literal "GET") (requestToken buffer 0) ∧
      ¬Extends (literal "HTTP/1.0") (requestToken buffer 2) ∧
      ¬Extends (literal "HTTP/1.1") (requestToken buffer 2) := by
  obtain ⟨method, version, first, third, sameMethod, sameVersion⟩ := accepted_tokens accepted
  rw [first, third, ← prefix_exact_iff, ← prefix_exact_iff, ← prefix_exact_iff, ← methodOf_get,
    ← versionOf_1_0, ← versionOf_1_1]
  constructor
  · intro recognition
    have get := recognition.get
    have version_1_0 := recognition.version_1_0
    have version_1_1 := recognition.version_1_1
    rw [first, sameMethod, Option.some_inj] at get
    rw [third, sameVersion, Option.some_inj] at version_1_0 version_1_1
    exact ⟨get, version_1_0, version_1_1⟩
  · rintro ⟨get, version_1_0, version_1_1⟩
    constructor
    all_goals
      simp only [first, third, sameMethod, sameVersion, methodOf_unknown, versionOf_unknown,
        ne_eq, Option.some_inj]
    · exact get
    · exact not_congr get
    · exact version_1_0
    · exact version_1_1
    · exact and_congr (not_congr version_1_0) (not_congr version_1_1)

theorem exact_recognition_get :
    ∃ request, ExactRecognition (literal "GET / HTTP/1.0\r\n\r\n") request := by
  have accepted := accepted_of_isSome (literal "GET / HTTP/1.0\r\n\r\n") (by decide +kernel)
  exact ⟨_, (exact_recognition accepted).mpr (by decide +kernel)⟩

/-- `GETX` counts as `GET`. -/
theorem exact_recognition_longer :
    ∃ request, httpRequestCreate (literal "GETX / HTTP/1.0\r\n\r\n") = some request ∧
      ¬ExactRecognition (literal "GETX / HTTP/1.0\r\n\r\n") request := by
  have accepted := accepted_of_isSome (literal "GETX / HTTP/1.0\r\n\r\n") (by decide +kernel)
  refine ⟨_, accepted, fun recognition => ?_⟩
  have get := recognition.get
  revert get
  decide +kernel

end KommunikationNetze.Webserver
