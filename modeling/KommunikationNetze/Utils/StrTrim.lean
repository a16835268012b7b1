import KommunikationNetze.Utils.StrHelper
import Mathlib.Data.List.DropRight

/-! What the two copies of `strtrim` trim. Both skip the leading whitespace; that of the chat
then cuts at the first whitespace, that of the web server nothing. -/
namespace KommunikationNetze.Utils
open CLib

def whitespace (c : CChar) : Bool := isspace c.val

/-- "Trims the whitespace from the beginning and the end." -/
def trimmed (string : CString) : CString := (string.dropWhile whitespace).rdropWhile whitespace

section Copies
variable (string : CString)

theorem chat_strtrim_eq :
    Chat.strtrim string = (string.dropWhile whitespace).takeWhile fun c => !whitespace c := rfl

theorem webserver_strtrim_eq : Webserver.strtrim string = string.dropWhile whitespace :=
  Webserver.strtrim_eq string

/-- The copy of the chat is right where no whitespace is left inside. -/
theorem chat_strtrim_iff :
    Chat.strtrim string = trimmed string ↔ ∀ c ∈ trimmed string, whitespace c = false := by
  constructor
  · intro same
    rw [← same]
    exact Chat.strtrim_not_isspace string
  · intro clean
    have parts : trimmed string ++ (string.dropWhile whitespace).rtakeWhile whitespace =
        string.dropWhile whitespace := List.rdropWhile_append_rtakeWhile
    have behind : ((string.dropWhile whitespace).rtakeWhile whitespace).takeWhile (fun c => !whitespace c) = [] := by
      cases rest : (string.dropWhile whitespace).rtakeWhile whitespace with
      | nil => rfl
      | cons c rest' =>
        have blank : whitespace c = true :=
          List.mem_rtakeWhile_imp (rest ▸ List.mem_cons_self)
        simp [blank]
    rw [chat_strtrim_eq, ← parts, List.takeWhile_append_of_pos (by simpa using clean), behind, List.append_nil]

/-- The copy of the web server is right where no whitespace is left at the end. -/
theorem webserver_strtrim_iff : Webserver.strtrim string = trimmed string ↔
    ∀ c ∈ (string.dropWhile whitespace).getLast?, whitespace c = false := by
  rw [webserver_strtrim_eq, trimmed, eq_comm, List.rdropWhile_eq_self_iff]
  generalize string.dropWhile whitespace = rest
  constructor
  · intro last c mem
    have nonempty : rest ≠ [] := by
      rintro rfl
      cases mem
    rw [List.getLast?_eq_some_getLast nonempty, Option.mem_some_iff] at mem
    exact mem ▸ Bool.eq_false_of_not_eq_true (last nonempty)
  · intro last nonempty blank
    have other := last (rest.getLast nonempty) (List.getLast?_eq_some_getLast nonempty)
    rw [other] at blank
    cases blank

/-- Both copies trim what they should, so they agree and trim nothing more a second time. -/
structure TrimsExactly : Prop where
  chat : Chat.strtrim string = trimmed string
  webserver : Webserver.strtrim string = trimmed string
  agree : Chat.strtrim string = Webserver.strtrim string
  chatAgain : Chat.strtrim (Chat.strtrim string) = Chat.strtrim string
  webserverAgain : Webserver.strtrim (Webserver.strtrim string) = Webserver.strtrim string

/-- Only on a string whose whitespace is all in front. -/
theorem strtrim_exactly :
    TrimsExactly string ↔ ∀ c ∈ string.dropWhile whitespace, whitespace c = false := by
  constructor
  · intro exactly c mem
    rw [← webserver_strtrim_eq, ← exactly.agree] at mem
    exact Chat.strtrim_not_isspace string c mem
  · intro clean
    have uncut : Chat.strtrim string = string.dropWhile whitespace := by
      rw [chat_strtrim_eq]
      exact List.takeWhile_eq_self_iff.mpr (by simpa using clean)
    have webserver := (webserver_strtrim_iff string).mpr fun c mem => clean c (List.mem_of_getLast? mem)
    have agree := uncut.trans (webserver_strtrim_eq string).symm
    have again : (string.dropWhile whitespace).dropWhile whitespace = string.dropWhile whitespace :=
      List.dropWhile_idempotent whitespace string
    refine ⟨agree.trans webserver, webserver, agree, ?_, ?_⟩
    · rw [uncut, chat_strtrim_eq, again]
      exact uncut
    · rw [webserver_strtrim_eq, webserver_strtrim_eq, again]

end Copies

/-- The nickname "a b" is cut, and the header value "a " keeps its blank. -/
theorem strtrim_inexact : Chat.strtrim (literal "a b") ≠ trimmed (literal "a b") ∧
    Webserver.strtrim (literal "a ") ≠ trimmed (literal "a ") := by
  decide

end KommunikationNetze.Utils
