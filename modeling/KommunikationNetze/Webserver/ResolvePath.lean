import KommunikationNetze.CLib.CString
import KommunikationNetze.Library.Paths

/-! Which files a request can reach. The check of the resolved path compares the first
characters only, so that it cannot tell the document root from a directory beside it
whose name begins with the name of the root. -/
namespace KommunikationNetze.Webserver
open CLib Paths

/-- Which branch of the `#ifdef` is compiled. -/
inductive Platform where
  | darwin
  | other
  deriving DecidableEq, Repr

def kHTTPDocumentRoot : Platform → CString
  | .darwin => literal "/Users/christian/Public/"
  | .other => literal "/home/speich/htdocs"

def slash : CChar := ⟨47, by decide⟩

/-- What `realpath` returns: an absolute path without empty names, `.` and `..`. -/
structure CanonicalPath where
  names : List CString
  free : ∀ name ∈ names, slash ∉ name
  proper : ∀ name ∈ names, name ≠ [] ∧ name ≠ literal "." ∧ name ≠ literal ".."

def CanonicalPath.string (path : CanonicalPath) : CString :=
  if path.names = [] then [slash] else render slash path.names

/-- `PATH_MAX` is the size of the buffer for the concatenation; `realpath` answers for
the file system. The request itself is not used. -/
def httpResolvePath (platform : Platform) (pathMax : Nat) (realpath : CString → Option CanonicalPath)
    (p : CString) : Option CString :=
  let path := (kHTTPDocumentRoot platform).take pathMax
  let path := path ++ p.take pathMax
  match realpath path with
  | none => none
  | some real =>
    let real := real.string
    -- we are no longer in the specified root
    if strncmp real (kHTTPDocumentRoot platform) (kHTTPDocumentRoot platform).length ≠ 0 then none
    else some real

/-- The directories above the document root. -/
def documentRootParents : Platform → List CString
  | .darwin => [literal "Users", literal "christian"]
  | .other => [literal "home", literal "speich"]

def documentRootName : Platform → CString
  | .darwin => literal "Public"
  | .other => literal "htdocs"

/-- The root without the separator one of the two constants ends in. -/
def documentRootDirectory (platform : Platform) : CString :=
  render slash (documentRootParents platform ++ [documentRootName platform])

/-- The root itself or something in it. -/
def Confined (platform : Platform) (path : CString) : Prop :=
  path = documentRootDirectory platform ∨ documentRootDirectory platform ++ [slash] <+: path

instance : Decidable (Confined platform path) := inferInstanceAs (Decidable (_ ∨ _))

/-- The requested file is, or is in, a directory or file beside the root whose name is
that of the root and more. -/
def BesideRoot (platform : Platform) (path : CanonicalPath) : Prop :=
  ∃ suffix rest, suffix ≠ [] ∧
    path.names = documentRootParents platform ++ (documentRootName platform ++ suffix) :: rest

theorem documentRoot_darwin : kHTTPDocumentRoot .darwin = documentRootDirectory .darwin ++ [slash] := by
  decide

theorem documentRoot_other : kHTTPDocumentRoot .other = documentRootDirectory .other := by decide

theorem parents_free (platform : Platform) : ∀ name ∈ documentRootParents platform, slash ∉ name := by
  cases platform <;> decide

theorem name_free (platform : Platform) : slash ∉ documentRootName platform := by
  cases platform <;> decide

/-- What the resolved path is compared with. -/
theorem httpResolvePath_eq_some {pathMax : Nat} {realpath : CString → Option CanonicalPath}
    (fits : (kHTTPDocumentRoot platform ++ p).length < pathMax) :
    httpResolvePath platform pathMax realpath p = some real ↔
      ∃ path, realpath (kHTTPDocumentRoot platform ++ p) = some path ∧ path.string = real ∧
        kHTTPDocumentRoot platform <+: real := by
  rw [List.length_append] at fits
  have root : (kHTTPDocumentRoot platform).take pathMax = kHTTPDocumentRoot platform :=
    List.take_of_length_le (by omega)
  have request : p.take pathMax = p := List.take_of_length_le (by omega)
  simp only [httpResolvePath, root, request]
  cases realpath (kHTTPDocumentRoot platform ++ p) with
  | none => simp
  | some path =>
    simp only [ne_eq, strncmp_eq_zero, ite_not, Option.ite_none_right_eq_some, Option.some.injEq]
    constructor
    · rintro ⟨inside, rfl⟩
      exact ⟨path, rfl, rfl, inside⟩
    · rintro ⟨_, rfl, rfl, inside⟩
      exact ⟨inside, rfl⟩

/-- A path that begins with the root as a text is in it or beside it. -/
theorem directory_prefix_iff (platform : Platform) (path : CanonicalPath) :
    documentRootDirectory platform <+: path.string ↔
      ∃ suffix rest, path.names =
        documentRootParents platform ++ (documentRootName platform ++ suffix) :: rest := by
  by_cases top : path.names = []
  · have short : ¬documentRootDirectory platform <+: [slash] := by cases platform <;> decide
    simp [CanonicalPath.string, top, short]
  · rw [CanonicalPath.string, if_neg top]
    exact render_prefix_iff (parents_free platform) (name_free platform) path.free

/-- A path beside the root differs from it before the next separator. -/
theorem not_confined_of_beside {path : CanonicalPath} (beside : BesideRoot platform path) :
    ¬Confined platform path.string := by
  obtain ⟨suffix, rest, more, names⟩ := beside
  have text : path.string =
      documentRootDirectory platform ++ (suffix ++ render slash rest) := by
    rw [CanonicalPath.string, if_neg (by simp [names]), names]
    simp [documentRootDirectory]
  obtain ⟨c, others, rfl⟩ := List.exists_cons_of_ne_nil more
  rw [text]
  rintro (same | ⟨below, same⟩)
  · simp at same
  · rw [List.append_assoc] at same
    have next := List.append_cancel_left same
    obtain ⟨rfl, _⟩ := List.cons.inj next
    have free := path.free (documentRootName platform ++ slash :: others) (by simp [names])
    exact free (by simp)

theorem confined_of_inside {path : CanonicalPath}
    (names : path.names = documentRootParents platform ++ documentRootName platform :: rest) :
    Confined platform path.string := by
  have text : path.string = documentRootDirectory platform ++ render slash rest := by
    rw [CanonicalPath.string, if_neg (by simp [names]), names]
    simp [documentRootDirectory]
  rw [text]
  cases rest with
  | nil => exact .inl (List.append_nil _)
  | cons name rest => exact .inr ⟨name ++ render slash rest, by simp⟩

/-- For every file system and every request, a resolved path is confined to the document
root exactly if the constant ends in a separator or the requested file does not lie
beside the root under a longer name. -/
theorem document_root_confinement {realpath : CString → Option CanonicalPath}
    (fits : (kHTTPDocumentRoot platform ++ p).length < pathMax) :
    (∀ real, httpResolvePath platform pathMax realpath p = some real → Confined platform real) ↔
      platform = .darwin ∨ ∀ path, realpath (kHTTPDocumentRoot platform ++ p) = some path →
        ¬BesideRoot platform path := by
  simp only [httpResolvePath_eq_some fits]
  cases platform with
  | darwin =>
    refine iff_of_true ?_ (.inl rfl)
    rintro _ ⟨path, _, rfl, inside⟩
    rw [documentRoot_darwin] at inside
    exact .inr inside
  | other =>
    simp only [reduceCtorEq, false_or, documentRoot_other]
    constructor
    · intro confined path found beside
      have prior : documentRootDirectory .other <+: path.string := by
        obtain ⟨suffix, rest, _, names⟩ := beside
        exact (directory_prefix_iff .other path).mpr ⟨suffix, rest, names⟩
      exact not_confined_of_beside beside (confined _ ⟨path, found, rfl, prior⟩)
    · rintro outside _ ⟨path, found, rfl, prior⟩
      obtain ⟨suffix, rest, names⟩ := (directory_prefix_iff .other path).mp prior
      by_cases same : suffix = []
      · rw [same, List.append_nil] at names
        exact confined_of_inside names
      · exact absurd ⟨suffix, rest, same, names⟩ (outside path found)

/-- A file in the root. -/
theorem document_root_confinement_file :
    httpResolvePath .other 4096 (fun _ => some
        { names := [literal "home", literal "speich", literal "htdocs", literal "a"],
          free := by decide, proper := by decide }) (literal "/a") =
        some (literal "/home/speich/htdocs/a") ∧
      Confined .other (literal "/home/speich/htdocs/a") := by
  have resolved : httpResolvePath .other 4096 (fun _ => some
      { names := [literal "home", literal "speich", literal "htdocs", literal "a"],
        free := by decide, proper := by decide }) (literal "/a") =
      some (literal "/home/speich/htdocs/a") := by decide +kernel
  refine ⟨resolved, (document_root_confinement (by decide)).mpr (.inr ?_) _ resolved⟩
  rintro _ found ⟨suffix, rest, more, names⟩
  obtain rfl := Option.some.inj found
  simp_all [documentRootParents, documentRootName]

/-- A directory beside the root whose name begins with `htdocs`. -/
theorem document_root_sibling :
    let request := literal "/../htdocs-private/secret"
    let secret : CanonicalPath :=
      { names := [literal "home", literal "speich", literal "htdocs-private", literal "secret"],
        free := by decide, proper := by decide }
    let realpath := fun path => if path = literal "/home/speich/htdocs" ++ request then some secret else none
    (kHTTPDocumentRoot .other ++ request).length < 4096 ∧
      httpResolvePath .other 4096 realpath request = some (literal "/home/speich/htdocs-private/secret") ∧
      ¬Confined .other (literal "/home/speich/htdocs-private/secret") := by
  decide +kernel

end KommunikationNetze.Webserver
