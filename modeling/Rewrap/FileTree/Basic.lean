import Rewrap.Path.Basic
import Rewrap.Text.Basic

/-! # File trees

A tree holds files, links and folders, each at its place: the list of names that leads to it from
the top. A tree is always looked at from one of its folders, where relative paths begin. -/

namespace Rewrap

/-- The names that lead from the top folder to an entry. -/
abbrev Place := List String

/-- What can stand at a place. A link holds the path it stands for, relative to its own folder. -/
inductive Entry where
  | folder
  | file (content : ByteArray)
  | link (target : Path)

/-- The entries below the top folder, and the folder that relative paths begin at. -/
structure FileTree where
  cwd : Place
  entries : List (Place × Entry)

/-! ## File errors -/

/-- Why a file cannot be read, written or found. -/
inductive FileError where
  | notFound
  | alreadyThere
  | notFolder
  | isFolder
  | invalid
  | nameTooLong
  | tooManyLinks
  | nulInName
  | notUtf8
  | refused (reason : String)
deriving DecidableEq

/-- The error as the system words it, or the reason for which access was refused. -/
def FileError.message : FileError → String
  | .notFound => "No such file or directory (os error 2)"
  | .alreadyThere => "File exists (os error 17)"
  | .notFolder => "Not a directory (os error 20)"
  | .isFolder => "Is a directory (os error 21)"
  | .invalid => "Invalid argument (os error 22)"
  | .nameTooLong => "File name too long (os error 36)"
  | .tooManyLinks => "Too many levels of symbolic links (os error 40)"
  | .nulInName => "file name contained an unexpected NUL byte"
  | .notUtf8 => "stream did not contain valid UTF-8"
  | .refused reason => reason

/-! ## Contents -/

/-- The bytes of a text. -/
def Text.toBytes (t : Text) : ByteArray := (String.ofList t).toUTF8

/-- The text that bytes stand for. -/
def Text.ofBytes (b : ByteArray) : Except FileError Text :=
  match String.fromUTF8? b with
  | some s => .ok s.toList
  | none => .error .notUtf8

/-- What is written as a text is read as that text. -/
@[simp] theorem Text.ofBytes_toBytes (t : Text) : Text.ofBytes t.toBytes = .ok t := by
  have h : (String.ofList t).toByteArray.IsValidUTF8 := (String.ofList t).isValidUTF8
  have hs : String.fromUTF8? (String.ofList t).toByteArray = some (String.ofList t) := dif_pos h
  simp only [Text.ofBytes, Text.toBytes, String.toUTF8, hs, String.toList_ofList]

/-- A text that was read is written back as the same bytes. -/
theorem Text.toBytes_of_ofBytes {b : ByteArray} {t : Text} (h : Text.ofBytes b = .ok t) :
    t.toBytes = b := by
  unfold Text.ofBytes String.fromUTF8? at h
  split at h
  · next s hs =>
      split at hs
      · next hv =>
          cases hs
          cases h
          simp [Text.toBytes, String.fromUTF8]
      · cases hs
  · cases h

namespace FileTree

/-! ## Entries by place -/

/-- What stands at a place; the top is a folder. -/
def get? (t : FileTree) (k : Place) : Option Entry :=
  if k = [] then some .folder else t.entries.lookup k

/-- Puts an entry at a place, where it takes the place of what stood there. -/
def put (t : FileTree) (k : Place) (e : Entry) : FileTree :=
  { t with entries := (k, e) :: t.entries.filter (·.1 != k) }

/-- Takes away what stands at a place. -/
def erase (t : FileTree) (k : Place) : FileTree :=
  { t with entries := t.entries.filter (·.1 != k) }

/-- Takes away all that stands below a place. -/
def clear (t : FileTree) (k : Place) : FileTree :=
  { t with entries := t.entries.filter fun (k', _) => !(k.isPrefixOf k' && k != k') }

theorem lookup_filter_ne {α : Type} (es : List (Place × α)) (k k' : Place) :
    (es.filter (·.1 != k)).lookup k' = if k' = k then none else es.lookup k' := by
  induction es with
  | nil => simp
  | cons e es ih =>
      obtain ⟨k'', a⟩ := e
      by_cases h : k'' = k
      · rw [List.filter_cons_of_neg (by simp [h]), ih]
        by_cases h' : k' = k
        · rw [if_pos h', if_pos h']
        · have : (k' == k'') = false := by simp [h, h']
          simp [h', List.lookup_cons, this]
      · by_cases h' : k' = k''
        · subst h'
          simp [h]
        · have : (k' == k'') = false := by simp [h']
          simp [h, ih, List.lookup_cons, this]

/-- What was put at a place stands there, and all else is as before. -/
theorem get?_put (t : FileTree) (k k' : Place) (e : Entry) :
    (t.put k e).get? k' = if k' ≠ [] ∧ k' = k then some e else t.get? k' := by
  unfold get? put
  by_cases h : k' = []
  · simp [h]
  · by_cases h' : k' = k
    · subst h'
      simp [h]
    · have : (k' == k) = false := by simp [h']
      simp [h, h', List.lookup_cons, this, lookup_filter_ne]

theorem get?_erase (t : FileTree) (k k' : Place) :
    (t.erase k).get? k' = if k' ≠ [] ∧ k' = k then none else t.get? k' := by
  unfold get? erase
  by_cases h : k' = []
  · simp [h]
  · rw [if_neg h, if_neg h, lookup_filter_ne]
    simp [h]

end FileTree

end Rewrap
