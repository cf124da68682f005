import Dialectic.Assoc
import Dialectic.Text.Line
import Dialectic.Text.Utf8

/-!
# Directories

A directory with files of bytes and with folders. A file lies in the directory itself, in one of its
folders, or in a folder above it; there is nothing else. A name leads from the directory through
folders, with strokes between its parts. To read a file, a stroke or a full stop at the end of its
name is passed over; to write it, such a name is that of a folder. Main statements: what was written
is found (`find_write`), and appending to a file changes no other (`bytes_append_of_ne`).
-/

namespace Dialectic

/-- The files and folders of a directory, each under the parts of its name. -/
structure Directory where
  /-- The contents of the files. -/
  files : List (List String × List UInt8)
  /-- The folders besides the directory itself and those above it. -/
  folders : List (List String)
  deriving Repr

namespace Directory

/-! ## Names -/

/-- Why something is no name. -/
inductive NameError where
  /-- It has the character zero. -/
  | zero
  deriving DecidableEq, Repr

/-- What the error says. -/
def NameError.message : NameError → String
  | .zero => "embedded null byte"

/-- Whether a text can be a name. -/
def checkName (name : String) : Except NameError Unit :=
  if name.toList.contains '\x00' then .error .zero else .ok ()

/-- All parts of a name. -/
def allPartsOf (name : String) : List String := (Text.pieces '/' name.toList).map String.ofList

/-- Whether a part of a name leads nowhere. -/
def isIdle (part : String) : Bool := part == "" || part == "."

/-- The parts of a name that lead somewhere. -/
def partsOf (name : String) : List String := (allPartsOf name).filter fun part => !isIdle part

/-- Whether a name can only be that of a folder, because its last part leads nowhere. -/
def endsIdle (name : String) : Bool := (allPartsOf name).getLast?.all isIdle

/-- The number of bytes of a text. -/
def byteCount (s : String) : Nat := (Text.Utf8.encode s.toList).length

/-- The greatest number of bytes of a part of a name. -/
def partLimit : Nat := 255

/-- The greatest number of bytes of a name, beyond what leads to the directory itself. -/
def nameLimit : Nat := 4078

/-! ## Ways -/

/-- Whether a folder is the directory or one above it. -/
def isAbove (way : List String) : Bool := way.all (· == "..")

/-- Whether a way leads to a folder. -/
def isFolder (d : Directory) (way : List String) : Bool := isAbove way || d.folders.contains way

/-- The folder in which something lies. -/
def outer (way : List String) : List String := if isAbove way then ".." :: way else way.dropLast

/-- Goes on from a folder by one part of a name. -/
def follow (d : Directory) (way : List String) (part : String) : Option (List String) :=
  if !d.isFolder way then none
  else if part = ".." then some (outer way)
  else some (way ++ [part])

/-- The way that a name means, if it is not too long and all its parts but the last are folders. -/
def way? (d : Directory) (name : String) : Option (List String) :=
  if nameLimit < byteCount name then none else (partsOf name).foldlM d.follow []

/-! ## Finding -/

/-- What is found under a name. -/
inductive Content where
  /-- A file. -/
  | file (bytes : List UInt8)
  /-- A folder. -/
  | folder
  /-- Nothing. -/
  | absent
  deriving DecidableEq, Repr

/-- What a way leads to. -/
def content (d : Directory) (way : List String) : Content :=
  if d.isFolder way then .folder
  else
    match Assoc.get? d.files way with
    | some bytes => .file bytes
    | none => .absent

/-- What is found under a name. -/
def find (d : Directory) (name : String) : Content := ((d.way? name).map d.content).getD .absent

/-- The bytes of a file; none if there is no file. -/
def bytes (d : Directory) (name : String) : List UInt8 :=
  match d.find name with
  | .file bytes => bytes
  | _ => []

/-- The way to the file of a name, whether there is one or not; none if the name is that of a
folder. -/
def fileWay? (d : Directory) (name : String) : Option (List String) :=
  if endsIdle name then none else (d.way? name).filter fun way => !d.isFolder way

/-- The bytes of the file of an exact name. -/
def read? (d : Directory) (name : String) : Option (List UInt8) :=
  (d.fileWay? name).bind fun way => Assoc.get? d.files way

/-! ## Writing -/

/-- The way to the file of a name, if the file can be written. -/
def target? (d : Directory) (name : String) : Option (List String) :=
  if (checkName name).isOk then
    (d.fileWay? name).filter fun way => way.all fun part => byteCount part ≤ partLimit
  else none

/-- Writes a file, if it can be written. -/
def write (d : Directory) (name : String) (bytes : List UInt8) : Directory :=
  match d.target? name with
  | some way => { d with files := Assoc.insert d.files way bytes }
  | none => d

/-- Writes at the end of a file, if it can be written. -/
def append (d : Directory) (name : String) (bytes : List UInt8) : Directory :=
  d.write name (d.bytes name ++ bytes)

/-- Takes a file away; nothing happens if there is none. -/
def remove (d : Directory) (name : String) : Directory :=
  match d.fileWay? name with
  | some way => { d with files := Assoc.erase d.files way }
  | none => d

/-- Contents do not change the ways. -/
theorem way?_congr {d e : Directory} (h : d.folders = e.folders) (name : String) :
    d.way? name = e.way? name := by
  have : d.follow = e.follow := by
    funext way part
    simp [follow, isFolder, h]
  simp [way?, this]

/-- A file that can be written is found on its way, and is no folder. -/
theorem way?_of_target? {d : Directory} {name : String} {way : List String}
    (h : d.target? name = some way) : d.way? name = some way ∧ d.isFolder way = false := by
  unfold target? fileWay? at h
  split at h
  · split at h
    · simp at h
    · simp only [Option.filter_eq_some_iff, Bool.not_eq_true'] at h
      exact h.1
  · simp at h

/-- What was written is found. -/
theorem find_write {d : Directory} {name : String} (bytes : List UInt8)
    (h : (d.target? name).isSome) : (d.write name bytes).find name = .file bytes := by
  obtain ⟨way, hw⟩ := Option.isSome_iff_exists.1 h
  have hd := way?_of_target? hw
  have he := way?_congr (show d.folders =
    ({ d with files := Assoc.insert d.files way bytes } : Directory).folders from rfl) name
  simp only [write, hw, find]
  rw [← he, hd.1]
  have hf : ({ d with files := Assoc.insert d.files way bytes } : Directory).isFolder way = false :=
    hd.2
  simp [content, hf]

/-! ## Appending -/

/-- Writing a file adds no folder. -/
theorem folders_write (d : Directory) (name : String) (bytes : List UInt8) :
    (d.write name bytes).folders = d.folders := by
  unfold write
  split <;> rfl

/-- Contents do not change which files can be written. -/
theorem target?_congr {d e : Directory} (h : d.folders = e.folders) (name : String) :
    d.target? name = e.target? name := by
  simp [target?, fileWay?, way?_congr h, isFolder, h]

/-- Neither does appending to one. -/
theorem folders_append (d : Directory) (name : String) (bytes : List UInt8) :
    (d.append name bytes).folders = d.folders :=
  folders_write ..

/-- What was appended stands at the end. -/
theorem bytes_append_self {d : Directory} {name : String} (bytes : List UInt8)
    (h : (d.target? name).isSome) : (d.append name bytes).bytes name = d.bytes name ++ bytes := by
  rw [Directory.bytes, append, find_write _ h]

/-- Appending to a file leaves other files alone. -/
theorem bytes_append_of_ne {d : Directory} {name other : String} (bytes : List UInt8)
    (h : d.way? name ≠ d.way? other) : (d.append name bytes).bytes other = d.bytes other := by
  have hway : (d.append name bytes).way? other = d.way? other :=
    way?_congr (folders_append d name bytes) other
  have hfind : (d.append name bytes).find other = d.find other := by
    rw [find, find, hway]
    cases hother : d.way? other with
    | none => rfl
    | some there =>
      cases htarget : d.target? name with
      | none => simp only [append, write, htarget]
      | some here =>
        have hne : there ≠ here := by
          rintro rfl
          exact h (by rw [(way?_of_target? htarget).1, hother])
        simp only [append, write, htarget, Option.map_some, Option.getD_some, content, isFolder,
          Assoc.get?_insert_of_ne _ _ hne]
        rfl
  rw [Directory.bytes, Directory.bytes, hfind]

end Directory

end Dialectic
