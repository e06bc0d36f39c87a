import CodeSurvey.Path
import CodeSurvey.Text.Utf8

/-!
Folders: named files with their octets, and folders in folders. A path is followed from one folder
down; a double dot goes back up, but never above the folder where the path starts, because nothing
is known there. Main statement: what is written at a path is found there.
-/

namespace CodeSurvey

/-- An entry of a folder. -/
inductive Entry where
  | file (name : String) (content : List UInt8)
  | folder (name : String) (entries : List Entry)

namespace Entry

instance : Inhabited Entry := ⟨file "" []⟩

/-- The name of an entry. -/
def name : Entry → String
  | file n _ | folder n _ => n

/-- The entry is a folder. -/
def isFolder : Entry → Bool
  | file .. => false
  | folder .. => true

end Entry

/-- The entries of a folder. -/
abbrev Folder := List Entry

namespace Folder

/-- The components of a path that lead anywhere: neither empty nor a single dot. -/
def steps (path : String) : List String :=
  ((Path.components path.toList).filter fun c => c != [] && c != ['.']).map String.ofList

/-- The entry with a name. -/
def member? (entries : Folder) (name : String) : Option Entry := entries.find? (·.name == name)

/-- Follows a path from a folder; `above` are the folders passed on the way, the nearest first. The
    path ends at a folder or at a file; it does not go through a file. -/
def follow? (above : List Folder) (here : Folder) : List String → Option (Folder ⊕ List UInt8)
  | [] => some (.inl here)
  | ".." :: more =>
    match above with
    | up :: above => follow? above up more
    | [] => none
  | name :: more =>
    match here.member? name with
    | some (.folder _ entries) => follow? (here :: above) entries more
    | some (.file _ content) => if more.isEmpty then some (.inr content) else none
    | none => none

theorem follow?_step (above : List Folder) (here : Folder) {name : String} (h : name ≠ "..")
    (more : List String) :
    follow? above here (name :: more) =
      match here.member? name with
      | some (.folder _ entries) => follow? (here :: above) entries more
      | some (.file _ content) => if more.isEmpty then some (.inr content) else none
      | none => none := by
  rw [follow?]
  exact h

/-- What stands at a path; absolute paths lead outside. -/
def at? (here : Folder) (path : String) : Option (Folder ⊕ List UInt8) :=
  if path.toList.head? == some '/' then none else follow? [] here (steps path)

/-- The octets of the file at a path. -/
def read? (here : Folder) (path : String) : Option (List UInt8) :=
  match here.at? path with
  | some (.inr content) => some content
  | _ => none

/-- The folder at a path. -/
def folder? (here : Folder) (path : String) : Option Folder :=
  match here.at? path with
  | some (.inl entries) => some entries
  | _ => none

/-- The text of the file at a path, every line end written as a line feed; none if there is no such
    file or it is no text. -/
def readText? (here : Folder) (path : String) : Option (List Char) :=
  (here.read? path).bind fun content =>
    match Text.Utf8.decode content with
    | .ok text => some (Text.unifyLineEnds text)
    | .error _ => none

/-- Puts an entry in the place of the one with its name, or behind all others. -/
def put (e : Entry) : Folder → Folder
  | [] => [e]
  | d :: more => if d.name == e.name then e :: more else d :: put e more

theorem member?_put_self (e : Entry) (here : Folder) : (put e here).member? e.name = some e := by
  fun_induction put e here <;> simp_all [member?]

theorem member?_put_of_ne (e : Entry) (here : Folder) {name : String} (h : name ≠ e.name) :
    (put e here).member? name = here.member? name := by
  fun_induction put e here <;> grind [member?]

/-- The folder with the file at a path written; folders on the way are made. -/
def write (here : Folder) (content : List UInt8) : List String → Folder
  | [] => here
  | [name] => put (.file name content) here
  | name :: more =>
    let inside := match here.member? name with
      | some (.folder _ entries) => entries
      | _ => []
    put (.folder name (write inside content more)) here

/-- What is written at a path without double dots is found there. -/
theorem follow?_write (content : List UInt8) (path : List String) (hp : path ≠ [])
    (hd : ".." ∉ path) (above : List Folder) (here : Folder) :
    follow? above (here.write content path) path = some (.inr content) := by
  fun_induction write here content path generalizing above with
  | case1 => simp at hp
  | case2 here name =>
    rw [follow?_step _ _ (by rintro rfl; simp at hd)]
    have := member?_put_self (.file name content) here
    rw [show Entry.name (.file name content) = name from rfl] at this
    simp [this]
  | case3 here name more hm inside ih =>
    rw [follow?_step _ _ (by rintro rfl; simp at hd)]
    have := member?_put_self (.folder name (write inside content more)) here
    rw [show Entry.name (.folder name _) = name from rfl] at this
    simp only [this]
    exact ih hm (by simp_all) _

/-- A file can be written at a path: no file stands on the way, and no folder at its end. -/
def canWrite (here : Folder) : List String → Bool
  | [] => false
  | [name] => !(here.member? name).any Entry.isFolder
  | name :: more =>
    match here.member? name with
    | none => true
    | some (.folder _ entries) => canWrite entries more
    | some (.file ..) => false

/-- The folder with these files in it. -/
def ofFiles (files : List (String × List UInt8)) : Folder :=
  files.foldl (fun here f => here.write f.2 (steps f.1)) []

end Folder

end CodeSurvey
