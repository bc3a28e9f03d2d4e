import ScriptTyping.Path

set_option autoImplicit false

namespace ScriptTyping

-- The names on the way from the top of the file system.
abbrev Location := List String

inductive FileEntry where
  | directory
  | file (bytes : ByteArray)
  | special

inductive Access where
  | read
  | write
  | create
deriving DecidableEq

structure Volume where
  home : Location := []
  -- The number of the file, for each name of a file that has several names.
  link? : Location → Option Nat := fun _ => none
  refuses : Access → Location → Bool := fun _ _ => false

def Volume.shares (volume : Volume) (location other : Location) : Bool :=
  match volume.link? location with
  | some number => volume.link? other == some number
  | none => false

structure FileSystem where
  entries : List (Location × FileEntry)
  volume : Volume := {}

inductive FileFault where
  -- Something that is no directory is in the place of a new directory.
  | exists
  | notDirectory
  | isDirectory
  | notFound
  | tooLong
  | nullCharacter
  | denied
deriving DecidableEq

namespace FileSystem

def at? (files : FileSystem) (location : Location) : Option FileEntry :=
  (files.entries.find? fun entry => entry.1 == location).map (·.2)

-- The top always exists.
def isDirectoryAt (files : FileSystem) (location : Location) : Bool :=
  location.isEmpty ||
    match files.at? location with
    | some .directory => true
    | _ => false

def put (location : Location) (entry : FileEntry) :
    List (Location × FileEntry) → List (Location × FileEntry)
  | [] => [(location, entry)]
  | old :: rest =>
      if old.1 == location then (location, entry) :: rest else old :: put location entry rest

def set (files : FileSystem) (location : Location) (entry : FileEntry) : FileSystem :=
  { files with entries := put location entry files.entries }

theorem at?_set_self (files : FileSystem) (location : Location) (entry : FileEntry) :
    (files.set location entry).at? location = some entry := by
  simp only [at?, set]
  induction files.entries with
  | nil => simp [put]
  | cons old rest ih =>
      by_cases same : old.1 == location
      · simp [put, same]
      · simp [put, same, ih]

theorem at?_set_other (files : FileSystem) (location other : Location) (entry : FileEntry)
    (different : other ≠ location) : (files.set location entry).at? other = files.at? other := by
  simp only [at?, set]
  induction files.entries with
  | nil =>
      have apart : (location == other) = false := by simpa using different.symm
      simp [put, apart]
  | cons old rest ih =>
      by_cases same : old.1 == location
      · have place : old.1 = location := by simpa using same
        have apart : (location == other) = false := by simpa using different.symm
        simp [put, place, apart]
      · by_cases found : old.1 == other
        · simp [put, same, found]
        · simp [put, same, found, ih]

def nameLimit : Nat := 255

def pathLimit : Nat := 4095

-- Where a path leads. Every part of the way before the last has to be a directory; two dots lead
-- back, at the top to the top itself.
def follow (files : FileSystem) : Location → List String → Except FileFault Location
  | here, [] => .ok here
  | here, part :: rest =>
      if !files.isDirectoryAt here then
        .error (if (files.at? here).isSome then .notDirectory else .notFound)
      else if part == ".." then files.follow here.dropLast rest
      else if part.utf8ByteSize > nameLimit then .error .tooLong
      else files.follow (here ++ [part]) rest

theorem follow_append (files : FileSystem) (here : Location) (first second : List String) :
    files.follow here (first ++ second) =
      (files.follow here first).bind fun there => files.follow there second := by
  induction first generalizing here with
  | nil => rfl
  | cons part rest ih =>
      simp only [List.cons_append, follow]
      split
      next => rfl
      next =>
        split
        next => exact ih _
        next =>
          split
          next => rfl
          next => exact ih _

def startOf (files : FileSystem) (path : Path) : Location :=
  if path.anchor.isEmpty then files.volume.home else []

def locate (files : FileSystem) (path : Path) : Except FileFault Location :=
  if path.hasNull then .error .nullCharacter
  else if path.toText.utf8ByteSize > pathLimit then .error .tooLong
  else files.follow (files.startOf path) path.parts

theorem locate_ok {files : FileSystem} {path : Path} {location : Location} :
    files.locate path = .ok location ↔
      path.hasNull = false ∧ path.toText.utf8ByteSize ≤ pathLimit ∧
        files.follow (files.startOf path) path.parts = .ok location := by
  unfold locate
  by_cases null : path.hasNull = true
  next => simp [null]
  next =>
    by_cases long : path.toText.utf8ByteSize > pathLimit
    next =>
      have beyond : ¬path.toText.utf8ByteSize ≤ pathLimit := by omega
      simp [null, long, beyond]
    next =>
      have within : path.toText.utf8ByteSize ≤ pathLimit := by omega
      simp [null, long, within]

example : locate { entries := [(["work"], .directory)], volume := { home := ["work"] } }
    { anchor := "", parts := ["..", "..", "src"] } = .ok ["src"] := by
  rfl

-- What is at the end of a path. There is nothing where no path can lead, but nothing can be said of
-- a path that is too long.
def look (files : FileSystem) (path : Path) : Except FileFault (Option FileEntry) :=
  match files.locate path with
  | .ok location =>
      .ok (if files.isDirectoryAt location then some .directory else files.at? location)
  | .error .tooLong => .error .tooLong
  | .error _ => .ok none

def isDirectory (files : FileSystem) (path : Path) : Except FileFault Bool :=
  (files.look path).map fun found =>
    match found with
    | some .directory => true
    | _ => false

def nameBelow? (location : Location) (entry : Location × FileEntry) : Option String :=
  match entry.1.reverse with
  | name :: above => if above.reverse == location then some name else none
  | [] => none

def list (files : FileSystem) (path : Path) : List String :=
  match files.locate path with
  | .error _ => []
  | .ok location =>
      (files.entries.filterMap (nameBelow? location)).mergeSort fun a b => decide (a ≤ b)

def read (files : FileSystem) (path : Path) : Except FileFault ByteArray := do
  let location ← files.locate path
  match files.at? location with
  | some .directory => .error .isDirectory
  | none => .error .notFound
  | some entry =>
      if files.volume.refuses .read location then .error .denied
      else
        match entry with
        | .file bytes => return bytes
        | _ => return ⟨#[]⟩

def makeDirectory (files : FileSystem) (path : Path) : Except FileFault FileSystem := do
  let location ← files.locate path
  if files.isDirectoryAt location || (files.at? location).isSome then .error .exists
  else if files.volume.refuses .create location then .error .denied
  else return files.set location .directory

def ensureDirectory (files : FileSystem) (path : Path) : Except FileFault FileSystem :=
  match files.makeDirectory path with
  | .ok made => .ok made
  | .error .notFound => .error .notFound
  | .error fault =>
      match files.look path with
      | .ok (some .directory) => .ok files
      | _ => .error fault

-- Makes a directory and all that are missing above it. The number of parts of the path bounds the
-- way up.
def makeDirectoriesUpTo : Nat → FileSystem → Path → Except FileFault FileSystem
  | 0, files, path => files.ensureDirectory path
  | parts + 1, files, path =>
      match files.ensureDirectory path with
      | .error .notFound => do
          let above ← makeDirectoriesUpTo parts files path.parent
          above.ensureDirectory path
      | result => result

def makeDirectories (files : FileSystem) (path : Path) : Except FileFault FileSystem :=
  makeDirectoriesUpTo path.parts.length files path

def refill (volume : Volume) (location : Location) (bytes : ByteArray) :
    Location × FileEntry → Location × FileEntry
  | (other, .file old) => (other, .file (if volume.shares location other then bytes else old))
  | entry => entry

-- Gives the other names of a file what is written under one of them.
def fill (files : FileSystem) (location : Location) (bytes : ByteArray) : FileSystem :=
  { files with entries := files.entries.map (refill files.volume location bytes) }

-- What is there after a write. A special file takes what is written and stays as it is.
def overwrite (files : FileSystem) (location : Location) (bytes : ByteArray) : FileSystem :=
  match files.at? location with
  | some .special => files
  | _ => (files.fill location bytes).set location (.file bytes)

def openAccess (files : FileSystem) (location : Location) : Access :=
  if (files.at? location).isSome then .write else .create

def write (files : FileSystem) (path : Path) (bytes : ByteArray) : Except FileFault FileSystem := do
  let location ← files.locate path
  if files.isDirectoryAt location then .error .isDirectory
  else if files.volume.refuses (files.openAccess location) location then .error .denied
  else return files.overwrite location bytes

def addAbove (files : FileSystem) (location : Location) : FileSystem :=
  (List.range location.length).foldl
    (fun files length =>
      let above := location.take length
      if files.isDirectoryAt above then files else files.set above .directory) files

def add (files : FileSystem) (location : Location) (entry : FileEntry) : FileSystem :=
  (files.addAbove location).set location entry

def changedBytes? (before : FileSystem) (entry : Location × FileEntry) : Option ByteArray :=
  match entry.2, before.at? entry.1 with
  | .file bytes, some (.file old) => if old.toList == bytes.toList then none else some bytes
  | .file bytes, _ => some bytes
  | _, _ => none

def changesSince (files before : FileSystem) : List (Location × ByteArray) :=
  files.entries.filterMap fun entry => (before.changedBytes? entry).map fun bytes => (entry.1, bytes)

end FileSystem

end ScriptTyping
