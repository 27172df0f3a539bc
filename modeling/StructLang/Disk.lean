import StructLang.Path
import StructLang.Text.Listed

namespace StructLang

inductive DiskProblem where
  | missing | denied | exists | notFolder | isFolder | tooLong
  | zeroByte
  deriving DecidableEq, Repr

structure DiskError where
  problem : DiskProblem
  path : Path
  deriving DecidableEq, Repr

def DiskProblem.text : DiskProblem → String
  | .missing => "[Errno 2] No such file or directory"
  | .denied => "[Errno 13] Permission denied"
  | .exists => "[Errno 17] File exists"
  | .notFolder => "[Errno 20] Not a directory"
  | .isFolder => "[Errno 21] Is a directory"
  | .tooLong => "[Errno 36] File name too long"
  | .zeroByte => "embedded null byte"

def DiskError.text (e : DiskError) : String := e.problem.text ++ ": " ++ Text.listed e.path.text

structure Storage (m : Type → Type) where
  read : Path → m (Except DiskProblem (List Nat))
  write : Path → String → m (Except DiskProblem Unit)
  isFolder : Path → m Bool
  makeFolder : Path → m (Except DiskProblem Unit)

namespace Storage

variable {m : Type → Type} [Monad m] (s : Storage m)

def ensureFolder (p : Path) : m (Except DiskError Unit) := do
  match ← s.makeFolder p with
  | .ok () => return .ok ()
  | .error .missing => return .error ⟨.missing, p⟩
  -- a folder that is there already is as good as a new one
  | .error e => if ← s.isFolder p then return .ok () else return .error ⟨e, p⟩

def ensureParts (root : Root) : List String → m (Except DiskError Unit)
  | [] => s.ensureFolder ⟨root, []⟩
  | part :: parts => do
    let p : Path := ⟨root, (part :: parts).reverse⟩
    match ← s.ensureFolder p with
    | .error ⟨.missing, _⟩ =>
      match ← ensureParts root parts with
      | .ok () => s.ensureFolder p
      | .error e => return .error e
    | r => return r

def ensureFolders (p : Path) : m (Except DiskError Unit) := s.ensureParts p.root p.parts.reverse

def writeTo (p : Path) (text : String) : m (Except DiskError Unit) := do
  match ← s.write p text with
  | .ok () => return .ok ()
  | .error e => return .error ⟨e, p⟩

def save (p : Path) (text : String) : m (Except DiskError Unit) := do
  match ← s.ensureFolders p.parent with
  | .ok () => s.writeTo p text
  | .error e => return .error e

end Storage

inductive Entry where
  | folder
  | file (bytes : List Nat)
  deriving DecidableEq, Repr

abbrev Place := List String

/-- What lies at each place. The working folder, the root and the folders above are not listed. -/
abbrev Disk := List (Place × Entry)

namespace Disk

def isAbove (p : Place) : Bool := p.all (· = "..") || p = ["/"]

def entry? (d : Disk) (p : Place) : Option Entry := if isAbove p then some .folder else d.lookup p

def enter (p : Place) (part : String) : Place :=
  if part ≠ ".." then p ++ [part]
  else if p = ["/"] then p
  else if p.all (· = "..") then p ++ [part]
  else p.dropLast

def nameLimit : Nat := 255

def pathLimit : Nat := 4095

def step (d : Disk) (p : Place) (part : String) : Except DiskProblem Place :=
  match d.entry? p with
  | some .folder => if part.utf8ByteSize ≤ nameLimit then .ok (enter p part) else .error .tooLong
  | some (.file _) => .error .notFolder
  | none => .error .missing

def locate (d : Disk) (p : Path) : Except DiskProblem Place :=
  if p.text.toList.contains '\x00' then .error .zeroByte
  else if p.text.utf8ByteSize ≤ pathLimit then
    p.parts.foldlM d.step (if p.root = .none then [] else ["/"])
  else .error .tooLong

def put (d : Disk) (p : Place) (e : Entry) : Disk := (p, e) :: d.filter fun x => x.1 ≠ p

def addFolder (d : Disk) : List String → Disk
  | [] => d
  | part :: parts => put (addFolder d parts) (part :: parts).reverse .folder

def addFile (d : Disk) (p : Path) (bytes : List Nat) : Disk :=
  put (addFolder d p.parent.parts.reverse) p.parts (.file bytes)

def ofEntries (folders : List Path) (files : List (Path × List Nat)) : Disk :=
  let d := folders.foldl (fun d p => addFolder d p.parts.reverse) []
  files.foldl (fun d f => addFile d f.1 f.2) d

def bytesOf (text : String) : List Nat := text.toUTF8.toList.map UInt8.toNat

def read (d : Disk) (p : Path) : Except DiskProblem (List Nat) := do
  match d.entry? (← d.locate p) with
  | none => .error .missing
  | some .folder => .error .isFolder
  | some (.file bytes) => return bytes

def write (d : Disk) (p : Path) (bytes : List Nat) : Except DiskProblem Disk := do
  let place ← d.locate p
  match d.entry? place with
  | some .folder => .error .isFolder
  | _ => return d.put place (.file bytes)

def isFolder (d : Disk) (p : Path) : Bool :=
  match d.locate p with
  | .ok place => d.entry? place = some .folder
  | .error _ => false

def makeFolder (d : Disk) (p : Path) : Except DiskProblem Disk := do
  let place ← d.locate p
  match d.entry? place with
  | none => return d.put place .folder
  | some _ => .error .exists

def change (f : Disk → Except DiskProblem Disk) : StateM Disk (Except DiskProblem Unit) := do
  match f (← get) with
  | .ok d => set d; return .ok ()
  | .error e => return .error e

def storage : Storage (StateM Disk) where
  read p := do return (← get).read p
  write p text := change fun d => d.write p (bytesOf text)
  isFolder p := do return (← get).isFolder p
  makeFolder p := change fun d => d.makeFolder p

def changedSince (d old : Disk) : List (String × List Nat) :=
  let changed := d.filterMap fun
    | (p, .file bytes) =>
      if isAbove (p.take 1) ∨ old.entry? p = some (.file bytes) then none
      else some ("/".intercalate p, bytes)
    | (_, .folder) => none
  changed.mergeSort fun a b => decide (a.1 ≤ b.1)

end Disk

end StructLang
