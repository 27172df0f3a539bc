import StructLang.Command.Run

namespace StructLang

def problemOf : IO.Error → DiskProblem
  | .alreadyExists .. => .exists
  | .permissionDenied .. => .denied
  | .inappropriateType .. => .notFolder
  | .invalidArgument _ 36 _ => .tooLong
  | _ => .missing

def attempt {α : Type} (act : IO α) : IO (Except DiskProblem α) := do
  try
    return .ok (← act)
  catch e => return .error (problemOf e)

def isFolderPath (p : Path) : IO Bool := do
  return (← attempt (IO.FS.Handle.mk (p.text ++ "/.") .read)).isOk

def fileStorage : Storage IO where
  read p := attempt do return (← IO.FS.readBinFile p.text).toList.map UInt8.toNat
  write p text := do
    if ← isFolderPath p then return .error .isFolder
    attempt (IO.FS.writeFile p.text text)
  isFolder := isFolderPath
  makeFolder p := attempt (IO.FS.createDir p.text)

def environment : IO (Table String) := do
  let names := ["NO_COLOR", "STRUCTURA_COLOR", "STRUCTURA_DUMP_IR"]
  return (← names.mapM fun n => do return (← IO.getEnv n).map (n, ·)).filterMap id

end StructLang

def main (arguments : List String) : IO UInt32 := do
  let env ← StructLang.environment
  match ← (StructLang.Command.run StructLang.fileStorage env arguments).run with
  | .ok report =>
    IO.print report.out
    IO.eprint report.err
    return report.exit.toUInt32
  | .error crash =>
    IO.eprintln crash.message
    return 1
