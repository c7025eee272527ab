import PlZero.Command.Session
import PlZero.Suite.Document

namespace PlZero.Command

def cause (e : IO.Error) : Files.Cause :=
  match e with
  | .noFileOrDirectory _ _ _ => .missing
  | .permissionDenied _ _ _ => .denied
  | .inappropriateType _ _ details =>
      if details.toLower = Files.Cause.isDirectory.message then .isDirectory else .notDirectory
  | .invalidArgument _ _ details =>
      if details.toLower = Files.Cause.tooLong.message then .tooLong else .invalid
  | .resourceExhausted _ _ details =>
      if details.toLower = Files.Cause.full.message then .full else .other details
  | e => .other (toString e)

-- What a file has taken of the bytes that were written to it, and why not all of them.
def store (path : String) (contents : List UInt8) : IO (Option (Nat × Files.Cause)) := do
  try
    IO.FS.writeBinFile path (ByteArray.mk contents.toArray)
    return none
  catch e =>
    let kept ← try pure (← IO.FS.readBinFile path).size catch _ => pure 0
    return some (kept, cause e)

def create (path : String) : IO (Option Files.FileError) := do
  try
    IO.FS.writeBinFile path ByteArray.empty
    return none
  catch e => return some ⟨.opening, path, cause e⟩

instance : Files.Access IO where
  read path := do
    try
      return .ok (← IO.FS.readBinFile path).toList
    catch e =>
      let attempt := if cause e = .isDirectory then Files.Attempt.reading else .opening
      return .error ⟨attempt, path, cause e⟩
  write path contents := do
    match ← create path with
    | some e => return .error e
    | none =>
        match ← store path contents with
        | none => return .ok ()
        | some (_, cause) => return .error ⟨.writing, path, cause⟩
  output path act := do
    match ← create path with
    | some e => return .error e
    | none =>
        let (answer, out) := act {}
        match ← store path out.bytes with
        | none => return .ok answer
        | some (kept, cause) =>
            let refusal := (Files.FileError.mk .writing path cause).message
            return .ok (act { allowance := .bytes kept, refusal }).1
  isDirectory path := do
    try
      (← IO.FS.realPath (String.ofList path)).isDir
    catch _ => return false
  list path := do
    try
      return ((← (← IO.FS.realPath (String.ofList path)).readDir).map (·.fileName.toList)).toList
    catch _ => return []

end PlZero.Command

def main (args : List String) : IO UInt32 := do
  let outcome ← (PlZero.Command.session PlZero.Suite.ofYaml args {} : IO PlZero.Command.Outcome)
  (← IO.getStdout).write (ByteArray.mk outcome.stdout.bytes.toArray)
  (← IO.getStderr).write (ByteArray.mk outcome.stderr.toArray)
  return UInt32.ofNat outcome.status
