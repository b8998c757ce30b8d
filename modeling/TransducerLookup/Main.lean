import TransducerLookup.CommandLine

/-!
# The program

Reads what a run depends on and writes what it leaves behind.
-/

namespace TransducerLookup.Main

open CommandLine

def readFile (path : String) : IO (Except FileError (List UInt8)) := do
  try
    return .ok (← IO.FS.readBinFile path).data.toList
  catch
    | .noFileOrDirectory .. => return .error .absent
    | e => return .error (.other (toString e))

partial def readAll (input : IO.FS.Stream) (data : ByteArray) : IO ByteArray := do
  let more ← input.read 65536
  if more.isEmpty then return data
  readAll input (data ++ more)

def finish (outcome : Outcome) : IO UInt32 := do
  IO.print outcome.stdout
  IO.eprint outcome.stderr
  return outcome.code

end TransducerLookup.Main

open TransducerLookup CommandLine Main in
def main (args : List String) : IO UInt32 := do
  match Request.ofArguments (← IO.getEnv Options.pathVariable) args with
  | .finished outcome => finish outcome
  | .lookUp path options =>
    match load path (← readFile path) with
    | .error outcome => finish outcome
    | .ok t =>
      let stdin ←
        if options.words.isEmpty then readAll (← IO.getStdin) .empty else pure .empty
      finish (answer t options stdin.data.toList)
