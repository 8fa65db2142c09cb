import SchemaTypes.Cli.Run

/-!
# The program

The command line runs on the files of the machine.  A host is answered line by line;
any other command runs to its end before anything is printed.
-/

namespace SchemaTypes
namespace Machine

/-!
## The disk of the machine
-/

/-- The fault with a code of the operating system, which may come negated. -/
def faultOfCode (code : UInt32) (details : String) : DiskFault :=
  let number := if code.toNat < 1 <<< 31 then code.toNat else (1 <<< 32) - code.toNat
  match number with
  | 2 => .notFound
  | 17 => .exists
  | 20 => .notDirectory
  | 21 => .isDirectory
  | 36 => .nameTooLong
  | n => .other (details ++ " (os error " ++ toString n ++ ")")

def faultOfError : IO.Error -> DiskFault
  | .noFileOrDirectory _ code details => faultOfCode code details
  | .alreadyExists _ code details => faultOfCode code details
  | .inappropriateType _ code details => faultOfCode code details
  | .invalidArgument _ code details => faultOfCode code details
  | .permissionDenied _ code details => faultOfCode code details
  | .resourceExhausted _ code details => faultOfCode code details
  | e => .other (toString e)

/-- The answer of an action on files, which have no NUL in their names. -/
def attempt {α : Type} (path : Path) (action : String -> IO α) : IO (Except DiskFault α) := do
  if '\x00' ∈ path then return .error .nulInName
  try
    let a ← action (String.ofList path)
    return .ok a
  catch e =>
    return .error (faultOfError e)

def disk : Disk IO where
  pathExists path := do
    let base ← IO.currentDir
    (base / String.ofList path).pathExists
  isDirectory path := do
    let base ← IO.currentDir
    (base / String.ofList path).isDir
  readFile path := attempt path fun p => do
    let content ← IO.FS.readBinFile p
    return content.toList
  makeDirectory path := attempt path fun p => IO.FS.createDir p
  writeFile path bytes := attempt path fun p => IO.FS.writeBinFile p (ByteArray.mk bytes.toArray)

/-!
## Streams
-/

def report (filter : LogFilter) (n : Notice) : IO Unit := do
  match n.text? filter with
  | none => return ()
  | some s =>
      let stderr ← IO.getStderr
      stderr.putStr (String.ofList s ++ "\n")
      stderr.flush

/-- The next line of a stream with the bytes of it that are read, nothing at its end. -/
partial def nextLine (input : IO.FS.Stream) (read : List UInt8) : IO (Option (List UInt8)) := do
  match (← input.read 1).toList with
  | [] => return if read.isEmpty then none else some read.reverse
  | b :: _ =>
      if b = 10 then return some (b :: read).reverse else nextLine input (b :: read)

/-- A host is answered until its stream ends or the program panics. -/
partial def answerHost (filter : LogFilter) (input : IO.FS.Stream) : IO Bool := do
  match ← nextLine input [] with
  | none => return false
  | some line =>
      let answers ← Host.answerLines disk [line]
      for e in answers.entries do
        report filter (.entry e)
      if answers.panicked then return true
      answerHost filter input

def serveHost (filter : LogFilter) : IO UInt32 := do
  report filter (.entry (.event Host.opening))
  if ← answerHost filter (← IO.getStdin) then
    report filter .panic
    return UInt32.ofNat Run.panicCode
  report filter (.entry (.event Host.closing))
  return 0

def runInvocation (filter : LogFilter) (i : Invocation) : IO UInt32 := do
  let run ← i.run disk []
  let stdout ← IO.getStdout
  stdout.putStr (String.ofList run.printed)
  stdout.flush
  for n in run.notices do
    report filter n
  return UInt32.ofNat run.code

end Machine
end SchemaTypes

open SchemaTypes in
def main (args : List String) : IO UInt32 := do
  let setting ← IO.getEnv "RUST_LOG"
  let filter := LogFilter.ofSetting (setting.map String.toList)
  match Invocation.parse (args.map String.toList) with
  | .command .host => Machine.serveHost filter
  | i => Machine.runInvocation filter i
