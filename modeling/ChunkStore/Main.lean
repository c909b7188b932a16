import ChunkStore.CommandLine.Run
import ChunkStore.Container.Image
import ChunkStore.Path

namespace ChunkStore.Program

def readBytes (path : String) : IO Bytes := do
  return (← IO.FS.readBinFile path).toList

def makeParents (path : String) : IO Bool := do
  if (Path.parent path).isEmpty then return true
  try
    IO.FS.createDirAll (Path.parent path)
    return true
  catch _ => return false

def look (path : String) (writable parents : Bool) : IO (File × Option IO.FS.Handle) := do
  if parents then
    if !(← makeParents path) then return (.unreachable .noParents, none)
  try
    let handle ← IO.FS.Handle.mk path (if writable then .append else .read)
    if !(← handle.tryLock true) then return (.unreachable .unavailable, none)
    let bytes ← readBytes path
    match Image.decode? bytes with
    | some c => return (.container false c, some handle)
    | none => return (.raw bytes, some handle)
  catch _ => return (.unreachable .unavailable, none)

def save (path : String) (before after : File) : IO Unit :=
  match after with
  | .container _ c =>
    if before = after then pure ()
    else IO.FS.writeBinFile path ⟨(Image.encode c).toArray⟩
  | _ => pure ()

def entropy : IO Uuid := do
  let bytes := (← IO.getRandomBytes 16).toList
  let digits := bytes.flatMap fun b => [Nibble.ofNat (b.toNat / 16), Nibble.ofNat b.toNat]
  if h : digits.length = 32 then return ⟨digits, h⟩
  else throw (IO.userError "no random bytes")

def loadConfig (path : Option String) : IO (Except CommandLine.Failure Config) := do
  match path with
  | none => return .ok {}
  | some path =>
    let bytes : Except String Bytes ← try
        pure (.ok (← readBytes path))
      catch e => pure (.error (toString e))
    return CommandLine.config path bytes

def finish (o : CommandLine.Outcome) : IO UInt32 := do
  IO.print o.output
  match o.failure with
  | none => return 0
  | some f =>
    IO.eprintln f.report
    return 1

def run (i : CommandLine.Invocation) (config : Config) : IO UInt32 := do
  let writable := i.command.isWriting
  let (before, handle) ← match config.store.validate with
    | .ok _ => look i.file writable (config.store.makesParents writable)
    | .error _ => pure (.missing, none)
  let (outcome, after) := CommandLine.run i config (← entropy) before
  save i.file before after
  if let some handle := handle then handle.unlock
  finish outcome

end ChunkStore.Program

open ChunkStore in
def main (args : List String) : IO UInt32 := do
  match CommandLine.read args with
  | .error .version =>
    IO.print CommandLine.versionText
    return 0
  | .error .help =>
    IO.print CommandLine.usageText
    return 0
  | .error .usage =>
    IO.eprint CommandLine.usageText
    return 2
  | .ok i =>
    match ← Program.loadConfig i.config with
    | .ok config => Program.run i config
    | .error f => Program.finish ⟨"", some f⟩
