import ChunkStore.Chunk.Listing
import ChunkStore.CommandLine.Invocation
import ChunkStore.Toml
import ChunkStore.Store.Basic

namespace ChunkStore.CommandLine

inductive Failure where
  | unreadableConfig (path reason : String)
  | binaryConfig (path : String)
  | malformedConfig (path : String)
  | unopened (path : String) (e : Error)
  | failed (e : Error)
  | noValue (key : String)

namespace Failure

def headline : Failure → String
  | unreadableConfig path _ | binaryConfig path => s!"failed to read config file {path}"
  | malformedConfig path => s!"failed to parse config file {path}"
  | unopened path _ => s!"failed to open {path}"
  | failed e => e.message
  | noValue key => s!"no value for key {key}"

def causes : Failure → List String
  | unreadableConfig _ reason => [reason]
  | binaryConfig _ => ["stream did not contain valid UTF-8"]
  | malformedConfig _ => ["the settings are malformed"]
  | unopened _ e => e.message :: e.sources
  | failed e => e.sources
  | noValue _ => []

def indented (mark cause : String) : String :=
  mark ++ ("\n" ++ "".pushn ' ' mark.length).intercalate (cause.splitOn "\n")

def causeLines : List String → List String
  | [] => []
  | [cause] => ["", "Caused by:", indented "    " cause]
  | causes => "" :: "Caused by:" :: causes.zipIdx.map fun (cause, i) => indented s!"    {i}: " cause

def report (f : Failure) : String := "\n".intercalate (("Error: " ++ f.headline) :: causeLines f.causes)

def isForeign : Failure → Bool
  | unreadableConfig _ _ | malformedConfig _ => true
  | unopened _ e | failed e => e.involvesFile
  | binaryConfig _ | noValue _ => false

end Failure

structure Outcome where
  output : String
  failure : Option Failure

def Outcome.ofExcept : Except Error String → Outcome
  | .ok output => ⟨output, none⟩
  | .error e => ⟨"", some (.failed e)⟩

def versionText : String := "multiflex 0.1.0\n"

def usageText : String :=
  "usage: multiflex [-c FILE] [--log-level LEVEL] FILE COMMAND\n" ++
  "commands: info, init, epoch get, epoch set MICROS, meta get KEY, meta put KEY VALUE,\n" ++
  "query FIRST LAST [--values]\n"

def config (path : String) (bytes : Except String Bytes) : Except Failure Config :=
  match bytes with
  | .error reason => .error (.unreadableConfig path reason)
  | .ok bytes =>
    match Utf8.decode bytes with
    | .error _ => .error (.binaryConfig path)
    | .ok text =>
      match (Toml.read text).bind (Config.ofDocument? false) with
      | some c => .ok c
      | none => .error (.malformedConfig path)

def chunkLines (values : Bool) (output : String) : List Chunk → Outcome
  | [] => ⟨output, none⟩
  | c :: cs =>
    match Chunk.toJson values c with
    | .ok j _ => chunkLines values (output ++ j.compact ++ "\n") cs
    | .error e _ => ⟨output, some (.failed e)⟩

def infoJson (s : Store) (epoch maxTimestamp : Int64) : Json :=
  .object [("epoch_micros", .integer epoch.toInt),
    ("id", (s.id?.map fun id => Json.text id.text).getD .null),
    ("max_timestamp", .integer maxTimestamp.toInt), ("path", .text s.path),
    ("version", .integer s.version.toInt)]

def info : Attempt (Store × Container) String := do
  let epoch ← Store.epoch
  let maxTimestamp ← Store.maxTimestamp
  return (infoJson (← get).1 epoch maxTimestamp).pretty 0 ++ "\n"

def work : Command → Attempt (Store × Container) Outcome
  | .info => (⟨·, none⟩) <$> info
  | .create => do return ⟨((← get).1.id?.map fun id => id.text ++ "\n").getD "", none⟩
  | .epochGet => do return ⟨Decimal.ofInt (← Store.epoch).toInt ++ "\n", none⟩
  | .epochSet epoch => do
    Store.setEpoch epoch
    return ⟨"", none⟩
  | .metadataGet key => do
    match ← Store.metadata? key with
    | some value => return ⟨value ++ "\n", none⟩
    | none => return ⟨"", some (.noValue key)⟩
  | .metadataPut key value => do
    Store.putMetadata key value
    return ⟨"", none⟩
  | .query first last values => do return chunkLines values "" (← Store.findBetween first last)

def run (i : Invocation) (config : Config) (entropy : Uuid) (f : File) : Outcome × File :=
  let store := Store.create i.file config.store
  match Store.openFile i.command.isWriting entropy (store, f) with
  | .error e (_, f) => (⟨"", some (.unopened i.file e)⟩, f)
  | .ok _ opened =>
    match Store.onFile (work i.command) opened with
    | .ok outcome (s, f) => (outcome, (s.close f).2)
    | .error e (s, f) => (⟨"", some (.failed e)⟩, (s.close f).2)

end ChunkStore.CommandLine
