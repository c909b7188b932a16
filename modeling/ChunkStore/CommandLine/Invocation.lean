import ChunkStore.Text.Decimal

/-!
Command lines: options, the container file, and a command with its operands. Options stand before the
command; after `--` everything is an operand.
-/

namespace ChunkStore.CommandLine

inductive Command where
  | info
  | create
  | epochGet
  | epochSet (epoch : Int64)
  | metadataGet (key : String)
  | metadataPut (key value : String)
  | query (first last : Int64) (values : Bool)
  deriving DecidableEq, Repr

def Command.isWriting : Command → Bool
  | create | epochSet _ | metadataPut _ _ => true
  | info | epochGet | metadataGet _ | query _ _ _ => false

structure Options where
  file : Option String := none
  config : Option String := none
  logLevel : Option String := none
  deriving DecidableEq, Repr

structure Invocation where
  file : String
  config : Option String
  logLevel : Option String
  command : Command
  deriving DecidableEq, Repr

inductive Refusal where
  | help
  | version
  | usage
  deriving DecidableEq, Repr

def isOption (arg : String) : Bool := arg.startsWith "-" && arg ≠ "-"

/-- Whether an argument asks for help: `--help`, or a group of letters that starts with `h`. -/
def isHelp (arg : String) : Bool := arg = "--help" || arg.toList.take 2 = ['-', 'h']

inductive OperandKind where
  | text
  | integer

inductive Operand where
  | text (s : String)
  | integer (n : Int64)

def OperandKind.read (kind : OperandKind) (arg : String) : Except Refusal Operand :=
  match kind with
  | text => .ok (.text arg)
  | integer => ((Decimal.readInt64 arg).map .integer).mapError fun _ => .usage

def plainOperands : List OperandKind → List String → Except Refusal (List Operand)
  | _, [] => .ok []
  | [], _ :: _ => .error .usage
  | kind :: kinds, arg :: rest => do
    let value ← kind.read arg
    return value :: (← plainOperands kinds rest)

/-- Reads operands and the flags among them, each of which can stand once. The first argument that
is wrong or asks for help decides. -/
def operands (flags seen : List String) (kinds : List OperandKind) :
    List String → Except Refusal (List Operand × List String)
  | [] => .ok ([], seen)
  | arg :: rest =>
    if arg = "--" then do return (← plainOperands kinds rest, seen)
    else if isHelp arg then .error .help
    else if isOption arg then
      if flags.contains arg && !seen.contains arg then operands flags (arg :: seen) kinds rest
      else .error .usage
    else
      match kinds with
      | [] => .error .usage
      | kind :: kinds => do
        let value ← kind.read arg
        let (values, seen) ← operands flags seen kinds rest
        return (value :: values, seen)

def commandNames : List String → List String
  | [] => ["info", "init", "epoch", "meta", "query", "help"]
  | ["epoch"] => ["get", "set", "help"]
  | ["meta"] => ["get", "put", "help"]
  | _ => []

def helpOn (names : List String) : List String → Refusal
  | [] => .help
  | word :: words =>
    if (commandNames names).contains word then helpOn (names ++ [word]) words else .usage

def epochCommand : List String → Except Refusal Command
  | "get" :: rest => do
    let _ ← operands [] [] [] rest
    return .epochGet
  | "set" :: rest => do
    match ← operands [] [] [.integer] rest with
    | ([.integer epoch], _) => return .epochSet epoch
    | _ => .error .usage
  | "help" :: rest => .error (helpOn ["epoch"] rest)
  | arg :: _ => .error (if isHelp arg then .help else .usage)
  | [] => .error .usage

def metadataCommand : List String → Except Refusal Command
  | "get" :: rest => do
    match ← operands [] [] [.text] rest with
    | ([.text key], _) => return .metadataGet key
    | _ => .error .usage
  | "put" :: rest => do
    match ← operands [] [] [.text, .text] rest with
    | ([.text key, .text value], _) => return .metadataPut key value
    | _ => .error .usage
  | "help" :: rest => .error (helpOn ["meta"] rest)
  | arg :: _ => .error (if isHelp arg then .help else .usage)
  | [] => .error .usage

def command? (name : String) (rest : List String) : Option (Except Refusal Command) :=
  match name with
  | "info" => some do
    let _ ← operands [] [] [] rest
    return .info
  | "init" => some do
    let _ ← operands [] [] [] rest
    return .create
  | "epoch" => some (epochCommand rest)
  | "meta" => some (metadataCommand rest)
  | "query" => some do
    match ← operands ["--values"] [] [.integer, .integer] rest with
    | ([.integer first, .integer last], seen) => return .query first last (seen.contains "--values")
    | _ => .error .usage
  | "help" => some (.error (helpOn [] rest))
  | _ => none

inductive OptionName where
  | config
  | logLevel

def Options.set (o : Options) (name : OptionName) (value : String) : Except Refusal Options :=
  match name with
  | .config =>
    if o.config.isSome || value.isEmpty then .error .usage else .ok { o with config := some value }
  | .logLevel => if o.logLevel.isSome then .error .usage else .ok { o with logLevel := some value }

def option? (arg : String) : Option (OptionName × Option String) :=
  let value := fun (cs : List Char) => match cs with
    | [] => none
    | '=' :: cs => some (String.ofList cs)
    | cs => some (String.ofList cs)
  match arg.toList with
  | '-' :: '-' :: rest =>
    let attached := match rest.dropWhile (· ≠ '=') with
      | [] => none
      | _ :: cs => some (String.ofList cs)
    match String.ofList (rest.takeWhile (· ≠ '=')) with
    | "config" => some (.config, attached)
    | "log-level" => some (.logLevel, attached)
    | _ => none
  | '-' :: 'c' :: rest => some (.config, value rest)
  | _ => none

def isVersion (arg : String) : Bool := arg = "--version" || arg.toList.take 2 = ['-', 'V']

def readFrom (o : Options) : List String → Except Refusal Invocation
  | [] => .error .usage
  | arg :: rest =>
    if isHelp arg then .error .help
    else if isVersion arg then .error .version
    else if isOption arg then
      match option? arg, rest with
      | some (name, some value), rest => do readFrom (← o.set name value) rest
      | some (name, none), value :: rest =>
        if isOption value then .error .usage else do readFrom (← o.set name value) rest
      | _, _ => .error .usage
    else
      match command? arg rest, o.file with
      | some command, some file => do
        return { file, config := o.config, logLevel := o.logLevel, command := ← command }
      | some command, none => do
        let _ ← command
        .error .usage
      | none, none => if arg.isEmpty then .error .usage else readFrom { o with file := some arg } rest
      | none, some _ => .error .usage

def read (args : List String) : Except Refusal Invocation := readFrom {} args

end ChunkStore.CommandLine
