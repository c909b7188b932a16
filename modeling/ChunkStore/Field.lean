import ChunkStore.TrackList

/-!
The value of one track in a chunk, as bytes. The bytes do not say how many elements there are; the
reader is told.
-/

namespace ChunkStore

inductive FieldValue where
  | binary (bytes : Bytes)
  | text (s : String)
  | integers (vs : List Int32)
  deriving DecidableEq, Repr

namespace FieldValue

def kind : FieldValue → ValueKind
  | binary _ => .binary
  | text _ => .text
  | integers _ => .integers

/-- Integers are counted one by one, everything else in bytes. -/
def size : FieldValue → Nat
  | binary bytes => bytes.length
  | text s => (Utf8.ofString s).length
  | integers vs => vs.length

def isEmpty (v : FieldValue) : Bool := v.size = 0

end FieldValue

namespace Track

def checkKind (t : Track) (kind : ValueKind) : Except Error Unit :=
  if kind.accepts t.encoding then .ok ()
  else if t.encoding = .noData then .error (.unsupportedEncoding t.encoding)
  else .error (.encodingMismatch t.id t.encoding kind)

def encode (t : Track) (v : FieldValue) : Except Error Bytes := do
  t.checkKind v.kind
  match v with
  | .binary bytes => .ok bytes
  | .text s => .ok (Utf8.ofString s)
  | .integers vs => return (← Codec.ofEncoding t.encoding).compress vs

def append (t : Track) (v : FieldValue) (out : Bytes) : Except Error Bytes :=
  (out ++ ·) <$> t.encode v

/-- Whether an unset track of an encoding that never has data is read, which is empty whatever kind
of value is asked for. -/
def readsEmpty (t : Track) (data : Bytes) (size : Nat) : Bool :=
  (t.encoding = .noData ∨ t.encoding = .centerFiltered) ∧ data = [] ∧ size = 0

def checkSize (t : Track) (data : Bytes) (size : Nat) : Except Error Unit :=
  if data.length = size then .ok () else .error (.corrupt (.lengthMismatch t.id data.length size))

def decodeIntegers (t : Track) (data : Bytes) (size : Nat) : Except Error (List Int32) :=
  if t.readsEmpty data size then .ok []
  else do
    t.checkKind .integers
    let codec ← Codec.ofEncoding t.encoding
    match codec.decompress data size [] with
    | (_, .error e) => .error e
    | (vs, .ok consumed) =>
      if consumed = data.length then .ok vs
      else .error (.corrupt (.unusedBytes t.id size consumed data.length))

def decodeText (t : Track) (data : Bytes) (size : Nat) : Except Error String :=
  if t.readsEmpty data size then .ok ""
  else do
    t.checkKind .text
    t.checkSize data size
    match Utf8.decode data with
    | .ok s => .ok s
    | .error flaw => .error (.corrupt (.invalidText t.id flaw))

def decodeBinary (t : Track) (data : Bytes) (size : Nat) : Except Error Bytes :=
  if t.readsEmpty data size then .ok data
  else do
    t.checkKind .binary
    t.checkSize data size
    .ok data

end Track
end ChunkStore
