import ChunkStore.Chunk.Builder

namespace ChunkStore

namespace ChunkBuilder

inductive Call where
  | setTimestamp (t : Int64)
  | set (id : Int32) (v : FieldValue)
  | reset
  | build

def Call.run : Call → Attempt ChunkBuilder (Option Chunk)
  | setTimestamp t => (fun _ => none) <$> ChunkBuilder.setTimestamp t
  | set id v => (fun _ => none) <$> ChunkBuilder.set id v
  | reset => fun b => .ok none b.reset
  | build => some <$> ChunkBuilder.build

def runAll (calls : List Call) (b : ChunkBuilder) : ChunkBuilder :=
  calls.foldl (fun b call => Attempt.state (call.run b)) b

end ChunkBuilder

def Encoding.kind : Encoding → ValueKind
  | noData | binary => .binary
  | text => .text
  | varbyte | deltaVarbyte | centerFiltered => .integers

def Track.decode (t : Track) (data : Bytes) (size : Nat) : Except Error FieldValue :=
  match t.encoding.kind with
  | .binary => .binary <$> t.decodeBinary data size
  | .text => .text <$> t.decodeText data size
  | .integers => .integers <$> t.decodeIntegers data size

namespace Chunk

def value? (t : Track) : Attempt Chunk (Option FieldValue) :=
  match t.encoding.kind with
  | .binary => Option.map .binary <$> Chunk.binary? t.id
  | .text => Option.map .text <$> Chunk.text? t.id
  | .integers => Option.map .integers <$> Chunk.integers? t.id

inductive Request where
  | fieldSize (id : Int32)
  | integers (id : Int32)
  | text (id : Int32)
  | binary (id : Int32)
  | close

inductive Reply where
  | done
  | size (n : Option Nat)
  | integers (vs : Option (List Int32))
  | text (s : Option String)
  | binary (bytes : Option Bytes)
  deriving DecidableEq

def Request.run : Request → Attempt Chunk Reply
  | fieldSize id => .size <$> Chunk.fieldSize? id
  | integers id => .integers <$> Chunk.integers? id
  | text id => .text <$> Chunk.text? id
  | binary id => .binary <$> Chunk.binary? id
  | close => fun c => .ok .done c.close

def afterAll (requests : List Request) (c : Chunk) : Chunk :=
  requests.foldl (fun c request => Attempt.state (request.run c)) c

def replies (c : Chunk) : List Request → List (Except Error Reply)
  | [] => []
  | request :: requests =>
    Attempt.outcome (request.run c) :: replies (Attempt.state (request.run c)) requests

end Chunk
end ChunkStore
