import ChunkStore.Store.Basic

namespace ChunkStore

inductive Request where
  | put (chunk : Chunk)
  | find (timestamp : Int64)
  | findBetween (first last : Int64)
  | maxTimestamp
  | epoch
  | setEpoch (epoch : Int64)
  | metadata (key : String)
  | putMetadata (key value : String)

inductive Operation where
  | openFile (writable : Bool) (entropy : Uuid)
  | close
  | ask (request : Request)

inductive Answer where
  | done
  | chunk (found : Option Chunk)
  | chunks (found : List Chunk)
  | number (n : Int64)
  | text (value : Option String)

namespace Request

def isWriting : Request → Bool
  | put _ | setEpoch _ | putMetadata _ _ => true
  | find _ | findBetween _ _ | maxTimestamp | epoch | metadata _ => false

def serve : Request → Attempt (Session × Container) Answer
  | put c => (fun _ => .done) <$> Session.put c
  | find t => .chunk <$> Session.find? t
  | findBetween t u => .chunks <$> Session.findBetween t u
  | maxTimestamp => .number <$> Session.maxTimestamp
  | epoch => .number <$> Session.epoch
  | setEpoch n => (fun _ => .done) <$> Session.setEpoch n
  | metadata k => .text <$> Session.metadata? k
  | putMetadata k v => (fun _ => .done) <$> Session.putMetadata k v

def run : Request → Attempt (Store × Container) Answer
  | put c => (fun _ => .done) <$> Store.put c
  | find t => .chunk <$> Store.find? t
  | findBetween t u => .chunks <$> Store.findBetween t u
  | maxTimestamp => .number <$> Store.maxTimestamp
  | epoch => .number <$> Store.epoch
  | setEpoch n => (fun _ => .done) <$> Store.setEpoch n
  | metadata k => .text <$> Store.metadata? k
  | putMetadata k v => (fun _ => .done) <$> Store.putMetadata k v

end Request

namespace Operation

def isWriting : Operation → Bool
  | openFile writable _ => writable
  | close => false
  | ask r => r.isWriting

def run : Operation → Attempt (Store × File) Answer
  | openFile writable entropy => (fun _ => .done) <$> Store.openFile writable entropy
  | close => fun (s, f) => .ok .done (s.close f)
  | ask r => Store.onFile r.run

end Operation
end ChunkStore
