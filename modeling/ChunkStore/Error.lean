import ChunkStore.Encoding
import ChunkStore.StoreId
import ChunkStore.Text.Decimal
import ChunkStore.Text.Quoted
import ChunkStore.Text.Utf8

/-!
What can go wrong, as causes, and the wording of each. An error that hid another one during cleanup
keeps both; predicates look at the first.
-/

namespace ChunkStore

inductive Corruption where
  | tooFewBytes (count available : Nat)
  | codeTruncated (position : Nat)
  | codeOverflow
  | codeTooLong
  | descriptorTooShort (id : UInt64) (length : Nat)
  | descriptorTrailing (id : UInt64) (length : Nat)
  | tracksNotAscending (id : UInt64) (previous next : Int32)
  | negativeOffset (offset : Int32)
  | offsetBeyondFields (offset region : Nat)
  | offsetsDecrease (previous next : Nat)
  | negativeLength (length : Int32)
  | unusedBytes (track : Int32) (count consumed length : Nat)
  | lengthMismatch (track : Int32) (held declared : Nat)
  | invalidText (track : Int32) (flaw : Utf8.Flaw)
  | invalidEpoch (text : String) (flaw : Decimal.Flaw)
  | described (text : String)
  deriving DecidableEq, Repr

inductive ArgumentFlaw where
  | encodingName (name : String)
  | negativeTimestamp (timestamp : Int64)
  | negativeEpoch (epoch : Int64)
  | tooManyElements (track : Int32) (count : Nat)
  | tooManyTracks (count : Nat)
  | fieldsTooLarge (length : Nat)
  | described (text : String)
  deriving DecidableEq, Repr

inductive ConfigFlaw where
  | zeroCacheSize
  | described (text : String)
  deriving DecidableEq, Repr

inductive Action where
  | openFile (path : String)
  | selectMeta
  | insertMeta
  | migrate
  | insertDescriptor
  | selectDescriptor
  | insertChunk
  | selectChunk
  | selectChunkRange
  | selectMaxTimestamp
  | described (text : String)
  deriving DecidableEq, Repr

inductive FileFault where
  | unavailable
  | noParents
  | tableTypes (table key value : String)
  | described (text : String)
  deriving DecidableEq, Repr

inductive Error where
  | alreadyOpened
  | storeClosed
  | notWritable
  | schemaTooOld (version expected : Int32)
  | migrationFailed (version : Int32) (script : String) (cause : Error)
  | invalidIdentity (flaw : StoreId.Flaw)
  | epochAlreadySet
  | invalidArgument (flaw : ArgumentFlaw)
  | reservedKey (key : String)
  | unknownTrack (track : Int32)
  | duplicateField (track : Int32)
  | duplicateTrack (track : Int32)
  | missingTimestamp
  | encodingMismatch (track : Int32) (encoding : Encoding) (kind : ValueKind)
  | unsupportedEncoding (encoding : Encoding)
  | unknownEncoding (tag : Int32)
  | corrupt (corruption : Corruption)
  | descriptorNotFound (id : UInt64)
  | file (action : Action) (fault : FileFault)
  | configuration (flaw : ConfigFlaw)
  | withCleanup (cause cleanup : Error)
  deriving DecidableEq, Repr

def StoreId.Flaw.message : StoreId.Flaw → String
  | .absent => "store id not present"
  | .malformed text flaw => s!"malformed store id {Quoted.quote text}: {flaw.message}"
  | .notRandom text => s!"store id {text} is not a UUIDv4"
  | .described text => text

def Corruption.message : Corruption → String
  | .tooFewBytes count available =>
    s!"expected {count} integers but only {available} bytes are available"
  | .codeTruncated position => s!"var-byte code truncated at byte {position}"
  | .codeOverflow => "var-byte code overflows 32 bits"
  | .codeTooLong => "var-byte code longer than 5 bytes"
  | .descriptorTooShort id length => s!"descriptor {id} is too short: {length} bytes"
  | .descriptorTrailing id length => s!"descriptor {id} has {length} trailing bytes"
  | .tracksNotAscending id previous next =>
    s!"descriptor {id} track ids are not strictly ascending ({previous} before {next})"
  | .negativeOffset offset => s!"negative field offset {offset}"
  | .offsetBeyondFields offset region =>
    s!"field offset {offset} beyond field region of {region} bytes"
  | .offsetsDecrease previous next => s!"field offsets decrease ({previous} before {next})"
  | .negativeLength length => s!"negative field length {length}"
  | .unusedBytes track count consumed length =>
    s!"track {track} decoded {count} integers from {consumed} of {length} bytes"
  | .lengthMismatch track held declared =>
    s!"track {track} holds {held} bytes but the index declares {declared}"
  | .invalidText track flaw => s!"track {track} holds invalid UTF-8: {flaw.message}"
  | .invalidEpoch text flaw => s!"invalid epoch \"" ++ text ++ s!"\": {flaw.message}"
  | .described text => text

def ArgumentFlaw.message : ArgumentFlaw → String
  | .encodingName name => s!"unknown encoding name: {name}"
  | .negativeTimestamp timestamp => s!"timestamp must not be negative: {timestamp}"
  | .negativeEpoch epoch => s!"negative epoch specified: {epoch}"
  | .tooManyElements track count => s!"track {track} holds too many elements: {count}"
  | .tooManyTracks count => s!"too many tracks: {count}"
  | .fieldsTooLarge length => s!"chunk field data too large: {length} bytes"
  | .described text => text

def ConfigFlaw.message : ConfigFlaw → String
  | .zeroCacheSize => "store.cache_size_bytes must be greater than 0"
  | .described text => text

def Action.message : Action → String
  | .openFile path => s!"open {path}"
  | .selectMeta => "select meta"
  | .insertMeta => "insert meta"
  | .migrate => "execute migration"
  | .insertDescriptor => "insert descriptor"
  | .selectDescriptor => "select descriptor"
  | .insertChunk => "insert chunk"
  | .selectChunk => "select chunk"
  | .selectChunkRange => "select chunk range"
  | .selectMaxTimestamp => "select max timestamp"
  | .described text => text

def FileFault.message : FileFault → String
  | .unavailable => "the file is no container or is in use"
  | .noParents => "the parent directories can't be created"
  | .tableTypes table key value => s!"redb table error: {table} is of type Table<{key}, {value}>"
  | .described text => text

namespace Error

def message : Error → String
  | alreadyOpened => "store has already been opened"
  | storeClosed => "store is closed"
  | notWritable => "store is not writable"
  | schemaTooOld version expected => s!"schema version too old: {version}, expected: {expected}"
  | migrationFailed version script _ =>
    s!"migration from version {version} failed (script {script})"
  | invalidIdentity flaw => s!"invalid store identity: {flaw.message}"
  | epochAlreadySet => "epoch has already been set and can only be set once"
  | invalidArgument flaw => s!"invalid argument: {flaw.message}"
  | reservedKey key => s!"reserved meta key can't be set: {key}"
  | unknownTrack track => s!"track {track} is not registered with the descriptor"
  | duplicateField track => s!"value for track {track} has already been set"
  | duplicateTrack track => s!"track {track} has been added to the descriptor more than once"
  | missingTimestamp => "timestamp not set"
  | encodingMismatch track encoding kind =>
    s!"track {track} has encoding {encoding.name}, which can't hold {kind.name} values"
  | unsupportedEncoding encoding => s!"encoding {encoding.name} is not supported for field data"
  | unknownEncoding tag => s!"unknown encoding tag: {tag}"
  | corrupt corruption => s!"corrupt data: {corruption.message}"
  | descriptorNotFound id => s!"descriptor not found: {id}"
  | file action fault =>
    s!"backing store error while trying to {action.message}: {fault.message}"
  | configuration flaw => s!"configuration error: {flaw.message}"
  | withCleanup cause cleanup => s!"{cause.message} (cleanup failed as well: {cleanup.message})"

def root : Error → Error
  | withCleanup cause _ => cause.root
  | e => e

def sources : Error → List String
  | migrationFailed _ _ cause | withCleanup cause _ => cause.message :: cause.sources
  | file _ fault => [fault.message]
  | _ => []

def involvesFile : Error → Bool
  | file _ _ => true
  | migrationFailed _ _ cause => cause.involvesFile
  | withCleanup cause cleanup => cause.involvesFile || cleanup.involvesFile
  | _ => false

def isNotFound (e : Error) : Bool :=
  match e.root with
  | descriptorNotFound _ => true
  | _ => false

def isCorruption (e : Error) : Bool :=
  match e.root with
  | corrupt _ | unknownEncoding _ | invalidIdentity _ => true
  | _ => false

def isMisuse (e : Error) : Bool :=
  match e.root with
  | alreadyOpened | storeClosed | notWritable | epochAlreadySet | invalidArgument _ | reservedKey _
  | unknownTrack _ | duplicateField _ | duplicateTrack _ | missingTimestamp
  | encodingMismatch _ _ _ | unsupportedEncoding _ => true
  | _ => false

end Error
end ChunkStore
