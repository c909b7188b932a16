import ChunkStore.Document
import ChunkStore.Error

namespace ChunkStore

structure StoreConfig where
  cacheSizeBytes : Nat := 16 * 1024 * 1024
  createParentDirs : Bool := true
  /-- The most descriptors that are remembered, 0 for any number. -/
  descriptorCacheCapacity : Nat := 1024
  deriving DecidableEq, Repr

structure LoggingConfig where
  level : String := "warn"
  deriving DecidableEq, Repr

structure Config where
  store : StoreConfig := {}
  logging : LoggingConfig := {}
  deriving DecidableEq, Repr

namespace StoreConfig

def validate (c : StoreConfig) : Except Error Unit :=
  if c.cacheSizeBytes = 0 then .error (.configuration .zeroCacheSize) else .ok ()

def makesParents (c : StoreConfig) (writable : Bool) : Bool :=
  writable && c.createParentDirs && c.validate.isOk

def ofDocument? (strict : Bool) (d : Document) : Option StoreConfig :=
  let default : StoreConfig := {}
  let names := ["cache_size_bytes", "create_parent_dirs", "descriptor_cache_capacity"]
  match d.members? strict names with
  | some [cacheSize, parents, capacity] => do
    let cacheSizeBytes ← Document.member? Document.size? default.cacheSizeBytes cacheSize
    let createParentDirs ← Document.member? Document.boolean? default.createParentDirs parents
    let descriptorCacheCapacity ←
      Document.member? Document.size? default.descriptorCacheCapacity capacity
    return { cacheSizeBytes, createParentDirs, descriptorCacheCapacity }
  | _ => none

end StoreConfig

def LoggingConfig.ofDocument? (strict : Bool) (d : Document) : Option LoggingConfig :=
  let default : LoggingConfig := {}
  match d.members? strict ["level"] with
  | some [level] => (Document.member? Document.text? default.level level).map LoggingConfig.mk
  | _ => none

def Config.ofDocument? (strict : Bool) (d : Document) : Option Config :=
  match d.members? strict ["store", "logging"] with
  | some [store, logging] => do
    let store ← Document.member? (StoreConfig.ofDocument? strict) {} store
    let logging ← Document.member? (LoggingConfig.ofDocument? strict) {} logging
    return { store, logging }
  | _ => none

end ChunkStore
