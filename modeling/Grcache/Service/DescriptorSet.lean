import Grcache.Base.BTreeSet
import Grcache.Service.Spec

/-!
# Loading descriptor sets

`from_source` reads a descriptor set from a file, a bucket or inline data. What
the file system, base64 and protobuf answer is the environment's.
-/

namespace Grcache.Service

open Base (Bytes Exec unwrapOk raise)

inductive DescriptorSetSource
  | file (path : String)
  | bucket (name hash : String)
  | inline (data : String)
  deriving DecidableEq, Repr

inductive LoadError
  | fileRetrieval (error : String)
  | base64DecodeError (error : String)
  | protoParse (error : ProtobufError)
  | bucketLoad (error : String) (bucketName : String)
  | checksumMismatch (reference file : String)
  deriving DecidableEq, Repr

/-- The outside of a load. The contents of a file may differ from one load to
the next, so every load carries its own environment. -/
structure Env where
  readFile : String → Except String Bytes
  decodeBase64 : String → Except String Bytes
  parseFromBytes : Bytes → Except ProtobufError FileDescriptorSet
  sha256Hex : Bytes → String
  linker : Linker

abbrev LoadFromBucket := String → String → Exec String Bytes

/-- The only context the proxy passes: it has no buckets. -/
def dummyPanicContext : LoadFromBucket := fun _ _ => .error .panic

def readSource (env : Env) (context : LoadFromBucket) :
    DescriptorSetSource → Exec LoadError Bytes
  | .file path => raise ((env.readFile path).mapError .fileRetrieval)
  | .bucket name hash =>
    match context name hash with
    | .error .panic => .error .panic
    | .error (.error error) => .error (.error (.bucketLoad error name))
    | .ok buf =>
      let fileHash := env.sha256Hex buf
      if hash ≠ fileHash then .error (.error (.checksumMismatch hash fileHash)) else .ok buf
  | .inline data => raise ((env.decodeBase64 data).mapError .base64DecodeError)

def fromSource (env : Env) (context : LoadFromBucket) (source : DescriptorSetSource) :
    Exec LoadError FileDescriptorSet := do
  let buf ← readSource env context source
  raise ((env.parseFromBytes buf).mapError .protoParse)

/-- The body of a spawned load up to its write: both `unwrap`s are fatal to the
task only. -/
def loadSpec (env : Env) (source : DescriptorSetSource) (service : QualifiedService) :
    Exec Empty ServiceSpec := do
  let descriptorSet ← unwrapOk (fromSource env dummyPanicContext source)
  let (spec, _validationErrors) ←
    unwrapOk (raise (ServiceSpec.build env.linker descriptorSet service))
  pure spec

end Grcache.Service
