import Grcache.Grpc.Headers

/-!
# gRPC status trailers

`GrpcStatus::parse` reads the first `grpc-status` trailer as a `u8`.
-/

namespace Grcache.Grpc

open Base (Bytes)
open Http

inductive IntErrorKind
  | empty
  | invalidDigit
  | posOverflow
  deriving DecidableEq, Repr

inductive StatusError
  | noStatusHeader
  | invalidStatusHeaderText
  | invalidStatusHeaderInt (kind : IntErrorKind)
  deriving DecidableEq, Repr

structure GrpcStatus where
  code : UInt8
  deriving DecidableEq, Repr

def fromUtf8 (b : Bytes) : Option String := String.fromUTF8? ⟨b.toArray⟩

/-- The digits of an unsigned number, most significant first. Rust checks a digit
before it checks the product for overflow. -/
def parseDigits (acc : Nat) : List Char → Except IntErrorKind UInt8
  | [] => .ok (UInt8.ofNat acc)
  | c :: cs =>
    if ¬ c.isDigit then .error .invalidDigit
    else
      let next := acc * 10 + (c.toNat - '0'.toNat)
      if 256 ≤ next then .error .posOverflow else parseDigits next cs

/-- `str::parse::<u8>`: one leading plus is allowed, a minus is not. -/
def parseU8 : List Char → Except IntErrorKind UInt8
  | [] => .error .empty
  | ['+'] => .error .invalidDigit
  | '+' :: cs => parseDigits 0 cs
  | cs => parseDigits 0 cs

def GrpcStatus.parse (trailers : HeaderMap) : Except StatusError GrpcStatus :=
  match HeaderMap.get trailers (ascii "grpc-status") with
  | none => .error .noStatusHeader
  | some statusValueBin =>
    match fromUtf8 statusValueBin.bytes with
    | none => .error .invalidStatusHeaderText
    | some statusValueStr =>
      match parseU8 statusValueStr.toList with
      | .error kind => .error (.invalidStatusHeaderInt kind)
      | .ok code => .ok ⟨code⟩

def GrpcStatus.isOk (status : GrpcStatus) : Bool := status.code == 0

end Grcache.Grpc
