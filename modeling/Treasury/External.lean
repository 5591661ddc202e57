import Treasury.Core.Primitives
import Treasury.Kit.Json.Print

/-! What the crates take from third-party libraries: the SHA-256 digest, the
quoting of strings and the reader of `serde_json`. Each is a parameter with the
part of its documentation that the crates rely on. -/
namespace Treasury
open Kit Kit.Json

/-- The reader refuses a text in which this many arrays and objects are open. -/
def recursionLimit : Nat := 128

class External where
  sha256 : Bytes → ContentHash
  json : Quoting
  /-- `serde_json::from_str` at the type `Value`. -/
  fromStr : String → Option Value
  fromStr_print : ∀ v, Integral v → nesting v < recursionLimit →
    fromStr (String.ofList (print json v)) = some (asRead v)

export External (sha256 json fromStr)

def toText [External] (v : Value) : String := String.ofList (print json v)

end Treasury
