import Treasury.Kit.Json.Quote
import Treasury.Kit.Sha256
import Treasury.External

/-! One implementation of the external functions: SHA-256 itself, and a writer
and a reader of compact JSON. It shows that what is asked of them can be met, and
results about concrete inputs are stated at it. -/
namespace Treasury
open Kit Kit.Json

@[reducible] def reference : External where
  sha256 bytes := ⟨Sha256.digest bytes, Sha256.digest_length bytes⟩
  json := standard
  fromStr s := parse standardReader recursionLimit s.toList
  fromStr_print v integral shallow := by
    rw [String.toList_ofList, parse_print standardReader recursionLimit (by decide) v integral,
      if_pos shallow]

end Treasury
