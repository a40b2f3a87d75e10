import RouteSplit.Digest.Sha256

/-!
# Content hashes

- `contentHash`: the short name of a chunk's content.
-/

namespace RouteSplit

def Digest.hexByte (b : UInt8) : List Char :=
  [Nat.digitChar (b.toNat / 16), Nat.digitChar (b.toNat % 16)]

/-- The first five bytes of the digest of a text, in hexadecimal. -/
def contentHash (text : String) : String :=
  String.ofList ((Digest.sha256 text.toUTF8.toList).take 5 |>.flatMap Digest.hexByte)

end RouteSplit
