import Playground.Text.Quoted
import Playground.Text.Utf8
/-!
# What faults of UTF-8 read like

A single position is named by what stands there, and a stretch by its first
and its last position.
-/

namespace Playground.Utf8

/-- A stretch of `count` positions from `start` on. -/
def stretch (start count : Nat) : Text :=
  Text.ofNat start ++ text "-" ++ Text.ofNat (start + count - 1)

/-- What a text that cannot be encoded reads like. -/
def Unencodable.message (bad : Unencodable) : Text :=
  let place :=
    if bad.count = 1 then
      text "character '\\u" ++ Text.hexDigits 4 bad.first.val ++ text "' in position " ++
        Text.ofNat bad.start
    else text "characters in position " ++ stretch bad.start bad.count
  text "'utf-8' codec can't encode " ++ place ++ text ": surrogates not allowed"

/-- What a fault reads like. -/
def Fault.message : Fault → Text
  | badStart => text "invalid start byte"
  | badContinuation => text "invalid continuation byte"
  | truncated => text "unexpected end of data"

/-- What octets that cannot be decoded read like. -/
def Malformed.message (bad : Malformed) : Text :=
  let place :=
    if bad.count = 1 then
      text "byte 0x" ++ Text.hexDigits 2 bad.first.toNat ++ text " in position " ++
        Text.ofNat bad.start
    else text "bytes in position " ++ stretch bad.start bad.count
  text "'utf-8' codec can't decode " ++ place ++ text ": " ++ bad.fault.message

end Playground.Utf8
