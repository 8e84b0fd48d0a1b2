import RemoteHub.Lib.Text
import RemoteHub.Lib.Trim

/-!
# Texts in the browser

`trim` and `\s` of JavaScript, which take other characters for white space than Rust does, and what a
text's lower case is where only ASCII is concerned.
-/

namespace Web

/-- White space and line terminators of JavaScript. -/
def isWhitespace (c : Char) : Bool :=
  let n := c.toNat
  (0x9 ≤ n && n ≤ 0xd) || n = 0x20 || n = 0xa0 || n = 0x1680 || (0x2000 ≤ n && n ≤ 0x200a) || n = 0x2028 ||
    n = 0x2029 || n = 0x202f || n = 0x205f || n = 0x3000 || n = 0xfeff

/-- `String.prototype.trim`. -/
def trim (s : String) : String := .ofList (Trim.trimBy isWhitespace s.toList)

end Web
