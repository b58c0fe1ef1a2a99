/-! Percent encoding of text in addresses: a byte outside the kept characters is written as `%` and two digits. -/

namespace Stencil.Text.Percent

/-- A digit of base sixteen, in capitals. -/
def hexDigit (n : Nat) : Char :=
  Char.ofNat (if n < 10 then 0x30 + n else 0x37 + n)

/-- One byte as `%` and two digits. -/
def encodeByte (b : UInt8) : List Char :=
  ['%', hexDigit (b.toNat / 16), hexDigit (b.toNat % 16)]

/-- The characters kept in a part of an address. -/
def keptInComponent (c : Char) : Bool :=
  c.isAlphanum || "-_.!~*'()".toList.contains c

/-- The characters kept in a whole address, where the separators have their meaning. -/
def keptInAddress (c : Char) : Bool :=
  keptInComponent c || ";,/?:@&=+$#".toList.contains c

/-- How one character is written. -/
def encodeChar (kept : Char → Bool) (c : Char) : List Char :=
  if kept c then [c] else (String.utf8EncodeChar c).flatMap encodeByte

/-- Text with all but the kept characters encoded. -/
def encode (kept : Char → Bool) (text : String) : String :=
  String.ofList (text.toList.flatMap (encodeChar kept))

end Stencil.Text.Percent
