import Stencil.Text.Blank
import Stencil.Text.GraphemeExtend
import Stencil.Text.Unassigned

/-! Characters that a reader cannot tell from the text around them: those without a picture of their own, those that
    join the picture of the character before, and every blank but the plain space. -/

namespace Stencil.Text

/-- Whether a character is a control: the general category `Cc`. -/
def isControl (c : Char) : Bool :=
  c.toNat < 0x20 || (0x7F ≤ c.toNat && c.toNat ≤ 0x9F)

/-- The ranges of the characters that only steer the layout of others: the general category `Cf`. -/
def formatRanges : List (Nat × Nat) :=
  [(0xAD, 0xAD), (0x600, 0x605), (0x61C, 0x61C), (0x6DD, 0x6DD), (0x70F, 0x70F), (0x890, 0x891), (0x8E2, 0x8E2),
   (0x180E, 0x180E), (0x200B, 0x200F), (0x202A, 0x202E), (0x2060, 0x2064), (0x2066, 0x206F), (0xFEFF, 0xFEFF),
   (0xFFF9, 0xFFFB), (0x110BD, 0x110BD), (0x110CD, 0x110CD), (0x13430, 0x1343F), (0x1BCA0, 0x1BCA3),
   (0x1D173, 0x1D17A), (0xE0001, 0xE0001), (0xE0020, 0xE007F)]

/-- The ranges without a common meaning: the general category `Co`. -/
def privateRanges : List (Nat × Nat) :=
  [(0xE000, 0xF8FF), (0xF0000, 0xFFFFD), (0x100000, 0x10FFFD)]

/-- The ranges of the characters that show nothing where they are not supported: the property
    `Default_Ignorable_Code_Point`. -/
def ignorableRanges : List (Nat × Nat) :=
  [(0xAD, 0xAD), (0x34F, 0x34F), (0x61C, 0x61C), (0x115F, 0x1160), (0x17B4, 0x17B5), (0x180B, 0x180F),
   (0x200B, 0x200F), (0x202A, 0x202E), (0x2060, 0x206F), (0x3164, 0x3164), (0xFE00, 0xFE0F), (0xFEFF, 0xFEFF),
   (0xFFA0, 0xFFA0), (0xFFF0, 0xFFF8), (0x1BCA0, 0x1BCA3), (0x1D173, 0x1D17A), (0xE0000, 0xE0FFF)]

/-- The halfwidth sound marks of kana extend the character before them and take a place of their own all the same. -/
def isSoundMark (c : Char) : Bool :=
  c = '\uFF9E' || c = '\uFF9F'

/-- Whether a character is hidden. -/
def isHidden (c : Char) : Bool :=
  isControl c || (isBlank c && c != ' ') || inRanges formatRanges c || inRanges privateRanges c
    || inRanges ignorableRanges c || isUnassigned c || (isExtend c && !isSoundMark c)

end Stencil.Text
