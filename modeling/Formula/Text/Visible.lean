import Formula.Text.Blank
import Formula.Text.Extender
import Formula.Text.Unassigned

set_option autoImplicit false

/-! # Visible characters

A character is visible if it shows by itself, as itself: it is assigned, is not a control or format
character, is not left out of a display, is no white space but the space, and does not melt into the
character before it. -/

namespace Formula

/-- The control characters (general category Cc). -/
def isControl (c : Char) : Bool :=
  c.toNat < 0x20 || (0x7f ≤ c.toNat && c.toNat ≤ 0x9f)

/-- The characters that steer how others are laid out (general category Cf of Unicode 17.0). -/
def formatting : CharClass :=
  ⟨[(0x00ad, 0x00ad), (0x0600, 0x0605), (0x061c, 0x061c), (0x06dd, 0x06dd), (0x070f, 0x070f),
    (0x0890, 0x0891), (0x08e2, 0x08e2), (0x180e, 0x180e), (0x200b, 0x200f), (0x202a, 0x202e),
    (0x2060, 0x2064), (0x2066, 0x206f), (0xfeff, 0xfeff), (0xfff9, 0xfffb), (0x110bd, 0x110bd),
    (0x110cd, 0x110cd), (0x13430, 0x1343f), (0x1bca0, 0x1bca3), (0x1d173, 0x1d17a),
    (0xe0001, 0xe0001), (0xe0020, 0xe007f)],
    by decide +kernel⟩

/-- The characters of which nothing is drawn where they are not supported (the property
    Default_Ignorable_Code_Point of Unicode 17.0). -/
def ignorable : CharClass :=
  ⟨[(0x00ad, 0x00ad), (0x034f, 0x034f), (0x061c, 0x061c), (0x115f, 0x1160), (0x17b4, 0x17b5),
    (0x180b, 0x180f), (0x200b, 0x200f), (0x202a, 0x202e), (0x2060, 0x206f), (0x3164, 0x3164),
    (0xfe00, 0xfe0f), (0xfeff, 0xfeff), (0xffa0, 0xffa0), (0xfff0, 0xfff8), (0x1bca0, 0x1bca3),
    (0x1d173, 0x1d17a), (0xe0000, 0xe0fff)],
    by decide +kernel⟩

/-- Whether the character shows by itself, as itself. -/
def isVisible (c : Char) : Bool :=
  !(isControl c || (isWhiteSpace c && c != ' ') || formatting.contains c || ignorable.contains c ||
    extender.contains c || unassigned.contains c)

end Formula
