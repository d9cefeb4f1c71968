import SqlTyping.Text.CharSet

/-!
# Decimal digits

The characters of general category `Nd`, the decimal digits of every script, as of version 16.0 of
the Unicode standard.
-/

namespace SqlTyping.Text

def decimalDigits : CharSet := .ofRuns 0 (CharSet.unpack [
  0x86a1ec83a1e82a1e83a1cb6a1ee1a1ee1a1ee1a1ee1a1ee1a1ee1a1ee1a1ee1a1ee1a18c1a1ee1a1e81a1ea4a1,
  0xe81a1e8d3a1e4a1cd4a1882a1ec2a16a1ee2a1ea1a1e82a16a1e8fc81a1eca1a1e4a1e83a1e2a1ea1a1ea6a1ea,
  0xc95a1e8e2a1e8a4a16a1cbc1a1882a1c7a18a2a1ea4a1ea5a1ee1a1ee5a1ec1a16c2c91a1ec6a1ec1a1eaa1a1e,
  0xa1a1ee3a1e81a1ec6a1eaf84a1ecc4a1ea1a1e82a1ea81a1eedf5a1cab5a688d4a1ec6a1ee7a1fe3a1dad1a1ea,
  0xa91a18888888888888888888888888888888888888888888888888888888888888888888888888888888888888])

def isDecimalDigit (c : Char) : Bool :=
  if c.toNat < 128 then c.isDigit else decimalDigits.contains c

end SqlTyping.Text
