import SqlTyping.Text.CharSet

/-!
# Lower case

`lower` puts a text into lower case by the full default mapping of the Unicode standard, version
17.0. Only two letters do not map to one fixed letter: a capital I with a dot above becomes two
characters, and a capital sigma becomes a final sigma at the end of a word.
-/

namespace SqlTyping.Text

/-- The letters `first`, `first + step`, ..., `last` are capitals, and the small letter of each is
`shift` code points further on. -/
structure CapitalRange where
  first : Nat
  last : Nat
  step : Nat
  shift : Int

def CapitalRange.contains (range : CapitalRange) (code : Nat) : Bool :=
  range.first ≤ code && code ≤ range.last && (code - range.first) % range.step == 0

/-- The ranges from `start` on, each by the number of code points left out before it, the number of
its letters after the first one, the step, and twice the shift, or one less if it goes back. -/
def CapitalRange.ofRuns (start : Nat) : List Nat → List CapitalRange
  | skipped :: more :: step :: shift :: rest =>
    let first := start + skipped
    let last := first + more * step
    let shift : Int := if shift % 2 = 0 then (shift / 2 : Nat) else -((shift + 1) / 2 : Nat)
    ⟨first, last, step, shift⟩ :: ofRuns (last + 1) rest
  | _ => []

/-- The capitals beyond ASCII that map to one small letter. -/
def capitals : List CapitalRange := CapitalRange.ofRuns 0 (CharSet.unpack [
  0x883e2188116188194f222322227222e2221019e30222301cc60122101cb60012111ab60012201eb2001ca6001e,
  0xa60012101ab6001eb6101ec6001ac60012301ec6001ad6101cd60222101ce60012101ce62012101ce60012111a,
  0xe60122101ee60012301270140012101400121014081222812220140122101983001fd10b222101b8418122701e,
  0xa9a50012101d850018a9a52012101d86001a92001e9204229c4122301281018d3601c91121a91101882111ef11,
  0x8218811811881b4018281b122501fe12012101d10012221b840f118c20f3188186822291a322101e306222f522,
  0x2d418c199d5d4188bc310188bc350188bc3aab1f9118cefa205182baa40126a51ffdb1221ffdb1885a91229101,
  0xdfdd31f5229171f18151f1a171f18171f18151f1b132f18171f18371f18171f18171f18111f1011ba200192b13,
  0x1bd200192b111f1011f83c111f1011fb3001d1b111ff3011bf3001929d4019fad3301dfd84001b9a8460187d5f,
  0x1184b2012aec1931c68ec3f518c186012101ddf95001b9fe1001d9f952222101fe8a50019ff95001df8a5001bf,
  0x8a5101220128111df9a509622811224012d9dc7e222b2d122f826223e322a1122101f88a9204224012101f99dc,
  0x2212239122101f8adc2001dbadc2001daadc200198adc2001f8adc2101bc8dc2001ba9dc20019d8dc200188d30,
  0x722101fb1001d8adc2001fd9a920122101d9bdc2072210198aec283012bdcb5931881d8b2f418a1892b418a1cb,
  0x2a11e911e11e91161e91111e91adb3a61882db2d21881afc5f3188188ea5f31881881831e6f89d7941c8188888])

/-- The property `Cased`: a sigma after one of these may end a word. -/
def cased : CharSet := .ofRuns 0 (CharSet.unpack [
  0x981a36a3f51a11415f21f31b831448a32b472e358c11a542224116113111c21ba11b9281ec21e49195fac5e411,
  0x512b5148ca1ea126a8a4b15b523881883881ea4262e4262811111111f32d61711331734264d15317ce11d1182d,
  0x1dc11412a111356111111416412455419284329ec1c6eac3dc36432c1e41151aacc7e5a2e3c82ec1341d91c261,
  0x3dec1b51e168a188df47c159982a36a3dca28a18c1c44c4ce1b11f117121b11f11712b871231a5191d8b2b6d1b,
  0x6db1e2a1e2abc58818cda58818493293cdca6da11f81122122241c11117198114281171c3141511371ca529319,
  0x31f31931f31931f31931f3193181cec3a11c266d84e7aaa4c81cdf3a36a36a3888888888888888888888888888])

/-- The property `Case_Ignorable`: characters passed over when looking for the letters around a
sigma. -/
def caseIgnorable : CharSet := .ofRuns 0 (CharSet.unpack [
  0xf4161b11b4111f81141114122fe7883424191211bf37f9315196d511121211c51b16a1b111b41a1d2821dc1811,
  0xa11494111e3b3bb1b1a7b141218383b53c517259195a7f61114814137a12d11f11a7144811c22a312297142422,
  0x331e3231b12971451241c22e2611a71211481172b12e31d71c11a6131f6113531472b12d31a71216152c22c329,
  0x7244811c22d3189117311ab1127b191ac11291911179912b311111f6e115125b11c4911ec1416122293243824d,
  0x112261f11eb118c913aee13d32e32e328812178112b13151d55b619812a41ee134291163bb3221a71171111281,
  0x6a121f4181e52c1c248611511518591c128442213871123113a781228816aa131d117416132a6f7d11a4dc1df6,
  0x113b13d13d13d12c15812a1121259651a111d1182d1b694b9e529e13df11f118c184f51da71c443551db16db13,
  0xeacf61acb26e941ac141a111c348a12e1a4e911f23ec1432811314193251fa22a3a2d11e48193b1e5386124229,
  0x21d22a8162222c11811b41b11b6113225211b31e125211cc159139f1121418ecf41ba292df818231c182a41219,
  0xd217161b11b4111f51d52b811d2398811ac31da25d88261a5191e8913125485341dc22df814e41a3511bf42831,
  0xc66e81b1964bf11e6f195122a13964222141a11a63c45181e71c12c691a1421fb1321126121db21381d2297231,
  0xd4735e816d111111e12da1812311f21ca16114212ed346212b32da1812112ad11112611dc11112415b84911288,
  0x4211418a24224184a18562481191623e5d112e831131199371611aa1e2271212af16311217118912311198119b,
  0x42b12c655111f21daba1926f189be2c13388f45b77914cf73852ac71f792881212d12cfff341712eba6214cb99,
  0x1e52f28c813918227e34ca23bfe3f64a6811e11e251f18ad271922712155e79418c2e18e51d74bf75ef32be312,
  0x172519118a77dd181fda55988e8831e38c18828e38888888888888888888888888888888888888888888888888])

/-- The small letter of `c`, for a letter that has one of its own. -/
def lowerChar (c : Char) : Char :=
  if c.toNat < 128 then c.toLower
  else match capitals.find? (·.contains c.toNat) with
    | some range => Char.ofNat (c.toNat + range.shift).toNat
    | none => c

/-- Does a letter come first, once characters without case are passed over? -/
def startsCased (cs : List Char) : Bool :=
  match cs.dropWhile (caseIgnorable.contains ·) with
  | c :: _ => cased.contains c
  | [] => false

/-- Lower case of the characters `cs`, where `before` are those in front of them, last one first. -/
def lowerChars (before : List Char) : List Char → List Char
  | [] => []
  | c :: rest =>
    let small :=
      if c = '\u0130' then ['i', '\u0307']
      else if c = '\u03a3' then
        [if startsCased before && !startsCased rest then '\u03c2' else '\u03c3']
      else [lowerChar c]
    small ++ lowerChars (c :: before) rest

def lower (text : String) : String := String.ofList (lowerChars [] text.toList)

end SqlTyping.Text
