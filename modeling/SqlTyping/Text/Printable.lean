import SqlTyping.Text.CharSet

/-!
# Characters that can be shown as they are

Control and format characters, private and unassigned ones, fillers and selectors that a display
leaves out, and all separators but the blank show nothing. A combining mark shows only on the
character before it. Both sets are those of version 17.0 of the Unicode standard.
-/

namespace SqlTyping.Text

/-- The general categories `C` and `Z`, less the blank, with `Default_Ignorable_Code_Point`. -/
def unprintable : CharSet := .ofRuns 0 (CharSet.unpack [
  0x084fb1a4c119ca11852647111c21d961e42a6231f681b34692e218831862b72dc1e1b72962f11c3211b15847b9,
  0x119c2181222e2171134291222481142152932316422e21712121221154223317411792a13191131e21712152a1,
  0x131321f142c17713181222e217121529122237342152a2a1216331432111232333c14533142161e1d25d1131f2,
  0x1822911314721312242a17e2131f21a11529113147253142a113c1d1131b613164822a3131a238319111273146,
  0x111816a123c1a74d3d421115183111f22511171a124848911c44f41c41f11d1d4e8311512f9228d31427111429,
  0x514294142711142f1197142b812843a36ea126288a11c339b17e2918391c2c1d11312c1c62852a16a16b15a169,
  0xb17b55e81a1f31c14c1413a525b1c54a36b13e729811d32b16a16e12e52c1c2d911ec281c73f13e75b52b181b5,
  0x5ea81262e4262811111111f32d61f11e1261b223191928381f59222b31d13a4e194f1c924aba1e2b1d2cac32ef,
  0x55d5115128772e183917171717171717171ef1a4a319b1c1ea3a3821f71ea12fc15b51b61a51ea191861dd9973,
  0xf691cb5c28f281db3c2c73a168781e8181c16ce1b1e33e911b14941f691e12a12fc183c3a162626917171c74ef,
  0x12a16cced2c1f2496c8c82ed52ad1e47c155a3151112121a9a1848282a16b61b214451f824fb21e33626262337,
  0x17d122c11a31b2121f12e1a4bf1534d538b11d131f5e5a82d3396f1c34c491e35b55e31d44e1a5eb22a16c44c4,
  0x48581c6b1c11f117121b11f117123c6c1fe491e2a1818361a5191d816211c512312f21891819186b2125943b35,
  0xb3e4874c22a612581131d3234a1791788184f44c191e63d32b35a374c178a1991f6b6d1b67e581a16e43d38128,
  0xa3f31a51322826819194e581a5e2a3e4c3c2f291e914c491e715d1937a16d61a281f4918c11c2b1a21f5e77111,
  0x41f11b16b75a164181222e21712151a122232161572735b1a111211e41a11121141a112812d3cb115e389181a1,
  0xec2e62e4a4d81b1a16d1b2a76a16c2c3b32f14f29f2c7cc1ba1c18121281121e3122c191a1e81812e52b1b3891,
  0x81ba1d19917a1ea1818b1a4e1a16911d51e1a1d33842e21e19917121c5311219181a166121d412167a16c54a1e,
  0xe3937921953d3da11f1a6d1bbe1ec1fd115b1c83c995bc1d18e8282e2a1bbe75f8919fad1a7e8b39f817f31a14,
  0x9a11a16e326a1e81a1a1171d25b28e6a7e83bb1593293c5b914977928815b1791eabe195849c1be1dff8241712,
  0x1bc4f11d3321e1481c96c8c4bd15d13917a1248cd7df33ce66f2f192f1e52f291ce1c7ee3a1f42a91818e1d2e8,
  0x1af1c2c1c2c1fa19193f82da11f81122122241c11117198114281171c3141511371ca52cc42efa1f151f18a92f,
  0x366da371922712155e79418e1d53e12a142885f392a7518a7a5ea3b541883f31e28128c3714121f11d8328295c,
  0x914a1429ac1c81c91d7a8341b31211211a1141111614111111312112111111111121124171414111a119253151,
  0x92c62e94c54cc1c1f12f11f11d4a1ed287d3d1c549172e16ab29bf13923d13ab36c141f1c148781a168581e32c,
  0x142e191f48b581e12d13b1397114822c14a17ba21fc1d8828cbba184ebc812e9ab129ece1f1ed91ace4eb81acf,
  0x2b9d915adc82e8edcb388888888888888888888888888888888888888888888888888888888888888888888888])

/-- The marks that extend the character before them: general category `M` with the property
`Grapheme_Extend`. -/
def combining : CharSet := .ofRuns 0 (CharSet.unpack [
  0x88c18e1ba47f84d511121211891b186d2821dc17262214b41e3b3bb1b1a7919118341911315b53b791a583184f,
  0x61114814137a12d31a711124811911a12a312297142422331e3231b12971451241c22e2611a71121481173a12e,
  0x31b7111c1191185131f6113531472b12d31a712211331472b12c329721124811911a12d3189114123118119a11,
  0x27c181ac11291b179912b311111f6e115125b11c4911ec1416122293243824d112261f11ffa13aee14c33d32e3,
  0x28812178112b1911d5311de12a41ee134291163bb3221a711711112816a12186e52c1c2486a143e491c1284426,
  0x8711231158781228b231d117416132e838818ab194eff53d9218c184ad8169d12cafa741a18428a128a4131419,
  0x3251fa22a3a2d11e48193b111c53861242221c41b8162222c11811f51b6113225211a52811ed3121418ecf419c,
  0xb1828282d9f11ac31da25e8a33125485341dc22df8149815df42d916e81b1964bf11e6f195122a139642271d73,
  0xc45181e71c12c6911181421fb13246121db21381d229721111c11911e1735b811261121134311e12da1812311f,
  0x219a112611211212bd31246212b32da1812112ad1111281dc11112415b849112de31a14418a24224184a185624,
  0x81191623e5d112e831131199371611aa1e2271212af163112171189123111bb52b12c6553f21dcba116f189be2,
  0xc13388f45b778b821f749a11b12bdae429c991e52f2eb81536818127e34ca23bfe3f64a6811e11e251f18ad271,
  0x92271215cc118c27fe51d74cf74ef32be31217251ab77dd17deeb9838e38888888888888888888888888888888])

/-- Can the character be shown by itself? -/
def isPrintable (c : Char) : Bool :=
  (0x20 ≤ c.toNat && c.toNat < 0x7F)
    || (0x7F < c.toNat && !combining.contains c && !unprintable.contains c)

end SqlTyping.Text
