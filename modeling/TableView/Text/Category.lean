import TableView.Text.Numeral

namespace TableView.Text

abbrev Runs (α : Type) := Array (Nat × α)

namespace Runs

def search (runs : Runs α) (otherwise : α) (n low high : Nat) : α :=
  if h : low + 1 < high then
    let middle := (low + high) / 2
    if (runs.getD middle (0,otherwise)).1 ≤ n then search runs otherwise n middle high
    else search runs otherwise n low middle
  else (runs.getD low (0,otherwise)).2
termination_by high - low

def valueAt (runs : Runs α) (otherwise : α) (n : Nat) : α := runs.search otherwise n 0 runs.size

end Runs

inductive Category where
  | uppercaseLetter
  | lowercaseLetter
  | titlecaseLetter
  | modifierLetter
  | otherLetter
  | nonspacingMark
  | spacingMark
  | enclosingMark
  | decimalNumber
  | letterNumber
  | otherNumber
  | connectorPunctuation
  | dashPunctuation
  | openPunctuation
  | closePunctuation
  | initialPunctuation
  | finalPunctuation
  | otherPunctuation
  | mathSymbol
  | currencySymbol
  | modifierSymbol
  | otherSymbol
  | spaceSeparator
  | lineSeparator
  | paragraphSeparator
  | control
  | format
  | surrogate
  | privateUse
  | unassigned
deriving DecidableEq,Inhabited,Repr

namespace Category

def ofLetter : Char → Category
  | 'A' => .uppercaseLetter
  | 'B' => .lowercaseLetter
  | 'C' => .titlecaseLetter
  | 'D' => .modifierLetter
  | 'E' => .otherLetter
  | 'F' => .nonspacingMark
  | 'G' => .spacingMark
  | 'H' => .enclosingMark
  | 'I' => .decimalNumber
  | 'J' => .letterNumber
  | 'K' => .otherNumber
  | 'L' => .connectorPunctuation
  | 'M' => .dashPunctuation
  | 'N' => .openPunctuation
  | 'O' => .closePunctuation
  | 'P' => .initialPunctuation
  | 'Q' => .finalPunctuation
  | 'R' => .otherPunctuation
  | 'S' => .mathSymbol
  | 'T' => .currencySymbol
  | 'U' => .modifierSymbol
  | 'V' => .otherSymbol
  | 'W' => .spaceSeparator
  | 'X' => .lineSeparator
  | 'Y' => .paragraphSeparator
  | 'Z' => .control
  | 'a' => .format
  | 'b' => .surrogate
  | 'c' => .privateUse
  | _ => .unassigned

def encodedRuns : List String := [
  "32ZW3RT3RNORSRM2R10I2R3S2R26ANROULU26BNSOS33ZWR4TVRUVEPSaVUVS2KUB2RUKEQ3KR23AS7A24BS8BABABAB",
  "ABABABABABABABABABABABABABABABABABABABABABABABABA2BABABABABABABABA2BABABABABABABABABABABABAB",
  "ABABABABABABABABABABAB2ABABA3B2ABAB2AB3A2B4AB2AB3A3B2AB2ABABAB2ABA2BAB2AB3ABAB2A2BEA3B4EACBA",
  "CBACBABABABABABABABA2BABABABABABABABABA2BACBAB3ABABABABABABABABABABABABABABABABABABABABABABA",
  "BABABABABABABA7B2AB2A2BAB4ABABABABA69BE27B18D4U12D14U5D7UDUD17U112FABABDUAB2dD3BRA4d2UAR3AdA",
  "d2AB17Ad9A35BA2B3A3BABABABABABABABABABABABA5BABSAB2A2B51A48BABABABABABABABABABABABABABABABAB",
  "ABV5F2HABABABABABABABABABABABABABABABABABABABABABABABABABABAB2ABABABABABABA2BABABABABABABABA",
  "BABABABABABABABABABABABABABABABABABABABABABABABABABABABABABABABABABABABABABABABABd38A2dD6R",
  "41BRM2d2VTd45FMFR2FR2FRF8d27E4d4E2R11d6a3S2RT2R2V11FRa3R32ED10E21F10I4R2EF99ERE7FaV6F2D2FV4F",
  "2E10I3E2VE14RdaEF30E27F2d89E11FE14d10I33E9F2DV3RD2dF2T22E4FD9FD3FD5F2d15Rd25E3F2dRd11E5d24EU",
  "6Ed2a5d9F41ED24Fa32FG54EFGFE3G8F4GF2GE7F10E2F2R10IRD15EF2Gd8E2d2E2d22Ed7EdE3d4E2dFE3G4F2d2G",
  "2d2GFE8dG4d2Ed3E2F2d10I2E2T6KVTERF2d2FGd6E4d2E2d22Ed7Ed2Ed2Ed2E2dFd3G2F4d2F2d3F3dF7d4EdE7d",
  "10I2F3EFR10d2FGd9Ed3Ed22Ed7Ed2Ed5E2dFE3G5Fd2FGd2GF2dE15d2E2F2d10IRT7dE6FdF2Gd8E2d2E2d22Ed7Ed",
  "2Ed5E2dFEGFG4F2d2G2d2GF7d2FG4d2Ed3E2F2d10IVE6K10dFEd6E3d3Ed4E3d2EdEd2E3d2E3d3E3d12E4d2GF2G3d",
  "3Gd3GF2dE6dG14d10I3K6VTV5dF3GF8Ed3Ed23Ed16E2dFE3F4Gd3Fd4F7d2Fd3E2dE2d2E2F2d10I7dR7KVEF2GR8Ed",
  "3Ed23Ed10Ed5E2dFEGF5GdF2Gd2G2F7d2G6d2Ed2E2F2d10Id2EG12d2F2G9Ed3Ed41E2FE3G4Fd3Gd3GFEV4d3EG7K",
  "3E2F2d10I9KV6EdF2Gd18E3d24Ed9EdE2d7E3dF4d3G3FdFd8G6d10I2d2GR12d48EF2E7F4dT6ED8FR10I2R37d2EdE",
  "d5Ed24EdEd10EF2E9FE2d5EdDd7Fd10I2d4E32dE3V15RVR3V2F6V10I10KVFVFVFNONO2G8Ed36E4d14FG5FR2F5E",
  "11Fd36Fd8VF6Vd2V5R4V2R37d43E2G4FG6FG2F2G2FE10I6R6E2G2F4E3FE3G2E7G3E4F13EF2G2F6GFEG10I3GF2V",
  "38AdA5dA2d43BRD3B329Ed4E2d7EdEd4E2d41Ed4E2d33Ed4E2d7EdEd4E2d15Ed57Ed4E2d67E2d3F9R20K3d16E10V",
  "6d86A2d6B2dM620EVR17EW26ENO3d75E3R3J8E7d18E3FG9d19E2FG2R9d18E2F12d13Ed3Ed2F12d52E2FG7F8GF2G",
  "11F3RD3RTEF2d10I6d10K6d6RM4R3FaF10I6d35ED53E7d5E2F34EFE5d70E10d31Ed3F4G2F3G4d2GF6G3F4dV3d2R",
  "10I30E2d5E11d44E4d26E6d10IK3d34V23E2F2GF2d2R53EGFG7FdFGF2G8F6G10F2dF10I6d10I6d7RD6R2d14FH16F",
  "49d4FG47EFG5FGF5GF2G8Ed2R10I7R10V9F9V3R2FG30EG4F2G2FG3F2E10I44EFG2F3GFG3F2G8d4R36E8G8F2G2F3d",
  "5R10I3d3E10I30E6D2R9BAB5d43A2d3A8R8d3FR13FG7F4EF6EF2EG2FE5d44B63D13BD34B37D64FABABABABABABAB",
  "ABABABABABABABABABABABABABABABABABABABABABABABABABABABABABABABABABABABABABABABABABABABABABAB",
  "ABABABABABABABABABABABABABABABABABABABABABA9BABABABABABABABABABABABABABABABABABABABABABABABA",
  "BABABABABABABABABABABABABABABABABABABABABABABABABA9B8A6B2d6A2d8B8A8B8A6B2d6A2d8BdAdAdAdA8B8A",
  "14B2d8B8C8B8C8B8C5Bd2B4ACUB3U3Bd2B4AC3U4B2d2B4Ad3U8B5A3U2d3Bd2B4AC2Ud11W5a6M2RPQN2PQNP8RXY5a",
  "W9RPQ4R2L3RSNO11RSRL10RW5ad10aKD2d6K3SNOD10K3SNOd13D3d33T15d13F4HF3H12F15d2VA4VA2VB3A2B3ABVA",
  "2VS5A6VAVAVAV4AVB4AB4EB2V2B2A5SA4BVS2VBV16K35JAB4JK2V4d5S5V2S4VS2VS2VS7VS31V2S2VSVS31V268S8V",
  "NONO20V2S7VNO81VS30V25S40V6S72V22d11V21d60K78V22K183VS9VS54V8S111VS248VNONONONONONONO30K44V",
  "5SNO31SNONONONONO16S256V131SNONONONONONONONONONONO63SNONO32SNO258S48V21S2V6S39V2d32Vd105V48A",
  "48BAB3A2BABABAB4ABA2BA6B2D3ABABABABABABABABABABABABABABABABABABABABABABABABABABABABABABABABA",
  "BABABABABABABABABABABABABABABABABA2B6VABAB3FAB5d4RK2R38BdB5dB2d56E7dDR14dF23E9d7Ed7Ed7Ed7Ed",
  "7Ed7Ed7Ed7Ed32F2RPQPQ3RPQRPQ9RM2RMRPQ2RPQNONONONO5RD10R2M4RMRN13R2V3RNONONONOM34d26Vd89V12d",
  "214V26d16VW3RVDEJNONONONONO2VNONONONOMN2OV9J4F2GM5D2V3JDER2Vd86E2d2F2U2DEM90ER3DE5d43Ed94Ed",
  "2V4K10V32E38V9dV16E31Vd10K30V8KV15K32V10K39V15K320V6592E64V21013ED1143E3d55V9d40E6D2R268ED3R",
  "16E10I2E20dABABABABABABABABABABABABABABABABABABABABABABABEF3HR10FRDABABABABABABABABABABABABA",
  "BAB2D2F70E10J2F6R8d23U9D2UABABABABABABA3BABABABABABABABABABABABABABABABABABABABABABABABABABA",
  "BABABABABABD8BABAB2ABABABABABD2UABABEABA3BABABABABABABABABABAB5AB5ABABABABABABABAB4ABAB2ABAB",
  "ABABABABABABA21d3DABE2DB7EF3EF4EF23E2G2FG4VF3d6K2VTV6d52E4R8d2G50E16G2F8d2R10I6d18F6E3RER2EF",
  "10I28E8F2R23E11F2G11dR29E3d3FG47EF2G4F2G2F3G13RdD10I4d2R5EFD9E10I5Ed41E6F2G2F2G2F9d3EF8EFG2d",
  "10I2d4R16ED6E3VEGFG50EFE3F2E2F5E2FEFE24d2ED2R11EG2F2G2RE2DGF10d6E2d6E2d6E9d7Ed7Ed43BU4D9BD2U",
  "4d80B35E2GF2GF2GRGF2d10I6d11172E12d23E4d49E4d2048b6400c366E2d106E38d7B12d5B5dEF10ES13Ed5EdEd",
  "2Ed2Ed108E17U16d363EON16V64E2d54E7dV32d12ET3V16F7RNOR6d16FR2M2LNONONONONONONONO2RNO4R3L3Rd4R",
  "MNONONO3RSM3SdRT2R4d5Ed135E2dad3RT3RNORSRM2R10I2R3S2R26ANROULU26BNSOSNORNO2R10ED45E2D31E3d6E",
  "2d6E2d6E2d3E3d2TSUV2TdV4S2V10d3a2V2d12Ed26Ed19Ed2Ed15E2d14E34d123E5d3R4d45K3d9V53J4K17V2K3Vd",
  "13V3dV47d45VF130d29E3d49E15dF27K4d32E4K9d20EJ8EJ5d38E5F5d30EdR36E4d8ER5J42d40A40B78E2d10I6d",
  "36A4d36B4d40E8d52E11dR11Ad15Ad7Ad2Ad11Bd15Bd7Bd2B3d52E12d311E9d22E10d8E24d6Dd42Dd9D69d6E2dEd",
  "44Ed2E3dE2d23EdR8K23E2V7K31E8d9K48d19Ed2E5d5K22E6K3dR26E5dR64d56E4d2K2E16K2d46KE3Fd2F5d4F4Ed",
  "3Ed29E2d3F4dF9K7d9R7d29E2KR29E3K32d8EV28E2F4d5K7R9d54E3d7R22E2d8K19E5d8K18E7d4R12d7K80d73E",
  "55d51A13d51B7d6K36E4F8d10I6d10I4EDE22A3d5FMD22B8d2S208d31Kd42Ed2FM2d2E16d3E55d4F29E10KE8d22E",
  "11F4K5R22d18E4F4R38d21E7K20d23E9dGFG53E15F7R4d20K10IF2E2FE9d3FG45E3G4F2G2F2Ra4RF10da2d25E7d",
  "10I6d3F36E5FG8Fd10I4RE2GE8d35EF2RE9d2FG48E3G9F2G4E4R4FRGF10IERE3Rd20K11d18Ed25E3G3F2GFG2F6RF",
  "2EF62d7EdEd4Ed15Ed10ER6d47EF3G8F5d10I6d2F2Gd8E2d2E2d22Ed7Ed2Ed5Ed2FE2GF4G2d2G2d3G2dE6dG5d5E",
  "2G2d7F3d5F11d10EdE2dEd38EdE3G6FdG2dGd4Gd2GFGFEFE2Rd2R8d2F29d53E3G8F2G3FGF4E5R10I2RdRF3E30d",
  "48E3G6FGF4G2FG2F2ERE8d10I166d47E3G4F2d4G2FG2F23R4E2F34d48E3G8F2GFG2F3RE11d10I6d13R19d43EFGF",
  "2G6FGFER6d10I6d20I28d27E2d3F2G4FG5F4d10I2K3RV7E185d44E3G9FG2FR100d32A32B10I9K12d8E2dE2d8Ed2E",
  "d24E6Gd2G2d2FGFEGEGF3R9d10I70d8E2d39E3G4F2d2F4GFEREG27dE10F40E6FGE4F8RF8dE6F2G3F46E13FG2F3RE",
  "5R13d73E7d10R182d33ER14d10I6d9Ed37EG7Fd6FGFE5R10d10I19K3d2R30E2d22FdG7FG2FG2F73d7Ed2Ed38E6F",
  "3dFd2Fd7FEF8d10I6d6Ed2Ed32E5Gd2Fd2GFGFE7d10I310d19E2F2G2R7d2FEG13Ed34E2G5F3d2GFGF13R10IF85dE",
  "15d21K8V4T17V13dR922E102d111Jd5R11d196E2636d97E2R13d1072E16aF6E15F10d3995E5d583E6841d30E12F",
  "3G3F10I1734d569E7d31Ed10I4d2R79Ed10I6d30E2d5FR10d48E7F5R4V4DRV10d10Id7Kd21E5d19E432d3D40E2D",
  "3R10I198d32A32B23K4R5d25A2d25B44d75E4dFE55G7d4F13D64d2DRDF11d2G14d6136E8d1238E41d10E8935d4Dd",
  "7Dd2Dd291E15dE29d3E2dE14d4E8d396E2308d107E5d13E3d9E7d10E2dV2FR4a3932d240V10I6d436V76d46F2d",
  "23F9d116V60d246V10d39V2d60V2G3F3V6G8a8F2V7F30V4F61V21d66V3FV122d20K12d20K12d87V9d25K135d26A",
  "26B26A7Bd18B26A26BAd2A2dA2d2A2d4Ad8A4BdBd7Bd11B26A26B2Ad4A2d8Ad7Ad26B2Ad4Ad5AdA3d7Ad26B26A",
  "26B26A26B26A26B26A26B26A26B26A28B2d25AS25BS6B25AS25BS6B25AS25BS6B25AS25BS6B25AS25BS6BAB2d50I",
  "512V55F4V50F8VF14VF2V5R15d5Fd15F1104d10BE20B6d6B213d7Fd17F2d7Fd2Fd5F5d62D33dF112d45E3d7F7D2d",
  "10I4dEV320d30EF17d44E4F10I5dT464d27ED4F10I214d30E2FE10I4dR480d7Ed4Ed2Ed15Ed197E2d9K7F41d34A",
  "34B7FD4d10I4d2R785d59KV3KT4K76d45KV15K194d4Ed27Ed2EdE2dEd10Ed4EdEdE6dE4dEdEdEd3Ed2EdE2dEdEdE",
  "dEdEd2EdE2d4Ed7Ed4Ed4EdEd10Ed17E5d3Ed5Ed17E52d2S270d44V4d100V12d15V2d15Vd15Vd37V10d13K161V",
  "56d29V13d44V4d9V7d2V14d6V154d251V5U728V4d17V3d13V3d119V4d95V6d12V4dV15d12V4d56V8d10V6d40V8d",
  "30V2d12V4d2V62d340V12d14V2d13V3d10V5d56V7d15V2d11V6d9V7d147Vd92V10I1030d42720E32d4154E6d222E",
  "2d5762E14d7473E15d622E2466d542E1506d4939E5d4192E711761da30d96a128d240F65040d65534c2d65534c2d"]

-- The table is a list of runs in code point order: a run is a length, absent when it is one, and a
-- letter for the category. A pending length of zero stands for an absent one.
def readRuns (first length : Nat) (read : Runs Category) : List Char → Runs Category
  | [] => read
  | c :: rest =>
    match Numeral.digitValue? c with
    | some d => readRuns first (length * 10 + d) read rest
    | none => readRuns (first + max length 1) 0 (read.push (first,ofLetter c)) rest

def runs : Runs Category := readRuns 0 0 #[] (encodedRuns.flatMap String.toList)

def ofAscii (n : Nat) : Category :=
  if n < 32 || n == 127 then .control
  else if n == 32 then .spaceSeparator
  else if 48 ≤ n && n ≤ 57 then .decimalNumber
  else if 65 ≤ n && n ≤ 90 then .uppercaseLetter
  else if 97 ≤ n && n ≤ 122 then .lowercaseLetter
  else if n == 36 then .currencySymbol
  else if n == 43 || n == 60 || n == 61 || n == 62 || n == 124 || n == 126 then .mathSymbol
  else if n == 94 || n == 96 then .modifierSymbol
  else if n == 95 then .connectorPunctuation
  else if n == 45 then .dashPunctuation
  else if n == 40 || n == 91 || n == 123 then .openPunctuation
  else if n == 41 || n == 93 || n == 125 then .closePunctuation
  else .otherPunctuation

def ofChar (c : Char) : Category :=
  if c.toNat < 128 then ofAscii c.toNat else runs.valueAt .unassigned c.toNat

def isLetter : Category → Bool
  | .uppercaseLetter | .lowercaseLetter | .titlecaseLetter | .modifierLetter | .otherLetter => true
  | _ => false

def isMark : Category → Bool
  | .nonspacingMark | .spacingMark | .enclosingMark => true
  | _ => false

end Category

def inRanges (ranges : List (Nat × Nat)) (n : Nat) : Bool :=
  ranges.any (fun (first,last) => first ≤ n && n ≤ last)

def otherUpperCase : List (Nat × Nat) := [(0x2160,0x216F),(0x24B6,0x24CF),(0x1F130,0x1F149),
  (0x1F150,0x1F169),(0x1F170,0x1F189)]

def otherLowerCase : List (Nat × Nat) := [(0xAA,0xAA),(0xBA,0xBA),(0x2B0,0x2B8),(0x2C0,0x2C1),
  (0x2E0,0x2E4),(0x345,0x345),(0x37A,0x37A),(0x10FC,0x10FC),(0x1D2C,0x1D6A),(0x1D78,0x1D78),
  (0x1D9B,0x1DBF),(0x2071,0x2071),(0x207F,0x207F),(0x2090,0x209C),(0x2170,0x217F),
  (0x24D0,0x24E9),(0x2C7C,0x2C7D),(0xA69C,0xA69D),(0xA770,0xA770),(0xA7F2,0xA7F4),
  (0xA7F8,0xA7F9),(0xAB5C,0xAB5F),(0xAB69,0xAB69),(0x10780,0x10780),(0x10783,0x10785),
  (0x10787,0x107B0),(0x107B2,0x107BA),(0x1E030,0x1E06D)]

def isUpperCase (c : Char) : Bool :=
  Category.ofChar c == .uppercaseLetter || inRanges otherUpperCase c.toNat

def isLowerCase (c : Char) : Bool :=
  Category.ofChar c == .lowercaseLetter || inRanges otherLowerCase c.toNat

def isCased (c : Char) : Bool :=
  isUpperCase c || isLowerCase c || Category.ofChar c == .titlecaseLetter

def wordInner : List (Nat × Nat) := [(0x27,0x27),(0x2E,0x2E),(0x3A,0x3A),(0xB7,0xB7),
  (0x387,0x387),(0x55F,0x55F),(0x5F4,0x5F4),(0x2018,0x2019),(0x2024,0x2024),(0x2027,0x2027),
  (0xFE13,0xFE13),(0xFE52,0xFE52),(0xFE55,0xFE55),(0xFF07,0xFF07),(0xFF0E,0xFF0E),
  (0xFF1A,0xFF1A)]

def isCaseIgnorable (c : Char) : Bool :=
  match Category.ofChar c with
  | .nonspacingMark | .enclosingMark | .format | .modifierLetter | .modifierSymbol => true
  | _ => inRanges wordInner c.toNat

def alphabeticSymbols : List (Nat × Nat) :=
  [(0x24B6,0x24E9),(0x1F130,0x1F149),(0x1F150,0x1F169),(0x1F170,0x1F189)]

-- The marks in these ranges count as alphabetic, and no others.
def alphabeticMarks : List (Nat × Nat) := [
  (0x345,0x345),(0x5B0,0x657),(0x659,0x6DC),(0x6E1,0x6E8),(0x6ED,0x73F),(0x7A6,0x7B0),
  (0x816,0x817),(0x81B,0x82C),(0x897,0x897),(0x8D4,0x8DF),(0x8E3,0x8E9),(0x8F0,0x93B),
  (0x93E,0x94C),(0x94E,0x94F),(0x955,0x983),(0x9BE,0x9CC),(0x9D7,0x9E3),(0xA01,0xA03),
  (0xA3E,0xA4C),(0xA51,0xA83),(0xABE,0xACC),(0xAE2,0xAFC),(0xB01,0xB03),(0xB3E,0xB4C),
  (0xB56,0xBCC),(0xBD7,0xC04),(0xC3E,0xC4C),(0xC55,0xC83),(0xCBE,0xCCC),(0xCD5,0xD03),
  (0xD3E,0xD4C),(0xD57,0xD83),(0xDCF,0xE3A),(0xE4D,0xE4D),(0xEB1,0xEB9),(0xEBB,0xEBC),
  (0xECD,0xECD),(0xF71,0xF83),(0xF8D,0xFBC),(0x102B,0x1036),(0x1038,0x1038),(0x103B,0x109D),
  (0x1712,0x1713),(0x1732,0x1733),(0x1752,0x1773),(0x17B6,0x17C8),(0x1885,0x1938),(0x1A17,0x1A5E),
  (0x1A61,0x1A74),(0x1ABF,0x1AC0),(0x1ACC,0x1B04),(0x1B35,0x1B43),(0x1B80,0x1BA9),(0x1BAC,0x1BAD),
  (0x1BE7,0x1BF1),(0x1C24,0x1C36),(0x1DE7,0x1DF4),(0x2DE0,0x2DFF),(0xA674,0xA67B),(0xA69E,0xA69F),
  (0xA802,0xA802),(0xA80B,0xA827),(0xA880,0xA8C3),(0xA8C5,0xA8C5),(0xA8FF,0xA92A),(0xA947,0xA952),
  (0xA980,0xA983),(0xA9B4,0xA9BF),(0xA9E5,0xAABE),(0xAAEB,0xAAF5),(0xABE3,0xABEA),(0xFB1E,0xFB1E),
  (0x10376,0x10A0F),(0x10D24,0x10D69),(0x10EAB,0x10EAC),(0x11000,0x11045),(0x11073,0x11074),
  (0x11080,0x110B8),(0x110C2,0x11132),(0x11145,0x11146),(0x11180,0x111BF),(0x111CE,0x11234),
  (0x11237,0x112E8),(0x11300,0x11303),(0x1133E,0x1134C),(0x11357,0x11363),(0x113B8,0x113CD),
  (0x11435,0x11441),(0x11443,0x11445),(0x114B0,0x114C1),(0x115AF,0x115BE),(0x115DC,0x1163E),
  (0x11640,0x116B5),(0x1171D,0x1172A),(0x1182C,0x11838),(0x11930,0x1193C),(0x11940,0x11942),
  (0x119D1,0x119DF),(0x119E4,0x11A0A),(0x11A35,0x11A3E),(0x11A51,0x11A97),(0x11C2F,0x11C3E),
  (0x11C92,0x11D41),(0x11D43,0x11D43),(0x11D47,0x11D96),(0x11EF3,0x11F40),(0x1611E,0x1612E),
  (0x16F4F,0x16F92),(0x16FF0,0x16FF1),(0x1BC9E,0x1BC9E),(0x1E000,0x1E08F),(0x1E947,0x1E947)]

def isAlphabetic (c : Char) : Bool :=
  match Category.ofChar c with
  | .letterNumber => true
  | k => k.isLetter || (k.isMark && inRanges alphabeticMarks c.toNat) ||
    inRanges alphabeticSymbols c.toNat

def isWordChar (c : Char) : Bool :=
  match Category.ofChar c with
  | .decimalNumber | .letterNumber | .connectorPunctuation => true
  | k => k.isLetter || k.isMark || c.toNat == 0x200C || c.toNat == 0x200D ||
    inRanges alphabeticSymbols c.toNat

def isNumeric (c : Char) : Bool :=
  match Category.ofChar c with
  | .decimalNumber | .letterNumber | .otherNumber => true
  | _ => false

def isDecimalDigit (c : Char) : Bool := Category.ofChar c == .decimalNumber

-- Spacing marks, letters and format characters that extend the character before them.
def otherExtenders : List (Nat × Nat) := [(0x9BE,0x9BE),(0x9D7,0x9D7),(0xB3E,0xB3E),
  (0xB57,0xB57),(0xBBE,0xBBE),(0xBD7,0xBD7),(0xCC0,0xCC0),(0xCC2,0xCC2),(0xCC7,0xCC8),
  (0xCCA,0xCCB),(0xCD5,0xCD6),(0xD3E,0xD3E),(0xD57,0xD57),(0xDCF,0xDCF),(0xDDF,0xDDF),
  (0x1715,0x1715),(0x1734,0x1734),(0x1B35,0x1B35),(0x1B3B,0x1B3B),(0x1B3D,0x1B3D),
  (0x1B43,0x1B44),(0x1BAA,0x1BAA),(0x1BF2,0x1BF3),(0x200C,0x200C),(0x302E,0x302F),
  (0xA953,0xA953),(0xA9C0,0xA9C0),(0xFF9E,0xFF9F),(0x111C0,0x111C0),(0x11235,0x11235),
  (0x1133E,0x1133E),(0x1134D,0x1134D),(0x11357,0x11357),(0x113B8,0x113B8),(0x113C2,0x113C2),
  (0x113C5,0x113C5),(0x113C7,0x113C9),(0x113CF,0x113CF),(0x114B0,0x114B0),(0x114BD,0x114BD),
  (0x115AF,0x115AF),(0x116B6,0x116B6),(0x11930,0x11930),(0x1193D,0x1193D),(0x11F41,0x11F41),
  (0x1D165,0x1D166),(0x1D16D,0x1D172),(0xE0020,0xE007F)]

def isExtender (c : Char) : Bool :=
  match Category.ofChar c with
  | .nonspacingMark | .enclosingMark => true
  | _ => inRanges otherExtenders c.toNat

def isPrintable (c : Char) : Bool :=
  match Category.ofChar c with
  | .control | .format | .surrogate | .privateUse | .unassigned | .lineSeparator
  | .paragraphSeparator => false
  | .spaceSeparator => c == ' '
  | _ => true

namespace Quoted

def hexDigit (n : Nat) : Char := if n < 10 then Char.ofNat (48 + n) else Char.ofNat (87 + n)

def hex (n : Nat) : List Char :=
  if n < 16 then [hexDigit n] else hex (n / 16) ++ [hexDigit (n % 16)]
termination_by n

def escape (c : Char) : List Char :=
  if c = '\x00' then ['\\','0']
  else if c = '\t' then ['\\','t']
  else if c = '\r' then ['\\','r']
  else if c = '\n' then ['\\','n']
  else if c = '"' then ['\\','"']
  else if c = '\\' then ['\\','\\']
  else if isExtender c || !isPrintable c then
    ['\\','u','\x7b'] ++ hex c.toNat ++ ['\x7d']
  else [c]

def quote (s : String) : String := String.ofList ('"' :: s.toList.flatMap escape ++ ['"'])

end Quoted

end TableView.Text
