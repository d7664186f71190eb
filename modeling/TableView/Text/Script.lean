import TableView.Text.Category

namespace TableView.Text.Script

def encodedRuns : List String := [
  "65Zyyy26Latn6Zyyy26Latn47ZyyyLatn15ZyyyLatn5Zyyy23LatnZyyy31LatnZyyy449Latn39Zyyy5Latn5Zyyy",
  "2Bopo20Zyyy112Zinh4GrekZyyy3Grek2Zzzz4GrekZyyyGrek4ZzzzGrekZyyyGrekZyyy3GrekZzzzGrekZzzz",
  "20GrekZzzz63Grek14Copt16Grek133Cyrl2Zinh169CyrlZzzz38Armn2Zzzz50Armn2Zzzz3ArmnZzzz55Hebr",
  "8Zzzz27Hebr4Zzzz6Hebr11Zzzz5ArabZyyy6ArabZyyy14ArabZyyy3ArabZyyy32ArabZyyy10Arab11Zinh26Arab",
  "Zinh108ArabZyyy34Arab14SyrcZzzz60Syrc2Zzzz3Syrc48Arab50Thaa14Zzzz59Nkoo2Zzzz3Nkoo46Samr2Zzzz",
  "15SamrZzzz28Mand2ZzzzMandZzzz11Syrc5Zzzz31ArabZzzz2Arab5Zzzz75ArabZyyy29Arab81Deva4Zinh",
  "15Deva2Zyyy26Deva4BengZzzz8Beng2Zzzz2Beng2Zzzz22BengZzzz7BengZzzzBeng3Zzzz4Beng2Zzzz9Beng",
  "2Zzzz2Beng2Zzzz4Beng8ZzzzBeng4Zzzz2BengZzzz5Beng2Zzzz25Beng2Zzzz3GuruZzzz6Guru4Zzzz2Guru",
  "2Zzzz22GuruZzzz7GuruZzzz2GuruZzzz2GuruZzzz2Guru2ZzzzGuruZzzz5Guru4Zzzz2Guru2Zzzz3Guru3Zzzz",
  "Guru7Zzzz4GuruZzzzGuru7Zzzz17Guru10Zzzz3GujrZzzz9GujrZzzz3GujrZzzz22GujrZzzz7GujrZzzz2Gujr",
  "Zzzz5Gujr2Zzzz10GujrZzzz3GujrZzzz3Gujr2ZzzzGujr15Zzzz4Gujr2Zzzz12Gujr7Zzzz7GujrZzzz3OryaZzzz",
  "8Orya2Zzzz2Orya2Zzzz22OryaZzzz7OryaZzzz2OryaZzzz5Orya2Zzzz9Orya2Zzzz2Orya2Zzzz3Orya7Zzzz",
  "3Orya4Zzzz2OryaZzzz5Orya2Zzzz18Orya10Zzzz2TamlZzzz6Taml3Zzzz3TamlZzzz4Taml3Zzzz2TamlZzzzTaml",
  "Zzzz2Taml3Zzzz2Taml3Zzzz3Taml3Zzzz12Taml4Zzzz5Taml3Zzzz3TamlZzzz4Taml2ZzzzTaml6ZzzzTaml",
  "14Zzzz21Taml5Zzzz13TeluZzzz3TeluZzzz23TeluZzzz16Telu2Zzzz9TeluZzzz3TeluZzzz4Telu7Zzzz2Telu",
  "Zzzz3Telu2ZzzzTelu2Zzzz4Telu2Zzzz10Telu7Zzzz9Telu13KndaZzzz3KndaZzzz23KndaZzzz10KndaZzzz",
  "5Knda2Zzzz9KndaZzzz3KndaZzzz4Knda7Zzzz2Knda6Zzzz2KndaZzzz4Knda2Zzzz10KndaZzzz3Knda12Zzzz",
  "13MlymZzzz3MlymZzzz51MlymZzzz3MlymZzzz6Mlym4Zzzz16Mlym2Zzzz26MlymZzzz3SinhZzzz18Sinh3Zzzz",
  "24SinhZzzz9SinhZzzzSinh2Zzzz7Sinh3ZzzzSinh4Zzzz6SinhZzzzSinhZzzz8Sinh6Zzzz10Sinh2Zzzz3Sinh",
  "12Zzzz58Thai4ZzzzZyyy28Thai37Zzzz2LaooZzzzLaooZzzz5LaooZzzz24LaooZzzzLaooZzzz23Laoo2Zzzz",
  "5LaooZzzzLaooZzzz7LaooZzzz10Laoo2Zzzz4Laoo32Zzzz72TibtZzzz36Tibt4Zzzz39TibtZzzz36TibtZzzz",
  "15TibtZzzz7Tibt4Zyyy2Tibt37Zzzz160Mymr38GeorZzzzGeor5ZzzzGeor2Zzzz43GeorZyyy4Geor256Hang",
  "73EthiZzzz4Ethi2Zzzz7EthiZzzzEthiZzzz4Ethi2Zzzz41EthiZzzz4Ethi2Zzzz33EthiZzzz4Ethi2Zzzz7Ethi",
  "ZzzzEthiZzzz4Ethi2Zzzz15EthiZzzz57EthiZzzz4Ethi2Zzzz67Ethi2Zzzz32Ethi3Zzzz26Ethi6Zzzz86Cher",
  "2Zzzz6Cher2Zzzz640Cans29Ogam3Zzzz75Runr3Zyyy11Runr7Zzzz22Tglg9ZzzzTglg21Hano2Zyyy9Zzzz20Buhd",
  "12Zzzz13TagbZzzz3TagbZzzz2Tagb12Zzzz94Khmr2Zzzz10Khmr6Zzzz10Khmr6Zzzz2Mong2ZyyyMongZyyy",
  "20Mong6Zzzz89Mong7Zzzz43Mong5Zzzz70Cans10Zzzz31LimbZzzz12Limb4Zzzz12Limb4ZzzzLimb3Zzzz12Limb",
  "30Tale2Zzzz5Tale11Zzzz44Talu4Zzzz26Talu6Zzzz11Talu3Zzzz2Talu32Khmr28Bugi2Zzzz2Bugi63LanaZzzz",
  "29Lana2Zzzz11Lana6Zzzz10Lana6Zzzz14Lana2Zzzz31Zinh49Zzzz77BaliZzzz50Bali64Sund52Batk8Zzzz",
  "4Batk56Lepc3Zzzz15Lepc3Zzzz3Lepc48Olck11Cyrl5Zzzz43Geor2Zzzz3Geor8Sund8Zzzz3ZinhZyyy13Zinh",
  "Zyyy7Zinh4ZyyyZinh6ZyyyZinh3Zyyy2ZinhZyyy5Zzzz38Latn5GrekCyrl49Latn5Grek4Latn5Grek13LatnCyrl",
  "70LatnGrek64Zinh256Latn22Grek2Zzzz6Grek2Zzzz38Grek2Zzzz6Grek2Zzzz8GrekZzzzGrekZzzzGrekZzzz",
  "GrekZzzz31Grek2Zzzz53GrekZzzz15GrekZzzz14Grek2Zzzz6GrekZzzz19Grek2Zzzz3GrekZzzz9GrekZzzz",
  "12Zyyy2Zinh87ZyyyZzzz11ZyyyLatn2Zzzz11ZyyyLatn15ZyyyZzzz13Latn3Zzzz33Zyyy15Zzzz33Zinh15Zzzz",
  "38ZyyyGrek3Zyyy2Latn6ZyyyLatn27ZyyyLatn17Zyyy41Latn3Zyyy4Zzzz666Zyyy22Zzzz11Zyyy21Zzzz",
  "928Zyyy256Brai628Zyyy2Zzzz32ZyyyZzzz105Zyyy96Glag32Latn116Copt5Zzzz7Copt38GeorZzzzGeor5Zzzz",
  "Geor2Zzzz56Tfng7Zzzz2Tfng14ZzzzTfng23Ethi9Zzzz7EthiZzzz7EthiZzzz7EthiZzzz7EthiZzzz7EthiZzzz",
  "7EthiZzzz7EthiZzzz7EthiZzzz32Cyrl94Zyyy34Zzzz26HaniZzzz89Hani12Zzzz214Hani26Zzzz21ZyyyHani",
  "ZyyyHani25Zyyy9Hani4Zinh2Hang8Zyyy4Hani4ZyyyZzzz86Hira2Zzzz2Zinh2Zyyy3HiraZyyy90Kana2Zyyy",
  "3Kana5Zzzz43BopoZzzz94HangZzzz16Zyyy32Bopo38Zyyy9ZzzzZyyy16Kana31HangZzzz64Zyyy31Hang81Zyyy",
  "47KanaZyyy88Kana168Zyyy6592Hani64Zyyy20992Hani1165Yiii3Zzzz55Yiii9Zzzz48Lisu300Vaii20Zzzz",
  "96Cyrl88Bamu8Zzzz34Zyyy102Latn3Zyyy67Latn2Zzzz2LatnZzzzLatnZzzz8Latn21Zzzz14Latn45Sylo3Zzzz",
  "10Zyyy6Zzzz56Phag8Zzzz70Saur8Zzzz12Saur6Zzzz32Deva46KaliZyyyKali36Rjng11ZzzzRjng29Hang3Zzzz",
  "78JavaZzzzZyyy10Java4Zzzz2Java31MymrZzzz55Cham9Zzzz14Cham2Zzzz10Cham2Zzzz4Cham32Mymr67Tavt",
  "24Zzzz5Tavt23Mtei10Zzzz6Ethi2Zzzz6Ethi2Zzzz6Ethi9Zzzz7EthiZzzz7EthiZzzz43LatnZyyy9LatnGrek",
  "4Latn2Zyyy4Zzzz80Cher46Mtei2Zzzz10Mtei6Zzzz11172Hang12Zzzz23Hang4Zzzz49Hang8452Zzzz366Hani",
  "2Zzzz106Hani38Zzzz7Latn12Zzzz5Armn5Zzzz26HebrZzzz5HebrZzzzHebrZzzz2HebrZzzz2HebrZzzz10Hebr",
  "115Arab16Zzzz363Arab2Zyyy80Arab2Zzzz54Arab7ZzzzArab32Zzzz16Arab16Zinh10Zyyy6Zzzz14Zinh2Cyrl",
  "35ZyyyZzzz19ZyyyZzzz4Zyyy4Zzzz5ArabZzzz135Arab2ZzzzZyyyZzzz32Zyyy26Latn6Zyyy26Latn11Zyyy",
  "10KanaZyyy45Kana2Zyyy31Hang3Zzzz6Hang2Zzzz6Hang2Zzzz6Hang2Zzzz3Hang3Zzzz7ZyyyZzzz7Zyyy10Zzzz",
  "5Zyyy2Zzzz12LinbZzzz26LinbZzzz19LinbZzzz2LinbZzzz15Linb2Zzzz14Linb34Zzzz123Linb5Zzzz3Zyyy",
  "4Zzzz45Zyyy3Zzzz9Zyyy79GrekZzzz13Zyyy3ZzzzGrek47Zzzz45ZyyyZinh130Zzzz29Lyci3Zzzz49Cari15Zzzz",
  "Zinh27Zyyy4Zzzz36Ital9Zzzz3Ital27Goth5Zzzz43Perm5Zzzz30UgarZzzzUgar36Xpeo4Zzzz14Xpeo42Zzzz",
  "80Dsrt48Shaw30Osma2Zzzz10Osma6Zzzz36Osge4Zzzz36Osge4Zzzz40Elba8Zzzz52Aghb11ZzzzAghb11Vith",
  "Zzzz15VithZzzz7VithZzzz2VithZzzz11VithZzzz15VithZzzz7VithZzzz2Vith3Zzzz52Todr12Zzzz311Lina",
  "9Zzzz22Lina10Zzzz8Lina24Zzzz6LatnZzzz42LatnZzzz9Latn69Zzzz6Cprt2ZzzzCprtZzzz44CprtZzzz2Cprt",
  "3ZzzzCprt2ZzzzCprt22ArmiZzzz9Armi32Palm31Nbat8Zzzz9Nbat48Zzzz19HatrZzzz2Hatr5Zzzz5Hatr28Phnx",
  "3ZzzzPhnx26Lydi5ZzzzLydi64Zzzz32Mero24Merc4Zzzz20Merc2Zzzz46Merc4KharZzzz2Khar5Zzzz8KharZzzz",
  "3KharZzzz29Khar2Zzzz3Khar4Zzzz10Khar7Zzzz9Khar7Zzzz32Sarb32Narb32Zzzz39Mani4Zzzz12Mani9Zzzz",
  "54Avst3Zzzz7Avst22Prti2Zzzz8Prti19Phli5Zzzz8Phli18Phlp7Zzzz4Phlp12Zzzz7Phlp80Zzzz73Orkh",
  "55Zzzz51Hung13Zzzz51Hung7Zzzz6Hung40Rohg8Zzzz10Rohg6Zzzz38Gara3Zzzz29Gara8Zzzz2Gara208Zzzz",
  "31ArabZzzz42YeziZzzz3Yezi2Zzzz2Yezi16Zzzz3Arab55Zzzz4Arab40Sogo8Zzzz42Sogd22Zzzz26Ougr38Zzzz",
  "28Chrs20Zzzz23Elym9Zzzz78Brah4Zzzz36Brah9ZzzzBrah67Kthi10ZzzzKthi2Zzzz25Sora7Zzzz10Sora6Zzzz",
  "53CakmZzzz18Cakm8Zzzz39Mahj9Zzzz96ShrdZzzz20Sinh11Zzzz18KhojZzzz47Khoj62Zzzz7MultZzzzMult",
  "Zzzz4MultZzzz15MultZzzz11Mult6Zzzz59Sind5Zzzz10Sind6Zzzz4GranZzzz8Gran2Zzzz2Gran2Zzzz22Gran",
  "Zzzz7GranZzzz2GranZzzz5GranZzzzZinh9Gran2Zzzz2Gran2Zzzz3Gran2ZzzzGran6ZzzzGran5Zzzz7Gran",
  "2Zzzz7Gran3Zzzz5Gran11Zzzz10TutgZzzzTutg2ZzzzTutgZzzz38TutgZzzz10TutgZzzzTutg2ZzzzTutgZzzz",
  "4TutgZzzz10TutgZzzz2Tutg8Zzzz2Tutg29Zzzz92NewaZzzz5Newa30Zzzz72Tirh8Zzzz10Tirh166Zzzz54Sidd",
  "2Zzzz38Sidd34Zzzz69Modi11Zzzz10Modi6Zzzz13Mong19Zzzz58Takr6Zzzz10Takr6Zzzz20Mymr28Zzzz27Ahom",
  "2Zzzz15Ahom4Zzzz23Ahom185Zzzz60Dogr100Zzzz83Wara12ZzzzWara7Diak2ZzzzDiak2Zzzz8DiakZzzz2Diak",
  "Zzzz30DiakZzzz2Diak2Zzzz12Diak9Zzzz10Diak70Zzzz8Nand2Zzzz46Nand2Zzzz11Nand27Zzzz72Zanb8Zzzz",
  "83Soyo13Zzzz16Cans57Pauc7Zzzz10Deva182Zzzz34Sunu14Zzzz10Sunu6Zzzz9BhksZzzz45BhksZzzz14Bhks",
  "10Zzzz29Bhks3Zzzz32Marc2Zzzz22MarcZzzz14Marc73Zzzz7GonmZzzz2GonmZzzz44Gonm3ZzzzGonmZzzz2Gonm",
  "Zzzz9Gonm8Zzzz10Gonm6Zzzz6GongZzzz2GongZzzz37GongZzzz2GongZzzz6Gong7Zzzz10Gong310Zzzz25Maka",
  "7Zzzz17KawiZzzz41Kawi3Zzzz29Kawi85ZzzzLisu15Zzzz50Taml13ZzzzTaml922Xsux102Zzzz111XsuxZzzz",
  "5Xsux11Zzzz196Xsux2636Zzzz99Cpmn13Zzzz1110Egyp10Zzzz3995Egyp5Zzzz583Hluw6841Zzzz58Gukh",
  "1734Zzzz569Bamu7Zzzz31MrooZzzz10Mroo4Zzzz2Mroo79TnsaZzzz10Tnsa6Zzzz30Bass2Zzzz6Bass10Zzzz",
  "70Hmng10Zzzz10HmngZzzz7HmngZzzz21Hmng5Zzzz19Hmng432Zzzz58Krai198Zzzz91Medf101Zzzz75Plrd4Zzzz",
  "57Plrd7Zzzz17Plrd64ZzzzTangNshu2HaniKits11Zzzz2Hani14Zzzz6136Tang8Zzzz768Tang470Kits41Zzzz",
  "Kits9Tang8935Zzzz4KanaZzzz7KanaZzzz2KanaZzzzKana287Hira3Kana15ZzzzHira29Zzzz3Hira2ZzzzKana",
  "14Zzzz4Kana8Zzzz396Nshu2308Zzzz107Dupl5Zzzz13Dupl3Zzzz9Dupl7Zzzz10Dupl2Zzzz4Dupl4Zyyy",
  "3932Zzzz250Zyyy6Zzzz436Zyyy76Zzzz46Zinh2Zzzz23Zinh9Zzzz116Zyyy60Zzzz246Zyyy10Zzzz39Zyyy2Zzzz",
  "62Zyyy3Zinh17Zyyy8Zinh2Zyyy7Zinh30Zyyy4Zinh61Zyyy21Zzzz70Grek122Zzzz20Zyyy12Zzzz20Zyyy12Zzzz",
  "87Zyyy9Zzzz25Zyyy135Zzzz85ZyyyZzzz71ZyyyZzzz2Zyyy2ZzzzZyyy2Zzzz2Zyyy2Zzzz4ZyyyZzzz12ZyyyZzzz",
  "ZyyyZzzz7ZyyyZzzz65ZyyyZzzz4Zyyy2Zzzz8ZyyyZzzz7ZyyyZzzz28ZyyyZzzz4ZyyyZzzz5ZyyyZzzzZyyy3Zzzz",
  "7ZyyyZzzz340Zyyy2Zzzz292Zyyy2Zzzz50Zyyy652Sgnw15Zzzz5SgnwZzzz15Sgnw1104Zzzz31Latn6Zzzz6Latn",
  "213Zzzz7GlagZzzz17Glag2Zzzz7GlagZzzz2GlagZzzz5Glag5Zzzz62Cyrl33ZzzzCyrl112Zzzz45Hmnp3Zzzz",
  "14Hmnp2Zzzz10Hmnp4Zzzz2Hmnp320Zzzz31Toto17Zzzz58Wcho5ZzzzWcho464Zzzz42Nagm214Zzzz43Onao4Zzzz",
  "Onao480Zzzz7EthiZzzz4EthiZzzz2EthiZzzz15EthiZzzz197Mend2Zzzz16Mend41Zzzz76Adlm4Zzzz10Adlm",
  "4Zzzz2Adlm785Zzzz68Zyyy76Zzzz61Zyyy194Zzzz4ArabZzzz27ArabZzzz2ArabZzzzArab2ZzzzArabZzzz",
  "10ArabZzzz4ArabZzzzArabZzzzArab6ZzzzArab4ZzzzArabZzzzArabZzzzArabZzzz3ArabZzzz2ArabZzzzArab",
  "2ZzzzArabZzzzArabZzzzArabZzzzArabZzzzArabZzzz2ArabZzzzArab2Zzzz4ArabZzzz7ArabZzzz4ArabZzzz",
  "4ArabZzzzArabZzzz10ArabZzzz17Arab5Zzzz3ArabZzzz5ArabZzzz17Arab52Zzzz2Arab270Zzzz44Zyyy4Zzzz",
  "100Zyyy12Zzzz15Zyyy2Zzzz15ZyyyZzzz15ZyyyZzzz37Zyyy10Zzzz174Zyyy56Zzzz26ZyyyHira2Zyyy13Zzzz",
  "44Zyyy4Zzzz9Zyyy7Zzzz2Zyyy14Zzzz6Zyyy154Zzzz984Zyyy4Zzzz17Zyyy3Zzzz13Zyyy3Zzzz119Zyyy4Zzzz",
  "95Zyyy6Zzzz12Zyyy4ZzzzZyyy15Zzzz12Zyyy4Zzzz56Zyyy8Zzzz10Zyyy6Zzzz40Zyyy8Zzzz30Zyyy2Zzzz",
  "12Zyyy4Zzzz2Zyyy62Zzzz340Zyyy12Zzzz14Zyyy2Zzzz13Zyyy3Zzzz10Zyyy5Zzzz56Zyyy7Zzzz15Zyyy2Zzzz",
  "11Zyyy6Zzzz9Zyyy7Zzzz147ZyyyZzzz102Zyyy1030Zzzz42720Hani32Zzzz4154Hani6Zzzz222Hani2Zzzz",
  "5762Hani14Zzzz7473Hani15Zzzz622Hani2466Zzzz542Hani1506Zzzz4939Hani5Zzzz4192Hani711761Zzzz",
  "Zyyy30Zzzz96Zyyy128Zzzz240Zinh196112Zzzz"]

-- A run is a length, absent when it is one, and a code. A pending length of zero stands for an
-- absent one.
def readRuns (first length : Nat) (read : Runs String) : List Char → Runs String
  | a :: b :: c :: d :: rest =>
    match Numeral.digitValue? a with
    | some v => readRuns first (length * 10 + v) read (b :: c :: d :: rest)
    | none =>
      readRuns (first + max length 1) 0 (read.push (first,String.ofList [a,b,c,d])) rest
  | _ => read

def runs : Runs String := readRuns 0 0 #[] (encodedRuns.flatMap String.toList)

def unknown : String := "Zzzz"

def ofChar (c : Char) : String := runs.valueAt unknown c.toNat

-- Names in small letters, without what divides their words, and the codes of their scripts.
def longNames : List (String × String) := [
  ("adlam","Adlm"),("caucasianalbanian","Aghb"),("arabic","Arab"),("imperialaramaic","Armi"),
  ("armenian","Armn"),("avestan","Avst"),("balinese","Bali"),("bamum","Bamu"),("bassavah","Bass"),
  ("batak","Batk"),("bengali","Beng"),("bhaiksuki","Bhks"),("bopomofo","Bopo"),("brahmi","Brah"),
  ("braille","Brai"),("buginese","Bugi"),("buhid","Buhd"),("chakma","Cakm"),
  ("canadianaboriginal","Cans"),("carian","Cari"),("cherokee","Cher"),("chorasmian","Chrs"),
  ("coptic","Copt"),("qaac","Copt"),("cyprominoan","Cpmn"),("cypriot","Cprt"),("cyrillic","Cyrl"),
  ("devanagari","Deva"),("divesakuru","Diak"),("dogra","Dogr"),("deseret","Dsrt"),
  ("duployan","Dupl"),("egyptianhieroglyphs","Egyp"),("elbasan","Elba"),("elymaic","Elym"),
  ("ethiopic","Ethi"),("garay","Gara"),("georgian","Geor"),("glagolitic","Glag"),
  ("gunjalagondi","Gong"),("masaramgondi","Gonm"),("gothic","Goth"),("grantha","Gran"),
  ("greek","Grek"),("gujarati","Gujr"),("gurungkhema","Gukh"),("gurmukhi","Guru"),
  ("hangul","Hang"),("han","Hani"),("hanunoo","Hano"),("hatran","Hatr"),("hebrew","Hebr"),
  ("hiragana","Hira"),("anatolianhieroglyphs","Hluw"),("pahawhhmong","Hmng"),
  ("nyiakengpuachuehmong","Hmnp"),("oldhungarian","Hung"),("olditalic","Ital"),
  ("javanese","Java"),("kayahli","Kali"),("katakana","Kana"),("kharoshthi","Khar"),
  ("khmer","Khmr"),("khojki","Khoj"),("khitansmallscript","Kits"),("kannada","Knda"),
  ("kiratrai","Krai"),("kaithi","Kthi"),("taitham","Lana"),("lao","Laoo"),("latin","Latn"),
  ("lepcha","Lepc"),("limbu","Limb"),("lineara","Lina"),("linearb","Linb"),("lycian","Lyci"),
  ("lydian","Lydi"),("mahajani","Mahj"),("makasar","Maka"),("mandaic","Mand"),
  ("manichaean","Mani"),("marchen","Marc"),("medefaidrin","Medf"),("mendekikakui","Mend"),
  ("meroiticcursive","Merc"),("meroitichieroglyphs","Mero"),("malayalam","Mlym"),
  ("mongolian","Mong"),("mro","Mroo"),("meeteimayek","Mtei"),("multani","Mult"),
  ("myanmar","Mymr"),("nagmundari","Nagm"),("nandinagari","Nand"),("oldnortharabian","Narb"),
  ("nabataean","Nbat"),("nko","Nkoo"),("nushu","Nshu"),("ogham","Ogam"),("olchiki","Olck"),
  ("olonal","Onao"),("oldturkic","Orkh"),("oriya","Orya"),("osage","Osge"),("osmanya","Osma"),
  ("olduyghur","Ougr"),("palmyrene","Palm"),("paucinhau","Pauc"),("oldpermic","Perm"),
  ("phagspa","Phag"),("inscriptionalpahlavi","Phli"),("psalterpahlavi","Phlp"),
  ("phoenician","Phnx"),("miao","Plrd"),("inscriptionalparthian","Prti"),("rejang","Rjng"),
  ("hanifirohingya","Rohg"),("runic","Runr"),("samaritan","Samr"),("oldsoutharabian","Sarb"),
  ("saurashtra","Saur"),("signwriting","Sgnw"),("shavian","Shaw"),("sharada","Shrd"),
  ("siddham","Sidd"),("khudawadi","Sind"),("sinhala","Sinh"),("sogdian","Sogd"),
  ("oldsogdian","Sogo"),("sorasompeng","Sora"),("soyombo","Soyo"),("sundanese","Sund"),
  ("sunuwar","Sunu"),("sylotinagri","Sylo"),("syriac","Syrc"),("tagbanwa","Tagb"),
  ("takri","Takr"),("taile","Tale"),("newtailue","Talu"),("tamil","Taml"),("tangut","Tang"),
  ("taiviet","Tavt"),("telugu","Telu"),("tifinagh","Tfng"),("tagalog","Tglg"),("thaana","Thaa"),
  ("tibetan","Tibt"),("tirhuta","Tirh"),("tangsa","Tnsa"),("todhri","Todr"),
  ("tulutigalari","Tutg"),("ugaritic","Ugar"),("vai","Vaii"),("vithkuqi","Vith"),
  ("warangciti","Wara"),("wancho","Wcho"),("oldpersian","Xpeo"),("cuneiform","Xsux"),
  ("yezidi","Yezi"),("yi","Yiii"),("zanabazarsquare","Zanb"),("inherited","Zinh"),("qaai","Zinh"),
  ("common","Zyyy")]

def isCode (code : String) : Bool := code ≠ unknown && runs.any (fun (_,c) => c = code)

def capitalCode (name : String) : String :=
  match name.toList with
  | c :: rest => String.ofList (c.toUpper :: rest)
  | [] => name

def ofName? (name : String) : Option String :=
  match longNames.find? (fun (n,_) => n = name) with
  | some (_,code) => some code
  | none => if isCode (capitalCode name) then some (capitalCode name) else none

end TableView.Text.Script
