import Mathlib.Data.List.DropRight
import TableView.Payload.Fields
import TableView.Proofs.Base64.Strict
import TableView.Proofs.Payload.Codec

namespace TableView.Payload

def asciiBlanks : List UInt8 := [0x09,0x0A,0x0C,0x0D,0x20]

-- The first byte that is no blank opens an array or an object.
def Opens (text : String) : Prop :=
  (Text.Utf8.ofString text).find? (fun b => !asciiBlanks.contains b) ∈ [some 0x5B,some 0x7B]

instance (text : String) : Decidable (Opens text) := inferInstanceAs (Decidable (_ ∈ _))

structure Spelling (text : String) where
  format : Option Compression.Format
  fits : ∀ f ∈ format, f.Holds (Text.Utf8.ofString text).length
  padded : Bool
  before : List Char
  blankBefore : ∀ c ∈ before, Text.isBlank c = true
  behind : List Char
  blankBehind : ∀ c ∈ behind, Text.isBlank c = true

def paddedText (bytes : List UInt8) (k : Nat) : List Char :=
  (Base64.encode bytes).toList ++ List.replicate k '='

namespace Spelling
variable {text : String}

def bytes (s : Spelling text) : List UInt8 :=
  match s.format with
  | none => Text.Utf8.ofString text
  | some f => Compression.compress f (Text.Utf8.ofString text)

def padding (s : Spelling text) : Nat := if s.padded then Base64.missing s.bytes else 0

def payload (s : Spelling text) : String :=
  String.ofList (s.before ++ paddedText s.bytes s.padding ++ s.behind)

end Spelling

def bareText (payload : String) : List Char :=
  (Text.Chars.trim payload.toList).rdropWhile (fun c => c = '=')

theorem paddedText_bytes (bytes : List UInt8) (k : Nat) :
    Text.Utf8.encode (paddedText bytes k) =
      Base64.encodeBytes bytes ++ List.replicate k Base64.pad := by
  have padding : Text.Utf8.encode (List.replicate k '=') = List.replicate k Base64.pad := by
    rw [Text.Utf8.encode,List.flatMap_replicate]
    exact List.flatten_replicate_singleton
  have parts : Text.Utf8.encode (paddedText bytes k) =
      Text.Utf8.encode (Base64.encode bytes).toList ++ Text.Utf8.encode (List.replicate k '=') :=
    List.flatMap_append
  rw [parts,Base64.encode_bytes,padding]

theorem decodeBytes_iff {payload : String} {bytes : List UInt8} :
    decodeBytes payload = .ok bytes ↔
      ∃ k ≤ Base64.missing bytes, Text.Chars.trim payload.toList = paddedText bytes k := by
  constructor
  · intro given
    obtain ⟨k,room,written⟩ := Base64.decode_iff.mp (ok_of_mapError given)
    rw [←paddedText_bytes] at written
    exact ⟨k,room,Text.Utf8.encode_injective written⟩
  · rintro ⟨k,room,written⟩
    have read := Base64.decode_iff.mpr ⟨k,room,rfl⟩
    rw [decodeBytes,written,paddedText_bytes,read]
    rfl

theorem paddedText_solid {bytes : List UInt8} {k : Nat} :
    ∀ c ∈ paddedText bytes k, Text.isBlank c = false := by
  intro c member
  rcases List.mem_append.mp member with symbol | padding
  · exact encode_solid bytes c symbol
  · rw [List.eq_of_mem_replicate padding]
    decide

theorem rdropWhile_paddedText (bytes : List UInt8) (k : Nat) :
    (paddedText bytes k).rdropWhile (fun c => c = '=') = (Base64.encode bytes).toList := by
  have symbols : ∀ c ∈ (Base64.encode bytes).toList, c ≠ '=' := by
    intro c member
    obtain ⟨n,six,rfl⟩ := Base64.mem_encode member
    have all : ∀ n < 64, Char.ofNat (Base64.symbol n).toNat ≠ '=' := by decide
    exact all n six
  have bare : (Base64.encode bytes).toList.rdropWhile (fun c => c = '=') =
      (Base64.encode bytes).toList := by
    refine List.rdropWhile_eq_self_iff.mpr (fun nonempty => ?_)
    simpa using symbols _ (List.getLast_mem nonempty)
  rw [List.rdropWhile,paddedText,List.reverse_append,List.reverse_replicate,
    List.dropWhile_append_of_pos (by simp [List.mem_replicate])]
  exact bare

theorem bareText_of_decodeBytes {payload : String} {bytes : List UInt8}
    (given : decodeBytes payload = .ok bytes) :
    bareText payload = (Base64.encode bytes).toList := by
  obtain ⟨k,_,written⟩ := decodeBytes_iff.mp given
  rw [bareText,written,rdropWhile_paddedText]

theorem isAsciiBlank_eq (b : UInt8) : Compression.isAsciiBlank b = asciiBlanks.contains b := rfl

theorem ofMagic?_plain {b : UInt8} (plain : b ∈ 0x5B :: 0x7B :: asciiBlanks) (rest : List UInt8) :
    Compression.Format.ofMagic? (b :: rest) = none := by
  have other (f : Compression.Format) (first : f.magic.head? = some b) : False := by
    cases f
    all_goals
      cases first
      exact absurd plain (by decide)
  rw [Compression.Format.ofMagic?,List.find?_eq_none]
  intro f _ starts
  obtain ⟨behind,whole⟩ := List.isPrefixOf_iff_prefix.mp starts
  apply other f
  cases f <;> exact congrArg List.head? whole

theorem Opens.decompress {text : String} (opens : Opens text) :
    Compression.decompress (Text.Utf8.ofString text) = .ok (Text.Utf8.ofString text) := by
  obtain ⟨b,bracket,found⟩ : ∃ b ∈ ([0x5B,0x7B] : List UInt8),
      (Text.Utf8.ofString text).find? (fun b => !asciiBlanks.contains b) = some b := by
    simpa [Opens] using opens
  obtain ⟨other,blanks,rest,whole,skipped⟩ := List.find?_eq_some_iff_append.mp found
  have blank : ∀ c ∈ blanks, Compression.isAsciiBlank c = true :=
    fun c member => by simpa [isAsciiBlank_eq] using skipped c member
  have kept : (blanks ++ b :: rest).dropWhile Compression.isAsciiBlank = b :: rest := by
    rw [List.dropWhile_append_of_pos blank]
    exact List.dropWhile_cons_of_neg (by simpa [isAsciiBlank_eq] using other)
  have json : Compression.looksLikeJson (blanks ++ b :: rest) = true := by
    rw [Compression.looksLikeJson,kept]
    simpa using bracket
  have streamless : Compression.Format.ofMagic? (blanks ++ b :: rest) = none := by
    cases blanks with
    | nil => exact ofMagic?_plain (List.mem_append_left asciiBlanks bracket) rest
    | cons c blanks =>
      have first : c ∈ asciiBlanks := by simpa using skipped c List.mem_cons_self
      exact ofMagic?_plain (List.mem_append_right [0x5B,0x7B] first) _
  rw [whole,Compression.decompress,streamless]
  simp [json]

theorem Spelling.decodeText_payload {text : String} (opens : Opens text) (s : Spelling text) :
    decodeText s.payload = .ok text := by
  have read : decodeBytes s.payload = .ok s.bytes := by
    refine decodeBytes_iff.mpr ⟨s.padding,?_,?_⟩
    · rw [padding]
      split
      · exact Nat.le_refl _
      · exact Nat.zero_le _
    · rw [payload,String.toList_ofList]
      exact Text.Chars.trim_between s.blankBefore s.blankBehind
        (fun c first => paddedText_solid c (List.mem_of_head? first))
        (fun c last => paddedText_solid c (List.mem_of_getLast? last))
  have plain : Compression.decompress s.bytes = .ok (Text.Utf8.ofString text) := by
    rw [bytes]
    split
    · exact opens.decompress
    · rename_i f chosen
      exact Compression.decompress_compress f (s.fits f chosen)
  simp only [decodeText,read,plain,Text.Utf8.toString?_ofString,bind,Except.bind,Except.mapError]

-- All the spellings of a text are answered alike, since each gives back the text itself. Bytes have
-- one spelling: what is read as some bytes is their own text, apart from blanks around it and
-- padding behind it.
theorem spellings_read_alike :
    (∀ {text : String}, Opens text → ∀ s t : Spelling text, decodeText s.payload = .ok text ∧
      decodeRows s.payload = decodeRows t.payload ∧
      decodeColumns s.payload = decodeColumns t.payload ∧
      decodeEntries s.payload = decodeEntries t.payload) ∧
    (∀ {payload : String} {bytes : List UInt8}, decodeBytes payload = .ok bytes →
      bareText payload = (Base64.encode bytes).toList) ∧
    ∀ {first second : String} {bytes : List UInt8}, decodeBytes first = .ok bytes →
      decodeBytes second = .ok bytes → bareText first = bareText second := by
  refine ⟨?_,bareText_of_decodeBytes,?_⟩
  · intro text opens s t
    have list : decodeList s.payload = decodeList t.payload := by
      rw [decodeList,decodeList,decode,decode,s.decodeText_payload opens,
        t.decodeText_payload opens]
    refine ⟨s.decodeText_payload opens,?_,?_,?_⟩
    · rw [decodeRows,decodeRows,list]
    · rw [decodeColumns,decodeColumns,list]
    · rw [decodeEntries,decodeEntries,list]
  · intro first second bytes given also
    rw [bareText_of_decodeBytes given,bareText_of_decodeBytes also]

theorem spellings_read_alike_xz :
    let text := "\n[\x7b\"0\":\"é\"\x7d]"
    ∃ stream plain : Spelling text,
      Opens text ∧ stream.format = some .xz ∧ stream.before = ['\u2003'] ∧
      plain.format = none ∧ plain.padding = 2 ∧
      decodeRows stream.payload = decodeRows plain.payload ∧
      decodeBytes "W10=" = .ok [0x5B,0x5D] ∧ decodeBytes " W10\n" = .ok [0x5B,0x5D] ∧
      bareText "W10=" = (Base64.encode [0x5B,0x5D]).toList ∧
      bareText "W10=" = bareText " W10\n" := by
  intro text
  let stream : Spelling text :=
    ⟨some .xz,by decide,false,['\u2003'],List.forall_mem_singleton.mpr rfl,[],
      List.forall_mem_nil _⟩
  let plain : Spelling text :=
    ⟨none,by decide,true,[],List.forall_mem_nil _,[],List.forall_mem_nil _⟩
  have opens : Opens text := by decide
  have padded : decodeBytes "W10=" = .ok [0x5B,0x5D] :=
    decodeBytes_iff.mpr ⟨1,by decide,by decide⟩
  have between : decodeBytes " W10\n" = .ok [0x5B,0x5D] :=
    decodeBytes_iff.mpr ⟨0,by decide,by decide⟩
  obtain ⟨alike,own,one⟩ := spellings_read_alike
  exact ⟨stream,plain,opens,rfl,rfl,rfl,by decide,(alike opens stream plain).2.1,padded,between,
    own padded,one padded between⟩

end TableView.Payload
