import TableView.Payload.Codec
import TableView.Proofs.Base64
import TableView.Proofs.Compression.Lossless
import TableView.Proofs.Json.Reader
import TableView.Proofs.Outcome
import TableView.Proofs.Text.Blank

namespace TableView.Payload

-- A payload whose format can hold it. Only the sizes in xz streams have a limit, of sixty-three
-- bits, and no text that a machine of sixty-four bits can address reaches it.
def Storable (format : Compression.Format) (payload : String) : Prop :=
  format.Holds payload.length

theorem encode_solid (bytes : List UInt8) :
    ∀ c ∈ (Base64.encode bytes).toList, Text.isBlank c = false := by
  intro c member
  obtain ⟨n,six,rfl⟩ := Base64.mem_encode member
  have all : ∀ n < 64, Text.isBlank (Char.ofNat (Base64.symbol n).toNat) = false := by decide
  exact all n six

theorem trim_solid {cs : List Char} (solid : ∀ c ∈ cs, Text.isBlank c = false) :
    Text.Chars.trim cs = cs :=
  Text.Chars.trim_solid_ends (fun c first => solid c (List.mem_of_head? first))
    (fun c last => solid c (List.mem_of_getLast? last))

theorem decodeText_encodeText {format : Compression.Format} {text : String}
    (storable : Storable format (encodeText format text)) :
    decodeText (encodeText format text) = .ok text := by
  have bytes : decodeBytes (encodeText format text) =
      .ok (Compression.compress format (Text.Utf8.ofString text)) := by
    rw [decodeBytes,encodeText,trim_solid (encode_solid _),Base64.encode_bytes,
      Base64.decode_encodeBytes]
    rfl
  have length : (Compression.compress format (Text.Utf8.ofString text)).length ≤
      (encodeText format text).length := by
    rw [encodeText,Base64.encode_length]
    omega
  have holds : format.Holds (Text.Utf8.ofString text).length := by
    rintro rfl
    have plain := Compression.length_le_compress_xz (Text.Utf8.ofString text)
    exact Nat.lt_of_le_of_lt (Nat.le_trans plain length) (storable rfl)
  have plain := Compression.decompress_compress format holds
  simp only [decodeText,bytes,plain,Text.Utf8.toString?_ofString,bind,Except.bind,Except.mapError]

theorem decodeList_encode {format : Compression.Format} {items : List Json}
    (exact : ∀ v ∈ items, Json.Exact (Json.depthLimit - 1) v)
    (sorted : ∀ v ∈ items, Json.sorted v = v)
    (storable : Storable format (encode format (.array items))) :
    decodeList (encode format (.array items)) = .ok items := by
  have text : decodeText (encode format (.array items)) = .ok (Json.array items).compact :=
    decodeText_encodeText storable
  have parsed : Json.parse (Json.array items).compact = .ok (.array items) :=
    Json.parse_compact ⟨by decide,Json.withinItems_iff.mpr exact⟩
  have same : items.map Json.sorted = items := by
    rw [List.map_congr_left sorted,List.map_id']
  have visible : Text.allBlank (Json.array items).compact = false := by
    rw [Text.allBlank,Json.compact,String.toList_ofList]
    cases items <;> rfl
  have value : decode (encode format (.array items)) = .ok (some (.array items)) := by
    simp only [decode,text,visible,parsed,bind,Except.bind,Except.mapError,
      Bool.false_eq_true,if_false]
    rw [Json.sorted,Json.sortedItems_eq_map,same]
    rfl
  rw [decodeList,value]
  rfl

theorem decodeList_ok {payload : String} {items : List Json}
    (given : decodeList payload = .ok items) : items = [] ∨
      ∃ text parsed, Json.parse text = .ok parsed ∧ parsed.sorted = .array items := by
  obtain ⟨value,decoded,listed⟩ := ok_of_bind given
  cases value with
  | none =>
    cases listed
    exact Or.inl rfl
  | some value =>
    obtain ⟨text,_,decoded⟩ := ok_of_bind decoded
    split at decoded
    · cases decoded
    · obtain ⟨parsed,read,decoded⟩ := ok_of_bind decoded
      cases decoded
      refine Or.inr ⟨text,parsed,ok_of_mapError read,?_⟩
      cases sorted : parsed.sorted with
      | array list =>
        rw [sorted] at listed
        cases listed
        rfl
      | _ => rw [sorted] at listed; cases listed

end TableView.Payload
