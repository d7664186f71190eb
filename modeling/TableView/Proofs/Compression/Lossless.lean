import TableView.Compression.Format
import TableView.Proofs.Compression.Gzip
import TableView.Proofs.Compression.Zstd
import TableView.Proofs.Compression.Bzip2
import TableView.Proofs.Compression.Xz

namespace TableView.Compression

namespace Format

-- An xz stream writes all its sizes, and they have at most sixty-three bits. Nothing that lies in
-- the memory of a machine is that long; the other formats need no bound.
def Holds (format : Format) (size : Nat) : Prop := format = .xz → size < 2 ^ 63

instance (format : Format) (size : Nat) : Decidable (format.Holds size) := by
  unfold Holds; infer_instance

theorem decode_encode (format : Format) {bytes : List UInt8}
    (holds : format.Holds bytes.length) : format.decode (format.encode bytes) = some bytes := by
  cases format with
  | gzip => exact Gzip.decode_encode bytes
  | zstd => exact Zstd.decode_encode bytes
  | bzip2 => exact Bzip2.decode_encode bytes
  | xz => exact Xz.decode_encode (holds rfl)

theorem magic_encode (format : Format) (bytes : List UInt8) :
    format.magic.isPrefixOf (format.encode bytes) = true := by
  cases format with
  | gzip => exact Gzip.magic_encode bytes
  | zstd => exact Zstd.magic_encode bytes
  | bzip2 => exact Bzip2.magic_encode bytes
  | xz => exact Xz.magic_encode bytes

theorem magic_unique {f g : Format} {bytes : List UInt8} (first : f.magic.isPrefixOf bytes = true)
    (second : g.magic.isPrefixOf bytes = true) : f = g := by
  cases bytes with
  | nil => cases f <;> cases first
  | cons b rest =>
    have head (h : Format) (start : h.magic.isPrefixOf (b :: rest) = true) :
        h.magic.head? = some b := by
      obtain ⟨more,whole⟩ := List.isPrefixOf_iff_prefix.mp start
      cases h <;> exact congrArg List.head? whole
    have same := (head f first).trans (head g second).symm
    revert same
    cases f <;> cases g <;> decide

theorem ofMagic?_encode (format : Format) (bytes : List UInt8) :
    ofMagic? (format.encode bytes) = some format := by
  have starts := magic_encode format bytes
  have listed : format ∈ all := by cases format <;> decide
  cases found : ofMagic? (format.encode bytes) with
  | none =>
    rw [ofMagic?,List.find?_eq_none] at found
    exact absurd starts (found format listed)
  | some other =>
    have also := List.find?_some found
    rw [magic_unique also starts]

theorem encode_nonempty (format : Format) (bytes : List UInt8) : format.encode bytes ≠ [] := by
  intro empty
  have starts := magic_encode format bytes
  rw [empty] at starts
  cases format <;> cases starts

end Format

theorem length_le_compress_xz (bytes : List UInt8) :
    bytes.length ≤ (compress .xz bytes).length := by
  cases bytes with
  | nil => exact Nat.le_refl _
  | cons b rest => exact Xz.length_le_encode (b :: rest)

theorem decompress_compress (format : Format) {bytes : List UInt8}
    (holds : format.Holds bytes.length) : decompress (compress format bytes) = .ok bytes := by
  cases bytes with
  | nil => rfl
  | cons b rest =>
    have full : (format.encode (b :: rest)).isEmpty = false :=
      List.isEmpty_eq_false_iff.mpr (Format.encode_nonempty format _)
    have written : compress format (b :: rest) = format.encode (b :: rest) := rfl
    rw [written,decompress,full,Format.ofMagic?_encode]
    simp only [Bool.false_eq_true,if_false,Format.decode_encode format holds]

-- Some bytes are compressed in a format and come back by the stream alone. Of all formats it is the
-- one that the stream shows; nothing at all is compressed to nothing.
theorem stream_tells_format (format : Format) {bytes : List UInt8}
    (slice : format.Holds bytes.length) :
    decompress (compress format bytes) = .ok bytes ∧
      (bytes ≠ [] → Format.ofMagic? (compress format bytes) = some format ∧
        ∀ other : Format, other.magic.isPrefixOf (compress format bytes) = true → other = format) ∧
      (bytes = [] → compress format bytes = []) := by
  refine ⟨decompress_compress format slice,?_,?_⟩
  · intro full
    have written : compress format bytes = format.encode bytes := by
      rw [compress,List.isEmpty_eq_false_iff.mpr full]
      rfl
    rw [written]
    refine ⟨Format.ofMagic?_encode format bytes,?_⟩
    intro other starts
    exact Format.magic_unique starts (Format.magic_encode format bytes)
  · rintro rfl
    rfl

theorem stream_tells_format_xz :
    let bytes : List UInt8 := [0x7B,0x1F,0x8B]
    Format.Holds .xz bytes.length ∧ bytes ≠ [] ∧
      decompress (compress .xz bytes) = .ok bytes ∧
      Format.ofMagic? (compress .xz bytes) = some .xz := by
  intro bytes
  have slice : Format.Holds .xz bytes.length := by decide
  have full : bytes ≠ [] := by decide
  obtain ⟨back,told,_⟩ := stream_tells_format .xz slice
  exact ⟨slice,full,back,(told full).1⟩

end TableView.Compression
