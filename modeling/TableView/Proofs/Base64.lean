import Mathlib.Data.List.Basic
import TableView.Base64
import TableView.Proofs.Text.Utf8

namespace TableView.Base64

theorem value?_symbol {n : Nat} (six : n < 64) : value? (symbol n) = some n := by
  have all : ∀ n < 64, value? (symbol n) = some n := by decide
  exact all n six

theorem valueAt_symbol {n : Nat} (six : n < 64) (offset : Nat) :
    valueAt (symbol n) offset = .ok n := by
  rw [valueAt,value?_symbol six]

theorem symbol_ne_pad {n : Nat} (six : n < 64) : symbol n ≠ pad := by
  have all : ∀ n < 64, symbol n ≠ pad := by decide
  exact all n six

theorem encodeBytes_length (bytes : List UInt8) :
    (encodeBytes bytes).length = (4 * bytes.length + 2) / 3 := by
  induction bytes using encodeBytes.induct with
  | case1 => rfl
  | case2 a => simp [encodeBytes]
  | case3 a b => simp [encodeBytes]
  | case4 a b c rest ih =>
    simp only [encodeBytes,List.length_cons,ih]
    omega

theorem mem_encodeBytes {bytes : List UInt8} {s : UInt8} (member : s ∈ encodeBytes bytes) :
    ∃ n < 64, s = symbol n := by
  induction bytes using encodeBytes.induct with
  | case1 => simp [encodeBytes] at member
  | case2 a =>
    have bound := a.toNat_lt
    simp only [encodeBytes,List.mem_cons,List.not_mem_nil,or_false] at member
    rcases member with rfl | rfl
    all_goals exact ⟨_,by omega,rfl⟩
  | case3 a b =>
    have first := a.toNat_lt
    have second := b.toNat_lt
    simp only [encodeBytes,List.mem_cons,List.not_mem_nil,or_false] at member
    rcases member with rfl | rfl | rfl
    all_goals exact ⟨_,by omega,rfl⟩
  | case4 a b c rest ih =>
    have first := a.toNat_lt
    have second := b.toNat_lt
    have third := c.toNat_lt
    simp only [encodeBytes,List.mem_cons] at member
    rcases member with rfl | rfl | rfl | rfl | tail
    case inr.inr.inr.inr => exact ih tail
    all_goals exact ⟨_,by omega,rfl⟩

theorem toUInt8_toNat {b : UInt8} {n : Nat} (equal : n = b.toNat) : n.toUInt8 = b := by
  rw [equal]
  exact UInt8.ofNat_toNat

theorem lastGroup_one (start : Nat) (a : UInt8) :
    lastGroup start (encodeBytes [a]) = .ok [a] := by
  have bound := a.toNat_lt
  have high : a.toNat * 16 / 64 < 64 := by omega
  have low : a.toNat * 16 % 64 < 64 := by omega
  have zeros : a.toNat * 16 % 64 % 16 = 0 := by omega
  have value : a.toNat * 16 / 64 * 4 + a.toNat * 16 % 64 / 16 = a.toNat := by omega
  simp [lastGroup,encodeBytes,lastSymbols,symbol_ne_pad high,symbol_ne_pad low,
    valueAt_symbol high,valueAt_symbol low,bind,Except.bind,zeros,toUInt8_toNat value]

theorem lastGroup_two (start : Nat) (a b : UInt8) :
    lastGroup start (encodeBytes [a,b]) = .ok [a,b] := by
  have first := a.toNat_lt
  have second := b.toNat_lt
  obtain ⟨n,whole⟩ : ∃ n, n = (a.toNat * 256 + b.toNat) * 4 := ⟨_,rfl⟩
  have high : n / 4096 < 64 := by omega
  have middle : n / 64 % 64 < 64 := by omega
  have low : n % 64 < 64 := by omega
  have zeros : n % 64 % 4 = 0 := by omega
  have together : (n / 4096 * 64 + n / 64 % 64) * 64 + n % 64 = n := by omega
  have one : n / 1024 = a.toNat := by omega
  have two : n / 4 % 256 = b.toNat := by omega
  simp [lastGroup,encodeBytes,←whole,lastSymbols,symbol_ne_pad high,symbol_ne_pad middle,
    symbol_ne_pad low,valueAt_symbol high,valueAt_symbol middle,valueAt_symbol low,bind,
    Except.bind,zeros,together,toUInt8_toNat one,toUInt8_toNat two]

section Full
variable {a b c : UInt8} {n : Nat} (whole : n = (a.toNat * 256 + b.toNat) * 256 + c.toNat)
include whole

theorem four_symbols :
    (n / 262144 < 64 ∧ n / 4096 % 64 < 64 ∧ n / 64 % 64 < 64 ∧ n % 64 < 64) ∧
      ((n / 262144 * 64 + n / 4096 % 64) * 64 + n / 64 % 64) * 64 + n % 64 = n ∧
      (n / 65536).toUInt8 = a ∧ (n / 256 % 256).toUInt8 = b ∧ (n % 256).toUInt8 = c := by
  have first := a.toNat_lt
  have second := b.toNat_lt
  have third := c.toNat_lt
  refine ⟨by omega,by omega,?_,?_,?_⟩
  all_goals exact toUInt8_toNat (by omega)

theorem lastGroup_three (start : Nat) :
    lastGroup start [symbol (n / 262144),symbol (n / 4096 % 64),symbol (n / 64 % 64),
      symbol (n % 64)] = .ok [a,b,c] := by
  obtain ⟨⟨s1,s2,s3,s4⟩,together,one,two,three⟩ := four_symbols whole
  simp [lastGroup,lastSymbols,symbol_ne_pad s1,symbol_ne_pad s2,symbol_ne_pad s3,
    symbol_ne_pad s4,valueAt_symbol s1,valueAt_symbol s2,valueAt_symbol s3,valueAt_symbol s4,bind,
    Except.bind,together,one,two,three]

theorem groups_four (start : Nat) {more bytes : List UInt8} (nonempty : more ≠ [])
    (read : groups (start + 4) more = .ok bytes) :
    groups start (symbol (n / 262144) :: symbol (n / 4096 % 64) :: symbol (n / 64 % 64) ::
      symbol (n % 64) :: more) = .ok (a :: b :: c :: bytes) := by
  obtain ⟨⟨s1,s2,s3,s4⟩,together,one,two,three⟩ := four_symbols whole
  obtain ⟨e,rest,rfl⟩ := List.exists_cons_of_ne_nil nonempty
  simp [groups,valueAt_symbol s1,valueAt_symbol s2,valueAt_symbol s3,valueAt_symbol s4,bind,
    Except.bind,together,one,two,three,read]

end Full

theorem groups_short (start : Nat) {symbols : List UInt8} (short : symbols.length ≤ 4) :
    groups start symbols = lastGroup start symbols := by
  rw [groups]
  intro a b c d e rest equal
  rw [equal] at short
  simp only [List.length_cons] at short
  omega

theorem groups_encodeBytes (start : Nat) (bytes : List UInt8) :
    groups start (encodeBytes bytes) = .ok bytes := by
  induction bytes using encodeBytes.induct generalizing start with
  | case1 =>
    rw [groups_short start (by simp [encodeBytes])]
    rfl
  | case2 a =>
    rw [groups_short start (by simp [encodeBytes])]
    exact lastGroup_one start a
  | case3 a b =>
    rw [groups_short start (by simp [encodeBytes])]
    exact lastGroup_two start a b
  | case4 a b c rest ih =>
    rw [encodeBytes]
    by_cases last : rest = []
    · subst last
      rw [encodeBytes,groups_short start (by simp)]
      exact lastGroup_three rfl start
    · have nonempty : encodeBytes rest ≠ [] := by
        have length := encodeBytes_length rest
        have some := List.length_pos_iff.mpr last
        intro empty
        rw [empty,List.length_nil] at length
        omega
      exact groups_four rfl start nonempty (ih (start + 4))

theorem decode_encodeBytes (bytes : List UInt8) : decode (encodeBytes bytes) = .ok bytes := by
  have valid : strayByte (encodeBytes bytes) = none := by
    unfold strayByte
    split
    · rename_i b last
      obtain ⟨n,six,rfl⟩ := mem_encodeBytes (List.mem_of_getLast? last)
      simp [value?_symbol six]
    · rfl
  rw [decode,valid]
  exact groups_encodeBytes 0 bytes

def isUrlSafe (c : Char) : Bool :=
  ('A' ≤ c && c ≤ 'Z') || ('a' ≤ c && c ≤ 'z') || ('0' ≤ c && c ≤ '9') || c = '-' || c = '_'

theorem mem_encode {bytes : List UInt8} {c : Char} (member : c ∈ (encode bytes).toList) :
    ∃ n, n < 64 ∧ c = Char.ofNat (symbol n).toNat := by
  rw [encode,String.toList_ofList,List.mem_map] at member
  obtain ⟨s,inSymbols,rfl⟩ := member
  obtain ⟨n,six,rfl⟩ := mem_encodeBytes inSymbols
  exact ⟨n,six,rfl⟩

theorem encode_urlSafe (bytes : List UInt8) : ∀ c ∈ (encode bytes).toList, isUrlSafe c = true := by
  intro c member
  obtain ⟨n,six,rfl⟩ := mem_encode member
  have all : ∀ n < 64, isUrlSafe (Char.ofNat (symbol n).toNat) = true := by decide
  exact all n six

theorem encode_length (bytes : List UInt8) :
    (encode bytes).length = (4 * bytes.length + 2) / 3 := by
  rw [encode,←String.length_toList,String.toList_ofList,List.length_map,encodeBytes_length]

theorem encode_bytes (bytes : List UInt8) :
    Text.Utf8.encode (encode bytes).toList = encodeBytes bytes := by
  rw [encode,String.toList_ofList,Text.Utf8.encode,List.flatMap_map]
  calc (encodeBytes bytes).flatMap (fun s => Text.Utf8.encodeChar (Char.ofNat s.toNat))
      = (encodeBytes bytes).flatMap (fun s => [s]) := by
        apply List.flatMap_congr
        intro s member
        obtain ⟨n,six,rfl⟩ := mem_encodeBytes member
        have all : ∀ n < 64,
            Text.Utf8.encodeChar (Char.ofNat (symbol n).toNat) = [symbol n] := by decide
        exact all n six
    _ = encodeBytes bytes := by simp

end TableView.Base64
