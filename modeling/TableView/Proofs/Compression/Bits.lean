import TableView.Compression.Bits
import TableView.Proofs.Text.Utf8

namespace TableView.Compression.Bits

open Text.Utf8 (toNat_toUInt8)

@[simp] theorem writeLow_length (n v : Nat) : (writeLow n v).length = n := by
  induction n generalizing v with
  | zero => rfl
  | succ n ih => simp [writeLow,ih]

@[simp] theorem writeHigh_length (n v : Nat) : (writeHigh n v).length = n := by
  simp [writeHigh]

@[simp] theorem littleEndian_length (n v : Nat) : (littleEndian n v).length = n := by
  induction n generalizing v with
  | zero => rfl
  | succ n ih => simp [littleEndian,ih]

theorem bit_value (v : Nat) : (v % 2 == 1).toNat = v % 2 := by
  rcases Nat.mod_two_eq_zero_or_one v with even | odd
  · rw [even]; rfl
  · rw [odd]; rfl

theorem takeLow_writeLow (n v : Nat) (bits : List Bool) :
    takeLow n (writeLow n v ++ bits) = some (v % 2 ^ n,bits) := by
  induction n generalizing v with
  | zero => simp [takeLow,writeLow,Nat.mod_one]
  | succ n ih =>
    have value : 2 * (v / 2 % 2 ^ n) + (v % 2 == 1).toNat = v % 2 ^ (n + 1) := by
      rw [bit_value,Nat.pow_succ',Nat.mod_mul]; omega
    rw [writeLow,List.cons_append,takeLow,ih,Option.map_some]
    exact congrArg (fun w => some (w,bits)) value

theorem writeLow_add (m n v : Nat) :
    writeLow (m + n) v = writeLow m v ++ writeLow n (v / 2 ^ m) := by
  induction m generalizing v with
  | zero => simp [writeLow]
  | succ m ih =>
    rw [Nat.add_right_comm,writeLow,ih,writeLow,List.cons_append,Nat.div_div_eq_div_mul,
      Nat.pow_succ']

theorem lowFirst_toUInt8 (v : Nat) : lowFirst v.toUInt8 = writeLow 8 v := by
  have byte : v.toUInt8.toNat = v % 256 := rfl
  simp only [lowFirst,bit,byte,writeLow,Nat.div_div_eq_div_mul]
  simp only [List.cons.injEq,and_true]
  refine ⟨?_,?_,?_,?_,?_,?_,?_,?_⟩
  all_goals exact congrArg (· == 1) (by omega)

theorem ofBytesLow_littleEndian (n v : Nat) :
    ofBytesLow (littleEndian n v) = writeLow (8 * n) v := by
  induction n generalizing v with
  | zero => rfl
  | succ n ih =>
    have rest : ofBytesLow (littleEndian n (v / 256)) = writeLow (8 * n) (v / 2 ^ 8) := ih _
    rw [Nat.mul_succ,Nat.add_comm (8 * n) 8,writeLow_add,←lowFirst_toUInt8,←rest]
    rfl

@[simp] theorem ofBytesLow_append (a b : List UInt8) :
    ofBytesLow (a ++ b) = ofBytesLow a ++ ofBytesLow b := List.flatMap_append

@[simp] theorem ofBytesLow_length (bytes : List UInt8) :
    (ofBytesLow bytes).length = 8 * bytes.length := by
  induction bytes with
  | nil => rfl
  | cons b rest ih =>
    rw [ofBytesLow,List.flatMap_cons,List.length_append]
    change 8 + (ofBytesLow rest).length = _
    rw [ih,List.length_cons]
    omega

theorem takeLow_littleEndian {n v : Nat} (small : v < 2 ^ (8 * n)) (bytes : List UInt8) :
    takeLow (8 * n) (ofBytesLow (littleEndian n v ++ bytes)) = some (v,ofBytesLow bytes) := by
  rw [ofBytesLow_append,ofBytesLow_littleEndian,takeLow_writeLow,Nat.mod_eq_of_lt small]

theorem takeHighOnto_add (m n v : Nat) (bits : List Bool) :
    takeHighOnto (m + n) v bits =
      (takeHighOnto m v bits).bind (fun (w,rest) => takeHighOnto n w rest) := by
  induction m generalizing v bits with
  | zero => simp [takeHighOnto]
  | succ m ih =>
    rw [Nat.add_right_comm]
    cases bits with
    | nil => rfl
    | cons b bits => exact ih _ _

theorem takeHighOnto_writeHigh (n v w : Nat) (bits : List Bool) :
    takeHighOnto n w (writeHigh n v ++ bits) = some (w * 2 ^ n + v % 2 ^ n,bits) := by
  induction n generalizing v bits with
  | zero => simp [takeHighOnto,writeHigh,writeLow,Nat.mod_one]
  | succ n ih =>
    have last : writeHigh (n + 1) v = writeHigh n (v / 2) ++ [v % 2 == 1] := by
      simp [writeHigh,writeLow]
    have value : 2 * (w * 2 ^ n + v / 2 % 2 ^ n) + v % 2 = w * 2 ^ (n + 1) + v % 2 ^ (n + 1) := by
      rw [Nat.pow_succ',Nat.mod_mul,Nat.mul_add,Nat.mul_left_comm]; omega
    rw [last,List.append_assoc,takeHighOnto_add,ih,Option.bind_some]
    simp only [List.cons_append,List.nil_append,takeHighOnto,bit_value,value]

theorem takeHigh_writeHigh {n v : Nat} (small : v < 2 ^ n) (bits : List Bool) :
    takeHigh n (writeHigh n v ++ bits) = some (v,bits) := by
  rw [takeHigh,takeHighOnto_writeHigh,Nat.zero_mul,Nat.zero_add,Nat.mod_eq_of_lt small]

theorem highFirst_byteHigh (b7 b6 b5 b4 b3 b2 b1 b0 : Bool) :
    highFirst (byteHigh b7 b6 b5 b4 b3 b2 b1 b0) = [b7,b6,b5,b4,b3,b2,b1,b0] := by
  revert b7 b6 b5 b4 b3 b2 b1 b0
  decide

-- Bits come back from their bytes, followed by the zeros that fill the last byte.
theorem ofBytesHigh_toBytesHigh (bits : List Bool) :
    ∃ n, ofBytesHigh (toBytesHigh bits) = bits ++ List.replicate n false := by
  induction bits using toBytesHigh.induct with
  | case1 => exact ⟨0,rfl⟩
  | case2 b7 b6 b5 b4 b3 b2 b1 b0 rest ih =>
    obtain ⟨n,filled⟩ := ih
    refine ⟨n,?_⟩
    rw [toBytesHigh,ofBytesHigh,List.flatMap_cons,highFirst_byteHigh]
    exact congrArg ([b7,b6,b5,b4,b3,b2,b1,b0] ++ ·) filled
  | case3 bits nonempty short =>
    refine ⟨8 - bits.length,?_⟩
    rw [toBytesHigh.eq_3 bits nonempty short,ofBytesHigh,List.flatMap_cons,highFirst_byteHigh]
    match bits with
    | [] => exact absurd rfl nonempty
    | [_] | [_,_] | [_,_,_] | [_,_,_,_] | [_,_,_,_,_] | [_,_,_,_,_,_] | [_,_,_,_,_,_,_] => rfl
    | b7 :: b6 :: b5 :: b4 :: b3 :: b2 :: b1 :: b0 :: rest =>
      exact absurd rfl (short b7 b6 b5 b4 b3 b2 b1 b0 rest)

theorem takeLittle_littleEndian {n v : Nat} (small : v < 256 ^ n) (bytes : List UInt8) :
    takeLittle n (littleEndian n v ++ bytes) = some (v,bytes) := by
  induction n generalizing v with
  | zero =>
    have zero : v = 0 := Nat.lt_one_iff.mp small
    subst zero
    rfl
  | succ n ih =>
    have high : v / 256 < 256 ^ n := Nat.div_lt_of_lt_mul (by rwa [←Nat.pow_succ'])
    have value : 256 * (v / 256) + v.toUInt8.toNat = v := Nat.div_add_mod v 256
    rw [littleEndian,List.cons_append,takeLittle,ih high,Option.map_some]
    exact congrArg (fun w => some (w,bytes)) value

theorem takeBytes_append {n : Nat} {front : List UInt8} (length : front.length = n)
    (rest : List UInt8) : takeBytes n (front ++ rest) = some (front,rest) := by
  subst length
  simp [takeBytes]

end TableView.Compression.Bits
