import TableView.Proofs.Base64
import TableView.Proofs.Outcome

namespace TableView.Base64

def missing (bytes : List UInt8) : Nat := (4 - (encodeBytes bytes).length % 4) % 4

-- The symbols of some bytes with padding behind them, at most what fills up the last group.
def Padded (bytes symbols : List UInt8) : Prop :=
  ∃ k ≤ missing bytes, symbols = encodeBytes bytes ++ List.replicate k pad

theorem missing_eq (bytes : List UInt8) : missing bytes = 2 * bytes.length % 3 := by
  rw [missing,encodeBytes_length]
  generalize bytes.length = n
  have left : n % 3 = 0 ∨ n % 3 = 1 ∨ n % 3 = 2 := by omega
  rcases left with none | one | two
  all_goals omega

theorem value?_given {b : UInt8} {v : Nat} (given : value? b = some v) :
    v < 64 ∧ symbol v = b := by
  simp only [value?] at given
  split at given
  · cases given
    refine ⟨by omega,?_⟩
    rw [symbol,if_pos (by omega)]
    exact toUInt8_toNat (by omega)
  split at given
  · cases given
    refine ⟨by omega,?_⟩
    rw [symbol,if_neg (by omega),if_pos (by omega)]
    exact toUInt8_toNat (by omega)
  split at given
  · cases given
    refine ⟨by omega,?_⟩
    rw [symbol,if_neg (by omega),if_neg (by omega),if_pos (by omega)]
    exact toUInt8_toNat (by omega)
  split at given
  · rename_i dash
    cases given
    exact ⟨by omega,UInt8.toNat_inj.mp dash.symm⟩
  split at given
  · rename_i line
    cases given
    exact ⟨by omega,UInt8.toNat_inj.mp line.symm⟩
  · cases given

theorem valueAt_given {b : UInt8} {offset v : Nat} (given : valueAt b offset = .ok v) :
    v < 64 ∧ symbol v = b := by
  rw [valueAt] at given
  split at given
  · rename_i known
    cases given
    exact value?_given known
  · cases given

section LastSymbols
variable {start : Nat}

theorem lastSymbols_pads (k : Nat) (padding : Option Nat) {index : Nat} (late : 2 ≤ index)
    (read : List (UInt8 × Nat)) :
    lastSymbols start padding index read (List.replicate k pad) = .ok read := by
  induction k generalizing padding index with
  | zero => rfl
  | succ k ih =>
    rw [List.replicate_succ,lastSymbols.eq_def]
    dsimp only
    rw [if_pos rfl,if_neg (by omega)]
    exact ih _ (by omega)

theorem lastSymbols_written {values : List Nat} (six : ∀ v ∈ values, v < 64) {k index : Nat}
    (room : k = 0 ∨ 2 ≤ index + values.length) (read : List (UInt8 × Nat)) :
    lastSymbols start none index read (values.map symbol ++ List.replicate k pad) =
      .ok (read ++ values.map (fun v => (symbol v,v))) := by
  induction values generalizing index read with
  | nil =>
    rw [List.map_nil,List.nil_append,List.map_nil,List.append_nil]
    rcases room with rfl | late
    · rfl
    · exact lastSymbols_pads k none late read
  | cons v values ih =>
    obtain ⟨small,six⟩ := List.forall_mem_cons.mp six
    rw [List.length_cons] at room
    rw [List.map_cons,List.cons_append,lastSymbols,if_neg (symbol_ne_pad small)]
    simp only [valueAt_symbol small,bind,Except.bind]
    rw [ih six (by omega)]
    simp

theorem lastSymbols_padded {symbols : List UInt8} {first index : Nat}
    {read all : List (UInt8 × Nat)}
    (given : lastSymbols start (some first) index read symbols = .ok all) :
    all = read ∧ ∃ k, symbols = List.replicate k pad := by
  induction symbols generalizing index with
  | nil =>
    cases given
    exact ⟨rfl,0,rfl⟩
  | cons b symbols ih =>
    rw [lastSymbols] at given
    split at given
    · rename_i padding
      split at given
      · cases given
      · obtain ⟨rfl,k,rfl⟩ := ih given
        exact ⟨rfl,k + 1,by rw [padding,List.replicate_succ]⟩
    · cases given

theorem lastSymbols_read {symbols : List UInt8} {index : Nat} {read all : List (UInt8 × Nat)}
    (given : lastSymbols start none index read symbols = .ok all) :
    ∃ (values : List Nat) (k : Nat), symbols = values.map symbol ++ List.replicate k pad ∧
      (∀ v ∈ values, v < 64) ∧ (k = 0 ∨ 2 ≤ index + values.length) ∧
      all = read ++ values.map (fun v => (symbol v,v)) := by
  induction symbols generalizing index read with
  | nil =>
    cases given
    exact ⟨[],0,rfl,by simp,.inl rfl,(List.append_nil _).symm⟩
  | cons b symbols ih =>
    rw [lastSymbols] at given
    split at given
    · rename_i padding
      split at given
      · cases given
      · rename_i late
        obtain ⟨rfl,k,rfl⟩ := lastSymbols_padded given
        have room : 2 ≤ index + ([] : List Nat).length := Nat.le_of_not_lt late
        exact ⟨[],k + 1,by rw [padding]; rfl,by simp,.inr room,(List.append_nil _).symm⟩
    · obtain ⟨v,known,given⟩ := ok_of_bind given
      obtain ⟨small,rfl⟩ := valueAt_given known
      obtain ⟨values,k,rfl,six,room,rfl⟩ := ih given
      refine ⟨v :: values,k,rfl,List.forall_mem_cons.mpr ⟨small,six⟩,?_,by simp⟩
      rw [List.length_cons]
      omega

end LastSymbols

theorem encodeBytes_values (bytes : List UInt8) :
    ∃ values : List Nat, (∀ v ∈ values, v < 64) ∧ encodeBytes bytes = values.map symbol := by
  have values {symbols : List UInt8} (known : ∀ s ∈ symbols, ∃ n < 64, s = symbol n) :
      ∃ values : List Nat, (∀ v ∈ values, v < 64) ∧ symbols = values.map symbol := by
    induction symbols with
    | nil => exact ⟨[],by simp,rfl⟩
    | cons s symbols ih =>
      obtain ⟨⟨n,small,rfl⟩,others⟩ := List.forall_mem_cons.mp known
      obtain ⟨values,six,rfl⟩ := ih others
      exact ⟨n :: values,List.forall_mem_cons.mpr ⟨small,six⟩,rfl⟩
  exact values (fun _ member => mem_encodeBytes member)

theorem lastGroup_written (start : Nat) {values : List Nat} (six : ∀ v ∈ values, v < 64) {k : Nat}
    (room : k = 0 ∨ 2 ≤ values.length) :
    lastGroup start (values.map symbol ++ List.replicate k pad) =
      lastGroup start (values.map symbol) := by
  have reads {j : Nat} (room : j = 0 ∨ 2 ≤ values.length) :
      lastSymbols start none 0 [] (values.map symbol ++ List.replicate j pad) =
        .ok (values.map (fun v => (symbol v,v))) :=
    lastSymbols_written six (by simpa using room) []
  have padded := reads room
  have bare := reads (.inl (Eq.refl 0))
  rw [List.replicate_zero,List.append_nil] at bare
  simp only [lastGroup,padded,bare]
  cases values with
  | nil =>
    obtain rfl := room.resolve_right (by simp)
    rfl
  | cons v values => rfl

theorem lastGroup_padded (start : Nat) {bytes : List UInt8} (few : bytes.length ≤ 3) {k : Nat}
    (room : k ≤ missing bytes) :
    lastGroup start (encodeBytes bytes ++ List.replicate k pad) = .ok bytes := by
  have length := encodeBytes_length bytes
  have whole : lastGroup start (encodeBytes bytes) = .ok bytes := by
    rw [←groups_short start (by omega)]
    exact groups_encodeBytes start bytes
  obtain ⟨values,six,symbols⟩ := encodeBytes_values bytes
  rw [symbols] at whole length ⊢
  rw [List.length_map] at length
  rw [missing_eq] at room
  have enough : k = 0 ∨ 2 ≤ values.length := by
    rcases Nat.eq_zero_or_pos bytes.length with none | some
    · exact .inl (by omega)
    · exact .inr (by omega)
  rw [lastGroup_written start six enough,whole]

theorem groups_padded (start : Nat) (bytes : List UInt8) {k : Nat} (room : k ≤ missing bytes) :
    groups start (encodeBytes bytes ++ List.replicate k pad) = .ok bytes := by
  induction bytes using encodeBytes.induct generalizing start with
  | case1 | case2 a | case3 a b =>
    rw [groups_short start]
    · exact lastGroup_padded start (by simp) room
    · simp [encodeBytes,missing_eq] at room ⊢
      omega
  | case4 a b c rest ih =>
    rw [encodeBytes]
    have room : k ≤ missing rest := by
      simp only [missing_eq,List.length_cons] at room ⊢
      omega
    by_cases last : rest = []
    · subst last
      obtain rfl : k = 0 := Nat.le_zero.mp room
      rw [encodeBytes,List.replicate_zero,List.append_nil,groups_short start (by simp)]
      exact lastGroup_three rfl start
    · have nonempty : encodeBytes rest ++ List.replicate k pad ≠ [] := by
        intro empty
        have length := encodeBytes_length rest
        have some := List.length_pos_iff.mpr last
        rw [(List.append_eq_nil_iff.mp empty).1,List.length_nil] at length
        omega
      exact groups_four rfl start nonempty (ih (start + 4) room)

section Values
variable {a b c d : Nat} (firstSix : a < 64) (secondSix : b < 64)
include firstSix secondSix

-- The bits that the bytes take are those of the values, since the others are zero.
theorem encodeBytes_two (zeros : b % 16 = 0) :
    encodeBytes [(a * 4 + b / 16).toUInt8] = [symbol a,symbol b] := by
  have byte : (a * 4 + b / 16).toUInt8.toNat = a * 4 + b / 16 :=
    Text.Utf8.toNat_toUInt8 (by omega)
  have high : (a * 4 + b / 16) * 16 / 64 = a := by omega
  have low : (a * 4 + b / 16) * 16 % 64 = b := by omega
  simp only [encodeBytes,byte,high,low]

theorem encodeBytes_three {n : Nat} (thirdSix : c < 64) (whole : n = (a * 64 + b) * 64 + c)
    (zeros : c % 4 = 0) : encodeBytes [(n / 1024).toUInt8,(n / 4 % 256).toUInt8] =
      [symbol a,symbol b,symbol c] := by
  have first : (n / 1024).toUInt8.toNat = n / 1024 := Text.Utf8.toNat_toUInt8 (by omega)
  have second : (n / 4 % 256).toUInt8.toNat = n / 4 % 256 := Text.Utf8.toNat_toUInt8 (by omega)
  have together : (n / 1024 * 256 + n / 4 % 256) * 4 = n := by omega
  have high : n / 4096 = a := by omega
  have middle : n / 64 % 64 = b := by omega
  have low : n % 64 = c := by omega
  simp only [encodeBytes,first,second,together,high,middle,low]

theorem encodeBytes_four {n : Nat} (thirdSix : c < 64) (fourthSix : d < 64)
    (whole : n = ((a * 64 + b) * 64 + c) * 64 + d) (rest : List UInt8) :
    encodeBytes ((n / 65536).toUInt8 :: (n / 256 % 256).toUInt8 :: (n % 256).toUInt8 :: rest) =
      symbol a :: symbol b :: symbol c :: symbol d :: encodeBytes rest := by
  have first : (n / 65536).toUInt8.toNat = n / 65536 := Text.Utf8.toNat_toUInt8 (by omega)
  have second : (n / 256 % 256).toUInt8.toNat = n / 256 % 256 :=
    Text.Utf8.toNat_toUInt8 (by omega)
  have third : (n % 256).toUInt8.toNat = n % 256 := Text.Utf8.toNat_toUInt8 (by omega)
  have together : (n / 65536 * 256 + n / 256 % 256) * 256 + n % 256 = n := by omega
  have one : n / 262144 = a := by omega
  have two : n / 4096 % 64 = b := by omega
  have three : n / 64 % 64 = c := by omega
  have four : n % 64 = d := by omega
  rw [encodeBytes]
  simp only [first,second,third,together,one,two,three,four]

end Values

theorem lastGroup_given {start : Nat} {symbols bytes : List UInt8} (few : symbols.length ≤ 4)
    (given : lastGroup start symbols = .ok bytes) : Padded bytes symbols := by
  rw [lastGroup] at given
  obtain ⟨all,read,chosen⟩ := ok_of_bind given
  obtain ⟨values,k,rfl,six,room,rfl⟩ := lastSymbols_read read
  rw [List.length_append,List.length_map,List.length_replicate] at few
  rcases values with _ | ⟨a,_ | ⟨b,_ | ⟨c,_ | ⟨d,_ | ⟨e,values⟩⟩⟩⟩⟩
  · obtain rfl : k = 0 := room.resolve_right (by simp)
    cases chosen
    exact ⟨0,Nat.le_refl 0,rfl⟩
  · cases chosen
  · replace chosen : (if b % 16 = 0 then .ok [(a * 4 + b / 16).toUInt8]
        else .error (.lastSymbol (symbol b) (start + 1)) : Except Fault _) = .ok bytes := chosen
    split at chosen
    · rename_i zeros
      cases chosen
      refine ⟨k,?_,?_⟩
      · simp [missing_eq] at few ⊢
        omega
      · rw [encodeBytes_two (six a (by simp)) (six b (by simp)) zeros]
        rfl
    · cases chosen
  · replace chosen : (if c % 4 = 0 then .ok [(((a * 64 + b) * 64 + c) / 1024).toUInt8,
          (((a * 64 + b) * 64 + c) / 4 % 256).toUInt8]
        else .error (.lastSymbol (symbol c) (start + 2)) : Except Fault _) = .ok bytes := chosen
    split at chosen
    · rename_i zeros
      cases chosen
      refine ⟨k,?_,?_⟩
      · simp [missing_eq] at few ⊢
        omega
      · rw [encodeBytes_three (six a (by simp)) (six b (by simp)) (six c (by simp)) rfl zeros]
        rfl
    · cases chosen
  · cases chosen
    obtain rfl : k = 0 := by
      simp at few
      omega
    refine ⟨0,Nat.zero_le _,?_⟩
    rw [encodeBytes_four (six a (by simp)) (six b (by simp)) (six c (by simp))
      (six d (by simp)) rfl]
    rfl
  · simp at few
    omega

theorem groups_given {start : Nat} {symbols bytes : List UInt8}
    (given : groups start symbols = .ok bytes) : Padded bytes symbols := by
  induction start,symbols using groups.induct generalizing bytes with
  | case1 start a b c d e rest ih =>
    rw [groups] at given
    obtain ⟨va,first,afterFirst⟩ := ok_of_bind given
    obtain ⟨vb,second,afterSecond⟩ := ok_of_bind afterFirst
    obtain ⟨vc,third,afterThird⟩ := ok_of_bind afterSecond
    obtain ⟨vd,fourth,afterFourth⟩ := ok_of_bind afterThird
    obtain ⟨more,behind,all⟩ := ok_of_bind afterFourth
    obtain ⟨sixA,rfl⟩ := valueAt_given first
    obtain ⟨sixB,rfl⟩ := valueAt_given second
    obtain ⟨sixC,rfl⟩ := valueAt_given third
    obtain ⟨sixD,rfl⟩ := valueAt_given fourth
    obtain rfl := Except.ok.inj all
    obtain ⟨k,room,same⟩ := ih behind
    refine ⟨k,?_,?_⟩
    · simp only [missing_eq,List.length_cons] at room ⊢
      omega
    · rw [encodeBytes_four sixA sixB sixC sixD rfl,same]
      rfl
  | case2 start symbols short =>
    rw [groups] at given
    · refine lastGroup_given ?_ given
      rcases symbols with _ | ⟨a,_ | ⟨b,_ | ⟨c,_ | ⟨d,_ | ⟨e,rest⟩⟩⟩⟩⟩
      case cons.cons.cons.cons.cons => exact absurd rfl (short a b c d e rest)
      all_goals simp
    · exact short

theorem strayByte_padded (bytes : List UInt8) (k : Nat) :
    strayByte (encodeBytes bytes ++ List.replicate k pad) = none := by
  unfold strayByte
  split
  · rename_i b last
    rcases List.mem_append.mp (List.mem_of_getLast? last) with written | padding
    · obtain ⟨n,six,rfl⟩ := mem_encodeBytes written
      simp [value?_symbol six]
    · rw [List.eq_of_mem_replicate padding]
      simp
  · rfl

-- The texts that are read are those that are written, padded or not.
theorem decode_iff {symbols bytes : List UInt8} :
    decode symbols = .ok bytes ↔ Padded bytes symbols := by
  constructor
  · intro given
    rw [decode] at given
    split at given
    · cases given
    · exact groups_given given
  · rintro ⟨k,room,rfl⟩
    rw [decode,strayByte_padded]
    exact groups_padded 0 bytes room

end TableView.Base64
