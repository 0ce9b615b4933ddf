import FederatedQuery.Document.Marker
import FederatedQuery.Proofs.Error.Outcome
import FederatedQuery.Proofs.Value.Key

/-!
Values that are written as documents and read again. A document does not say what type its value had: a date is read as
a moment and an item of an array as anything, and the type that is asked for makes the value of it that was written.
-/
namespace FederatedQuery

namespace Text

theorem sixBitsOf?_sixBits {n : Nat} (small : n < 64) : sixBitsOf? (sixBits n) = some n := by
  have all : ∀ n : Fin 64, sixBitsOf? (sixBits n) = some n.val := by decide
  exact all ⟨n, small⟩

theorem sixBits_ne_padding {n : Nat} (small : n < 64) : sixBits n ≠ '=' := by
  have all : ∀ n : Fin 64, sixBits n ≠ '=' := by decide
  exact all ⟨n, small⟩

theorem base64Bytes?_pair {a b c : Char} (plain : c ≠ '=') : base64Bytes? [a, b, c, '='] = (do
    let n := ((← sixBitsOf? a) * 64 + (← sixBitsOf? b)) * 64 + (← sixBitsOf? c)
    if n % 4 = 0 then some [(n / 1024).toUInt8, (n / 4 % 256).toUInt8] else none) := by
  rw [base64Bytes?]
  exact plain

theorem base64Bytes?_group {a b c d : Char} {rest : List Char} (plain : d ≠ '=') :
    base64Bytes? (a :: b :: c :: d :: rest) = (do
      let n := (((← sixBitsOf? a) * 64 + (← sixBitsOf? b)) * 64 + (← sixBitsOf? c)) * 64 + (← sixBitsOf? d)
      let tail ← base64Bytes? rest
      some ((n / 65536).toUInt8 :: (n / 256 % 256).toUInt8 :: (n % 256).toUInt8 :: tail)) := by
  rw [base64Bytes?]
  · exact fun _ pad _ => plain pad
  · exact fun pad _ => plain pad

theorem base64Bytes?_base64Chars (bytes : List UInt8) : base64Bytes? (base64Chars bytes) = some bytes := by
  induction bytes using base64Chars.induct with
  | case1 => rfl
  | case2 a =>
    have bound := a.toNat_lt
    rw [base64Chars, base64Bytes?, sixBitsOf?_sixBits (by omega), sixBitsOf?_sixBits (by omega)]
    have whole : a.toNat * 16 / 64 * 64 + a.toNat * 16 % 64 = a.toNat * 16 := by omega
    simp [whole]
  | case3 a b =>
    have bounds := And.intro a.toNat_lt b.toNat_lt
    generalize bits : (a.toNat * 256 + b.toNat) * 4 = n
    have whole : (n / 4096 * 64 + n / 64 % 64) * 64 + n % 64 = n := by omega
    have first : n / 1024 = a.toNat := by omega
    have second : n / 4 % 256 = b.toNat := by omega
    have filled : n % 4 = 0 := by omega
    rw [base64Chars, bits, base64Bytes?_pair (sixBits_ne_padding (by omega)), sixBitsOf?_sixBits (by omega),
      sixBitsOf?_sixBits (by omega), sixBitsOf?_sixBits (by omega)]
    simp [whole, first, second, filled]
  | case4 a b c rest ih =>
    have bounds := And.intro a.toNat_lt (And.intro b.toNat_lt c.toNat_lt)
    generalize bits : (a.toNat * 256 + b.toNat) * 256 + c.toNat = n
    have whole : ((n / 262144 * 64 + n / 4096 % 64) * 64 + n / 64 % 64) * 64 + n % 64 = n := by omega
    have first : n / 65536 = a.toNat := by omega
    have second : n / 256 % 256 = b.toNat := by omega
    have third : n % 256 = c.toNat := by omega
    rw [base64Chars, bits, base64Bytes?_group (sixBits_ne_padding (by omega)), sixBitsOf?_sixBits (by omega),
      sixBitsOf?_sixBits (by omega), sixBitsOf?_sixBits (by omega), sixBitsOf?_sixBits (by omega), ih]
    simp [whole, first, second, third]

theorem readBase64?_base64 (bytes : List UInt8) : readBase64? (base64 bytes) = some bytes := by
  rw [readBase64?, base64, String.toList_ofList, base64Bytes?_base64Chars]

end Text

theorem splitSign_toDigits (n : Nat) : splitSign (Nat.toDigits 10 n) = (false, Nat.toDigits 10 n) := by
  cases digits : Nat.toDigits 10 n with
  | nil => rfl
  | cons c rest =>
    have digit : c.isDigit = true :=
      Nat.isDigit_of_mem_toDigits (by decide) (by decide) (digits ▸ (.head _) : c ∈ Nat.toDigits 10 n)
    rw [splitSign]
    all_goals
      intro _ same
      rw [(List.cons.inj same).1] at digit
      exact absurd digit (by decide)

theorem digitsValue_toDigits (n : Nat) : digitsValue (Nat.toDigits 10 n) = n := Nat.ofDigitChars_ten_toDigits

theorem not_malformed_toDigits (n : Nat) :
    ¬((Nat.toDigits 10 n).isEmpty = true ∨ ¬(Nat.toDigits 10 n).all Char.isDigit = true) := by
  rintro (empty | strange)
  · exact Nat.toDigits_ne_nil (List.isEmpty_iff.1 empty)
  · exact strange (List.all_eq_true.2 fun c mem => Nat.isDigit_of_mem_toDigits (by decide) (by decide) mem)

theorem readInt?_toString (i : Int) : readInt? (toString i).toList = some i := by
  cases i with
  | ofNat n =>
    have text : (toString (Int.ofNat n)).toList = Nat.toDigits 10 n := by
      rw [Int.toString_eq_repr, Int.repr, Nat.repr_eq_ofList_toDigits, String.toList_ofList]
    rw [readInt?, text, splitSign_toDigits]
    dsimp only
    rw [if_neg (not_malformed_toDigits n), digitsValue_toDigits]
    rfl
  | negSucc n =>
    have text : (toString (Int.negSucc n)).toList = '-' :: Nat.toDigits 10 n.succ := by
      rw [Int.toString_eq_repr, Int.repr, String.toList_append]
      exact congrArg ('-' :: ·) String.toList_ofList
    rw [readInt?, text, splitSign]
    dsimp only
    rw [if_neg (not_malformed_toDigits n.succ), digitsValue_toDigits]
    rfl

/-- The values of a type. Null is one of every type. -/
inductive WellTyped : SqlType → Value → Prop
  | null (ty : SqlType) : WellTyped ty .null
  | boolean (b : Bool) : WellTyped .boolean (.bool b)
  | integer {i : Int64} (fits : Value.fits32 i = true) : WellTyped .integer (.int i)
  | bigInt (i : Int64) : WellTyped .bigInt (.int i)
  | double {x : Double} (finite : x.isFinite = true) : WellTyped .double (.float x)
  | decimal {x : Double} {precision scale : Nat} (finite : x.isFinite = true) :
      WellTyped (.decimal precision scale) (.float x)
  | varchar (s : String) : WellTyped (.varchar none) (.string s)
  | bounded {s : String} {limit : Nat} (within : s.length ≤ limit) : WellTyped (.varchar (some limit)) (.string s)
  | binary (bytes : List UInt8) : WellTyped .binary (.bytes bytes)
  | date (days : Int32) : WellTyped .date (.date days)
  | timestamp (millis : Int64) : WellTyped .timestamp (.timestamp millis)
  | array {item : SqlType} {items : List Value} (each : ∀ v ∈ items, WellTyped item v) :
      WellTyped (.array item) (.array items)

namespace Document

theorem reservedValue_date {date : Document} {moment : Int64} (read : millis? date = some moment) :
    reservedValue [("$date", date)] = .ok (.timestamp moment) := by
  have found : Entries.get? [("$date", date)] "$date" = some date := rfl
  rw [reservedValue, found]
  dsimp only
  rw [read]

theorem toValue_ofMillis (ty : SqlType) {millis : Int} {moment : Int64}
    (fits : FederatedQuery.int64? millis = some moment) :
    toValue ty (ofMillis millis) = (Value.timestamp moment).cast ty := by
  have read : millis? (single "$numberLong" (string (toString millis))) = some moment := by
    change (readInt? (toString millis).toList).bind FederatedQuery.int64? = some moment
    rw [readInt?_toString]
    exact fits
  rw [ofMillis, single, toValue, reservedValue_date read]
  rfl

theorem reservedValue_binary {binary : Document} {payload : String} {bytes : List UInt8}
    (found : (binary.get? "base64").bind text? = some payload) (read : Text.readBase64? payload = some bytes) :
    reservedValue [("$binary", binary)] = .ok (.bytes bytes) := by
  have date : Entries.get? [("$binary", binary)] "$date" = none := rfl
  have here : Entries.get? [("$binary", binary)] "$binary" = some binary := rfl
  rw [reservedValue, date]
  rw [here]
  dsimp only
  rw [found]
  dsimp only
  rw [read]

theorem toValue_ofBytes (ty : SqlType) (bytes : List UInt8) :
    toValue ty (ofBytes bytes) = (Value.bytes bytes).cast ty := by
  rw [ofBytes, single, toValue, reservedValue_binary rfl (Text.readBase64?_base64 bytes)]
  rfl

/-- A day is as many milliseconds as a moment can have. -/
theorem int64?_day (days : Int32) : FederatedQuery.int64? (days.toInt * Calendar.millisPerDay) =
    some (Int64.ofInt (days.toInt * Calendar.millisPerDay)) := by
  rw [FederatedQuery.int64?, if_pos]
  have low : -2147483648 ≤ days.toInt := days.minValue_le_toInt
  have high : days.toInt ≤ 2147483647 := days.toInt_le
  change -9223372036854775808 ≤ days.toInt * 86400000 ∧ days.toInt * 86400000 ≤ 9223372036854775807
  omega

theorem toDate?_day (days : Int32) :
    (Value.timestamp (Int64.ofInt (days.toInt * Calendar.millisPerDay))).toDate? = some days := by
  have low : -2147483648 ≤ days.toInt := days.minValue_le_toInt
  have high : days.toInt ≤ 2147483647 := days.toInt_le
  have kept : (Int64.ofInt (days.toInt * Calendar.millisPerDay)).toInt = days.toInt * Calendar.millisPerDay := by
    refine Int64.toInt_ofInt_of_le ?_ ?_
    · change -9223372036854775808 ≤ days.toInt * 86400000
      omega
    · change days.toInt * 86400000 < 9223372036854775808
      omega
  rw [Value.toDate?, kept, Int.mul_fdiv_cancel _ (by decide), Int32.ofInt_toInt]

theorem ofValues_eq_mapM (items : List Value) : ofValues items = items.mapM ofValue := by
  induction items with
  | nil => rfl
  | cons _ _ ih => rw [ofValues, ih, List.mapM_cons]

theorem toValues_eq_mapM (ty : SqlType) (items : List Document) : toValues ty items = items.mapM (toValue ty) := by
  induction items with
  | nil => rfl
  | cons _ _ ih => rw [toValues, ih, List.mapM_cons]

theorem anyMarkers_eq_any (items : List Document) : anyMarkers items = items.any hasMarkers := by
  induction items with
  | nil => rfl
  | cons _ _ ih => rw [anyMarkers, ih, List.any_cons]

/-- The document of a value of a type, which is read as the value again and has no place for a parameter. -/
structure Encodes (ty : SqlType) (v : Value) (d : Document) : Prop where
  written : ofValue v = .ok d
  read : toValue ty d = .ok v
  closed : d.hasMarkers = false

theorem exists_encodes {ty : SqlType} {v : Value} (typed : WellTyped ty v) : ∃ d, Encodes ty v d := by
  induction typed with
  | null => exact ⟨.null, rfl, rfl, rfl⟩
  | boolean b => exact ⟨.bool b, rfl, rfl, rfl⟩
  | @integer i fits =>
    refine ⟨.int i.toInt, rfl, ?_, rfl⟩
    rw [toValue, int64?_toInt]
    exact if_pos fits
  | bigInt i =>
    refine ⟨.int i.toInt, rfl, ?_, rfl⟩
    rw [toValue, int64?_toInt]
    rfl
  | @double x finite | @decimal x _ _ finite => exact ⟨.float x, if_pos finite, rfl, rfl⟩
  | varchar s => exact ⟨.string s, rfl, rfl, rfl⟩
  | @bounded s limit within =>
    refine ⟨.string s, rfl, ?_, rfl⟩
    have whole : String.ofList (s.toList.take limit) = s := by
      rw [List.take_of_length_le (String.length_toList ▸ within), String.ofList_toList]
    exact congrArg (fun s => Except.ok (Value.string s)) whole
  | binary bytes => exact ⟨ofBytes bytes, rfl, toValue_ofBytes .binary bytes, rfl⟩
  | date days =>
    refine ⟨ofMillis (days.toInt * Calendar.millisPerDay), rfl, ?_, rfl⟩
    rw [toValue_ofMillis .date (int64?_day days), Value.cast, toDate?_day]
    rfl
  | timestamp millis => exact ⟨ofMillis millis.toInt, rfl, toValue_ofMillis .timestamp (int64?_toInt millis), rfl⟩
  | @array item items each ih =>
    obtain ⟨documents, related⟩ := exists_forall₂ ih
    have written : ofValues items = .ok documents :=
      (ofValues_eq_mapM items).trans (mapM_eq_ok.2 (related.imp fun _ _ encodes => encodes.written))
    have read : toValues item documents = .ok items :=
      (toValues_eq_mapM item documents).trans (mapM_eq_ok.2 (related.flip.imp fun _ _ encodes => encodes.read))
    refine ⟨.array documents, ?_, ?_, ?_⟩
    · rw [ofValue, written]
      rfl
    · rw [toValue, itemTypeOf, read]
      rfl
    · rw [hasMarkers, anyMarkers_eq_any, List.any_eq_false]
      intro d mem
      obtain ⟨v, -, encodes⟩ := exists_of_forall₂_right related mem
      rw [encodes.closed]
      decide

end Document

end FederatedQuery
