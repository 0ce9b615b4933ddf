import FederatedQuery.Proofs.Document.Codec

/-!
Moments and the days they fall on. A day is counted in thirty-two bits and a moment in sixty-four, and a moment is
converted whatever its day. So the conversion gives the day of exactly those moments whose day has a number.
-/
namespace FederatedQuery

/-- A moment falls on a day. -/
def Calendar.FallsOn (millis : Int64) (days : Int32) : Prop :=
  days.toInt * millisPerDay ≤ millis.toInt ∧ millis.toInt < (days.toInt + 1) * millisPerDay

/-- The day of a moment has a number of thirty-two bits. -/
def Calendar.HasDay (millis : Int64) : Prop :=
  -2 ^ 31 * millisPerDay ≤ millis.toInt ∧ millis.toInt < 2 ^ 31 * millisPerDay

open Calendar

variable {t u : Int64} {d e : Int32}

theorem fallsOn_iff : FallsOn t d ↔ d.toInt = t.toInt.fdiv millisPerDay := by
  have day : millisPerDay = 86400000 := rfl
  rw [FallsOn, day, Int.fdiv_eq_ediv_of_nonneg _ (by decide)]
  omega

theorem hasDay_iff : HasDay t ↔ -2 ^ 31 ≤ t.toInt.fdiv millisPerDay ∧ t.toInt.fdiv millisPerDay < 2 ^ 31 := by
  have day : millisPerDay = 86400000 := rfl
  rw [HasDay, day, Int.fdiv_eq_ediv_of_nonneg _ (by decide)]
  omega

theorem toInt_ofInt_eq_self_iff {i : Int} : (Int32.ofInt i).toInt = i ↔ -2 ^ 31 ≤ i ∧ i < 2 ^ 31 := by
  refine ⟨fun same => ?_, fun fits => Int32.toInt_ofInt_of_le fits.1 fits.2⟩
  have low := (Int32.ofInt i).le_toInt
  have high := (Int32.ofInt i).toInt_lt
  omega

theorem FallsOn.mono (first : FallsOn t d) (second : FallsOn u e) (later : t ≤ u) : d ≤ e := by
  have day : millisPerDay = 86400000 := rfl
  rw [FallsOn, day] at first second
  rw [Int64.le_iff_toInt_le] at later
  rw [Int32.le_iff_toInt_le]
  omega

/-- Under its reserved key a moment is read into a column of days as the moment is converted, or it is malformed. -/
theorem Document.toValue_moment {entries : Entries} {found : Document} (reserved : entries.get? "$date" = some found) :
    (∃ t, found.millis? = some t ∧ toValue .date (.object entries) = (Value.timestamp t).cast .date) ∨
      found.millis? = none ∧ toValue .date (.object entries) = .error (.eval (.malformedDate found)) := by
  rw [toValue, reservedValue, reserved]
  cases read : found.millis? with
  | none => exact .inr ⟨rfl, by simp only [read]; rfl⟩
  | some t => exact .inl ⟨t, rfl, by simp only [read]; rfl⟩

/-- A day is converted to a moment and back. A moment is converted to the day that it falls on exactly when that day has
a number, and the days of such moments are in their order. Other moments get the day whose number ends in the same
thirty-two bits. Moments in documents are read the same way. -/
theorem cast_date_exact_iff (d : Int32) (t : Int64) (entries : Entries) :
    (∃ u, (Value.date d).cast .timestamp = .ok (.timestamp u) ∧ u.toInt = d.toInt * millisPerDay ∧
      (Value.timestamp u).cast .date = .ok (.date d)) ∧
    (∃ e, (Value.timestamp t).cast .date = .ok (.date e) ∧ (FallsOn t e ↔ HasDay t) ∧
      e.toInt = (t.toInt.fdiv millisPerDay).bmod (2 ^ 32) ∧
      ∀ u e', (Value.timestamp u).cast .date = .ok (.date e') → HasDay t → HasDay u → t ≤ u → e ≤ e') ∧
    ∀ found, entries.get? "$date" = some found →
      (∃ u, found.millis? = some u ∧ Document.toValue .date (.object entries) = (Value.timestamp u).cast .date) ∨
        found.millis? = none ∧ Document.toValue .date (.object entries) = .error (.eval (.malformedDate found)) := by
  have exactly (t : Int64) : FallsOn t (Int32.ofInt (t.toInt.fdiv millisPerDay)) ↔ HasDay t := by
    rw [fallsOn_iff, hasDay_iff, toInt_ofInt_eq_self_iff]
  refine ⟨⟨_, rfl, toInt_of_int64? (Document.int64?_day d), ?_⟩, ⟨_, rfl, exactly t, Int32.toInt_ofInt,
    fun u e converted first second later => ?_⟩, fun _ => Document.toValue_moment⟩
  · rw [Value.cast, Document.toDate?_day]
    rfl
  · cases converted
    exact FallsOn.mono ((exactly t).2 first) ((exactly u).2 second) later

/-- The last moment whose day has a number, and the next one, which gets the first day of all, also when it is read. -/
theorem cast_date_exact_iff_limit :
    ((Value.timestamp 185542587187199999).cast .date = .ok (.date 2147483647) ∧
      FallsOn 185542587187199999 2147483647 ∧ (0 : Int32) ≤ 2147483647) ∧
    ((Value.timestamp 185542587187200000).cast .date = .ok (.date (-2147483648)) ∧
      ¬FallsOn 185542587187200000 (-2147483648)) ∧
    Document.toValue .date (.object [("$date", .int 185542587187200000)]) = .ok (.date (-2147483648)) := by
  obtain ⟨_, ⟨first, converted, _, _, mono⟩, _⟩ := cast_date_exact_iff 0 0 []
  obtain ⟨_, ⟨last, converted', exactly, _⟩, _⟩ := cast_date_exact_iff 0 185542587187199999 []
  obtain ⟨_, ⟨next, converted'', exactly', _⟩, decoded⟩ :=
    cast_date_exact_iff 0 185542587187200000 [("$date", .int 185542587187200000)]
  cases converted
  cases converted'
  cases converted''
  have numbered : HasDay 0 ∧ HasDay 185542587187199999 ∧ ¬HasDay 185542587187200000 := by simp only [HasDay]; decide
  refine ⟨⟨rfl, exactly.2 numbered.2.1, mono _ _ rfl numbered.1 numbered.2.1 (by decide)⟩,
    ⟨rfl, mt exactly'.1 numbered.2.2⟩, ?_⟩
  rcases decoded _ rfl with ⟨_, read, same⟩ | ⟨unread, _⟩
  · cases read
    exact same
  · cases unread

end FederatedQuery
