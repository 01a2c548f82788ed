import Mathlib.Data.String.Basic
import ModelSchema.Proofs.Json.Atoms
import ModelSchema.Scalar.Date

/-!
# Moments that are read back

The ISO text of a date or of a date with a time is read back: the readers are tried in turn, and all
before the right one give up. Main statement: the moment that is read is the one that was written,
except that an offset of less than a second is read as universal time.
-/

namespace ModelSchema.Calendar

open Number (fixedDigits digitChar)

variable {c next : Char} {cs more : List Char} {n : Nat} {separated : Option Bool}

theorem exists_digit_of_mem {width : Nat} (h : c ∈ fixedDigits width n) :
    ∃ k < 10, c = digitChar k := by
  induction width generalizing n with
  | zero => cases h
  | succ width ih =>
    rcases List.mem_append.mp h with h | h
    · exact ih h
    · exact ⟨n % 10, Nat.mod_lt n (by decide), List.mem_singleton.mp h⟩

theorem ne_of_mem_fixedDigits {width : Nat} (h : c ∈ fixedDigits width n) (mark : Char)
    (hmark : mark.toNat < 48 ∨ 57 < mark.toNat) : c ≠ mark := by
  obtain ⟨k, hk, rfl⟩ := exists_digit_of_mem h
  exact Number.digitChar_ne k hk mark hmark

theorem peek_fixedDigits (n : Nat) (more : List Char) (mark : Char)
    (hmark : mark.toNat < 48 ∨ 57 < mark.toNat) : peek (fixedDigits 2 n ++ more) ≠ mark := by
  have hhead : peek (fixedDigits 2 n ++ more) = digitChar (n / 10 % 10) := rfl
  rw [hhead]
  exact Number.digitChar_ne _ (Nat.mod_lt _ (by decide)) mark hmark

theorem takeFixed_two (hn : n < 100) (more : List Char) :
    takeFixed 0 2 (fixedDigits 2 n ++ more) = some (n, more) :=
  takeFixed_fixedDigits 2 n more hn

theorem Date.bounds (d : Date) : d.year < 10000 ∧ d.month < 100 ∧ d.day < 100 := by
  obtain ⟨year, month, day, ⟨hy, hy'⟩, ⟨hm, hm'⟩, hd, hd'⟩ := d
  have hlast : daysInMonth year month ≤ 31 := by
    unfold daysInMonth
    split
    · split <;> decide
    · split <;> decide
  refine ⟨?_, ?_, ?_⟩ <;> simp only <;> omega

theorem Date.isoDigits_append (d : Date) (more : List Char) :
    d.isoDigits ++ more = fixedDigits 4 d.year ++ '-' :: (fixedDigits 2 d.month ++
      '-' :: (fixedDigits 2 d.day ++ more)) := by
  simp [isoDigits]

theorem Date.length_isoDigits (d : Date) : d.isoDigits.length = 10 := by
  simp [isoDigits]

theorem readDateFields?_isoDigits (d : Date) (more : List Char) :
    readDateFields? 10 (d.isoDigits ++ more) = some (d.year, d.month, d.day) := by
  obtain ⟨hy, hm, hd⟩ := d.bounds
  have hweek := peek_fixedDigits d.month ('-' :: (fixedDigits 2 d.day ++ more)) 'W' (by decide)
  have hdash :
      peek ('-' :: (fixedDigits 2 d.month ++ '-' :: (fixedDigits 2 d.day ++ more))) = '-' := rfl
  rw [d.isoDigits_append, readDateFields?, takeFixed_fixedDigits 4 d.year _ hy]
  simp only [Option.bind_some, hdash, if_true, List.drop_succ_cons, List.drop_zero,
    if_neg hweek, takeFixed_two hm, dropDash?, takeFixed_two hd, Option.map_some]

theorem length_le_utf8ByteSize (cs : List Char) : cs.length ≤ (String.ofList cs).utf8ByteSize := by
  rw [String.utf8ByteSize_ofList]
  induction cs with
  | nil => exact Nat.le_refl _
  | cons c cs ih =>
    have hpos := c.utf8Size_pos
    rw [String.utf8Len, List.length_cons]
    omega

theorem utf8ByteSize_of_ascii (h : ∀ c ∈ cs, c.toNat < 0x80) :
    (String.ofList cs).utf8ByteSize = cs.length := by
  rw [String.utf8ByteSize_ofList]
  induction cs with
  | nil => rfl
  | cons c cs ih =>
    rw [List.forall_mem_cons] at h
    have hone : c.utf8Size = 1 := by
      rw [Char.utf8Size_eq_one_iff, UInt32.le_iff_toNat_le]
      exact Nat.le_of_lt_succ h.1
    rw [String.utf8Len, ih h.2, hone, List.length_cons]

theorem Date.isoDigits_ascii (d : Date) : ∀ c ∈ d.isoDigits, c.toNat < 0x80 := by
  have hdigit : ∀ {width n}, ∀ c ∈ fixedDigits width n, c.toNat < 0x80 := by
    intro width n c hc
    obtain ⟨k, hk, rfl⟩ := exists_digit_of_mem hc
    rw [Number.toNat_digitChar k hk]
    omega
  rw [isoDigits]
  simp only [List.forall_mem_append, List.forall_mem_cons]
  exact ⟨⟨hdigit, by decide, hdigit⟩, by decide, hdigit⟩

theorem Date.ofIso_isoText (d : Date) : Date.ofIso d.isoText = .ok d := by
  have hsize : d.isoText.utf8ByteSize = 10 := by
    rw [isoText, utf8ByteSize_of_ascii d.isoDigits_ascii, d.length_isoDigits]
  have hfields := readDateFields?_isoDigits d []
  rw [List.append_nil] at hfields
  rw [ofIso, hsize, isoText, String.toList_ofList]
  simp [hfields]

/-- The time of a moment stands behind the tenth character. -/
theorem separatorIndex?_isoDigits (d : Date) (more : List Char) :
    separatorIndex? (d.isoDigits ++ more) = some 10 := by
  have hlength : (d.isoDigits ++ more).length ≠ 7 := by
    rw [List.length_append, d.length_isoDigits]
    omega
  have hdash : (d.isoDigits ++ more).getD 4 '\x00' = '-' := rfl
  have hmonth : (d.isoDigits ++ more).getD 5 '\x00' = digitChar (d.month / 10 % 10) := rfl
  have hweek : digitChar (d.month / 10 % 10) ≠ 'W' :=
    Number.digitChar_ne _ (Nat.mod_lt _ (by decide)) 'W' (by decide)
  rw [separatorIndex?, if_neg hlength]
  simp only [hdash, hmonth, if_true, if_neg hweek]

theorem readClockText?_colon (hn : n < 100) (count : Nat) (hs : separated.getD true = true)
    (hmore : more ≠ []) :
    readClockText? next (count + 1) separated (fixedDigits 2 n ++ ':' :: more) =
      (readClockText? next count (some true) more).map (.cons n) := by
  obtain ⟨c, more, rfl⟩ := List.exists_cons_of_ne_nil hmore
  rw [readClockText?, takeFixed_two hn]
  cases separated with
  | none => rfl
  | some b =>
    obtain rfl : b = true := hs
    rfl

theorem readClockText?_end (hn : n < 100) (count : Nat) :
    readClockText? next (count + 1) separated (fixedDigits 2 n) =
      some (.ended [n] (next == '\x00')) := by
  have htake := takeFixed_two hn []
  rw [List.append_nil] at htake
  rw [readClockText?, htake]
  rfl

theorem readClockText?_point (hn : n < 100) (count : Nat) (hmore : more ≠ []) :
    readClockText? next (count + 1) (some true) (fixedDigits 2 n ++ '.' :: more) =
      some (.fraction [n] more) := by
  obtain ⟨c, more, rfl⟩ := List.exists_cons_of_ne_nil hmore
  rw [readClockText?, takeFixed_two hn]
  rfl

theorem readClock?_minutes {hour minute : Nat} (hh : hour < 100) (hm : minute < 100) (next : Char) :
    readClock? next (fixedDigits 2 hour ++ ':' :: fixedDigits 2 minute) =
      some (⟨hour, minute, 0, 0⟩, next == '\x00') := by
  rw [readClock?, readClockText?_colon hh 2 rfl (by simp [fixedDigits]),
    readClockText?_end hm]
  rfl

theorem readClock?_seconds {hour minute second microsecond : Nat} (hh : hour < 100)
    (hm : minute < 100) (hs : second < 100) (hu : microsecond < 1000000) (next : Char) :
    readClock? next (fixedDigits 2 hour ++ ':' :: (fixedDigits 2 minute ++
      Time.secondDigits second microsecond)) =
      some (⟨hour, minute, second, microsecond⟩, next == '\x00') := by
  have hne : fixedDigits 2 minute ++ Time.secondDigits second microsecond ≠ [] := by
    simp [fixedDigits]
  rw [readClock?, readClockText?_colon hh 2 rfl hne, Time.secondDigits, List.cons_append,
    readClockText?_colon hm 1 rfl (by simp [fixedDigits])]
  split
  · rename_i hzero
    rw [List.append_nil, readClockText?_end hs, hzero]
    rfl
  · have htake := takeFixed_fixedDigits 6 microsecond [] hu
    rw [List.append_nil] at htake
    rw [readClockText?_point hs 0 (by simp [fixedDigits])]
    simp [ClockText.cons, ClockFields.ofValues, htake]

theorem startsOffset_of_mem {width : Nat} (h : c ∈ fixedDigits width n) :
    startsOffset c = false := by
  have hplus := ne_of_mem_fixedDigits h '+' (by decide)
  have hminus := ne_of_mem_fixedDigits h '-' (by decide)
  have hzulu := ne_of_mem_fixedDigits h 'Z' (by decide)
  simp [startsOffset, hplus, hminus, hzulu]

theorem Time.startsOffset_isoDigits (t : Time) : ∀ c ∈ t.isoDigits, startsOffset c = false := by
  have hdigit : ∀ {width n}, ∀ c ∈ fixedDigits width n, startsOffset c = false :=
    fun _ hc => startsOffset_of_mem hc
  have hcolon : startsOffset ':' = false := by decide
  rw [isoDigits, secondDigits]
  simp only [List.forall_mem_append, List.forall_mem_cons]
  refine ⟨⟨hdigit, hcolon, hdigit⟩, ⟨hcolon, hdigit⟩, ?_⟩
  split
  · simp
  · exact List.forall_mem_cons.mpr ⟨by decide, hdigit⟩

theorem readClock?_time (t : Time) (next : Char) :
    readClock? next t.isoDigits =
      some (⟨t.hour, t.minute, t.second, t.microsecond⟩, next == '\x00') := by
  obtain ⟨hh, hm, hs, hu⟩ := t.isTime
  rw [Time.isoDigits, List.append_assoc, List.cons_append]
  exact readClock?_seconds (by omega) (by omega) (by omega) (by omega) next

/-- What the strict reader makes of an offset: less than a second counts as nothing. -/
def Offset.settled (o : Offset) : Offset := if o.microseconds.natAbs < 1000000 then .utc else o

/-- The sign of an offset. -/
def Offset.sign (o : Offset) : Char := if o.microseconds < 0 then '-' else '+'

/-- The clock of so many microseconds. -/
def ClockFields.ofMicroseconds (total : Nat) : ClockFields :=
  ⟨total / 1000000 / 3600, total / 1000000 / 60 % 60, total / 1000000 % 60, total % 1000000⟩

/-- Behind its sign an offset is written as a clock. -/
theorem Offset.isoDigits_eq (o : Offset) : ∃ zone, o.isoDigits = o.sign :: zone ∧
    readClock? '\x00' zone = some (.ofMicroseconds o.microseconds.natAbs, true) := by
  have hday := o.inDay
  have hhour : o.microseconds.natAbs / 1000000 / 3600 < 100 := by
    rw [dayLength] at hday
    omega
  have hminute : o.microseconds.natAbs / 1000000 / 60 % 60 < 100 := by omega
  have hsecond : o.microseconds.natAbs / 1000000 % 60 < 100 := by omega
  have hmicrosecond : o.microseconds.natAbs % 1000000 < 1000000 := Nat.mod_lt _ (by decide)
  -- Seconds are written if the offset has any, or has a fraction of one.
  by_cases hzero : o.microseconds.natAbs / 1000000 % 60 = 0 ∧ o.microseconds.natAbs % 1000000 = 0
  · refine ⟨_, ?_, readClock?_minutes hhour hminute '\x00' |>.trans ?_⟩
    · rw [isoDigits]
      simp only [if_pos hzero, List.append_nil, List.cons_append]
      rfl
    · rw [ClockFields.ofMicroseconds, hzero.1, hzero.2]
      rfl
  · refine ⟨_, ?_, readClock?_seconds hhour hminute hsecond hmicrosecond '\x00'⟩
    rw [isoDigits]
    simp only [if_neg hzero, List.append_assoc, List.cons_append]
    rfl

theorem Offset.offsetMicroseconds_eq (o : Offset) :
    offsetMicroseconds (o.sign == '-') (.ofMicroseconds o.microseconds.natAbs) =
      o.settled.microseconds := by
  have hseconds : o.microseconds.natAbs / 1000000 / 3600 * 3600 +
      o.microseconds.natAbs / 1000000 / 60 % 60 * 60 + o.microseconds.natAbs / 1000000 % 60 =
      o.microseconds.natAbs / 1000000 := by omega
  rw [offsetMicroseconds, ClockFields.ofMicroseconds]
  simp only [hseconds]
  by_cases hsmall : o.microseconds.natAbs < 1000000
  · rw [if_pos (Nat.div_eq_of_lt hsmall), settled, if_pos hsmall]
    rfl
  · have htotal : ((o.microseconds.natAbs / 1000000 : Nat) : Int) * 1000000 +
        (o.microseconds.natAbs % 1000000 : Nat) = o.microseconds.natAbs := by omega
    rw [if_neg (by omega), htotal, settled, if_neg hsmall]
    by_cases hnegative : o.microseconds < 0
    · rw [sign, if_pos hnegative, beq_self_eq_true, if_pos rfl]
      omega
    · rw [sign, if_neg hnegative, if_neg (by decide)]
      omega

/-- The text of an offset, nothing if there is none. -/
def offsetDigits : Option Offset → List Char
  | none => []
  | some o => o.isoDigits

theorem DateTime.digitsWith_eq (separator : Char) (d : DateTime) :
    d.digitsWith separator =
      d.date.isoDigits ++ separator :: (d.time.isoDigits ++ offsetDigits d.offset) := by
  obtain ⟨date, time, offset⟩ := d
  cases offset <;> simp [digitsWith, offsetDigits]

theorem readTimeFields?_isoDigits (t : Time) (offset : Option Offset) :
    readTimeFields? (t.isoDigits ++ offsetDigits offset) =
      some (⟨t.hour, t.minute, t.second, t.microsecond⟩,
        offset.map fun o => o.settled.microseconds) := by
  have hclock : ∀ c ∈ t.isoDigits, (!startsOffset c) = true := by
    intro c hc
    rw [t.startsOffset_isoDigits c hc]
    rfl
  rw [readTimeFields?, List.takeWhile_append_of_pos hclock, List.dropWhile_append_of_pos hclock]
  cases offset with
  | none =>
    simp only [offsetDigits, List.takeWhile_nil, List.dropWhile_nil, List.append_nil,
      readClock?_time]
    rfl
  | some o =>
    obtain ⟨zone, hzone, hread⟩ := o.isoDigits_eq
    have hsign : startsOffset o.sign = true ∧ (o.sign == 'Z') = false := by
      rw [Offset.sign]
      split <;> decide
    simp [offsetDigits, hzone, hsign, readClock?_time, hread, o.offsetMicroseconds_eq]

/-- The date with its time and with what the strict reader makes of the offset. -/
def DateTime.settled (d : DateTime) : DateTime := { d with offset := d.offset.map Offset.settled }

theorem DateTime.ofFields_settled (d : DateTime) :
    DateTime.ofFields (d.date.year, d.date.month, d.date.day)
      ⟨d.time.hour, d.time.minute, d.time.second, d.time.microsecond⟩
      (d.offset.map fun o => o.settled.microseconds) = .ok d.settled := by
  obtain ⟨date, time, offset⟩ := d
  cases offset with
  | none =>
    simp only [DateTime.ofFields, Option.map_none, Date.make_self, Time.make_self]
    rfl
  | some o =>
    have hmake : Offset.make o.settled.microseconds = .ok o.settled := dif_pos o.settled.inDay
    simp only [DateTime.ofFields, Option.map_some, hmake, Date.make_self, Time.make_self]
    rfl

theorem readDateTimeFields?_digitsWith (separator : Char) (d : DateTime) :
    readDateTimeFields? (d.digitsWith separator) =
      some ((d.date.year, d.date.month, d.date.day),
        ⟨d.time.hour, d.time.minute, d.time.second, d.time.microsecond⟩,
        d.offset.map fun o => o.settled.microseconds) := by
  rw [DateTime.digitsWith_eq]
  have hlength : 10 < (d.date.isoDigits ++
      separator :: (d.time.isoDigits ++ offsetDigits d.offset)).length := by
    rw [List.length_append, d.date.length_isoDigits, List.length_cons]
    omega
  have hdrop : (d.date.isoDigits ++
      separator :: (d.time.isoDigits ++ offsetDigits d.offset)).drop 11 =
      d.time.isoDigits ++ offsetDigits d.offset := rfl
  rw [readDateTimeFields?, separatorIndex?_isoDigits, Option.bind_some, readDateFields?_isoDigits,
    Option.bind_some, if_pos hlength, hdrop, readTimeFields?_isoDigits]
  rfl

theorem DateTime.ofIso_isoText (d : DateTime) : DateTime.ofIso d.isoText = .ok d.settled := by
  rw [ofIso, isoText, String.toList_ofList, readDateTimeFields?_digitsWith 'T' d]
  exact d.ofFields_settled

theorem exists_takeDigits (h : ∀ c ∈ cs, ∃ k < 10, c = digitChar k) (more : List Char) :
    ∃ ds, ds.length = cs.length ∧ takeDigits cs.length (cs ++ more) = (ds, more) := by
  induction cs with
  | nil => exact ⟨[], rfl, by cases more <;> rfl⟩
  | cons c cs ih =>
    rw [List.forall_mem_cons] at h
    obtain ⟨⟨k, hk, rfl⟩, hrest⟩ := h
    obtain ⟨ds, hlength, htake⟩ := ih hrest
    refine ⟨k :: ds, by rw [List.length_cons, hlength, List.length_cons], ?_⟩
    rw [List.length_cons, List.cons_append, takeDigits, Number.digitValue?_digitChar k hk]
    simp only [htake]

theorem exists_takeNumber? {least width : Nat} (hw : least ≤ width) (n : Nat) (more : List Char) :
    ∃ value, takeNumber? least width (fixedDigits width n ++ more) = some (value, more) := by
  obtain ⟨ds, hlength, htake⟩ := exists_takeDigits (fun c => exists_digit_of_mem) more
  rw [Number.length_fixedDigits] at hlength htake
  refine ⟨ofDigits ds, ?_⟩
  rw [takeNumber?, htake]
  simp only [hlength, if_neg (Nat.not_lt.mpr hw)]

/-- What the loose reader takes for a date ends where the time begins. -/
theorem exists_takeLooseDate? (d : Date) (more : List Char) :
    ∃ fields, takeLooseDate? (d.isoDigits ++ more) = some (fields, more) := by
  obtain ⟨year, hyear⟩ := exists_takeNumber? (Nat.le_refl 4) d.year
    ('-' :: (fixedDigits 2 d.month ++ '-' :: (fixedDigits 2 d.day ++ more)))
  obtain ⟨month, hmonth⟩ := exists_takeNumber? (by decide : 1 ≤ 2) d.month
    ('-' :: (fixedDigits 2 d.day ++ more))
  obtain ⟨day, hday⟩ := exists_takeNumber? (by decide : 1 ≤ 2) d.day more
  refine ⟨(year, month, day), ?_⟩
  rw [d.isoDigits_append, takeLooseDate?]
  simp [hyear, hmonth, hday, dropOneOf?]

theorem readLooseDate?_digitsWith {separator : Char} (hs : separator ≠ '\n') (d : DateTime) :
    readLooseDate? (d.digitsWith separator) = none := by
  obtain ⟨fields, hfields⟩ := exists_takeLooseDate? d.date
    (separator :: (d.time.isoDigits ++ offsetDigits d.offset))
  have hend : atEnd (separator :: (d.time.isoDigits ++ offsetDigits d.offset)) = false := by
    simp [atEnd, hs]
  rw [DateTime.digitsWith_eq, readLooseDate?, hfields]
  simp [hend]

theorem Date.ofIso_dateTime (d : DateTime) : Date.ofIso d.isoText = .error (.notIso d.isoText) := by
  have hlong : 11 ≤ d.isoText.utf8ByteSize := by
    have hlength := length_le_utf8ByteSize (d.digitsWith 'T')
    rw [DateTime.digitsWith_eq, List.length_append, d.date.length_isoDigits, List.length_cons,
      ← DateTime.digitsWith_eq] at hlength
    rw [DateTime.isoText]
    omega
  rw [ofIso]
  exact if_neg (by omega)

def Moment.settled : Moment → Moment
  | .date d => .date d
  | .dateTime d => .dateTime d.settled

/-- The text of a moment is read as the moment with what the strict reader makes of its offset. -/
theorem Moment.ofText_isoText (m : Moment) : Moment.ofText m.isoText = .ok m.settled := by
  cases m with
  | date d => rw [isoText, ofText, d.ofIso_isoText, settled]
  | dateTime d =>
    have hloose : readLooseDate? d.isoText.toList = none := by
      rw [DateTime.isoText, String.toList_ofList]
      exact readLooseDate?_digitsWith (by decide) d
    rw [isoText, ofText, Date.ofIso_dateTime]
    simp only [hloose, d.ofIso_isoText, settled]

/-- The offset of a moment, if it has one, is zero or at least a second. -/
def Moment.OffsetInSeconds : Moment → Prop
  | .date _ => True
  | .dateTime d => ∀ o ∈ d.offset, o.microseconds = 0 ∨ 1000000 ≤ o.microseconds.natAbs

theorem Offset.settled_eq_self_iff (o : Offset) :
    o.settled = o ↔ o.microseconds = 0 ∨ 1000000 ≤ o.microseconds.natAbs := by
  obtain ⟨microseconds, hday⟩ := o
  simp only [settled]
  split
  · simp only [utc, mk.injEq]
    omega
  · simp only [true_iff]
    omega

/-- These are the moments that are read back as they are. -/
theorem Moment.settled_eq_self_iff (m : Moment) : m.settled = m ↔ m.OffsetInSeconds := by
  cases m with
  | date d => exact iff_of_true rfl trivial
  | dateTime d =>
    obtain ⟨date, time, offset⟩ := d
    cases offset with
    | none => simp [settled, DateTime.settled, OffsetInSeconds]
    | some o => simp [settled, DateTime.settled, OffsetInSeconds, o.settled_eq_self_iff]

end ModelSchema.Calendar

namespace ModelSchema.DateScalar

open Calendar

variable {m : Moment}

theorem serialize_ofMoment (m : Moment) : serialize (ofMoment m) = .ok m.isoText := by
  cases m <;> rfl

theorem readText_isoText (m : Moment) : readText m.isoText = .ok (ofMoment m.settled) := by
  rw [readText, m.ofText_isoText]

/-- A date, or a date with a time and with no offset, a zero one or one of at least a second, comes
in again as it went out, whether as a value or as a literal. -/
theorem parseValue_serialize_ofMoment (h : m.OffsetInSeconds) :
    ∃ text, serialize (ofMoment m) = .ok text ∧
      parseValue (.text text) = .ok (ofMoment m) ∧
      parseLiteral (.text text) = .ok (ofMoment m) := by
  have hread : readText m.isoText = .ok (ofMoment m) := by
    rw [readText_isoText, m.settled_eq_self_iff.mpr h]
  exact ⟨m.isoText, serialize_ofMoment m, hread, hread⟩

/-- Midnight of a leap day, a second and a microsecond behind universal time. -/
def leapMidnight : DateTime :=
  ⟨⟨2024, 2, 29, by decide⟩, Time.midnight, some ⟨-1000001, by decide⟩⟩

theorem parseValue_serialize_leapMidnight :
    (Moment.dateTime leapMidnight).OffsetInSeconds ∧
      serialize (.dateTime leapMidnight) = .ok "2024-02-29T00:00:00-00:00:01.000001" ∧
      parseValue (.text "2024-02-29T00:00:00-00:00:01.000001") = .ok (.dateTime leapMidnight) := by
  have hoffset : (Moment.dateTime leapMidnight).OffsetInSeconds := by
    rintro o ⟨⟩
    decide
  obtain ⟨text, htext, hread, -⟩ := parseValue_serialize_ofMoment hoffset
  have hwritten : serialize (.dateTime leapMidnight) =
      .ok "2024-02-29T00:00:00-00:00:01.000001" := by rfl
  obtain rfl : text = "2024-02-29T00:00:00-00:00:01.000001" :=
    Except.ok.inj (htext.symm.trans hwritten)
  exact ⟨hoffset, hwritten, hread⟩

end ModelSchema.DateScalar
