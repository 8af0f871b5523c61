import KogmoRtdb.Types
import KogmoRtdb.Db
import KogmoRtdb.Lib.Calendar
import KogmoRtdb.Lib.Scanf

/-!
# Time stamps as text

A time stamp is written as local date and time with nine digits of a second, and read back from
such a text. The text may also have fewer digits, or no time at all; it may be relative to the
present, or a plain number.

The local time is a fixed time ahead of UTC, all the year. What is relative to the present is
computed in doubles, which are left open.
-/

namespace KogmoRtdb

open Scanf

/-- `KOGMO_TIMESTAMP_STRINGLENGTH`. -/
def timestampStringlength : Nat := 30

/-! ## The broken-down time -/

/-- `struct tm`: the year is counted from 1900, the month from 0. -/
structure Tm where
  year : Int
  mon : Int
  mday : Int
  hour : Int
  min : Int
  sec : Int
  deriving DecidableEq

def YearFits (year : Int) : Prop := -2 ^ 31 ≤ year - 1900 ∧ year - 1900 < 2 ^ 31

instance decidableYearFits (year : Int) : Decidable (YearFits year) :=
  inferInstanceAs (Decidable (_ ∧ _))

/-- `localtime_r`. -/
def localtime (utcOffset secs : Int) : Option Tm :=
  let date := Date.ofDays ((secs + utcOffset) / 86400)
  let time := (secs + utcOffset) % 86400
  if YearFits date.year then
    some ⟨date.year - 1900, date.month - 1, date.day, time / 3600, time / 60 % 60, time % 60⟩
  else none

/-- `mktime`. Months and days may be beyond those of a year or a month, times beyond a day. -/
def mktime (utcOffset : Int) (tm : Tm) : Int :=
  let first : Date := ⟨tm.year + 1900 + tm.mon / 12, tm.mon % 12 + 1, 1⟩
  let secs := 86400 * (first.toDays + tm.mday - 1) + 3600 * tm.hour + 60 * tm.min + tm.sec
  if YearFits (Date.ofDays (secs / 86400)).year then secs - utcOffset else -1

/-- `strftime` with `%Y-%m-%d %H:%M:%S`. -/
def dateText (tm : Tm) : List Char :=
  padded 1 (tm.year + 1900) ++ '-' :: (padded 2 (tm.mon + 1) ++ '-' :: (padded 2 tm.mday ++
    ' ' :: (padded 2 tm.hour ++ ':' :: (padded 2 tm.min ++ ':' :: padded 2 tm.sec))))

/-! ## Writing and reading -/

/-- What reading depends on: the zone, and for a relative time the clock and the doubles. -/
structure TimeEnv where
  utcOffset : Int
  /-- `kogmo_timestamp_now`. -/
  now : Timestamp
  /-- `sscanf` with `%lf`. -/
  scanDouble : List Char → Option ℚ
  /-- `kogmo_timestamp_add_secs`. -/
  addSecs : Timestamp → ℚ → Timestamp

/-- `kogmo_timestamp_to_string`; `none` stands for an error. -/
def timestampToString (utcOffset : Int) (ts : Timestamp) : Option (List Char) :=
  (localtime utcOffset (ts.toInt.tdiv ticksPerSecond)).bind fun tm =>
    let str := dateText tm
    -- `strftime` has one byte less than there are, and needs one for the end
    if timestampStringlength - 1 < str.length + 1 then none
    else
      some ((str ++ '.' :: padded 9 (ts.toInt.tmod ticksPerSecond)).take
        (timestampStringlength - 1))

/-- `%d-%d-%d%*[ _tT]%d:%d:%d.%9s`. -/
def timestampFormat : List Directive :=
  [.number, .char '-', .number, .char '-', .number, .skip [' ', '_', 't', 'T'],
    .number, .char ':', .number, .char ':', .number, .char '.', .word 9]

/-- A number as a `long long int`, which it may exceed. -/
def clampLong (n : Int) : Int := max (-2 ^ 63) (min n (2 ^ 63 - 1))

/-- What `%d` assigns for field `k`. A field that is not assigned is 0. -/
def intField (fields : List Field) (k : Nat) : Int :=
  match fields[k]? with
  | some (.number n) => wrap32 (clampLong n)
  | _ => 0

def wordField (fields : List Field) (k : Nat) : List Char :=
  match fields[k]? with
  | some (.word w) => w
  | _ => []

/-- `ns *= 10`, that many times. -/
def scaleNs : Nat → Nat → Nat
  | 0, ns => ns
  | k + 1, ns => scaleNs k (ns * 10 % 2 ^ 64)

/-- `kogmo_timestamp_from_string`. -/
def timestampFromString (env : TimeEnv) (str : List Char) : Timestamp :=
  let fields := sscanf timestampFormat str
  if fields.length < 3 then
    if str.head? = some '+' ∨ str.head? = some '-' then
      match env.scanDouble str with
      | none => 0
      | some off => env.addSecs env.now off
    else
      match scanInteger str with
      | none => 0
      | some n => if clampLong n ≤ 9999 then 0 else BitVec.ofInt 64 (clampLong n)
  else
    let tm : Tm :=
      { year := wrap32 (intField fields 0 - 1900)
        mon := wrap32 (intField fields 1 - 1)
        mday := intField fields 2
        hour := intField fields 3
        min := intField fields 4
        sec := intField fields 5 }
    let secs := mktime env.utcOffset tm
    if secs < 0 then 0
    else
      let (ns, read) := strtoul (wordField fields 6)
      -- the digits read are the first of nine
      BitVec.ofInt 64 (scaleNs (9 - read) ns + secs * ticksPerSecond)

/-! ## What is read is what has been written -/

def Writable (utcOffset : Int) (ts : Timestamp) : Prop :=
  0 ≤ ts.toInt ∧ ∃ tm, localtime utcOffset (ts.toInt.tdiv ticksPerSecond) = some tm ∧
    1970 ≤ tm.year + 1900 ∧ tm.year + 1900 ≤ 9999

def TextRoundTrips (env : TimeEnv) (ts : Timestamp) : Prop :=
  (timestampToString env.utcOffset ts).map (timestampFromString env) = some ts

def IsFraction (d : List Char) : Prop := d ≠ [] ∧ d.length ≤ 9 ∧ ∀ c ∈ d, c.isDigit = true

theorem isFraction_of_all {d : List Char} (hne : d ≠ []) (hlen : d.length ≤ 9)
    (hall : d.all Char.isDigit = true) : IsFraction d :=
  ⟨hne, hlen, List.all_eq_true.mp hall⟩

/-- `0.d` seconds. -/
def fractionNs (d : List Char) : Int := Nat.ofDigitChars 10 d 0 * 10 ^ (9 - d.length)

/-- With the digits `d` behind the dot, what is read is the time and that fraction. -/
def ReadsFraction (env : TimeEnv) (ts : Timestamp) (d : List Char) : Prop :=
  ∃ text, timestampToString env.utcOffset ts = some text ∧
    (timestampFromString env (text.takeWhile (· ≠ '.') ++ '.' :: d)).toInt =
      ts.toInt + fractionNs d

section Text

variable {env : TimeEnv} {utcOffset secs : Int} {ts : Timestamp} {tm : Tm} {d : List Char}

structure Tm.Normal (tm : Tm) : Prop where
  mon : 0 ≤ tm.mon ∧ tm.mon ≤ 11
  mday : 1 ≤ tm.mday ∧ tm.mday ≤ 31
  hour : 0 ≤ tm.hour ∧ tm.hour ≤ 23
  min : 0 ≤ tm.min ∧ tm.min ≤ 59
  sec : 0 ≤ tm.sec ∧ tm.sec ≤ 59

theorem localtime_normal (h : localtime utcOffset secs = some tm) : tm.Normal := by
  unfold localtime at h
  dsimp only at h
  split at h
  · obtain ⟨hmon0, hmon, hday0, hday⟩ := Date.ofDays_bounds ((secs + utcOffset) / 86400)
    obtain rfl := Option.some.inj h
    constructor <;> dsimp only <;> omega
  · cases h

/-- `mktime` inverts `localtime_r`. -/
theorem mktime_localtime (h : localtime utcOffset secs = some tm) : mktime utcOffset tm = secs := by
  have hnormal := localtime_normal h
  unfold localtime at h
  dsimp only at h
  split at h
  case isFalse => cases h
  case isTrue hfits =>
    obtain rfl := Option.some.inj h
    have hmon := hnormal.mon
    have hdays := Date.toDays_ofDays ((secs + utcOffset) / 86400)
    unfold mktime
    generalize hdate : Date.ofDays ((secs + utcOffset) / 86400) = date at *
    dsimp only at hmon ⊢
    have hmon0 : (date.month - 1) / 12 = 0 := by omega
    have hmon1 : (date.month - 1) % 12 + 1 = date.month := by omega
    have hfirst : (Date.mk (date.year - 1900 + 1900 + (date.month - 1) / 12)
        ((date.month - 1) % 12 + 1) 1).toDays + date.day - 1 = (secs + utcOffset) / 86400 := by
      rw [hmon0, hmon1, Int.sub_add_cancel, Int.add_zero, Date.toDays_first]
      exact hdays
    rw [hfirst]
    have hsecs : 86400 * ((secs + utcOffset) / 86400) + 3600 * ((secs + utcOffset) % 86400 / 3600) +
        60 * ((secs + utcOffset) % 86400 / 60 % 60) + (secs + utcOffset) % 86400 % 60 =
        secs + utcOffset := by
      omega
    rw [hsecs, hdate, if_pos hfits]
    omega

/-! ### The fields -/

theorem wrap32_clampLong {n : Int} (h0 : -2 ^ 31 ≤ n) (hlt : n < 2 ^ 31) :
    wrap32 (clampLong n) = n := by
  have hclamp : clampLong n = n := by
    unfold clampLong
    omega
  rw [hclamp]
  exact wrap32_of_bounds h0 hlt

theorem intField_eq {fields : List Field} {k : Nat} {n : Int} (h : fields[k]? = some (.number n))
    (h0 : 0 ≤ n) (hle : n ≤ 9999) : intField fields k = n := by
  unfold intField
  rw [h]
  exact wrap32_clampLong (by omega) (by omega)

theorem sscanf_padded {format : List Directive} {width n : Nat} {rest : List Char}
    (hrest : NoDigitFirst rest) :
    sscanf (.number :: format) (padded width n ++ rest) = .number n :: sscanf format rest := by
  rw [sscanf_number (padded_ne_nil width n) (fun c => isDigit_of_mem_padded) hrest,
    ofDigitChars_padded]

theorem sscanf_dateText (hn : tm.Normal) (hyear : 0 ≤ tm.year + 1900) (hd : IsFraction d) :
    sscanf timestampFormat (dateText tm ++ '.' :: d) =
      [.number (tm.year + 1900), .number (tm.mon + 1), .number tm.mday, .number tm.hour,
        .number tm.min, .number tm.sec, .word d] := by
  obtain ⟨year, hy⟩ := Int.eq_ofNat_of_zero_le hyear
  obtain ⟨mon, hmon⟩ := Int.eq_ofNat_of_zero_le (a := tm.mon + 1) (by have := hn.mon; omega)
  obtain ⟨mday, hmday⟩ := Int.eq_ofNat_of_zero_le (a := tm.mday) (by have := hn.mday; omega)
  obtain ⟨hour, hhour⟩ := Int.eq_ofNat_of_zero_le hn.hour.1
  obtain ⟨min, hmin⟩ := Int.eq_ofNat_of_zero_le hn.min.1
  obtain ⟨sec, hsec⟩ := Int.eq_ofNat_of_zero_le hn.sec.1
  obtain ⟨hne, hlen, hdigits⟩ := hd
  have hspace : ∀ c',
      (padded 2 hour ++ ':' :: (padded 2 min ++ ':' :: (padded 2 sec ++ '.' :: d))).head? =
        some c' → c' ∉ [' ', '_', 't', 'T'] := by
    intro c' hc'
    have hdigit : c'.isDigit = true := by
      obtain ⟨c, cs, hcs⟩ := List.exists_cons_of_ne_nil (padded_ne_nil 2 hour)
      rw [hcs] at hc'
      obtain rfl : c = c' := Option.some.inj hc'
      exact isDigit_of_mem_padded (hcs ▸ List.mem_cons_self)
    intro hmem
    simp only [List.mem_cons, List.not_mem_nil, or_false] at hmem
    rcases hmem with rfl | rfl | rfl | rfl
    all_goals cases hdigit
  unfold dateText timestampFormat
  rw [hy, hmon, hmday, hhour, hmin, hsec]
  simp only [List.append_assoc, List.cons_append]
  rw [sscanf_padded (noDigitFirst_cons rfl), sscanf_char,
    sscanf_padded (noDigitFirst_cons rfl), sscanf_char,
    sscanf_padded (noDigitFirst_cons rfl), sscanf_skip (by simp) hspace,
    sscanf_padded (noDigitFirst_cons rfl), sscanf_char,
    sscanf_padded (noDigitFirst_cons rfl), sscanf_char,
    sscanf_padded (noDigitFirst_cons rfl), sscanf_char, sscanf_word hne hdigits hlen]

theorem scaleNs_eq {k ns : Nat} (h : ns * 10 ^ k < 2 ^ 64) : scaleNs k ns = ns * 10 ^ k := by
  induction k generalizing ns with
  | zero => rw [scaleNs, Nat.pow_zero, Nat.mul_one]
  | succ k ih =>
      have hmul : ns * 10 * 10 ^ k = ns * 10 ^ (k + 1) := by
        rw [Nat.pow_succ, Nat.mul_comm (10 ^ k), Nat.mul_assoc]
      have hle : ns * 10 ≤ ns * 10 * 10 ^ k := Nat.le_mul_of_pos_right _ (Nat.pow_pos (by decide))
      rw [scaleNs, Nat.mod_eq_of_lt (by omega), ih (by omega), hmul]

theorem fraction_lt (hd : IsFraction d) :
    Nat.ofDigitChars 10 d 0 * 10 ^ (9 - d.length) < 10 ^ 9 := by
  obtain ⟨-, hlen, hdigits⟩ := hd
  have hlt := ofDigitChars_lt hdigits 0
  rw [Nat.zero_add, Nat.one_mul] at hlt
  calc Nat.ofDigitChars 10 d 0 * 10 ^ (9 - d.length)
      < 10 ^ d.length * 10 ^ (9 - d.length) :=
        Nat.mul_lt_mul_of_pos_right hlt (Nat.pow_pos (by decide))
    _ = 10 ^ 9 := by rw [← Nat.pow_add, Nat.add_sub_cancel' hlen]

theorem timestampFromString_dateText (hlocal : localtime env.utcOffset secs = some tm)
    (hsecs : 0 ≤ secs) (hyear : 0 ≤ tm.year + 1900) (hlast : tm.year + 1900 ≤ 9999)
    (hd : IsFraction d) :
    timestampFromString env (dateText tm ++ '.' :: d) =
      BitVec.ofInt 64 (fractionNs d + secs * ticksPerSecond) := by
  have hfields := sscanf_dateText (localtime_normal hlocal) hyear hd
  obtain ⟨hmon, hmday, hhour, hmin, hsec⟩ := localtime_normal hlocal
  have hns := fraction_lt hd
  obtain ⟨hne, hlen, hdigits⟩ := hd
  have hread : strtoul d = (Nat.ofDigitChars 10 d 0, d.length) := by
    refine strtoul_digits hne hdigits ?_
    have := Nat.le_mul_of_pos_right (Nat.ofDigitChars 10 d 0) (Nat.pow_pos (n := 9 - d.length)
      (by decide : 0 < 10))
    omega
  unfold timestampFromString
  rw [hfields]
  dsimp only
  rw [if_neg (by simp), intField_eq (n := tm.year + 1900) rfl hyear hlast,
    intField_eq (n := tm.mon + 1) rfl (by omega) (by omega),
    intField_eq (n := tm.mday) rfl (by omega) (by omega),
    intField_eq (n := tm.hour) rfl (by omega) (by omega),
    intField_eq (n := tm.min) rfl (by omega) (by omega),
    intField_eq (n := tm.sec) rfl (by omega) (by omega), Int.add_sub_cancel, Int.add_sub_cancel,
    wrap32_of_bounds (by omega) (by omega), wrap32_of_bounds (by omega) (by omega)]
  have hmktime : mktime env.utcOffset ⟨tm.year, tm.mon, tm.mday, tm.hour, tm.min, tm.sec⟩ = secs :=
    mktime_localtime hlocal
  have hword : wordField [.number (tm.year + 1900), .number (tm.mon + 1), .number tm.mday,
      .number tm.hour, .number tm.min, .number tm.sec, .word d] 6 = d := rfl
  rw [hmktime, if_neg (Int.not_lt.mpr hsecs), hword, hread]
  dsimp only
  rw [scaleNs_eq (by omega)]
  rfl

/-! ### The text -/

theorem length_two {n : Int} (h0 : 0 ≤ n) (hlt : n < 100) : (padded 2 n).length = 2 := by
  obtain ⟨k, rfl⟩ := Int.eq_ofNat_of_zero_le h0
  exact length_padded (by decide) (by omega)

theorem length_year {n : Int} (hge : 1000 ≤ n) (hle : n ≤ 9999) : (padded 1 n).length = 4 := by
  obtain ⟨k, rfl⟩ := Int.eq_ofNat_of_zero_le (a := n) (by omega)
  have hup : (Nat.toDigits 10 k).length ≤ 4 :=
    (Nat.length_toDigits_le_iff (by decide) (by decide)).mpr (by omega)
  have hlow : ¬ (Nat.toDigits 10 k).length ≤ 3 := by
    rw [Nat.length_toDigits_le_iff (by decide) (by decide)]
    omega
  rw [padded_natCast, List.length_append, List.length_replicate]
  omega

theorem length_dateText (hn : tm.Normal) (hyear : 1000 ≤ tm.year + 1900)
    (hlast : tm.year + 1900 ≤ 9999) : (dateText tm).length = 19 := by
  obtain ⟨hmon, hmday, hhour, hmin, hsec⟩ := hn
  unfold dateText
  simp only [List.length_append, List.length_cons]
  rw [length_year hyear hlast, length_two (by omega) (by omega), length_two (by omega) (by omega),
    length_two (by omega) (by omega), length_two (by omega) (by omega),
    length_two (by omega) (by omega)]

theorem ne_dot_of_mem_padded {width : Nat} {n : Int} (h0 : 0 ≤ n) {c : Char}
    (hc : c ∈ padded width n) : c ≠ '.' := by
  obtain ⟨k, rfl⟩ := Int.eq_ofNat_of_zero_le h0
  have hdigit := isDigit_of_mem_padded hc
  rintro rfl
  cases hdigit

theorem ne_dot_of_mem_dateText (hn : tm.Normal) (hyear : 0 ≤ tm.year + 1900) {c : Char}
    (hc : c ∈ dateText tm) : c ≠ '.' := by
  obtain ⟨hmon, hmday, hhour, hmin, hsec⟩ := hn
  simp only [dateText, List.mem_append, List.mem_cons] at hc
  rcases hc with hc | rfl | hc | rfl | hc | rfl | hc | rfl | hc | rfl | hc
  · exact ne_dot_of_mem_padded hyear hc
  · decide
  · exact ne_dot_of_mem_padded (by omega) hc
  · decide
  · exact ne_dot_of_mem_padded (by omega) hc
  · decide
  · exact ne_dot_of_mem_padded hhour.1 hc
  · decide
  · exact ne_dot_of_mem_padded hmin.1 hc
  · decide
  · exact ne_dot_of_mem_padded hsec.1 hc

theorem isFraction_padded {n : Nat} (hn : n < 10 ^ 9) :
    IsFraction (padded 9 n) ∧ fractionNs (padded 9 n) = n := by
  have hlen : (padded 9 n).length = 9 := length_padded (by decide) hn
  refine ⟨⟨padded_ne_nil 9 n, Nat.le_of_eq hlen, fun c => isDigit_of_mem_padded⟩, ?_⟩
  rw [fractionNs, hlen, ofDigitChars_padded]
  simp

theorem timestampToString_eq (h0 : 0 ≤ ts.toInt)
    (hlocal : localtime utcOffset (ts.toInt / ticksPerSecond) = some tm)
    (hyear : 1970 ≤ tm.year + 1900) (hlast : tm.year + 1900 ≤ 9999) :
    timestampToString utcOffset ts =
      some (dateText tm ++ '.' :: padded 9 (ts.toInt % ticksPerSecond)) := by
  have hlen := length_dateText (localtime_normal hlocal) (by omega) hlast
  obtain ⟨k, hk⟩ := Int.eq_ofNat_of_zero_le (a := ts.toInt % ticksPerSecond)
    (Int.emod_nonneg _ (by decide))
  have hk9 : k < 10 ^ 9 := by
    have := Int.emod_lt_of_pos ts.toInt (show 0 < ticksPerSecond by decide)
    unfold ticksPerSecond at *
    omega
  unfold timestampToString
  rw [Int.tdiv_eq_ediv_of_nonneg h0, Int.tmod_eq_emod_of_nonneg h0, hlocal, hk]
  dsimp only [Option.bind]
  rw [if_neg (by rw [hlen]; decide), List.take_of_length_le]
  rw [List.length_append, List.length_cons, hlen, length_padded (by decide) hk9]
  decide

/-- A time stamp survives its text, and a text with any digits behind the dot is read as the
seconds and that fraction, where these are a time stamp. -/
theorem timestamp_text (h : Writable env.utcOffset ts) :
    TextRoundTrips env ts ∧
      ∀ d, IsFraction d → ts.toInt % ticksPerSecond = 0 → ts.toInt + fractionNs d < 2 ^ 63 →
        ReadsFraction env ts d := by
  obtain ⟨h0, tm, hlocal, hyear, hlast⟩ := h
  rw [Int.tdiv_eq_ediv_of_nonneg h0] at hlocal
  have hn := localtime_normal hlocal
  have hsecs : 0 ≤ ts.toInt / ticksPerSecond := Int.ediv_nonneg h0 (by decide)
  have hwritten := timestampToString_eq h0 hlocal hyear hlast
  constructor
  · obtain ⟨k, hk⟩ := Int.eq_ofNat_of_zero_le (a := ts.toInt % ticksPerSecond)
      (Int.emod_nonneg _ (by decide))
    have hk9 : k < 10 ^ 9 := by
      have := Int.emod_lt_of_pos ts.toInt (show 0 < ticksPerSecond by decide)
      unfold ticksPerSecond at *
      omega
    obtain ⟨hfraction, hns⟩ := isFraction_padded hk9
    have hsum : (k : Int) + ts.toInt / ticksPerSecond * ticksPerSecond = ts.toInt := by
      rw [← hk]
      exact Int.emod_add_ediv_mul ..
    rw [TextRoundTrips, hwritten, hk, Option.map_some,
      timestampFromString_dateText hlocal hsecs (by omega) hlast hfraction, hns, hsum,
      BitVec.ofInt_toInt]
  · intro d hd hwhole hlt
    refine ⟨_, hwritten, ?_⟩
    have htake : (dateText tm ++ '.' :: padded 9 (ts.toInt % ticksPerSecond)).takeWhile (· ≠ '.') =
        dateText tm := by
      rw [List.takeWhile_append_of_pos fun c hc =>
        decide_eq_true (ne_dot_of_mem_dateText hn (by omega) hc)]
      simp
    have hsum : ts.toInt / ticksPerSecond * ticksPerSecond = ts.toInt :=
      Int.ediv_mul_cancel_of_emod_eq_zero hwhole
    have hns : 0 ≤ fractionNs d := by
      unfold fractionNs
      exact Int.natCast_nonneg _
    rw [htake, timestampFromString_dateText hlocal hsecs (by omega) hlast hd, hsum,
      BitVec.toInt_ofInt, Int.add_comm]
    exact Int.bmod_eq_of_le (by omega) (by omega)

end Text

def summertime : TimeEnv where
  utcOffset := 7200
  now := 0
  scanDouble := fun _ => none
  addSecs := fun ts _ => ts

/-- 2006-04-26 23:54:27.832241000, and the beginning of this second. -/
theorem timestamp_text_2006 :
    TextRoundTrips summertime 1146088467832241000#64 ∧
      ReadsFraction summertime 1146088467000000000#64 ['8', '0', '5'] := by
  have hwritten : Writable summertime.utcOffset 1146088467832241000#64 :=
    ⟨by decide, ⟨106, 3, 26, 23, 54, 27⟩, by decide, by decide, by decide⟩
  have hwhole : Writable summertime.utcOffset 1146088467000000000#64 :=
    ⟨by decide, ⟨106, 3, 26, 23, 54, 27⟩, by decide, by decide, by decide⟩
  have hfraction : IsFraction ['8', '0', '5'] :=
    isFraction_of_all (List.cons_ne_nil _ _) (by decide) (by decide)
  exact ⟨(timestamp_text hwritten).1, (timestamp_text hwhole).2 _ hfraction (by decide) (by decide)⟩

/-- The last full second of an `int64_t`, 2262-04-11 23:47:16, has no nine tenths. -/
theorem not_readsFraction :
    Writable 0 9223372036000000000#64 ∧ IsFraction ['9'] ∧
      (9223372036000000000#64 : Timestamp).toInt % ticksPerSecond = 0 ∧
      ¬ ReadsFraction { summertime with utcOffset := 0 } 9223372036000000000#64 ['9'] := by
  refine ⟨⟨by decide, ⟨362, 3, 11, 23, 47, 16⟩, by decide, by decide, by decide⟩,
    isFraction_of_all (List.cons_ne_nil _ _) (by decide) (by decide), by decide, ?_⟩
  · rintro ⟨text, -, hread⟩
    have hsum : (9223372036000000000#64 : Timestamp).toInt + fractionNs ['9'] =
        9223372036900000000 := by
      decide
    have hlt := BitVec.toInt_lt (x := timestampFromString { summertime with utcOffset := 0 }
      (text.takeWhile (· ≠ '.') ++ '.' :: ['9']))
    rw [hread, hsum] at hlt
    exact absurd hlt (by decide)

end KogmoRtdb
