import Velorix.Foundation.CheckedInt
import Velorix.Foundation.Gregorian
import Velorix.Foundation.Result

/-! Timestamps in typed expressions: their parts in UTC, truncation to a unit, and buckets of a
fixed width. -/
namespace Velorix.Expression

open SInt

inductive RuntimeScalarType
  | boolean
  | int64
  | float64
  | decimal128 (precision : ℕ) (scale : ℤ)
  | utf8
  | date32
  | timestampNanosecond
  deriving DecidableEq

def RuntimeScalarType.text : RuntimeScalarType → String
  | .boolean => "Boolean"
  | .int64 => "Int64"
  | .float64 => "Float64"
  | .decimal128 precision scale => s!"Decimal128 \x7b precision: {precision}, scale: {scale} \x7d"
  | .utf8 => "Utf8"
  | .date32 => "Date32"
  | .timestampNanosecond => "TimestampNanosecond"

inductive RuntimeScalarValue
  | null (dataType : RuntimeScalarType)
  | boolean (value : Bool)
  | int64 (value : I64)
  | float64 (bits : UInt64)
  | decimal128 (unscaled : I128) (scale : ℤ)
  | utf8 (value : String)
  | date32 (days : SInt 32)
  | timestampNanosecond (value : I64)
  deriving DecidableEq

def RuntimeScalarValue.dataType : RuntimeScalarValue → RuntimeScalarType
  | null dataType => dataType
  | boolean _ => .boolean
  | int64 _ => .int64
  | float64 _ => .float64
  | decimal128 _ scale => .decimal128 38 scale
  | utf8 _ => .utf8
  | date32 _ => .date32
  | timestampNanosecond _ => .timestampNanosecond

inductive ExpressionEvaluationError
  | failed (message : String)
  /-- Unchecked `i64` arithmetic leaves its range: it panics, or wraps around. -/
  | overflow
  deriving DecidableEq

abbrev Evaluated := Except ExpressionEvaluationError

/-- The result of unchecked `i64` arithmetic. -/
def unchecked (n : ℤ) : Evaluated I64 :=
  match SInt.ofInt? 64 n with
  | some value => .ok value
  | none => .error .overflow

def orFailed {α : Type} (message : String) : Option α → Evaluated α
  | some value => .ok value
  | none => .error (.failed message)

def civilFromDays (days : I64) : Evaluated CivilDate := do
  let z ← unchecked (days.val + 719468)
  let era := z.val / 146097
  let doe := z.val % 146097
  let yoe := (doe - doe / 1460 + doe / 36524 - doe / 146096) / 365
  let year := yoe + era * 400
  let doy := doe - (365 * yoe + yoe / 4 - yoe / 100)
  let mp := (5 * doy + 2) / 153
  let day := doy - (153 * mp + 2) / 5 + 1
  let month := mp + if mp < 10 then 3 else -9
  let year := year + if month ≤ 2 then 1 else 0
  if ¬ (1 ≤ year ∧ year ≤ 9999) then
    .error (.failed s!"timestamp year {year} is outside the supported 1..=9999 range")
  else return ⟨year, month, day⟩

/-- The days of a timestamp since the epoch. -/
def epochDays (t : I64) : I64 where
  val := t.val / 86400000000000
  lo := by have := t.lo; omega
  hi := by have := t.hi; omega

structure UtcTime where
  date : CivilDate
  hour : ℤ
  minute : ℤ
  second : ℤ
  deriving DecidableEq

def utcGregorian (t : I64) : Evaluated UtcTime := do
  let dayRemainder := t.val % 86400000000000
  let hour := dayRemainder / 3600000000000
  let minute := dayRemainder % 3600000000000 / 60000000000
  let second := dayRemainder % 60000000000 / 1000000000
  let date ← civilFromDays (epochDays t)
  return ⟨date, hour, minute, second⟩

inductive DateTruncFunction
  | dateTruncSecond
  | dateTruncMinute
  | dateTruncHour
  | dateTruncDay
  deriving DecidableEq

namespace DateTruncFunction

def text : DateTruncFunction → String
  | dateTruncSecond => "DateTruncSecond"
  | dateTruncMinute => "DateTruncMinute"
  | dateTruncHour => "DateTruncHour"
  | dateTruncDay => "DateTruncDay"

def unit : DateTruncFunction → ℤ
  | dateTruncSecond => 1000000000
  | dateTruncMinute => 60000000000
  | dateTruncHour => 3600000000000
  | dateTruncDay => 86400000000000

end DateTruncFunction

def dateTrunc (function : DateTruncFunction) (arg : RuntimeScalarValue) :
    Evaluated RuntimeScalarValue := do
  match arg with
  | .timestampNanosecond t =>
    let days := t.val / 86400000000000
    let dayRemainder := t.val % 86400000000000
    let truncated ← match function with
      | .dateTruncDay => unchecked (days * 86400000000000)
      | _ => unchecked (t.val - dayRemainder % function.unit)
    return .timestampNanosecond truncated
  | .null _ => return .null .timestampNanosecond
  | other => .error (.failed
      s!"{function.text} requires timestamp_nanosecond, got {other.dataType.text}")

def zoneOffset : String → Option ℤ
  | "UTC" => some 0
  | "Asia/Seoul" => some (9 * 3600000000000)
  | _ => none

/-- `TimeBucketNanoseconds`. Sums are taken in `i128`, where nothing overflows. -/
def timeBucket (args : List RuntimeScalarValue) : Evaluated RuntimeScalarValue := do
  if args.any (· matches .null _) then return .null .timestampNanosecond
  else
    match args with
    | [.int64 width, .timestampNanosecond t, .utf8 zone] =>
      if width.val ≤ 0 then .error (.failed "TIME_BUCKET width must be positive")
      else
        let offset ← orFailed "TIME_BUCKET unsupported timezone" (zoneOffset zone)
        let bucket := (t.val + offset) / width.val * width.val - offset
        let bucket ← orFailed "TIME_BUCKET timestamp overflow" (SInt.ofInt? 64 bucket)
        return .timestampNanosecond bucket
    | _ => .error (.failed "TIME_BUCKET invalid arguments")

inductive IntervalFunction
  | timestampAddNanoseconds
  | timestampSubtractNanoseconds
  deriving DecidableEq

def timestampAddInterval (function : IntervalFunction) (timestamp intervalNs : RuntimeScalarValue) :
    Evaluated RuntimeScalarValue := do
  match timestamp, intervalNs with
  | .timestampNanosecond t, .int64 interval =>
    let result ← match function with
      | .timestampAddNanoseconds =>
        orFailed "timestamp addition overflow" (t.checkedAdd interval)
      | .timestampSubtractNanoseconds =>
        orFailed "timestamp subtraction overflow" (SInt.ofInt? 64 (t.val - interval.val))
    return .timestampNanosecond result
  | .timestampNanosecond _, .null _ => return .null .timestampNanosecond
  | .timestampNanosecond _, other => .error (.failed
      s!"timestamp arithmetic requires an int64 nanosecond interval, got {other.dataType.text}")
  | .null _, _ => return .null .timestampNanosecond
  | other, _ => .error (.failed
      s!"timestamp arithmetic requires timestamp_nanosecond, got {other.dataType.text}")

def bucketOrigin : ℤ := 946857600000000000

theorem bucketOrigin_emod (w : ℤ) : 0 ≤ bucketOrigin % w ∧ bucketOrigin % w ≤ bucketOrigin := by
  obtain ⟨n, rfl | rfl⟩ := Int.eq_nat_or_neg w
  · exact ⟨Int.natCast_nonneg _, Int.ofNat_le.mpr (Nat.mod_le 946857600000000000 n)⟩
  · rw [Int.emod_neg]
    exact ⟨Int.natCast_nonneg _, Int.ofNat_le.mpr (Nat.mod_le 946857600000000000 n)⟩

def originOffset (width : I64) : I64 where
  val := bucketOrigin % width.val
  lo := le_trans (by decide) (bucketOrigin_emod width.val).1
  hi := lt_of_le_of_lt (bucketOrigin_emod width.val).2 (by decide)

/-- What `TIME_BUCKET` of two arguments is lowered to, evaluated. -/
def timeBucketFromOrigin (width : I64) (timestamp : RuntimeScalarValue) :
    Evaluated RuntimeScalarValue := do
  let offset := originOffset width
  if 0 < width.val ∧ offset.val ≠ 0 then
    let shifted ← timestampAddInterval .timestampSubtractNanoseconds timestamp (.int64 offset)
    let bucket ← timeBucket [.int64 width, shifted, .utf8 "UTC"]
    timestampAddInterval .timestampAddNanoseconds bucket (.int64 offset)
  else timeBucket [.int64 width, timestamp, .utf8 "UTC"]

variable {t n : I64} {a : CivilDate} {function : DateTruncFunction}

theorem civilFromDays_eq (n : I64) : ∃ error : ℤ → ExpressionEvaluationError, civilFromDays n =
    unchecked (n.val + 719468) >>= fun z =>
      if ¬ (1 ≤ (CivilDate.ofDay z.val).year ∧ (CivilDate.ofDay z.val).year ≤ 9999) then
        .error (error (CivilDate.ofDay z.val).year)
      else pure (CivilDate.ofDay z.val) :=
  ⟨fun year => .failed s!"timestamp year {year} is outside the supported 1..=9999 range", rfl⟩

theorem unchecked_eq_ok {x : ℤ} {v : I64} : unchecked x = .ok v ↔ v.val = x := by
  rw [← ofInt?_eq_some, unchecked]
  split <;> simp_all

theorem unchecked_eq_overflow {x : ℤ} (h : ¬ SInt.Fits 64 x) : unchecked x = .error .overflow := by
  rw [unchecked, ofInt?_eq_none.mpr h]

theorem civilFromDays_spec (h : civilFromDays n = .ok a) : a.Valid ∧ a.days = n.val := by
  obtain ⟨error, he⟩ := civilFromDays_eq n
  rw [he] at h
  obtain ⟨z, hz, h⟩ := Result.bind_eq_ok.mp h
  split_ifs at h
  cases h
  rw [unchecked_eq_ok.mp hz]
  exact CivilDate.ofDay_spec n.val

theorem civilFromDays_ok (h : -106752 ≤ n.val) (h' : n.val ≤ 106751) :
    ∃ a, civilFromDays n = .ok a := by
  obtain ⟨error, he⟩ := civilFromDays_eq n
  obtain ⟨hv, hd⟩ := CivilDate.ofDay_spec n.val
  have hy := hv.year_le
  rw [hd] at hy
  unfold CivilDate.daysBeforeYear at hy
  have hf : SInt.Fits 64 (n.val + 719468) := fits64_iff.mpr (by omega)
  rw [he, unchecked_eq_ok.mpr (ofFits_val _ hf)]
  refine ⟨CivilDate.ofDay (n.val + 719468), if_neg (not_not.mpr ⟨?_, ?_⟩)⟩
  · rw [ofFits_val]
    omega
  · rw [ofFits_val]
    omega

/-- A time is the one of a timestamp, up to a rest below a second. -/
structure UtcTime.Of (u : UtcTime) (t : I64) : Prop where
  date : u.date.Valid
  hour : 0 ≤ u.hour ∧ u.hour < 24
  minute : 0 ≤ u.minute ∧ u.minute < 60
  second : 0 ≤ u.second ∧ u.second < 60
  rest : ∃ rest, 0 ≤ rest ∧ rest < 10 ^ 9 ∧ t.val = u.date.days * (86400 * 10 ^ 9) +
    ((u.hour * 60 + u.minute) * 60 + u.second) * 10 ^ 9 + rest

theorem UtcTime.Of.unique {u v : UtcTime} (h : u.Of t) (h' : v.Of t) : u = v := by
  obtain ⟨hd, hh, hm, hs, r, hr⟩ := h
  obtain ⟨hd', hh', hm', hs', r', hr'⟩ := h'
  obtain ⟨date, hour, minute, second⟩ := u
  obtain ⟨date', hour', minute', second'⟩ := v
  dsimp only at *
  have hsame : date = date' := hd.days_inj hd' (by omega)
  obtain ⟨rfl, rfl, rfl⟩ : hour = hour' ∧ minute = minute' ∧ second = second' := by
    rw [hsame] at hr
    omega
  rw [hsame]

theorem utcGregorian_spec (t : I64) : ∃ u, utcGregorian t = .ok u ∧ u.Of t := by
  have hlo := t.lo
  have hhi := t.hi
  obtain ⟨a, ha⟩ := civilFromDays_ok (n := epochDays t) (by dsimp only [epochDays]; omega)
    (by dsimp only [epochDays]; omega)
  obtain ⟨hv, hd⟩ := civilFromDays_spec ha
  refine ⟨_, by rw [utcGregorian, ha]; rfl, hv, ?_, ?_, ?_, t.val % 10 ^ 9, ?_⟩
  · dsimp only
    omega
  · dsimp only
    omega
  · dsimp only
    omega
  · dsimp only [epochDays] at *
    omega

theorem dateTrunc_eq (function : DateTruncFunction) (t : I64) :
    dateTrunc function (.timestampNanosecond t) =
      unchecked (t.val / function.unit * function.unit) >>= fun v =>
        .ok (.timestampNanosecond v) := by
  cases function with
  | dateTruncDay => rfl
  | _ =>
    simp only [dateTrunc, DateTruncFunction.unit]
    congr 2
    omega

/-- How the source reports an instant that leaves the 64 bits. -/
def overflowMessages : List String :=
  ["TIME_BUCKET timestamp overflow", "timestamp subtraction overflow",
    "timestamp addition overflow"]

/-- A call returns an instant, or reports an overflow if not everything fits. -/
def Yields (result : Evaluated RuntimeScalarValue) (b : ℤ) (fits : Prop) : Prop :=
  (fits ∧ ∃ v : I64, v.val = b ∧ result = .ok (.timestampNanosecond v)) ∨
    ¬ fits ∧ ∃ message ∈ overflowMessages, result = .error (.failed message)

/-- The bucket of a time begins at `b`, aligned to an origin. -/
def IsBucket (width origin t b : ℤ) : Prop := b ≤ t ∧ t < b + width ∧ width ∣ b - origin

/-- What calendar and bucketing arithmetic should do. -/
structure TimestampsExact (function : DateTruncFunction) (t : I64) : Prop where
  gregorian : ∃ u, utcGregorian t = .ok u ∧ u.Of t ∧ ∀ v : UtcTime, v.Of t → v = u
  civil : ∀ m n a b, civilFromDays m = .ok a → civilFromDays n = .ok b →
    (m < n ↔ a.Before b) ∧ (m = n ↔ a = b)
  truncates : ∃ b, IsGreatest {n | function.unit ∣ n ∧ n ≤ t.val} b ∧
    Yields (dateTrunc function (.timestampNanosecond t)) b (SInt.Fits 64 b)
  idempotent : ∀ b, dateTrunc function (.timestampNanosecond t) = .ok b →
    dateTrunc function b = .ok b
  monotone : ∀ t' b b', t ≤ t' →
    dateTrunc function (.timestampNanosecond t) = .ok (.timestampNanosecond b) →
    dateTrunc function (.timestampNanosecond t') = .ok (.timestampNanosecond b') → b ≤ b'
  bucket : ∀ (width : I64) zone offset, 0 < width.val → zoneOffset zone = some offset →
    ∃ b, IsBucket width.val (-offset) t.val b ∧
      Yields (timeBucket [.int64 width, .timestampNanosecond t, .utf8 zone]) b (SInt.Fits 64 b)
  fromOrigin : ∀ width : I64, 0 < width.val → ∃ b, IsBucket width.val bucketOrigin t.val b ∧
    Yields (timeBucketFromOrigin width (.timestampNanosecond t)) b
      (SInt.Fits 64 (t.val - bucketOrigin % width.val) ∧
        SInt.Fits 64 (b - bucketOrigin % width.val) ∧ SInt.Fits 64 b)

theorem orFailed_of_fits {x : ℤ} (message : String) (h : SInt.Fits 64 x) :
    orFailed message (SInt.ofInt? 64 x) = .ok (.ofFits x h) := by
  rw [ofInt?_eq_some.mpr (ofFits_val x h)]
  rfl

theorem orFailed_of_not_fits {x : ℤ} (message : String) (h : ¬ SInt.Fits 64 x) :
    orFailed message (SInt.ofInt? 64 x) = .error (.failed message) := by
  rw [ofInt?_eq_none.mpr h]
  rfl

theorem yields_orFailed {message : String} (hm : message ∈ overflowMessages) (x : ℤ) :
    Yields (.timestampNanosecond <$> orFailed message (SInt.ofInt? 64 x)) x (SInt.Fits 64 x) := by
  by_cases h : SInt.Fits 64 x
  · rw [orFailed_of_fits message h]
    exact .inl ⟨h, _, ofFits_val x h, rfl⟩
  · rw [orFailed_of_not_fits message h]
    exact .inr ⟨h, message, hm, rfl⟩

theorem isGreatest_multiple {u x : ℤ} (h : 0 < u) : IsGreatest {n | u ∣ n ∧ n ≤ x} (x / u * u) := by
  refine ⟨⟨Int.dvd_mul_left .., Int.ediv_mul_le x h.ne'⟩, ?_⟩
  rintro n ⟨⟨k, rfl⟩, hle⟩
  rw [mul_comm u k] at hle ⊢
  exact Int.mul_le_mul_of_nonneg_right (Int.le_ediv_of_mul_le h hle) h.le

theorem DateTruncFunction.unit_pos (function : DateTruncFunction) : 0 < function.unit := by
  cases function <;> decide

theorem dateTrunc_eq_ok {b : RuntimeScalarValue} :
    dateTrunc function (.timestampNanosecond t) = .ok b ↔ ∃ v : I64,
      v.val = t.val / function.unit * function.unit ∧ .timestampNanosecond v = b := by
  rw [dateTrunc_eq, Result.bind_eq_ok]
  simp only [unchecked_eq_ok, Except.ok.injEq]

theorem timeBucket_eq {width : I64} {zone : String} {offset : ℤ} (h : 0 < width.val)
    (hz : zoneOffset zone = some offset) :
    timeBucket [.int64 width, .timestampNanosecond t, .utf8 zone] =
      .timestampNanosecond <$> orFailed "TIME_BUCKET timestamp overflow"
        (SInt.ofInt? 64 ((t.val + offset) / width.val * width.val - offset)) := by
  simp only [timeBucket, List.any_cons, List.any_nil, Bool.or_false, Bool.false_eq_true, if_false]
  rw [if_neg h.not_ge, hz]
  rfl

theorem isBucket_floor {w x : ℤ} (h : 0 < w) (origin : ℤ) :
    IsBucket w origin x ((x - origin) / w * w + origin) := by
  have hle := Int.ediv_mul_le (x - origin) h.ne'
  have hlt := Int.lt_ediv_add_one_mul_self (x - origin) h
  rw [add_mul, one_mul] at hlt
  refine ⟨by omega, by omega, ?_⟩
  rw [add_sub_cancel_right]
  exact Int.dvd_mul_left ..

theorem IsBucket.of_emod {w x b : ℤ} (h : IsBucket w (bucketOrigin % w) x b) :
    IsBucket w bucketOrigin x b := by
  refine ⟨h.1, h.2.1, ?_⟩
  rw [show b - bucketOrigin = b - bucketOrigin % w - w * (bucketOrigin / w) by
    have := Int.emod_add_mul_ediv bucketOrigin w
    omega]
  exact Int.dvd_sub h.2.2 (Int.dvd_mul_right ..)

theorem timestampAddInterval_subtract (t o : I64) :
    timestampAddInterval .timestampSubtractNanoseconds (.timestampNanosecond t) (.int64 o) =
      .timestampNanosecond <$> orFailed "timestamp subtraction overflow"
        (SInt.ofInt? 64 (t.val - o.val)) := rfl

theorem timestampAddInterval_add (t o : I64) :
    timestampAddInterval .timestampAddNanoseconds (.timestampNanosecond t) (.int64 o) =
      .timestampNanosecond <$> orFailed "timestamp addition overflow"
        (SInt.ofInt? 64 (t.val + o.val)) := rfl

theorem timeBucketFromOrigin_spec {width : I64} (h : 0 < width.val) :
    ∃ b, IsBucket width.val bucketOrigin t.val b ∧
      Yields (timeBucketFromOrigin width (.timestampNanosecond t)) b
        (SInt.Fits 64 (t.val - bucketOrigin % width.val) ∧
          SInt.Fits 64 (b - bucketOrigin % width.val) ∧ SInt.Fits 64 b) := by
  refine ⟨_, (isBucket_floor h (bucketOrigin % width.val)).of_emod, ?_⟩
  have hval : (originOffset width).val = bucketOrigin % width.val := rfl
  simp only [timeBucketFromOrigin, hval, add_sub_cancel_right, h, true_and]
  split_ifs with hz
  · rw [timestampAddInterval_subtract, hval]
    by_cases h₁ : SInt.Fits 64 (t.val - bucketOrigin % width.val)
    · rw [orFailed_of_fits _ h₁]
      change Yields (timeBucket _ >>= _) _ _
      rw [timeBucket_eq h rfl, ofFits_val, add_zero, sub_zero]
      by_cases h₂ : SInt.Fits 64 ((t.val - bucketOrigin % width.val) / width.val * width.val)
      · rw [orFailed_of_fits _ h₂]
        change Yields (timestampAddInterval .timestampAddNanoseconds
          (.timestampNanosecond (.ofFits _ h₂)) (.int64 (originOffset width))) _ _
        rw [timestampAddInterval_add, ofFits_val, hval]
        simpa only [h₁, h₂, true_and] using yields_orFailed (by decide) _
      · rw [orFailed_of_not_fits _ h₂]
        exact .inr ⟨fun hf => h₂ hf.2.1, _, by decide, rfl⟩
    · rw [orFailed_of_not_fits _ h₁]
      exact .inr ⟨fun hf => h₁ hf.1, _, by decide, rfl⟩
  · -- the origin is a multiple of the width
    rw [not_not.mp hz, timeBucket_eq h rfl]
    simp only [add_zero, sub_zero, t.val_fits, true_and, and_self]
    exact yields_orFailed (by decide) _

/-- Everything is exact unless the beginning of the unit lies before the first timestamp. -/
theorem timestampsExact_iff (function : DateTruncFunction) (t : I64) :
    TimestampsExact function t ↔ SInt.Fits 64 (t.val / function.unit * function.unit) := by
  have hg := isGreatest_multiple (x := t.val) function.unit_pos
  constructor
  · intro h
    obtain ⟨b, hb, hy⟩ := h.truncates
    rw [← hb.unique hg]
    rcases hy with ⟨hf, -⟩ | ⟨hf, message, -, hy⟩
    · exact hf
    · rw [dateTrunc_eq, ← hb.unique hg, unchecked_eq_overflow hf] at hy
      cases hy
  · intro hf
    refine ⟨?_, ?_, ⟨_, hg, .inl ⟨hf, _, ofFits_val _ hf, ?_⟩⟩, ?_, ?_, ?_, ?_⟩
    · obtain ⟨u, hu, ho⟩ := utcGregorian_spec t
      exact ⟨u, hu, ho, fun v hv => hv.unique ho⟩
    · intro m n a b hm hn
      obtain ⟨ha, hda⟩ := civilFromDays_spec hm
      obtain ⟨hb, hdb⟩ := civilFromDays_spec hn
      rw [← ha.days_lt_iff hb, hda, hdb, lt_iff_val, ← val_inj, ← hda, ← hdb]
      refine ⟨Iff.rfl, ha.days_inj hb, ?_⟩
      rintro rfl
      rfl
    · exact dateTrunc_eq_ok.mpr ⟨_, ofFits_val _ hf, rfl⟩
    · intro b hb
      obtain ⟨v, hv, rfl⟩ := dateTrunc_eq_ok.mp hb
      refine dateTrunc_eq_ok.mpr ⟨v, ?_, rfl⟩
      rw [hv, Int.mul_ediv_cancel _ function.unit_pos.ne']
    · intro t' b b' hle hb hb'
      obtain ⟨v, hv, he⟩ := dateTrunc_eq_ok.mp hb
      obtain ⟨v', hv', he'⟩ := dateTrunc_eq_ok.mp hb'
      cases he
      cases he'
      rw [le_iff_val, hv, hv']
      exact Int.mul_le_mul_of_nonneg_right (Int.ediv_le_ediv function.unit_pos hle)
        function.unit_pos.le
    · intro width zone offset h hz
      have hb := isBucket_floor (x := t.val) h (-offset)
      rw [sub_neg_eq_add, ← sub_eq_add_neg] at hb
      refine ⟨_, hb, ?_⟩
      rw [timeBucket_eq h hz]
      exact yields_orFailed (by decide) _
    · intro width h
      exact timeBucketFromOrigin_spec h

def firstTimestamp : I64 := .ofFits (-2 ^ 63) (fits64_iff.mpr (by decide))

theorem firstTimestamp_overflows :
    dateTrunc .dateTruncDay (.timestampNanosecond firstTimestamp) = .error .overflow ∧
      ¬ TimestampsExact .dateTruncDay firstTimestamp := by
  refine ⟨by decide, fun h => ?_⟩
  obtain ⟨b, -, hy⟩ := h.truncates
  rw [show dateTrunc .dateTruncDay (.timestampNanosecond firstTimestamp) = .error .overflow by
    decide] at hy
  rcases hy with ⟨-, v, -, hy⟩ | ⟨-, message, -, hy⟩ <;> cases hy

end Velorix.Expression
