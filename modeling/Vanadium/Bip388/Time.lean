import Vanadium.Lib.Exec

/-!
# Dates, durations and timelocks as text

The model of `time.rs` in `apps/bitcoin/bip388`, and of the rendering and the parsing of
timelocks in `cleartext/mod.rs` and `cleartext/decode.rs` there. Texts are lists of
characters; the bytes that separate them are all ASCII.

The numbers of the source are `u32` and `i64`. What a parser computes with a year that
it has read may exceed an `i64`, and execution then ends: with overflow checks in a
panic. Everything else stays within its type.
-/

namespace Vanadium.Bip388.Cleartext

open Lib

/-! ## Numbers as text -/

def digits (n : ℕ) : List Char := Nat.toDigits 10 n

/-- `{:0width}` -/
def padded (width n : ℕ) : List Char :=
  List.replicate (width - (digits n).length) '0' ++ digits n

def parse_digits (s : List Char) : Option ℕ :=
  if s ≠ [] ∧ s.all Char.isDigit then some (Nat.ofDigitChars 10 s 0) else none

/-- `parse::<u32>()`, which takes a plus sign and leading zeros. -/
def parse_u32 (s : List Char) : Option ℕ :=
  match s with
  | '+' :: rest => (parse_digits rest).filter (· < 2 ^ 32)
  | _ => (parse_digits s).filter (· < 2 ^ 32)

/-- `parse::<i64>()` -/
def parse_i64 (s : List Char) : Option ℤ :=
  match s with
  | '-' :: rest => ((parse_digits rest).filter (· ≤ 2 ^ 63)).map fun n => -(n : ℤ)
  | '+' :: rest => ((parse_digits rest).filter (· < 2 ^ 63)).map Int.ofNat
  | _ => ((parse_digits s).filter (· < 2 ^ 63)).map Int.ofNat

/-! ## Pieces of a text -/

/-- What stands before the first `sep`, and after it. -/
def split_once (sep : Char) (s : List Char) : Option (List Char × List Char) :=
  if sep ∈ s then some (s.takeWhile (· ≠ sep), (s.dropWhile (· ≠ sep)).tail) else none

/-- `splitn(3, sep)`, if there are three pieces. -/
def splitn_three (sep : Char) (s : List Char) : Option (List Char × List Char × List Char) := do
  let (first, rest) ← split_once sep s
  let (second, third) ← split_once sep rest
  some (first, second, third)

def is_ascii_whitespace (c : Char) : Bool :=
  c = ' ' || c = '\t' || c = '\n' || c = '\x0c' || c = '\r'

def split_ascii_whitespace (s : List Char) : List (List Char) :=
  (s.splitOnP is_ascii_whitespace).filter (· ≠ [])

def strip_suffix (suffix s : List Char) : Option (List Char) :=
  if suffix <:+ s then some (s.take (s.length - suffix.length)) else none

def strip_front (front s : List Char) : Option (List Char) :=
  if front <+: s then some (s.drop front.length) else none

/-! ## Dates -/

/-- The civil-from-days algorithm: the year, the month and the day. -/
def civil_from_days (days : ℕ) : ℤ × ℕ × ℕ :=
  let z : ℤ := days + 719468
  let era : ℤ := (if z ≥ 0 then z else z - 146096).tdiv 146097
  let doe : ℕ := (z - era * 146097).toNat
  let yoe := (doe - doe / 1460 + doe / 36524 - doe / 146096) / 365
  let y : ℤ := yoe + era * 400
  let doy := doe - (365 * yoe + yoe / 4 - yoe / 100)
  let mp := (5 * doy + 2) / 153
  let d := doy - (153 * mp + 2) / 5 + 1
  let m := if mp < 10 then mp + 3 else mp - 9
  (if m ≤ 2 then y + 1 else y, m, d)

/-- The years are those of a `u32` timestamp, so that none is negative. -/
def format_utc_date (timestamp : ℕ) : List Char :=
  let time_of_day := timestamp % 86400
  let (y, m, d) := civil_from_days (timestamp / 86400)
  let date := padded 4 y.toNat ++ '-' :: (padded 2 m ++ '-' :: padded 2 d)
  if time_of_day = 0 then date
  else
    let h := time_of_day / 3600
    let min := (time_of_day % 3600) / 60
    let sec := time_of_day % 60
    date ++ ' ' :: (padded 2 h ++ ':' :: (padded 2 min ++ ':' :: padded 2 sec))

/-- A parser: `None` is an error, and an overflow the end. -/
abbrev Parser (α : Type) := Exec Unit Unit α

/-- The result of an `i64` operation. -/
def i64 (n : ℤ) : Parser ℤ :=
  if -2 ^ 63 ≤ n ∧ n < 2 ^ 63 then pure n else Exec.panic

/-- `checked_mul`, `checked_add` -/
def checked_i64 (n : ℤ) : Option ℤ :=
  if -2 ^ 63 ≤ n ∧ n < 2 ^ 63 then some n else none

def days_from_civil (y : ℤ) (m d : ℕ) : Parser ℤ := do
  let y ← (if m ≤ 2 then i64 (y - 1) else pure y)
  let dividend ← (if y ≥ 0 then pure y else i64 (y - 399))
  let era := dividend.tdiv 400
  let era_years ← i64 (era * 400)
  let year_of_era ← i64 (y - era_years)
  let yoe := year_of_era.toNat
  let doy := (153 * (if m > 2 then m - 3 else m + 9) + 2) / 5 + d - 1
  let doe := yoe * 365 + yoe / 4 - yoe / 100 + doy
  let era_days ← i64 (era * 146097)
  let days ← i64 (era_days + doe)
  i64 (days - 719468)

/-- `HH:MM:SS` -/
def parse_time (t : List Char) : Option ℕ := do
  let (h, min, sec) ← splitn_three ':' t
  let h ← parse_u32 h
  let min ← parse_u32 min
  let sec ← parse_u32 sec
  if h ≥ 24 ∨ min ≥ 60 ∨ sec ≥ 60 then none
  else some (h * 3600 + min * 60 + sec)

/-- The year, the month, the day and the second of the day in a text. -/
def parse_fields (s : List Char) : Option (ℤ × ℕ × ℕ × ℕ) := do
  let (date_str, time_str) := match split_once ' ' s with
    | some (date, time) => (date, some time)
    | none => (s, none)
  let (y, m, d) ← splitn_three '-' date_str
  let y ← parse_i64 y
  let m ← parse_u32 m
  let d ← parse_u32 d
  if m < 1 ∨ m > 12 ∨ d < 1 ∨ d > 31 then none
  else
    let time_of_day ← (match time_str with
      | some t => parse_time t
      | none => some 0)
    some (y, m, d, time_of_day)

def parse_utc_date_to_timestamp (s : List Char) : Parser ℕ := do
  let (y, m, d, time_of_day) ← Exec.orElse (parse_fields s) ()
  let days ← days_from_civil y m d
  let seconds ← Exec.orElse (checked_i64 (days * 86400)) ()
  let timestamp ← Exec.orElse (checked_i64 (seconds + time_of_day)) ()
  Exec.reject (¬ (0 ≤ timestamp ∧ timestamp < 2 ^ 32)) ()
  -- dates that do not exist, and forms that are not canonical
  Exec.reject (format_utc_date timestamp.toNat ≠ s) ()
  pure timestamp.toNat

/-! ## Durations -/

/-- A number with its unit, unless it is zero. -/
def part (n : ℕ) (unit : Char) : List (List Char) :=
  if n > 0 then [digits n ++ [unit]] else []

def format_seconds (secs : ℕ) : List Char :=
  let days := secs / 86400
  let hours := (secs % 86400) / 3600
  let minutes := (secs % 3600) / 60
  let seconds := secs % 60
  let parts := part days 'd' ++ part hours 'h' ++ part minutes 'm' ++ part seconds 's'
  if parts.isEmpty then "0s".toList else List.intercalate [' '] parts

/-- The rank of a unit, and its seconds. -/
def unit_of (c : Char) : Option (ℕ × ℕ) :=
  if c = 'd' then some (1, 86400)
  else if c = 'h' then some (2, 3600)
  else if c = 'm' then some (3, 60)
  else if c = 's' then some (4, 1)
  else none

/-- `checked_mul`, `checked_add` -/
def checked_u32 (n : ℕ) : Option ℕ := if n < 2 ^ 32 then some n else none

def parse_relative_time_to_seconds.loop : List (List Char) → (total last_unit : ℕ) → Option ℕ
  | [], total, last_unit => if last_unit = 0 then none else some total
  | token :: tokens, total, last_unit => do
      let unit_byte ← token.getLast?
      let (unit, scale) ← unit_of unit_byte
      if unit ≤ last_unit then none
      else
        let n ← parse_u32 token.dropLast
        let secs ← checked_u32 (n * scale)
        let total ← checked_u32 (total + secs)
        loop tokens total unit

def parse_relative_time_to_seconds (s : List Char) : Option ℕ :=
  if s = [] then none else parse_relative_time_to_seconds.loop (split_ascii_whitespace s) 0 0

/-! ## Timelocks -/

def SEQUENCE_LOCKTIME_TYPE_FLAG : ℕ := 1 <<< 22

def LOCKTIME_THRESHOLD : ℕ := 500000000

def RELATIVE_LOCK_LIMIT : ℕ := 1 <<< 16

inductive Timelock where
  | relative (n : ℕ)
  | absolute (n : ℕ)
  deriving DecidableEq, Repr

def is_valid_relative_locktime (n : ℕ) : Bool :=
  (1 ≤ n && n < RELATIVE_LOCK_LIMIT) ||
    (SEQUENCE_LOCKTIME_TYPE_FLAG + 1 ≤ n &&
      n < SEQUENCE_LOCKTIME_TYPE_FLAG + RELATIVE_LOCK_LIMIT)

def is_valid_absolute_locktime (n : ℕ) : Bool := n ≥ 1

/-- Without the type flag. -/
def format_relative_time (time : ℕ) : List Char :=
  format_seconds ((time &&& (0xFFFFFFFF ^^^ SEQUENCE_LOCKTIME_TYPE_FLAG)) * 512)

def format_timelock : Timelock → List Char
  | .relative n =>
      if n &&& SEQUENCE_LOCKTIME_TYPE_FLAG ≠ 0 then format_relative_time n
      else digits n ++ " blocks".toList
  | .absolute n =>
      if n < LOCKTIME_THRESHOLD then "block height ".toList ++ digits n
      else "date ".toList ++ format_utc_date n

def parse_relative_time (s : List Char) : Option ℕ := do
  let secs ← parse_relative_time_to_seconds s
  if secs % 512 ≠ 0 then none
  else some ((secs / 512) ||| SEQUENCE_LOCKTIME_TYPE_FLAG)

/-- `contains(&n).then_some(lock)` -/
def then_some (c : Prop) [Decidable c] (lock : Timelock) : Parser Timelock := do
  Exec.reject (¬ c) ()
  pure lock

def parse_timelock (s : List Char) : Parser Timelock :=
  match strip_suffix " blocks".toList s with
  | some num => do
      let n ← Exec.orElse (parse_u32 num) ()
      then_some (1 ≤ n ∧ n < RELATIVE_LOCK_LIMIT) (.relative n)
  | none =>
      match strip_front "block height ".toList s with
      | some num => do
          let n ← Exec.orElse (parse_u32 num) ()
          then_some (1 ≤ n ∧ n < LOCKTIME_THRESHOLD) (.absolute n)
      | none =>
          match strip_front "date ".toList s with
          | some date => do
              let n ← parse_utc_date_to_timestamp date
              then_some (n ≥ LOCKTIME_THRESHOLD) (.absolute n)
          | none => do
              let n ← Exec.orElse (parse_relative_time s) ()
              then_some (SEQUENCE_LOCKTIME_TYPE_FLAG + 1 ≤ n ∧
                n < SEQUENCE_LOCKTIME_TYPE_FLAG + RELATIVE_LOCK_LIMIT) (.relative n)

end Vanadium.Bip388.Cleartext
