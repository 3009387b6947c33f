import NetForensics.Json.Line

/-!
# Wall-clock time stamps

`iso_now` prints the current UTC time. A reading of `clock_gettime` and `gmtime_r` is an input of
every operation that prints one; its fields have the ranges the C library documents, so that an
impossible time cannot be written down.
-/

namespace NetForensics

/-- A broken-down UTC time with milliseconds, as `gmtime_r` delivers it. -/
structure WallClock where
  /-- `tm_year + 1900` -/
  year : ℤ
  /-- `tm_mon`, from zero -/
  mon : Fin 12
  mday : Fin 32
  hour : Fin 24
  minute : Fin 60
  /-- up to 60: a leap second -/
  sec : Fin 61
  ms : Fin 1000

/-- The year as it is printed: clamped to four digits. -/
def WallClock.clampedYear (t : WallClock) : ℕ := (min (max t.year 0) 9999).toNat

/-- `iso_now`; no reading at all prints the epoch. -/
def isoNow : Option WallClock → CStr
  | none => ascii "1970-01-01T00:00:00.000Z"
  | some t =>
    zeroPad 4 (decimal t.clampedYear) ++ 45 :: (zeroPad 2 (decimal (t.mon + 1)) ++
      45 :: (zeroPad 2 (decimal t.mday) ++ 84 :: (zeroPad 2 (decimal t.hour) ++
      58 :: (zeroPad 2 (decimal t.minute) ++ 58 :: (zeroPad 2 (decimal t.sec) ++
      46 :: (zeroPad 3 (decimal t.ms) ++ [90]))))))

open Json in
theorem word_isoNow (clock : Option WallClock) : Word (isoNow clock) := by
  have hnum : ∀ width n, Word (zeroPad width (decimal n)) := fun width n ↦
    word_of_token (token_zeroPad (token_decimal n))
  cases clock with
  | none => rw [isoNow]; decide
  | some t =>
    rw [isoNow]
    refine (hnum _ _).append (.cons (by decide) ((hnum _ _).append (.cons (by decide) ?_)))
    refine (hnum _ _).append (.cons (by decide) ((hnum _ _).append (.cons (by decide) ?_)))
    refine (hnum _ _).append (.cons (by decide) ((hnum _ _).append (.cons (by decide) ?_)))
    exact (hnum _ _).append (.cons (by decide) word_nil)

open Json in
theorem safe_isoNow (clock : Option WallClock) : Safe (isoNow clock) := (word_isoNow clock).safe

end NetForensics
