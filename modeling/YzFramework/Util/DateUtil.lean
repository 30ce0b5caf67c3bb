import Mathlib.Algebra.Order.Ring.Int
import Mathlib.Data.List.Basic

/-! `DateUtil`: local days. Dates are milliseconds of the epoch, and a calendar works on
the wall time of its zone; `none` is null. -/
namespace YzFramework.Util.DateUtil

def DAY : ℤ := 86400000

/-- An offset from UTC that changes at finitely many instants, each with the new offset. -/
structure TimeZone where
  first : ℤ
  changes : List (ℤ × ℤ)
  ordered : changes.Pairwise fun earlier later => earlier.1 < later.1

namespace TimeZone

variable (zone : TimeZone)

def offset (date : ℤ) : ℤ := (((zone.changes.filter (·.1 ≤ date)).getLast?).map Prod.snd).getD zone.first

def wall (date : ℤ) : ℤ := date+zone.offset date

def day (date : ℤ) : ℤ := zone.wall date/DAY

/-- A wall time that a change skips has the offset before it, one that occurs twice the
offset after it. -/
def offsetByWall (wall : ℤ) : ℤ :=
  (((zone.changes.filter fun change => change.1+change.2 ≤ wall).getLast?).map Prod.snd).getD zone.first

def instant (wall : ℤ) : ℤ := wall-zone.offsetByWall wall

/-- `add` for days: the wall time moves by whole days, and if that changes the offset it is
restored, unless this leads to another day. -/
def add (date amount : ℤ) : ℤ :=
  if amount = 0 then date
  else
    let wall := zone.wall date+amount*DAY
    let moved := wall-zone.offset date
    let adjusted := wall-zone.offset moved
    if zone.day adjusted = wall/DAY then adjusted else moved

end TimeZone

variable (zone : TimeZone)

def minInDay (date : Option ℤ) : Option ℤ := date.map fun date => zone.instant (zone.day date*DAY)

def daysBetween (smdate bdate : Option ℤ) : ℤ :=
  match minInDay zone smdate, minInDay zone bdate with
  | some time1,some time2 => (time2-time1).tdiv (1000*3600*24)
  | _,_ => 0

def addDay (date dayNum : ℤ) : ℤ := zone.add date dayNum

/-- The day on which the clock stands when its hands have gone on by `n` days: the one it
should show if the zone has that day at the offset before or after it, else the day that
the offset of departure leads to. -/
def reached (date n : ℤ) : ℤ :=
  let hands := date+zone.offset date+n*DAY
  let early := hands-zone.offset date
  let late := hands-zone.offset early
  if (late+zone.offset late)/DAY = hands/DAY then hands/DAY else (early+zone.offset early)/DAY

/-- What lies between the midnights of a date and of the day `n` days later beyond `n`
days: what the offset has gone down, and the days that the zone skips on arrival. -/
def surplus (date n : ℤ) : ℤ :=
  let start := (date+zone.offset date)/DAY
  (reached zone date n-(start+n))*DAY+
    (zone.offsetByWall (start*DAY)-zone.offsetByWall (reached zone date n*DAY))

theorem day_add (date n : ℤ) : zone.day (zone.add date n) = reached zone date n := by
  by_cases still : n = 0
  · subst still
    have early : date+zone.offset date+0*DAY-zone.offset date = date := by
      rw [Int.zero_mul]
      omega
    have hands : (date+zone.offset date+0*DAY)/DAY = (date+zone.offset date)/DAY := by
      rw [Int.zero_mul,Int.add_zero]
    have stays : zone.add date 0 = date := if_pos rfl
    rw [stays,reached,early,early,hands]
    exact (if_pos rfl).symm
  · rw [TimeZone.add,if_neg still,reached]
    by_cases lands : zone.day (zone.wall date+n*DAY-zone.offset (zone.wall date+n*DAY-zone.offset date)) =
        (zone.wall date+n*DAY)/DAY
    · rw [if_pos lands]
      exact lands.trans (if_pos lands).symm
    · rw [if_neg lands]
      exact (if_neg lands).symm

theorem daysBetween_some (smdate bdate : ℤ) : daysBetween zone (some smdate) (some bdate) =
    ((zone.day bdate-zone.day smdate)*DAY+
      (zone.offsetByWall (zone.day smdate*DAY)-zone.offsetByWall (zone.day bdate*DAY))).tdiv DAY := by
  have between : zone.instant (zone.day bdate*DAY)-zone.instant (zone.day smdate*DAY) =
      (zone.day bdate-zone.day smdate)*DAY+
        (zone.offsetByWall (zone.day smdate*DAY)-zone.offsetByWall (zone.day bdate*DAY)) := by
    rw [TimeZone.instant,TimeZone.instant,Int.sub_mul]
    omega
  rw [← between]
  rfl

/-- A duration is counted as `n` days if it is that long and less than a day longer. -/
theorem tdiv_day_iff {n rest : ℤ} (positive : 0 < n) : (n*DAY+rest).tdiv DAY = n ↔ 0 ≤ rest ∧ rest < DAY := by
  rw [DAY]
  by_cases negative : n*86400000+rest < 0
  · have nonneg : 0 ≤ (-(n*86400000+rest)).tdiv 86400000 := Int.tdiv_nonneg (by omega) (by decide)
    rw [Int.neg_tdiv] at nonneg
    omega
  · rw [Int.tdiv_eq_ediv_of_nonneg (not_lt.mp negative)]
    omega

theorem surplus_zero (date : ℤ) : surplus zone date 0 = 0 := by
  have still : zone.add date 0 = date := if_pos rfl
  have here : reached zone date 0 = (date+zone.offset date)/DAY := by
    rw [← day_add,still,TimeZone.day,TimeZone.wall]
  rw [surplus,here,Int.add_zero,Int.sub_self,Int.zero_mul,Int.sub_self,Int.add_zero]

theorem addDay_counted_iff (date : ℤ) (n : ℕ) :
    daysBetween zone (some date) (some (addDay zone date n)) = n ↔
      0 ≤ surplus zone date n ∧ surplus zone date n < DAY := by
  have total : (zone.day (addDay zone date n)-zone.day date)*DAY+
      (zone.offsetByWall (zone.day date*DAY)-zone.offsetByWall (zone.day (addDay zone date n)*DAY)) =
      n*DAY+surplus zone date n := by
    rw [surplus,addDay,day_add,TimeZone.day,TimeZone.wall,Int.sub_mul,Int.sub_mul,Int.add_mul]
    omega
  rw [daysBetween_some,total]
  rcases Nat.eq_zero_or_pos n with rfl | positive
  · have none : surplus zone date ((0 : ℕ) : ℤ) = 0 := surplus_zero zone date
    rw [none]
    decide
  · exact tdiv_day_iff (Int.natCast_pos.mpr positive)

/-- Adding `n` days is counted as `n` days exactly where the midnights between which it
is counted lie at least `n` days apart, and not a day more; dates count by their days. -/
theorem daysBetween_addDay_iff :
    (∀ (date : ℤ) (n : ℕ), daysBetween zone (some date) (some (addDay zone date n)) = n ↔
      0 ≤ surplus zone date n ∧ surplus zone date n < DAY) ∧
    ∀ first second first' second', zone.day first = zone.day first' → zone.day second = zone.day second' →
      daysBetween zone (some first) (some second) = daysBetween zone (some first') (some second') := by
  refine ⟨addDay_counted_iff zone,?_⟩
  intro first second first' second' same alsoSame
  rw [daysBetween_some,daysBetween_some,same,alsoSame]

/-- The clock goes from one o'clock to two on the first day of the epoch. -/
def spring : TimeZone := ⟨0,[(3600000,3600000)],by decide⟩

theorem daysBetween_addDay_fails :
    ¬ ∀ (zone : TimeZone) (date : ℤ) (n : ℕ), daysBetween zone (some date) (some (addDay zone date n)) = n := by
  intro all
  exact absurd (all spring 0 1) (by decide)

end YzFramework.Util.DateUtil
