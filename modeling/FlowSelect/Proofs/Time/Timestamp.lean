/-
# Timestamps are civil time

A timestamp has six fields of fixed width: year, month, day, hour, minute and second. It is read exactly if
its date is one of the calendar and its time one of a day, where second 60 is one too, and its value counts
the seconds from the first second of 1970 on, days first (`Timestamp.parse_eq_ok_iff`). As all fields are of
fixed width and the larger unit stands before the smaller one, the order of the texts is the order of the
times (`CivilTime.Written.lt_iff`). The value follows that order, and it stays the same only from second 59
to second 60 of a minute (`CivilTime.seconds_of_before`).

Key definitions: `CivilTime.Written`, `CivilTime.Before`.
Key theorems: `Timestamp.follows_form_iff`, `Timestamp.parse_eq_ok_iff`, `CivilTime.Written.lt_iff`,
`CivilTime.seconds_of_before`, `timestamps_are_civil_time`.
-/
import FlowSelect.Proofs.Text.FixedWidth
import FlowSelect.Proofs.Text.Literals
import FlowSelect.Proofs.Time.Calendar

namespace FlowSelect

open Text (WritesField)

namespace CivilTime

def date (t : CivilTime) : Date := ⟨t.year, t.month, t.day⟩

/-- The characters write the date and the time as `YYYY/MM/DD.hh:mm:ss`. -/
def Written (t : CivilTime) (cs : List Char) : Prop :=
  ∃ year month day hour minute second : List Char,
    cs = year ++ '/' :: (month ++ '/' :: (day ++ '.' :: (hour ++ ':' :: (minute ++ ':' :: second)))) ∧
    WritesField 4 year t.year ∧ WritesField 2 month t.month ∧ WritesField 2 day t.day ∧
    WritesField 2 hour t.hour ∧ WritesField 2 minute t.minute ∧ WritesField 2 second t.second

/-- The order of times. -/
def Before (a b : CivilTime) : Prop :=
  a.date.Before b.date ∨ a.date = b.date ∧
    (a.hour < b.hour ∨ a.hour = b.hour ∧
      (a.minute < b.minute ∨ a.minute = b.minute ∧ a.second < b.second))

end CivilTime

/-! ### Reading -/

namespace Timestamp

variable {width : Nat} {g cs : List Char}

theorem follows_digits_iff : ∀ {width : Nat} {cs : List Char},
    follows (List.replicate width 'd') cs = true ↔ cs.length = width ∧ ∀ c ∈ cs, c.isDigit = true
  | 0, [] => by simp [follows]
  | 0, c :: cs => by simp [follows]
  | width + 1, [] => by simp [follows, List.replicate_succ]
  | width + 1, c :: cs => by
    rw [List.replicate_succ, follows, Bool.and_eq_true, follows_digits_iff, List.length_cons,
      List.forall_mem_cons]
    constructor
    · rintro ⟨hc, hlength, hcs⟩
      exact ⟨by omega, hc, hcs⟩
    · rintro ⟨hlength, hc, hcs⟩
      exact ⟨hc, by omega, hcs⟩

theorem follows_field_iff (hwidth : 0 < width) :
    follows (List.replicate width 'd') g = true ↔ ∃ n, WritesField width g n := by
  simp only [follows_digits_iff, Text.writesField_iff]
  constructor
  · rintro ⟨hlength, hdigits⟩
    have hne : g ≠ [] := by
      rintro rfl
      simp at hlength
      omega
    exact ⟨_, hlength, ⟨hne, hdigits⟩, rfl⟩
  · rintro ⟨n, hlength, ⟨-, hdigits⟩, -⟩
    exact ⟨hlength, hdigits⟩

theorem follows_append_of : ∀ {f g as bs : List Char}, follows f as = true → follows g bs = true →
    follows (f ++ g) (as ++ bs) = true
  | [], g, [], bs, _, hg => hg
  | [], g, a :: as, bs, hf, _ => by simp [follows] at hf
  | x :: f, g, [], bs, hf, _ => by simp [follows] at hf
  | x :: f, g, a :: as, bs, hf, hg => by
    rw [follows_cons, Bool.and_eq_true] at hf
    rw [List.cons_append, List.cons_append, follows_cons, hf.1, follows_append_of hf.2 hg, Bool.and_true]

/-- A form cut at a separator. -/
theorem follows_cut_iff {form : List Char} {separator : Char} (hseparator : separator ≠ 'd')
    (hwidth : 0 < width) :
    follows (List.replicate width 'd' ++ separator :: form) cs = true ↔
      ∃ g more, cs = g ++ separator :: more ∧ (∃ n, WritesField width g n) ∧
        follows form more = true := by
  constructor
  · intro h
    obtain ⟨g, tail, rfl, hg, htail⟩ := follows_append h
    cases tail with
    | nil => simp [follows] at htail
    | cons c more =>
      rw [follows_cons, if_neg hseparator, Bool.and_eq_true, beq_iff_eq] at htail
      obtain ⟨rfl, hmore⟩ := htail
      exact ⟨g, more, rfl, (follows_field_iff hwidth).mp hg, hmore⟩
  · rintro ⟨g, more, rfl, hg, hmore⟩
    apply follows_append_of ((follows_field_iff hwidth).mpr hg)
    rw [follows_cons, if_neg hseparator, beq_self_eq_true, hmore, Bool.and_true]

/-- **A text follows the form if it writes a date and a time.** -/
theorem follows_form_iff : follows form cs = true ↔ ∃ t : CivilTime, t.Written cs := by
  have hform : form = List.replicate 4 'd' ++ '/' :: (List.replicate 2 'd' ++ '/' ::
      (List.replicate 2 'd' ++ '.' :: (List.replicate 2 'd' ++ ':' ::
        (List.replicate 2 'd' ++ ':' :: List.replicate 2 'd')))) := rfl
  have hslash : '/' ≠ 'd' := by decide
  have hdot : '.' ≠ 'd' := by decide
  have hcolon : ':' ≠ 'd' := by decide
  have htwo : 0 < 2 := by decide
  rw [hform, follows_cut_iff hslash (by decide)]
  simp only [follows_cut_iff hslash htwo, follows_cut_iff hdot htwo, follows_cut_iff hcolon htwo,
    follows_field_iff htwo]
  constructor
  · rintro ⟨gy, _, rfl, ⟨y, hy⟩, gm, _, rfl, ⟨m, hm⟩, gd, _, rfl, ⟨d, hd⟩, gh, _, rfl, ⟨h, hh⟩,
      gn, gs, rfl, ⟨n, hn⟩, ⟨s, hs⟩⟩
    exact ⟨⟨y, m, d, h, n, s⟩, gy, gm, gd, gh, gn, gs, rfl, hy, hm, hd, hh, hn, hs⟩
  · rintro ⟨t, gy, gm, gd, gh, gn, gs, rfl, hy, hm, hd, hh, hn, hs⟩
    exact ⟨gy, _, rfl, ⟨_, hy⟩, gm, _, rfl, ⟨_, hm⟩, gd, _, rfl, ⟨_, hd⟩, gh, _, rfl, ⟨_, hh⟩,
      gn, gs, rfl, ⟨_, hn⟩, ⟨_, hs⟩⟩

theorem field_first {n : Nat} (hg : WritesField width g n) (rest : List Char) :
    field (g ++ rest) 0 width = n := by
  rw [field, List.drop_zero, List.take_left' hg.1, hg.decimal_eq]

theorem field_later {n : Nat} (hg : WritesField width g n) (separator : Char) (rest : List Char)
    (start count : Nat) : field (g ++ separator :: rest) (width + 1 + start) count = field rest start count := by
  have hdrop : (g ++ separator :: rest).drop (width + 1 + start) = rest.drop start := by
    rw [← List.drop_drop, ← hg.1, ← List.singleton_append, ← List.append_assoc]
    exact congrArg (List.drop start) (List.drop_left' (by simp))
  rw [field, hdrop, field]

/-- **Each field is found at its place.** -/
theorem civilTime_eq {t : CivilTime} (h : t.Written cs) : civilTime cs = t := by
  obtain ⟨gy, gm, gd, gh, gn, gs, hcs, hy, hm, hd, hh, hn, hs⟩ := h
  have hyear : field cs 0 4 = t.year := by rw [hcs, field_first hy]
  have hmonth : field cs (4 + 1 + 0) 2 = t.month := by rw [hcs, field_later hy, field_first hm]
  have hday : field cs (4 + 1 + (2 + 1 + 0)) 2 = t.day := by
    rw [hcs, field_later hy, field_later hm, field_first hd]
  have hhour : field cs (4 + 1 + (2 + 1 + (2 + 1 + 0))) 2 = t.hour := by
    rw [hcs, field_later hy, field_later hm, field_later hd, field_first hh]
  have hminute : field cs (4 + 1 + (2 + 1 + (2 + 1 + (2 + 1 + 0)))) 2 = t.minute := by
    rw [hcs, field_later hy, field_later hm, field_later hd, field_later hh, field_first hn]
  have hsecond : field cs (4 + 1 + (2 + 1 + (2 + 1 + (2 + 1 + (2 + 1 + 0))))) 2 = t.second := by
    rw [hcs, field_later hy, field_later hm, field_later hd, field_later hh, field_later hn,
      ← List.append_nil gs, field_first hs]
  unfold civilTime
  rw [hyear, hmonth, hday, hhour, hminute, hsecond]

end Timestamp

/-! ### Values -/

namespace CivilTime

variable {t a b : CivilTime} {cs ds : List Char}

theorem isReal_iff : t.isReal = true ↔ t.date.Real ∧ t.hour ≤ 23 ∧ t.minute ≤ 59 ∧ t.second ≤ 60 := by
  unfold isReal
  rw [← Date.isDate_iff]
  simp only [Bool.and_eq_true, decide_eq_true_eq, and_assoc]
  rfl

theorem seconds_eq (t : CivilTime) : t.seconds = 86400 * ((t.date.ordinal : Int) - (Date.epoch.ordinal : Int))
    + ((3600 * t.hour + 60 * t.minute + min t.second 59 : Nat) : Int) := by
  rw [← t.date.dayNumber_eq]
  rfl

/-- A year of four digits keeps the seconds far within 64 bits. -/
theorem Written.seconds_bounds (h : t.Written cs) (hreal : t.isReal = true) :
    -2 ^ 63 < t.seconds ∧ t.seconds < 2 ^ 63 := by
  obtain ⟨gy, -, -, -, -, -, -, hy, -⟩ := h
  rw [isReal_iff] at hreal
  obtain ⟨hdate, hhour, hminute, -⟩ := hreal
  have hyear : t.year + 1 ≤ 10000 := hy.lt
  have hplace : t.date.ordinal ≤ 3652425 :=
    calc t.date.ordinal ≤ Calendar.daysBeforeYear (t.year + 1) := hdate.ordinal_le_year
      _ ≤ Calendar.daysBeforeYear 10000 := Calendar.daysBeforeYear_mono hyear
      _ = 3652425 := by decide
  have hepoch : Date.epoch.ordinal = 719529 := by decide
  rw [seconds_eq, hepoch]
  omega

end CivilTime

/-- **A timestamp is read if it writes a real time, and its value is that of the time.** -/
theorem Timestamp.parse_eq_ok_iff {text : String} {v : Int64} : parse text = .ok v ↔
    ∃ t : CivilTime, t.Written text.toList ∧ t.isReal = true ∧ v.toInt = t.seconds := by
  unfold parse value
  by_cases hform : follows form text.toList = true
  · rw [if_pos hform]
    rw [follows_form_iff] at hform
    obtain ⟨t, ht⟩ := hform
    rw [civilTime_eq ht]
    have hone : (∃ u : CivilTime, u.Written text.toList ∧ u.isReal = true ∧ v.toInt = u.seconds) ↔
        t.isReal = true ∧ v.toInt = t.seconds := by
      constructor
      · rintro ⟨u, hu, h⟩
        obtain rfl : t = u := (civilTime_eq ht).symm.trans (civilTime_eq hu)
        exact h
      · intro h
        exact ⟨t, ht, h⟩
    rw [hone]
    by_cases hreal : t.isReal = true
    · obtain ⟨hlow, hhigh⟩ := ht.seconds_bounds hreal
      have hint : (Int64.ofInt t.seconds).toInt = t.seconds :=
        Int64.toInt_ofInt_of_le (by omega) (by omega)
      simp only [hreal, if_true, Except.ok.injEq, true_and]
      rw [← Int64.toInt_inj, hint, eq_comm]
    · simp [hreal]
  · rw [if_neg hform]
    rw [follows_form_iff] at hform
    constructor
    · intro h
      cases h
    · rintro ⟨t, ht, -⟩
      exact absurd ⟨t, ht⟩ hform

/-! ### Order -/

namespace CivilTime

variable {t a b : CivilTime} {cs ds : List Char}

/-- **The order of the texts is the order of the times.** -/
theorem Written.lt_iff (ha : a.Written cs) (hb : b.Written ds) : cs < ds ↔ a.Before b := by
  obtain ⟨gy, gm, gd, gh, gn, gs, rfl, hy, hm, hd, hh, hn, hs⟩ := ha
  obtain ⟨gy', gm', gd', gh', gn', gs', rfl, hy', hm', hd', hh', hn', hs'⟩ := hb
  rw [hy.append_lt_iff hy', hm.append_lt_iff hm', hd.append_lt_iff hd', hh.append_lt_iff hh',
    hn.append_lt_iff hn', hs.lt_iff hs']
  simp only [Before, Date.Before, date, Date.mk.injEq]
  omega

theorem not_before_self (t : CivilTime) : ¬t.Before t := by
  simp only [Before, Date.Before]
  omega

/-- A time is written in one way only. -/
theorem Written.unique (hcs : t.Written cs) (hds : t.Written ds) : cs = ds := by
  rcases lt_trichotomy cs ds with hlt | heq | hlt
  · exact absurd ((hcs.lt_iff hds).mp hlt) t.not_before_self
  · exact heq
  · exact absurd ((hds.lt_iff hcs).mp hlt) t.not_before_self

/-- The last two characters are the second, and any other second may be written in their place. -/
theorem Written.exists_front (h : t.Written cs) : ∃ front second, cs = front ++ second ∧
    WritesField 2 second t.second ∧
    ∀ other n, WritesField 2 other n → Written { t with second := n } (front ++ other) := by
  obtain ⟨gy, gm, gd, gh, gn, gs, rfl, hy, hm, hd, hh, hn, hs⟩ := h
  refine ⟨gy ++ '/' :: (gm ++ '/' :: (gd ++ '.' :: (gh ++ ':' :: (gn ++ [':'])))), gs, by simp, hs, ?_⟩
  intro other n hother
  exact ⟨gy, gm, gd, gh, gn, other, by simp, hy, hm, hd, hh, hn, hother⟩

/-- Two texts differ in second 59 and 60 only, if the times do. -/
theorem Written.leapSecond_iff (ha : a.Written cs) (hb : b.Written ds) :
    (∃ front, cs = front ++ ['5', '9'] ∧ ds = front ++ ['6', '0']) ↔
      a.second = 59 ∧ b = { a with second := 60 } := by
  have h59 : WritesField 2 ['5', '9'] 59 := ⟨rfl, Numeral.writesDecimal_iff.mpr (by decide)⟩
  have h60 : WritesField 2 ['6', '0'] 60 := ⟨rfl, Numeral.writesDecimal_iff.mpr (by decide)⟩
  obtain ⟨front, second, hcs, hsecond, hother⟩ := ha.exists_front
  constructor
  · rintro ⟨front', hcs', hds⟩
    obtain ⟨rfl, rfl⟩ : front = front' ∧ second = ['5', '9'] :=
      List.append_inj' (hcs.symm.trans hcs') hsecond.1
    refine ⟨(hsecond.eq_iff h59).mp rfl, ?_⟩
    rw [← Timestamp.civilTime_eq hb, hds, Timestamp.civilTime_eq (hother _ _ h60)]
  · rintro ⟨hlast, rfl⟩
    rw [hlast] at hsecond
    obtain rfl : second = ['5', '9'] := (hsecond.eq_iff h59).mpr rfl
    exact ⟨front, hcs, hb.unique (hother _ _ h60)⟩

/-- **A later time has more seconds, but for second 60 after second 59.** -/
theorem seconds_of_before (ha : a.isReal = true) (hb : b.isReal = true) (h : a.Before b) :
    a.seconds ≤ b.seconds ∧
      (a.seconds = b.seconds ↔ a.second = 59 ∧ b = { a with second := 60 }) := by
  rw [isReal_iff] at ha hb
  obtain ⟨hdate, hhour, hminute, -⟩ := ha
  obtain ⟨hdate', -, -, hsecond'⟩ := hb
  have hleap : a.second = 59 ∧ b = { a with second := 60 } ↔
      a.date = b.date ∧ a.hour = b.hour ∧ a.minute = b.minute ∧ a.second = 59 ∧ b.second = 60 := by
    obtain ⟨y, m, d, h, n, s⟩ := a
    obtain ⟨y', m', d', h', n', s'⟩ := b
    simp only [date, Date.mk.injEq, CivilTime.mk.injEq]
    omega
  rw [hleap, seconds_eq, seconds_eq]
  rcases h with hday | ⟨hday, htime⟩
  · have hlater := Date.ordinal_lt hdate hdate' hday
    have hne : a.date ≠ b.date := by
      intro hsame
      rw [hsame] at hlater
      omega
    simp only [hne, false_and, iff_false]
    omega
  · simp only [hday, true_and]
    omega

/-- The characters of a timestamp are one byte each. -/
theorem Written.ascii (h : t.Written cs) : ∀ c ∈ cs, c.toNat < 128 := by
  have hdigit : ∀ c : Char, c.isDigit = true → c.toNat < 128 := by
    intro c hc
    have hmost : c.toNat ≤ 57 := (Char.isDigit_iff_toNat.mp hc).2
    omega
  have hform : ∃ t : CivilTime, t.Written cs := ⟨t, h⟩
  rw [← Timestamp.follows_form_iff] at hform
  obtain ⟨year, more, rfl, hyear, -, hmore⟩ := Timestamp.written_of_follows hform
  simp only [Digits.isRun, Bool.and_eq_true, List.all_eq_true] at hyear
  intro c hc
  rcases List.mem_append.mp hc with hc | hc
  · exact hdigit c (hyear.2 c hc)
  rcases List.mem_cons.mp hc with rfl | hc
  · decide
  · have hmark := hmore c hc
    simp only [Timestamp.isMark, Bool.or_eq_true, beq_iff_eq] at hmark
    rcases hmark with ((hc | rfl) | rfl) | rfl
    · exact hdigit c hc
    · decide
    · decide
    · decide

end CivilTime

/-- **Timestamps are civil time.** A text is read exactly if it writes a day of the calendar and a time of
the day, with second 60 allowed in every minute, and its value is the number of days from 1970/01/01 on, in
seconds, and the seconds of the day, where second 60 counts as 59. So of two timestamps the later text, byte by
byte, has the larger value, or the same one if the texts differ in nothing but second 59 and second 60. -/
theorem timestamps_are_civil_time (text : String) :
    (∀ v : Int64, Timestamp.parse text = .ok v ↔
      ∃ t : CivilTime, t.Written text.toList ∧
        t.date.Real ∧ t.hour ≤ 23 ∧ t.minute ≤ 59 ∧ t.second ≤ 60 ∧
        v.toInt = 86400 * Date.daysFrom Date.epoch t.date
          + 3600 * t.hour + 60 * t.minute + min t.second 59) ∧
    ∀ (other : String) (v w : Int64), Timestamp.parse text = .ok v → Timestamp.parse other = .ok w →
      Text.bytes text < Text.bytes other →
        v.toInt ≤ w.toInt ∧ (v = w ↔ ∃ front, text = front ++ "59" ∧ other = front ++ "60") := by
  constructor
  · intro v
    rw [Timestamp.parse_eq_ok_iff]
    refine exists_congr fun t => and_congr_right fun _ => ?_
    rw [CivilTime.isReal_iff, and_assoc, and_assoc, and_assoc]
    refine and_congr_right fun hdate => ?_
    rw [← Date.dayNumber_eq_daysFrom hdate, CivilTime.seconds]
    push_cast
    simp only [CivilTime.date, add_assoc]
  · intro other v w hv hw hbytes
    obtain ⟨a, ha, hareal, hva⟩ := Timestamp.parse_eq_ok_iff.mp hv
    obtain ⟨b, hb, hbreal, hwb⟩ := Timestamp.parse_eq_ok_iff.mp hw
    have hbefore : a.Before b := (ha.lt_iff hb).mp ((Text.bytes_lt_iff ha.ascii hb.ascii).mp hbytes)
    obtain ⟨hle, hsame⟩ := CivilTime.seconds_of_before hareal hbreal hbefore
    have hfront : (∃ front, text = front ++ "59" ∧ other = front ++ "60") ↔
        ∃ front, text.toList = front ++ ['5', '9'] ∧ other.toList = front ++ ['6', '0'] := by
      constructor
      · rintro ⟨front, rfl, rfl⟩
        exact ⟨front.toList, by simp, by simp⟩
      · rintro ⟨front, htext, hother⟩
        refine ⟨String.ofList front, ?_, ?_⟩
        · rw [← String.toList_inj, htext]
          simp
        · rw [← String.toList_inj, hother]
          simp
    rw [← Int64.toInt_inj, hva, hwb, hsame, hfront, ha.leapSecond_iff hb]
    exact ⟨hle, Iff.rfl⟩

/-- The last two seconds of a leap day before the common era, and the first second of the day after. -/
theorem timestamps_are_civil_time_leap_day :
    let last := "0000/02/29.23:59:59"
    let leap := "0000/02/29.23:59:60"
    let next := "0000/03/01.00:00:00"
    Timestamp.parse last = .ok (-62162035201) ∧ Timestamp.parse leap = .ok (-62162035201) ∧
      Timestamp.parse next = .ok (-62162035200) ∧
      Text.bytes last < Text.bytes leap ∧ Text.bytes leap < Text.bytes next ∧
      (∃ front, last = front ++ "59" ∧ leap = front ++ "60") ∧
      ¬∃ front, leap = front ++ "59" ∧ next = front ++ "60" := by
  intro last leap next
  have hlast : Timestamp.parse last = .ok (-62162035201) := by decide +kernel
  have hleap : Timestamp.parse leap = .ok (-62162035201) := by decide +kernel
  have hnext : Timestamp.parse next = .ok (-62162035200) := by decide +kernel
  have hfirst : Text.bytes last < Text.bytes leap := by decide +kernel
  have hsecond : Text.bytes leap < Text.bytes next := by decide +kernel
  refine ⟨hlast, hleap, hnext, hfirst, hsecond, ?_, ?_⟩
  · exact ((timestamps_are_civil_time last).2 leap _ _ hlast hleap hfirst).2.mp rfl
  · exact ((timestamps_are_civil_time leap).2 next _ _ hleap hnext hsecond).2.not.mp (by decide)

end FlowSelect
