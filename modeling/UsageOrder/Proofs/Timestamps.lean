import Mathlib.Data.List.TakeWhile
import Mathlib.Order.Basic
import UsageOrder.Project.Timestamp
import UsageOrder.Proofs.Paths

/-!
# Time stamps of different times

A day is told by its date (`Timestamp.date_injective`): the days of an era that are over give its year,
and those of the year the month.  A time stamp ends its date with the first underscore, and all numbers
behind the year have two digits, so the time can be read off it whatever follows
(`Timestamp.eq_of_ofSeconds_append`).
-/

namespace UsageOrder
namespace Timestamp

/-! ### The date -/

section

variable {dayOfEra yearOfEra : Nat}

/-- The years of an era that are over have as many centuries as its days. -/
theorem centuries_eq (h : dayOfEra < 146097)
    (hyear : yearOfEra = (dayOfEra - dayOfEra / 1460 + dayOfEra / 36524 - dayOfEra / 146096) / 365) :
    yearOfEra / 100 + dayOfEra / 146096 = dayOfEra / 36524 := by
  have hcases : dayOfEra / 36524 = 0 ∨ dayOfEra / 36524 = 1 ∨ dayOfEra / 36524 = 2 ∨
    dayOfEra / 36524 = 3 ∨ dayOfEra / 36524 = 4 := by omega
  have hbelow : yearOfEra < 100 * (dayOfEra / 36524 + 1 - dayOfEra / 146096) := by
    rcases hcases with hcase | hcase | hcase | hcase | hcase <;> rw [hcase] at hyear ⊢ <;> omega
  have habove : 100 * (dayOfEra / 36524 - dayOfEra / 146096) ≤ yearOfEra := by
    rcases hcases with hcase | hcase | hcase | hcase | hcase <;> rw [hcase] at hyear ⊢ <;> omega
  omega

/-- A day of an era is in its year. -/
theorem yearOfEra_bounds (h : dayOfEra < 146097)
    (hyear : yearOfEra = (dayOfEra - dayOfEra / 1460 + dayOfEra / 36524 - dayOfEra / 146096) / 365) :
    yearOfEra < 400 ∧ 365 * yearOfEra + yearOfEra / 4 - yearOfEra / 100 ≤ dayOfEra ∧
      dayOfEra - (365 * yearOfEra + yearOfEra / 4 - yearOfEra / 100) ≤ 365 := by
  have hcenturies := centuries_eq h hyear
  have hleap : yearOfEra / 4 ≤ dayOfEra / 1460 := by omega
  have hleap' : dayOfEra / 1460 ≤ yearOfEra / 4 + 1 := by omega
  have hyears : yearOfEra < 400 := by omega
  refine ⟨hyears, ?_, ?_⟩ <;> omega

end

/-- A date from the days of an era that are over: those of its years, and those of its last year. -/
theorem date_eq (days : Nat) : ∃ era yearOfEra dayOfYear, yearOfEra < 400 ∧ dayOfYear ≤ 365 ∧
    days + 719468 = 146097 * era + (365 * yearOfEra + yearOfEra / 4 - yearOfEra / 100 + dayOfYear) ∧
    date days =
      { year := yearOfEra + 400 * era + (if (5 * dayOfYear + 2) / 153 < 10 then 0 else 1)
        month := if (5 * dayOfYear + 2) / 153 < 10 then (5 * dayOfYear + 2) / 153 + 3
          else (5 * dayOfYear + 2) / 153 - 9
        day := dayOfYear - (153 * ((5 * dayOfYear + 2) / 153) + 2) / 5 + 1 } := by
  have hsplit : days + 719468 = 146097 * ((days + 719468) / 146097) + (days + 719468) % 146097 :=
    (Nat.div_add_mod ..).symm
  have hlt : (days + 719468) % 146097 < 146097 := Nat.mod_lt _ (by decide)
  rw [date]
  generalize (days + 719468) % 146097 = dayOfEra at *
  generalize hyear : (dayOfEra - dayOfEra / 1460 + dayOfEra / 36524 - dayOfEra / 146096) / 365 =
    yearOfEra
  obtain ⟨hyears, hfirst, hlast⟩ := yearOfEra_bounds hlt hyear.symm
  generalize hdays : dayOfEra - (365 * yearOfEra + yearOfEra / 4 - yearOfEra / 100) = dayOfYear at *
  refine ⟨(days + 719468) / 146097, yearOfEra, dayOfYear, hyears, hlast, by omega, ?_⟩
  have hmonth : (5 * dayOfYear + 2) / 153 < 12 := by omega
  generalize (5 * dayOfYear + 2) / 153 = month at *
  congr 2
  split_ifs <;> omega

/-- Different days have different dates. -/
theorem date_injective : Function.Injective date := by
  intro a b h
  obtain ⟨era, years, days, hyears, hdays, ha, hdate⟩ := date_eq a
  obtain ⟨era', years', days', hyears', hdays', hb, hdate'⟩ := date_eq b
  rw [hdate, hdate', Date.mk.injEq] at h
  obtain ⟨hyear, hmonth, hday⟩ := h
  generalize hm : (5 * days + 2) / 153 = month at *
  generalize hm' : (5 * days' + 2) / 153 = month' at *
  obtain rfl : month = month' := by
    split_ifs at hmonth <;> omega
  obtain rfl : days = days' := by omega
  have hboth : years + 400 * era = years' + 400 * era' := Nat.add_right_cancel hyear
  obtain rfl : era = era' := by omega
  obtain rfl : years = years' := by omega
  omega

/-! ### The text -/

theorem toString_inj {m n : Nat} (h : (toString m).toList = (toString n).toList) : m = n := by
  have hvalue := congrArg (fun digits => Nat.ofDigitChars 10 digits 0) h
  simpa only [Nat.toString_eq_repr, Nat.toList_repr, Nat.ofDigitChars_toDigits (by decide : 1 < 10)
    (by decide)] using hvalue

theorem length_twoDigits {n : Nat} (h : n < 100) : (twoDigits n).toList.length = 2 := by
  have hall : ∀ n < 100, (twoDigits n).toList.length = 2 := by decide +kernel
  exact hall n h

theorem twoDigits_inj {m n : Nat} (hm : m < 100) (hn : n < 100)
    (h : (twoDigits m).toList = (twoDigits n).toList) : m = n := by
  have hvalue : ∀ n < 100, Nat.ofDigitChars 10 (twoDigits n).toList 0 = n := by decide +kernel
  rw [← hvalue m hm, ← hvalue n hn, h]

theorem date_bounds (days : Nat) : (date days).month < 100 ∧ (date days).day < 100 := by
  rw [date]
  dsimp only
  generalize hday : (days + 719468) % 146097 = dayOfEra
  have hlt : dayOfEra < 146097 := hday ▸ Nat.mod_lt _ (by decide)
  obtain ⟨-, -, hlast⟩ := yearOfEra_bounds hlt rfl
  generalize dayOfEra - _ = dayOfYear at *
  constructor
  · split_ifs <;> omega
  · omega

/-- A text is split at its first mark in one way only. -/
theorem append_mark_inj {mark : Char} {a b x y : Text} (ha : mark ∉ a) (hb : mark ∉ b)
    (h : a ++ mark :: x = b ++ mark :: y) : a = b ∧ x = y := by
  have htake : ∀ {front rest : Text}, mark ∉ front →
      (front ++ mark :: rest).takeWhile (· ≠ mark) = front := by
    intro front rest hfront
    have hall : ∀ c ∈ front, decide (c ≠ mark) = true := fun c hc =>
      decide_eq_true (ne_of_mem_of_not_mem hc hfront)
    rw [List.takeWhile_append_of_pos hall]
    simp
  have hfront : a = b := by rw [← htake ha, h, htake hb]
  subst hfront
  exact ⟨rfl, (List.cons.inj (List.append_cancel_left h)).2⟩

/-- **Time stamps of different times do not start alike.** -/
theorem eq_of_ofSeconds_append {a b : Nat} {x y : Text}
    (h : (ofSeconds a).toList ++ x = (ofSeconds b).toList ++ y) : a = b := by
  have hyear : ∀ n, '_' ∉ (toString n).toList := fun n hmem =>
    absurd (isDigit_of_mem_toString hmem) (by decide)
  have hpart : ∀ n, '_' ∉ (twoDigits n).toList := fun n hmem =>
    absurd (isDigit_of_mem_twoDigits hmem) (by decide)
  -- The underscore in front of the time of day ends the date.
  have hshape : ∀ n (rest : Text), (ofSeconds n).toList ++ rest =
      ((toString (date (n / 86400)).year).toList ++ (twoDigits (date (n / 86400)).month).toList ++
        (twoDigits (date (n / 86400)).day).toList) ++ '_' ::
      ((twoDigits (n % 86400 / 3600)).toList ++ ((twoDigits (n % 86400 / 60 % 60)).toList ++
        ((twoDigits (n % 86400 % 60)).toList ++ ("_000000".toList ++ rest)))) := by
    intro n rest
    have hmark : "_".toList = ['_'] := rfl
    simp only [ofSeconds, String.toList_append, List.append_assoc, hmark, List.cons_append,
      List.nil_append]
  have hdate : ∀ n, '_' ∉ (toString (date n).year).toList ++ (twoDigits (date n).month).toList ++
      (twoDigits (date n).day).toList := fun n => by
    simp only [List.mem_append, hyear, hpart, or_self, not_false_eq_true]
  rw [hshape, hshape] at h
  obtain ⟨hdates, htimes⟩ := append_mark_inj (hdate _) (hdate _) h
  have hdays : a / 86400 = b / 86400 := by
    obtain ⟨hmonth, hday⟩ := date_bounds (a / 86400)
    obtain ⟨hmonth', hday'⟩ := date_bounds (b / 86400)
    obtain ⟨hfront, hlast⟩ := List.append_inj' hdates
      ((length_twoDigits hday).trans (length_twoDigits hday').symm)
    obtain ⟨hfirst, hmiddle⟩ := List.append_inj' hfront
      ((length_twoDigits hmonth).trans (length_twoDigits hmonth').symm)
    apply date_injective
    rw [Date.mk.injEq]
    exact ⟨toString_inj hfirst, twoDigits_inj hmonth hmonth' hmiddle, twoDigits_inj hday hday' hlast⟩
  have hlength : ∀ {m n : Nat}, m < 100 → n < 100 →
      (twoDigits m).toList.length = (twoDigits n).toList.length := fun hm hn =>
    (length_twoDigits hm).trans (length_twoDigits hn).symm
  obtain ⟨hhours, htimes⟩ := List.append_inj htimes (hlength (by omega) (by omega))
  obtain ⟨hminutes, htimes⟩ := List.append_inj htimes (hlength (by omega) (by omega))
  obtain ⟨hseconds, -⟩ := List.append_inj htimes (hlength (by omega) (by omega))
  have hhours := twoDigits_inj (by omega) (by omega) hhours
  have hminutes := twoDigits_inj (by omega) (by omega) hminutes
  have hseconds := twoDigits_inj (by omega) (by omega) hseconds
  omega

end Timestamp
end UsageOrder
