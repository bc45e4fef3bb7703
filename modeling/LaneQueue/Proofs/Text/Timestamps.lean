import Mathlib.Algebra.Group.Nat.Defs
import LaneQueue.Timestamp
/-!
# Written timestamps

A timestamp is read back from its text (`Timestamp.parse?_render`): a mark that is no digit stands
behind every number in it, and all but the years outside 0 to 9999 have a fixed width.
-/
namespace LaneQueue

/-! ## Numbers of a fixed width -/

theorem digitValue?_digitChar_mod (n : Nat) : digitValue? (digitChar n) = some (n % 10) := by
  have hchar : digitChar n = digitChar (n % 10) := by simp only [digitChar, Nat.mod_mod]
  rw [hchar, digitValue?_digitChar _ (Nat.mod_lt n (by decide))]

/-- The digits of a number are taken one after the other. -/
theorem takeNumber_go_padded (w n m : Nat) (rest : List Char) (a k : Nat) :
    takeNumber.go (w + m) (padded w n ++ rest) a k =
      takeNumber.go m rest (a * 10 ^ w + n % 10 ^ w) (k + w) := by
  induction w generalizing n m rest with
  | zero => simp [padded, Nat.mod_one]
  | succ w ih =>
    have hvalue : (a * 10 ^ w + n / 10 % 10 ^ w) * 10 + n % 10 =
        a * 10 ^ (w + 1) + n % 10 ^ (w + 1) := by
      rw [Nat.pow_succ', Nat.mod_mul, Nat.add_mul, Nat.mul_left_comm a 10, Nat.mul_comm _ 10]
      omega
    rw [padded, List.append_assoc, List.singleton_append, Nat.add_right_comm, Nat.add_assoc, ih,
      takeNumber.go, digitValue?_digitChar_mod]
    simp only [hvalue, Nat.add_assoc]

/-- A number is taken as a whole if it fills the width, or if no digit follows. -/
theorem takeNumber_padded {w n most : Nat} {rest : List Char} (hw : w ≤ most) (hn : n < 10 ^ w)
    (hrest : w = most ∨ ∀ c ∈ rest.head?, digitValue? c = none) :
    takeNumber most (padded w n ++ rest) = ((n, w), rest) := by
  obtain ⟨m, rfl⟩ := Nat.exists_eq_add_of_le hw
  rw [takeNumber, takeNumber_go_padded, Nat.zero_mul, Nat.zero_add, Nat.zero_add,
    Nat.mod_eq_of_lt hn]
  cases m with
  | zero => rfl
  | succ m =>
    have hnone := hrest.resolve_left (by omega)
    cases rest with
    | nil => rfl
    | cons c rest => rw [takeNumber.go, hnone c rfl]

theorem digitChar_eq {d : Nat} (h : d < 10) : Nat.digitChar d = digitChar d := by
  have hall : ∀ d : Fin 10, Nat.digitChar d.1 = digitChar d.1 := by decide
  exact hall ⟨d, h⟩

/-- A number in as many digits as it has. -/
theorem exists_toDigits_eq_padded (n : Nat) :
    ∃ w, w ≠ 0 ∧ n < 10 ^ w ∧ Nat.toDigits 10 n = padded w n := by
  induction n using Nat.strongRecOn with
  | ind n ih =>
    rw [Nat.toDigits_eq_if (by decide)]
    split
    · rename_i hlt
      exact ⟨1, by decide, hlt, congrArg (fun c => [c]) (digitChar_eq hlt)⟩
    · obtain ⟨w, -, hlt, hw⟩ := ih (n / 10) (by omega)
      have hlast : Nat.digitChar (n % 10) = digitChar n := by
        rw [digitChar_eq (Nat.mod_lt n (by decide)), digitChar, digitChar, Nat.mod_mod]
      exact ⟨w + 1, by omega, by omega, by rw [hw, hlast, padded]⟩

/-! ## Blanks -/

theorem isBlank_digitChar (d : Nat) : isBlank (digitChar d) = false := by
  have hall : ∀ d : Fin 10, isBlank (digitChar d.1) = false := by decide
  have hchar : digitChar d = digitChar (d % 10) := by simp only [digitChar, Nat.mod_mod]
  rw [hchar]
  exact hall ⟨d % 10, Nat.mod_lt d (by decide)⟩

theorem mem_padded {w n : Nat} {c : Char} (h : c ∈ padded w n) : ∃ d, c = digitChar d := by
  induction w generalizing n with
  | zero => cases h
  | succ w ih =>
    rcases List.mem_append.1 h with h | h
    · exact ih h
    · exact ⟨n, List.mem_singleton.1 h⟩

theorem trimLeft_cons {c : Char} (h : isBlank c = false) (rest : List Char) :
    trimLeft (c :: rest) = c :: rest := List.dropWhile_cons_of_neg (by simp [h])

/-- A number begins with a digit. -/
theorem exists_cons_padded {w : Nat} (hw : w ≠ 0) (n : Nat) :
    ∃ d cs, padded w n = digitChar d :: cs := by
  obtain ⟨c, cs, hc⟩ := List.exists_cons_of_ne_nil (l := padded w n)
    fun h => hw (by rw [← length_padded w n, h]; rfl)
  obtain ⟨d, rfl⟩ := mem_padded (hc ▸ List.mem_cons_self : c ∈ padded w n)
  exact ⟨d, cs, hc⟩

theorem trimLeft_padded {w : Nat} (hw : w ≠ 0) (n : Nat) (rest : List Char) :
    trimLeft (padded w n ++ rest) = padded w n ++ rest := by
  obtain ⟨d, cs, hc⟩ := exists_cons_padded hw n
  rw [hc, List.cons_append, trimLeft_cons (isBlank_digitChar d)]

namespace Timestamp

/-! ## The parts of a text -/

theorem takeField_padded {w n : Nat} (hw : w ≠ 0) (hn : n < 10 ^ w) (rest : List Char) :
    takeField w (padded w n ++ rest) = some (n, rest) := by
  rw [takeField, trimLeft_padded hw, takeNumber_padded (Nat.le_refl w) hn (.inl rfl)]
  simp only [hw, if_false]

theorem takeMark_cons {mark : Char} (h : isBlank mark = false) (rest : List Char) :
    takeMark mark (mark :: rest) = some rest := by
  rw [takeMark, trimLeft_cons h]
  exact if_pos rfl

/-- A year is written in four digits, or with a sign in front. -/
theorem renderYear_eq (year : Int) :
    (0 ≤ year ∧ year ≤ 9999 ∧ renderYear year = padded 4 year.toNat) ∨
    ∃ w, w ≠ 0 ∧ year.natAbs < 10 ^ w ∧
      renderYear year = (if year < 0 then '-' else '+') :: padded w year.natAbs := by
  unfold renderYear
  split
  · rename_i h
    exact .inl ⟨h.1, h.2, rfl⟩
  · refine .inr ?_
    by_cases hfour : year.natAbs < 10000
    · exact ⟨4, by decide, hfour, congrArg _ (if_pos hfour)⟩
    · obtain ⟨w, hw, hlt, hdigits⟩ := exists_toDigits_eq_padded year.natAbs
      refine ⟨w, hw, hlt, congrArg _ ((if_neg hfour).trans ?_)⟩
      rw [Nat.toString_eq_repr, Nat.toList_repr, hdigits]

theorem takeYear_unsigned_padded {w n : Nat} (hw : w ≠ 0) (hn : n < 10 ^ w) {rest : List Char}
    (hrest : ∀ c ∈ rest.head?, digitValue? c = none) :
    takeYear.unsigned (padded w n ++ rest) = some (n, rest) := by
  have hle : w ≤ (padded w n ++ rest).length := by
    rw [List.length_append, length_padded]
    exact Nat.le_add_right _ _
  rw [takeYear.unsigned, takeNumber_padded hle hn (.inr hrest)]
  simp only [hw, if_false]

/-- **The year** is taken with its sign and all its digits. -/
theorem takeYear_render (year : Int) (rest : List Char) :
    takeYear (renderYear year ++ '-' :: rest) = some (year, '-' :: rest) := by
  have hrest : ∀ c ∈ ('-' :: rest).head?, digitValue? c = none := by
    rintro c ⟨⟩
    rfl
  rcases renderYear_eq year with ⟨hlow, hhigh, hyear⟩ | ⟨w, hw, hlt, hyear⟩
  · obtain ⟨d, cs, hc⟩ := exists_cons_padded (w := 4) (by decide) year.toNat
    -- a sign is no digit
    have hsign {c : Char} {x : List Char} (hv : digitValue? c = none) :
        padded 4 year.toNat ++ '-' :: rest ≠ c :: x := by
      rw [hc, List.cons_append]
      intro he
      have hd := digitValue?_digitChar_mod d
      rw [(List.cons.inj he).1, hv] at hd
      cases hd
    rw [hyear, takeYear, trimLeft_padded (by decide)]
    split
    · rename_i he
      exact absurd he (hsign rfl)
    · rename_i he
      exact absurd he (hsign rfl)
    · rw [takeField_padded (by decide) (by omega)]
      simp only [Option.map_some, Int.toNat_of_nonneg hlow]
  · have htake := takeYear_unsigned_padded hw hlt hrest
    by_cases hneg : year < 0
    · rw [hyear, if_pos hneg, List.cons_append, takeYear, trimLeft_cons (by decide)]
      simp only [htake, Option.map_some]
      exact congrArg (fun y => some (y, '-' :: rest)) (by omega)
    · rw [hyear, if_neg hneg, List.cons_append, takeYear, trimLeft_cons (by decide)]
      simp only [htake, Option.map_some]
      exact congrArg (fun y => some (y, '-' :: rest)) (by omega)

/-- The fraction is taken with all its digits. -/
theorem takeFraction_render {nano : Nat} (h : nano < 1000000000) :
    takeFraction (renderFraction nano ++ ['Z']) = some (nano, ['Z']) := by
  have htake {w n : Nat} (hw : w ≤ 9) (h0 : w ≠ 0) (hn : n < 10 ^ w) :
      takeFraction ('.' :: padded w n ++ ['Z']) = some (n * 10 ^ (9 - w), ['Z']) := by
    rw [List.cons_append, takeFraction,
      takeNumber_padded hw hn (.inr fun c hc => by cases hc; rfl)]
    simp only [h0, if_false]
    rfl
  unfold renderFraction
  split
  · subst_vars
    rfl
  split
  · rw [htake (by decide) (by decide) (by omega)]
    exact congrArg (fun n => some (n, ['Z'])) (by omega)
  split
  · rw [htake (by decide) (by decide) (by omega)]
    exact congrArg (fun n => some (n, ['Z'])) (by omega)
  · rw [htake (by decide) (by decide) (by omega)]
    exact congrArg (fun n => some (n, ['Z'])) (by omega)

/-! ## The whole text -/

/-- A moment of the calendar in the years that there are. -/
structure WellFormed (t : Timestamp) : Prop where
  date : t.date.isValid = true
  inRange : t.inRange = true
  minute : t.minute < 1440
  second : t.second ≤ 60
  nano : t.nano < 1000000000

theorem shift_zero {t : Timestamp} (h : t.minute < 1440) : t.shift 0 = t := by
  have hlow : ¬ (t.minute : Int) < 0 := by omega
  have hhigh : ¬ (1440 : Int) ≤ t.minute := by omega
  simp only [shift, Int.sub_zero, if_neg hlow, if_neg hhigh, Int.toNat_natCast]

theorem daysInMonth_le (year : Int) (month : Nat) : Date.daysInMonth year month ≤ 31 := by
  unfold Date.daysInMonth
  split
  · split <;> decide
  · split <;> decide

/-- **A timestamp is read back from its text.** -/
theorem parse?_render {t : Timestamp} (h : t.WellFormed) : parse? t.render = some t := by
  have hdate := h.date
  simp only [Date.isValid, Bool.and_eq_true, decide_eq_true_eq] at hdate
  have hday : t.date.day < 100 :=
    Nat.lt_of_le_of_lt hdate.2 (Nat.lt_of_le_of_lt (daysInMonth_le _ _) (by decide))
  have hmonth : t.date.month < 100 := by omega
  have hminute := h.minute
  have hsecond := h.second
  have htwo {n : Nat} (hn : n < 100) (rest : List Char) :
      takeField 2 (padded 2 n ++ rest) = some (n, rest) := takeField_padded (by decide) hn rest
  have hdash := @takeMark_cons '-' (by decide)
  have hcolon := @takeMark_cons ':' (by decide)
  have htime : t.minute / 60 * 60 + t.minute % 60 = t.minute := by omega
  have hguard : (t.date.isValid && decide (t.minute / 60 < 24) && decide (t.minute % 60 < 60) &&
      decide (t.second ≤ 60) && decide ((0 : Int).natAbs < 1440) && t.inRange &&
      (t.shift 0).inRange && ([] : List Char).all isBlank) = true := by
    rw [shift_zero hminute, h.date, h.inRange, decide_eq_true (by omega : t.minute / 60 < 24),
      decide_eq_true (by omega : t.minute % 60 < 60), decide_eq_true hsecond]
    rfl
  have hbind {α β : Type} (a : α) (f : α → Option β) : (some a >>= f) = f a := rfl
  have hoffset : takeOffset (trimLeft ['Z']) = some (0, []) := by decide
  rw [parse?, render, String.toList_ofList]
  simp only [List.append_assoc, List.cons_append]
  rw [takeYear_render, hbind, hdash, hbind, htwo hmonth, hbind, hdash, hbind, htwo hday, hbind]
  -- the mark between date and time
  dsimp only
  rw [if_pos (.inl rfl), hbind, htwo (by omega : t.minute / 60 < 100), hbind, hcolon, hbind,
    htwo (by omega : t.minute % 60 < 100), hbind, hcolon, hbind, htwo (by omega : t.second < 100),
    hbind, takeFraction_render h.nano, hbind, hoffset, hbind]
  dsimp only
  rw [htime]
  exact (if_pos hguard).trans (congrArg some (shift_zero hminute))

end Timestamp

end LaneQueue
