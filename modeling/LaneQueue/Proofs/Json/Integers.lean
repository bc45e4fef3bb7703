import LaneQueue.Proofs.Json.Literals
/-!
# Integers

A written integer is one word, and its numeral has the integer that was written. Its digits end where
a byte follows that cannot go on with a number (`Token.Ends`).
-/
namespace LaneQueue.Json

namespace Numeral

/-- The decimal digits of a number, without leading zeros. -/
def digits (n : Nat) : List Nat := (Nat.toDigits 10 n).map fun c => c.toNat - 48

/-- The numeral of an integer. -/
def ofInt (i : Int) : Numeral := ⟨decide (i < 0), digits i.natAbs, [], none⟩

theorem ofDigits_digits (n : Nat) : ofDigits (digits n) = n := by
  have h := @Nat.ofDigitChars_ten_toDigits n
  rw [Nat.ofDigitChars_eq_foldl] at h
  rw [ofDigits, digits, List.foldl_map]
  simp only [Nat.mul_comm 10] at h
  exact h

theorem digits_ne_nil (n : Nat) : digits n ≠ [] := by
  simp [digits, Nat.toDigits_ne_nil]

/-- Only zero begins with a zero. -/
theorem head_digits {n : Nat} (h : n ≠ 0) : (digits n).head? ≠ some 0 := by
  induction n using Nat.strongRecOn with
  | ind n ih =>
    rw [digits, Nat.toDigits_eq_if (by omega)]
    split
    · rename_i hlt
      have hdigit : ∀ d : Fin 10, d.1 ≠ 0 → (Nat.digitChar d.1).toNat - 48 ≠ 0 := by decide
      simpa using hdigit ⟨n, hlt⟩ h
    · have hdiv : n / 10 ≠ 0 := by omega
      have hih := ih (n / 10) (by omega) hdiv
      have hne := digits_ne_nil (n / 10)
      rw [digits] at hih hne
      obtain ⟨d, ds, hd⟩ := List.exists_cons_of_ne_nil hne
      rw [List.map_append, hd]
      rw [hd] at hih
      exact hih

/-- **The numeral of an integer** is read as that integer. -/
theorem toInt?_ofInt (i : Int) : (ofInt i).toInt? = some i := by
  unfold toInt?
  simp only [ofInt, isWhole, ofDigits_digits, List.isEmpty_nil, Option.isNone_none, Bool.and_self,
    Bool.not_true, Bool.false_eq_true, if_false, decide_eq_true_eq]
  split
  · rw [if_neg (by omega)]
    exact congrArg some (by omega)
  · exact congrArg some (by omega)

end Numeral

namespace Token

/-- Nothing follows that could go on with a number. -/
def Ends (rest : List UInt8) : Prop :=
  ∀ b ∈ rest.head?, digit? b = none ∧ b ≠ 0x2E ∧ b ≠ 0x65 ∧ b ≠ 0x45

theorem ends_nil : Ends [] := nofun

theorem Ends.append {bs rest : List UInt8} (hb : Ends bs) (h : Ends rest) : Ends (bs ++ rest) := by
  cases bs with
  | nil => exact h
  | cons b bs => exact hb

/-- A digit is one byte. -/
theorem digit?_of_isDigit {c : Char} (h : c.isDigit = true) :
    ∃ b, String.utf8EncodeChar c = [b] ∧ digit? b = some (c.toNat - 48) := by
  obtain ⟨hge, hle⟩ : 48 ≤ c.toNat ∧ c.toNat ≤ 57 := by
    simpa [Char.isDigit, UInt32.le_iff_toNat_le] using h
  have hbyte : (UInt8.ofNat c.toNat).toNat = c.toNat := by
    simp only [UInt8.toNat_ofNat']
    omega
  refine ⟨_, utf8EncodeChar_of_lt (by omega), ?_⟩
  rw [digit?, if_pos, hbyte]
  simp only [UInt8.le_iff_toNat_le, hbyte]
  exact ⟨hge, hle⟩

theorem takeDigits_of_ends {rest : List UInt8} (h : Ends rest) : takeDigits rest = ([], rest) := by
  cases rest with
  | nil => rfl
  | cons b rest => rw [takeDigits, (h b rfl).1]

theorem takeDigits_utf8 {cs : List Char} (hcs : ∀ c ∈ cs, c.isDigit = true) {rest : List UInt8}
    (h : Ends rest) : takeDigits (utf8 cs ++ rest) = (cs.map fun c => c.toNat - 48, rest) := by
  induction cs with
  | nil => exact takeDigits_of_ends h
  | cons c cs ih =>
    obtain ⟨b, hb, hd⟩ := digit?_of_isDigit (hcs c List.mem_cons_self)
    rw [utf8, List.flatMap_cons, hb, List.append_assoc, List.singleton_append, takeDigits, hd]
    simp only [ih fun x hx => hcs x (List.mem_cons_of_mem _ hx), List.map_cons]

theorem takeFraction_of_ends {rest : List UInt8} (h : Ends rest) :
    takeUnsigned.takeFraction rest = some ([], rest) := by
  rw [takeUnsigned.takeFraction.eq_def]
  split
  · exact absurd rfl (h _ rfl).2.1
  · rfl

theorem takeExponent_of_ends {rest : List UInt8} (h : Ends rest) :
    takeUnsigned.takeExponent rest = some (none, rest) := by
  cases rest with
  | nil => rfl
  | cons b rest =>
    simp only [takeUnsigned.takeExponent, (h b rfl).2.2, or_self, if_false]

/-- **A number without its sign** is taken with all its digits. -/
theorem takeUnsigned_toDigits (negative : Bool) (n : Nat) {rest : List UInt8} (h : Ends rest) :
    takeUnsigned negative (utf8 (Nat.toDigits 10 n) ++ rest) =
      some (⟨negative, Numeral.digits n, [], none⟩, rest) := by
  have hdigits : takeDigits (utf8 (Nat.toDigits 10 n) ++ rest) = (Numeral.digits n, rest) :=
    takeDigits_utf8 (fun _ hc => Nat.isDigit_of_mem_toDigits (by omega) (by omega) hc) h
  have hzero : ∀ d ds, Numeral.digits n ≠ 0 :: d :: ds := by
    intro d ds hd
    by_cases hn : n = 0
    · subst hn
      cases hd
    · exact Numeral.head_digits hn (by rw [hd]; rfl)
  rw [takeUnsigned, hdigits]
  split
  · rename_i heq
    exact absurd (congrArg Prod.fst heq) (Numeral.digits_ne_nil n)
  · rename_i heq
    exact absurd (congrArg Prod.fst heq) (hzero _ _)
  · rename_i heq
    obtain ⟨rfl, rfl⟩ := Prod.mk.inj heq
    simp only [takeFraction_of_ends h, takeExponent_of_ends h]

/-- A word that begins with a digit is a number. -/
theorem takeWord_digit {b : UInt8} (hb : (digit? b).isSome) (rest : List UInt8) :
    takeWord (b :: rest) = (takeUnsigned false (b :: rest)).map fun (n, r) => (.number n, r) := by
  have hne {x : UInt8} (hx : digit? x = none) : b ≠ x := by
    rintro rfl
    rw [hx] at hb
    cases hb
  rw [takeWord.eq_def]
  split <;> first | rfl | (rename_i he; exact absurd (List.cons.inj he).1 (hne rfl))

/-- The bytes of an integer. -/
def intBytes (i : Int) : List UInt8 :=
  if i < 0 then 0x2D :: utf8 (Nat.toDigits 10 i.natAbs) else utf8 (Nat.toDigits 10 i.natAbs)

theorem ofText_toString (i : Int) : Bytes.ofText (toString i) = intBytes i := by
  rw [Int.toString_eq_repr, Int.repr_eq_if, intBytes]
  split
  · rw [if_neg (by omega), show i.toNat = i.natAbs by omega, Nat.repr_eq_ofList_toDigits,
      Bytes.ofText_ofList, utf8]
  · have hminus : Bytes.ofText "-" = [0x2D] := by
      rw [Bytes.ofText_eq_flatMap]
      decide
    rw [if_pos (by omega), show (-i).toNat = i.natAbs by omega, Bytes.ofText_append, hminus,
      Nat.repr_eq_ofList_toDigits, Bytes.ofText_ofList, utf8, List.singleton_append]

/-- A number begins with a digit. -/
theorem utf8_toDigits_eq_cons (n : Nat) :
    ∃ b bs, utf8 (Nat.toDigits 10 n) = b :: bs ∧ (digit? b).isSome := by
  obtain ⟨c, cs, hc⟩ := List.exists_cons_of_ne_nil (Nat.toDigits_ne_nil (n := n) (b := 10))
  obtain ⟨b, hb, hd⟩ := digit?_of_isDigit
    (Nat.isDigit_of_mem_toDigits (by omega) (by omega) (hc ▸ List.mem_cons_self))
  refine ⟨b, utf8 cs, ?_, by rw [hd]; rfl⟩
  rw [hc, utf8, List.flatMap_cons, hb, List.singleton_append]

/-- **An integer** is one word. -/
theorem takeWord_int (i : Int) {rest : List UInt8} (h : Ends rest) :
    takeWord (intBytes i ++ rest) = some (.number (.ofInt i), rest) := by
  unfold intBytes
  split
  · rename_i hi
    rw [List.cons_append, takeWord, takeUnsigned_toDigits true _ h]
    simp only [Option.map_some, Numeral.ofInt, hi, decide_true]
  · rename_i hi
    obtain ⟨b, bs, hbs, hdigit⟩ := utf8_toDigits_eq_cons i.natAbs
    have htake := takeUnsigned_toDigits false i.natAbs h
    rw [hbs, List.cons_append] at htake
    rw [hbs, List.cons_append, takeWord_digit hdigit, htake]
    simp only [Option.map_some, Numeral.ofInt, hi, decide_false]

/-- An integer does not begin with a blank. -/
theorem intBytes_eq_cons (i : Int) : ∃ b bs, intBytes i = b :: bs ∧ isSpace b = false := by
  unfold intBytes
  split
  · exact ⟨_, _, rfl, rfl⟩
  · obtain ⟨b, bs, hbs, hdigit⟩ := utf8_toDigits_eq_cons i.natAbs
    refine ⟨b, bs, hbs, Bool.eq_false_iff.2 fun hspace => ?_⟩
    simp only [isSpace, Bool.or_eq_true, beq_iff_eq] at hspace
    rcases hspace with ((rfl | rfl) | rfl) | rfl <;> cases hdigit

end Token

end LaneQueue.Json
