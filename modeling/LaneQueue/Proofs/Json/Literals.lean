import LaneQueue.Json.Token
import LaneQueue.Json.Write
import LaneQueue.Proofs.Text.Utf8
/-!
# String literals

A written literal is read back as its text, whatever characters the text has. Character by character,
the escaped form is taken as pieces (`Token.takeText_escapeChar`), and the pieces stand for the bytes
of the character (`Piece.bytes?_ofChar`).
-/
namespace LaneQueue.Json

/-- The bytes of some characters. -/
abbrev utf8 (cs : List Char) : List UInt8 := cs.flatMap String.utf8EncodeChar

/-- The bytes of a string literal from behind its first quote. -/
def literal (s : String) : List UInt8 := utf8 (s.toList.flatMap escapeChar) ++ [0x22]

theorem ofText_quote (s : String) : Bytes.ofText (quote s) = 0x22 :: literal s := by
  rw [quote, Bytes.ofText_ofList, literal]
  simp only [List.cons_append, List.flatMap_cons, List.flatMap_append]
  rfl

/-- The pieces that stand for a character: a control character without a short escape is written by
its number, every other character by its bytes. -/
def Piece.ofChar (c : Char) : List Piece :=
  if c.toNat < 32 ∧ c.toNat ∉ [8, 9, 10, 12, 13] then [.unit c.toNat]
  else (String.utf8EncodeChar c).map .byte

namespace Token

/-- A byte that is not escaped. -/
def isPlain (b : UInt8) : Prop := 0x20 ≤ b.toNat ∧ b ≠ 0x22 ∧ b ≠ 0x5C

theorem takeText_plain {b : UInt8} (h : isPlain b) (rest : List UInt8) :
    takeText (b :: rest) = (takeText rest).map fun (ps, r) => (.byte b :: ps, r) := by
  obtain ⟨hb, hq, hs⟩ := h
  have hlt : ¬ (b = 0x5C ∨ b < 0x20) := by
    rw [UInt8.lt_iff_toNat_lt]
    exact not_or.2 ⟨hs, Nat.not_lt.2 hb⟩
  rw [takeText.eq_def]
  split
  · rename_i he; cases he
  · rename_i he; exact absurd (List.cons.inj he).1 hq
  · rename_i he; exact absurd (List.cons.inj he).1 hs
  · rename_i he; exact absurd (List.cons.inj he).1 hs
  · rename_i he
    obtain ⟨rfl, rfl⟩ := List.cons.inj he
    rw [if_neg hlt]

theorem takeText_plains {bs : List UInt8} (h : ∀ b ∈ bs, isPlain b) (rest : List UInt8) :
    takeText (bs ++ rest) = (takeText rest).map fun (ps, r) => (bs.map .byte ++ ps, r) := by
  induction bs with
  | nil => simp
  | cons b bs ih =>
    rw [List.cons_append, takeText_plain (h b List.mem_cons_self),
      ih fun x hx => h x (List.mem_cons_of_mem _ hx), Option.map_map]
    rfl

theorem hexDigit?_hexDigit {d : Nat} (h : d < 16) :
    ∃ b, String.utf8EncodeChar (hexDigit d) = [b] ∧ hexDigit? b = some d := by
  have hall : ∀ d : Fin 16,
      String.utf8EncodeChar (hexDigit d.1) = [UInt8.ofNat (hexDigit d.1).toNat] ∧
        hexDigit? (UInt8.ofNat (hexDigit d.1).toNat) = some d.1 := by decide
  exact ⟨_, hall ⟨d, h⟩⟩

/-- A control character by its number. -/
theorem takeText_control {n : Nat} (h : n < 32) (rest : List UInt8) :
    takeText (utf8 ['\\', 'u', '0', '0', hexDigit (n / 16), hexDigit (n % 16)] ++ rest) =
      (takeText rest).map fun (ps, r) => (.unit n :: ps, r) := by
  obtain ⟨x, hx, hx'⟩ := hexDigit?_hexDigit (d := n / 16) (by omega)
  obtain ⟨y, hy, hy'⟩ := hexDigit?_hexDigit (d := n % 16) (by omega)
  have hbytes : utf8 ['\\', 'u', '0', '0', hexDigit (n / 16), hexDigit (n % 16)] =
      [0x5C, 0x75, 0x30, 0x30, x, y] := by
    simp only [List.flatMap_cons, List.flatMap_nil, hx, hy]
    rfl
  have hzero : hexDigit? 0x30 = some 0 := rfl
  have hn : ((0 * 16 + 0) * 16 + n / 16) * 16 + n % 16 = n := by omega
  simp only [hbytes, List.cons_append, List.nil_append, takeText, hzero, hx', hy', hn]

/-- A character that is not escaped is taken byte by byte. -/
theorem isPlain_of_mem_utf8 {c : Char} (h : 32 ≤ c.toNat) (hq : c ≠ '"') (hs : c ≠ '\\')
    {b : UInt8} (hb : b ∈ String.utf8EncodeChar c) : isPlain b := by
  have hne (n : Nat) (hn : n < 128) (d : Char) (hd : d.toNat = n) (hc : c ≠ d) (hlt : c.toNat < 128) :
      UInt8.ofNat c.toNat ≠ UInt8.ofNat n := by
    intro he
    have he := congrArg UInt8.toNat he
    simp only [UInt8.toNat_ofNat'] at he
    exact hc (Char.toNat_inj.1 (by omega))
  by_cases hlt : c.toNat < 128
  · rw [utf8EncodeChar_of_lt hlt] at hb
    obtain rfl := List.mem_singleton.1 hb
    refine ⟨?_, hne 0x22 (by decide) '"' rfl hq hlt, hne 0x5C (by decide) '\\' rfl hs hlt⟩
    simp only [UInt8.toNat_ofNat']
    omega
  · have hle := le_of_mem_utf8EncodeChar (Nat.not_lt.1 hlt) hb
    refine ⟨by omega, ?_, ?_⟩ <;>
    · rintro rfl
      exact absurd hle (by decide)

/-- **One character** of a literal is taken as its pieces. -/
theorem takeText_escapeChar (c : Char) (rest : List UInt8) :
    takeText (utf8 (escapeChar c) ++ rest) =
      (takeText rest).map fun (ps, r) => (Piece.ofChar c ++ ps, r) := by
  have hcode {n : Nat} {d : Char} (hd : d.toNat = n) (hc : c.toNat = n) : c = d :=
    Char.toNat_inj.1 (hc.trans hd.symm)
  unfold escapeChar
  split
  · subst_vars; rfl
  split
  · subst_vars; rfl
  split
  · subst_vars; rfl
  split
  · subst_vars; rfl
  split
  · subst_vars; rfl
  split
  · rename_i hc
    obtain rfl := hcode (d := '\x08') rfl hc
    rfl
  split
  · rename_i hc
    obtain rfl := hcode (d := '\x0c') rfl hc
    rfl
  split
  · rename_i hn hr ht hb hf hlt
    have hpieces : Piece.ofChar c = [.unit c.toNat] := by
      refine if_pos ⟨hlt, ?_⟩
      simp only [List.mem_cons, List.not_mem_nil, or_false, not_or]
      exact ⟨hb, fun h => ht (hcode rfl h), fun h => hn (hcode rfl h), hf, fun h => hr (hcode rfl h)⟩
    rw [takeText_control hlt, hpieces]
    rfl
  · rename_i hq hs _ _ _ _ _ hle
    have hpieces : Piece.ofChar c = (String.utf8EncodeChar c).map .byte := if_neg fun h => hle h.1
    rw [hpieces, utf8, List.flatMap_singleton]
    exact takeText_plains (fun b hb => isPlain_of_mem_utf8 (Nat.not_lt.1 hle) hq hs hb) rest

/-- **A literal** is taken as the pieces of its characters. -/
theorem takeText_literal (s : String) (rest : List UInt8) :
    takeText (literal s ++ rest) = some (s.toList.flatMap Piece.ofChar, rest) := by
  have hchars (cs : List Char) : takeText (utf8 (cs.flatMap escapeChar) ++ 0x22 :: rest) =
      some (cs.flatMap Piece.ofChar, rest) := by
    induction cs with
    | nil => rfl
    | cons c cs ih =>
      rw [List.flatMap_cons, utf8, List.flatMap_append, List.append_assoc, takeText_escapeChar, ih]
      rfl
  rw [literal, List.append_assoc]
  exact hchars s.toList

end Token

/-! ## What the pieces stand for -/

namespace Piece

theorem bytes?_byte (bs : List UInt8) (ps : List Piece) :
    bytes? (bs.map .byte ++ ps) = (bytes? ps).map (bs ++ ·) := by
  induction bs with
  | nil => simp
  | cons b bs ih =>
    rw [List.map_cons, List.cons_append, bytes?, ih, Option.map_map]
    rfl

theorem bytes?_unit {n : Nat} (h : n < 32) (ps : List Piece) :
    bytes? (.unit n :: ps) = (bytes? ps).map (encodePoint n ++ ·) := by
  have hlow : ¬ (0xD800 ≤ n ∧ n ≤ 0xDFFF) := by omega
  have hhigh : ¬ (0xD800 ≤ n ∧ n ≤ 0xDBFF) := by omega
  have hlate : ¬ (0xDC00 ≤ n ∧ n ≤ 0xDFFF) := by omega
  cases ps with
  | nil => simp only [bytes?, if_neg hlow]
  | cons p ps =>
    cases p with
    | byte b => simp only [bytes?, if_neg hlow]
    | unit m => simp only [bytes?, if_neg hhigh, if_neg hlate]

theorem encodePoint_toNat (c : Char) : encodePoint c.toNat = String.utf8EncodeChar c := by
  have hc : Char.ofNat c.toNat = c := Char.ofNat_toNat c
  have h := Bytes.ofText_eq_flatMap (String.singleton c)
  rw [String.toList_singleton, List.flatMap_singleton] at h
  rw [encodePoint, hc, ← h]
  rfl

/-- The pieces of a character stand for its bytes. -/
theorem bytes?_ofChar (c : Char) (ps : List Piece) :
    bytes? (ofChar c ++ ps) = (bytes? ps).map (String.utf8EncodeChar c ++ ·) := by
  unfold ofChar
  split
  · rename_i h
    rw [List.singleton_append, bytes?_unit h.1, encodePoint_toNat]
  · exact bytes?_byte _ _

/-- **The pieces of a text** make that text. -/
theorem text?_flatMap_ofChar (s : String) : text? (s.toList.flatMap ofChar) = some s := by
  have hbytes (cs : List Char) : bytes? (cs.flatMap ofChar) = some (utf8 cs) := by
    induction cs with
    | nil => rfl
    | cons c cs ih =>
      rw [List.flatMap_cons, bytes?_ofChar, ih]
      rfl
  rw [text?, hbytes, Option.bind_some, utf8, ← Bytes.ofText_eq_flatMap]
  exact Bytes.text?_ofText s

end Piece

/-- A literal is one word, and its text is the one that was written. -/
theorem Token.takeWord_literal (s : String) (rest : List UInt8) :
    takeWord (0x22 :: literal s ++ rest) = some (.text (some s), rest) := by
  rw [List.cons_append, takeWord, takeText_literal]
  simp only [Option.map_some, Piece.text?_flatMap_ofChar]

end LaneQueue.Json
