import LaneQueue.Json.Read
import LaneQueue.Proofs.Json.Integers
/-!
# Written values are read back

The text of a value is cut into the tokens of the value (`Value.scan_bytes`), and these build its tree
(`Value.parse_bytes`). Single-precision numbers are left out: their text has fewer digits than their
value.
-/
namespace LaneQueue.Json

namespace Value

/-- No single-precision number occurs in the value. -/
def isExact : Value → Bool
  | .single _ => false
  | .array items => exactItems items
  | .object members => exactMembers members
  | _ => true
where
  exactItems : List Value → Bool
    | [] => true
    | v :: vs => isExact v && exactItems vs
  exactMembers : List (String × Value) → Bool
    | [] => true
    | (_, v) :: ms => isExact v && exactMembers ms

/-- The tokens of an exact value. -/
def tokens : Value → List Token
  | .null => [.null]
  | .bool b => [.bool b]
  | .int i => [.number (.ofInt i)]
  | .single _ => []
  | .text s => [.text (some s)]
  | .array items => .beginArray :: (tokensOfItems items ++ [.endArray])
  | .object members => .beginObject :: (tokensOfMembers members ++ [.endObject])
where
  tokensOfItems : List Value → List Token
    | [] => []
    | [v] => tokens v
    | v :: w :: vs => tokens v ++ .comma :: tokensOfItems (w :: vs)
  tokensOfMembers : List (String × Value) → List Token
    | [] => []
    | [(k, v)] => .text (some k) :: .colon :: tokens v
    | (k, v) :: m :: ms => .text (some k) :: .colon :: (tokens v ++ .comma :: tokensOfMembers (m :: ms))

/-- The tree of an exact value. -/
def tree : Value → Tree
  | .null => .null
  | .bool b => .bool b
  | .int i => .number (.ofInt i)
  | .single _ => .broken
  | .text s => .text (some s)
  | .array items => .array (treesOfItems items)
  | .object members => .object (treesOfMembers members)
where
  treesOfItems : List Value → List Tree
    | [] => []
    | v :: vs => tree v :: treesOfItems vs
  treesOfMembers : List (String × Value) → List (Option String × Tree)
    | [] => []
    | (k, v) :: ms => (some k, tree v) :: treesOfMembers ms

end Value

/-! ## From bytes to tokens -/

/-- The bytes are cut into the tokens, whatever follows that cannot go on with a number. -/
structure Lexes (bs : List UInt8) (ts : List Token) : Prop where
  /-- Every token has a byte. -/
  length_le : ts.length ≤ bs.length
  scan : ∀ fuel rest, Token.Ends rest →
    Token.scanUpTo (ts.length + fuel) (bs ++ rest) = ts ++ Token.scanUpTo fuel rest

namespace Lexes

variable {b : UInt8} {bs bs' : List UInt8} {t : Token} {ts ts' : List Token}

theorem nil : Lexes [] [] := ⟨Nat.le_refl _, fun fuel rest _ => by simp⟩

theorem append (h : Lexes bs ts) (hends : Token.Ends bs') (h' : Lexes bs' ts') :
    Lexes (bs ++ bs') (ts ++ ts') where
  length_le := by
    have := h.length_le
    have := h'.length_le
    simp only [List.length_append]
    omega
  scan fuel rest hrest := by
    rw [List.length_append, Nat.add_assoc, List.append_assoc, h.scan _ _ (hends.append hrest),
      h'.scan _ _ hrest, List.append_assoc]

theorem scanUpTo_cons (hb : Token.isSpace b = false) {rest : List UInt8} {r : List UInt8}
    (h : Token.takeWord (b :: r) = some (t, rest)) (fuel : Nat) :
    Token.scanUpTo (fuel + 1) (b :: r) = t :: Token.scanUpTo fuel rest := by
  have hdrop : (b :: r).dropWhile Token.isSpace = b :: r := by
    rw [List.dropWhile_cons_of_neg (by simp [hb])]
  simp only [Token.scanUpTo, hdrop, h]

/-- One word that ends where nothing follows that goes on with a number. -/
theorem word (hb : Token.isSpace b = false)
    (h : ∀ rest, Token.Ends rest → Token.takeWord (b :: bs ++ rest) = some (t, rest)) :
    Lexes (b :: bs) [t] where
  length_le := by simp
  scan fuel rest hrest := by
    rw [List.length_singleton, Nat.add_comm]
    exact scanUpTo_cons hb (h rest hrest) fuel

/-- A token of one byte, whatever follows. -/
theorem mark (hb : Token.isSpace b = false)
    (h : ∀ rest, Token.takeWord (b :: rest) = some (t, rest)) (h' : Lexes bs ts) :
    Lexes (b :: bs) (t :: ts) where
  length_le := Nat.succ_le_succ h'.length_le
  scan fuel rest hrest := by
    rw [List.length_cons, Nat.add_right_comm]
    exact (scanUpTo_cons hb (h (bs ++ rest)) _).trans (congrArg (t :: ·) (h'.scan fuel rest hrest))

/-- A string literal. -/
theorem text (s : String) : Lexes (Bytes.ofText (quote s)) [.text (some s)] := by
  rw [ofText_quote]
  exact word rfl fun rest _ => Token.takeWord_literal s rest

theorem int (i : Int) : Lexes (Bytes.ofText (toString i)) [.number (.ofInt i)] := by
  rw [Token.ofText_toString]
  have hword := fun rest => @Token.takeWord_int i rest
  obtain ⟨b, bs, hb, hspace⟩ := Token.intBytes_eq_cons i
  rw [hb] at hword ⊢
  exact word hspace hword

end Lexes

namespace Value

theorem ofText_comma : Bytes.ofText "," = [0x2C] :=
  (Bytes.ofText_eq_flatMap _).trans (by decide)

theorem ofText_intercalate_nil : Bytes.ofText (",".intercalate []) = [] := by
  rw [String.intercalate_nil, Bytes.ofText_eq_flatMap]
  rfl

/-- The items of an array and the members of an object stand apart by commas. -/
theorem ofText_intercalate (s t : String) (ss : List String) :
    Bytes.ofText (",".intercalate (s :: t :: ss)) =
      Bytes.ofText s ++ 0x2C :: Bytes.ofText (",".intercalate (t :: ss)) := by
  rw [String.intercalate_cons_cons, Bytes.ofText_append, Bytes.ofText_append, ofText_comma,
    List.append_assoc, List.singleton_append]

theorem bytes_array (items : List Value) :
    (array items).bytes = 0x5B :: (Bytes.ofText (",".intercalate (render.renderItems items)) ++ [0x5D]) := by
  have hopen : Bytes.ofText "[" = [0x5B] :=
    (Bytes.ofText_eq_flatMap _).trans (by decide)
  have hclose : Bytes.ofText "]" = [0x5D] :=
    (Bytes.ofText_eq_flatMap _).trans (by decide)
  rw [bytes, render]
  change Bytes.ofText _ = _
  rw [Bytes.ofText_append, Bytes.ofText_append, hopen, hclose, List.append_assoc,
    List.singleton_append]

theorem bytes_object (members : List (String × Value)) :
    (object members).bytes =
      0x7B :: (Bytes.ofText (",".intercalate (render.renderMembers members)) ++ [0x7D]) := by
  have hopen : Bytes.ofText "\x7b" = [0x7B] :=
    (Bytes.ofText_eq_flatMap _).trans (by decide)
  have hclose : Bytes.ofText "\x7d" = [0x7D] :=
    (Bytes.ofText_eq_flatMap _).trans (by decide)
  rw [bytes, render]
  change Bytes.ofText _ = _
  rw [Bytes.ofText_append, Bytes.ofText_append, hopen, hclose, List.append_assoc,
    List.singleton_append]

/-- A member is its key, a colon and its value. -/
theorem lexes_member (k : String) {v : Value} (h : Lexes v.bytes v.tokens) :
    Lexes (Bytes.ofText (quote k ++ ":" ++ v.render)) (.text (some k) :: .colon :: v.tokens) := by
  have hcolon : Bytes.ofText ":" = [0x3A] :=
    (Bytes.ofText_eq_flatMap _).trans (by decide)
  rw [Bytes.ofText_append, Bytes.ofText_append, hcolon, List.append_assoc, List.singleton_append]
  refine (Lexes.text k).append ?_ (.mark rfl (fun _ => rfl) h)
  simp [Token.Ends, Token.digit?]

/-- A word of letters. -/
theorem lexes_letters {s : String} {t : Token} (b : UInt8) (bs : List UInt8)
    (hs : s.toList.flatMap String.utf8EncodeChar = b :: bs) (hb : Token.isSpace b = false)
    (h : ∀ rest, Token.takeWord (b :: bs ++ rest) = some (t, rest)) : Lexes (Bytes.ofText s) [t] := by
  rw [Bytes.ofText_eq_flatMap, hs]
  exact .word hb fun rest _ => h rest

mutual

/-- The text of a value is cut into its tokens. -/
theorem lexes_bytes : ∀ v : Value, v.isExact = true → Lexes v.bytes v.tokens
  | .null, _ => lexes_letters 0x6E [0x75, 0x6C, 0x6C] (by decide) rfl fun _ => rfl
  | .bool true, _ => lexes_letters 0x74 [0x72, 0x75, 0x65] (by decide) rfl fun _ => rfl
  | .bool false, _ => lexes_letters 0x66 [0x61, 0x6C, 0x73, 0x65] (by decide) rfl fun _ => rfl
  | .int i, _ => .int i
  | .text s, _ => .text s
  | .array items, h => by
    rw [bytes_array, tokens]
    refine .mark rfl (fun _ => rfl) ((lexes_items items h).append ?_ (.mark rfl (fun _ => rfl) .nil))
    simp [Token.Ends, Token.digit?]
  | .object members, h => by
    rw [bytes_object, tokens]
    refine .mark rfl (fun _ => rfl)
      ((lexes_members members h).append ?_ (.mark rfl (fun _ => rfl) .nil))
    simp [Token.Ends, Token.digit?]

theorem lexes_items : ∀ items : List Value, isExact.exactItems items = true →
    Lexes (Bytes.ofText (",".intercalate (render.renderItems items))) (tokens.tokensOfItems items)
  | [], _ => by
    rw [render.renderItems, ofText_intercalate_nil]
    exact .nil
  | [v], h => by
    rw [render.renderItems, render.renderItems, String.intercalate_singleton, tokens.tokensOfItems]
    exact lexes_bytes v (Bool.and_eq_true_iff.1 h).1
  | v :: w :: vs, h => by
    have h := Bool.and_eq_true_iff.1 h
    rw [render.renderItems, render.renderItems, ofText_intercalate, tokens.tokensOfItems]
    refine (lexes_bytes v h.1).append ?_ (.mark rfl (fun _ => rfl) (lexes_items (w :: vs) h.2))
    simp [Token.Ends, Token.digit?]

theorem lexes_members : ∀ members : List (String × Value), isExact.exactMembers members = true →
    Lexes (Bytes.ofText (",".intercalate (render.renderMembers members)))
      (tokens.tokensOfMembers members)
  | [], _ => by
    rw [render.renderMembers, ofText_intercalate_nil]
    exact .nil
  | [(k, v)], h => by
    rw [render.renderMembers, render.renderMembers, String.intercalate_singleton,
      tokens.tokensOfMembers]
    exact lexes_member k (lexes_bytes v (Bool.and_eq_true_iff.1 h).1)
  | (k, v) :: m :: ms, h => by
    have h := Bool.and_eq_true_iff.1 h
    rw [render.renderMembers, render.renderMembers, ofText_intercalate, tokens.tokensOfMembers]
    refine (lexes_member k (lexes_bytes v h.1)).append ?_
      (.mark rfl (fun _ => rfl) (lexes_members (m :: ms) h.2))
    simp [Token.Ends, Token.digit?]

end

/-- **The tokens of a written value.** -/
theorem scan_bytes {v : Value} (h : v.isExact = true) : Token.scan v.bytes = v.tokens := by
  have hlex := lexes_bytes v h
  obtain ⟨k, hk⟩ := Nat.exists_eq_add_of_le hlex.length_le
  have hscan := hlex.scan k [] Token.ends_nil
  have hend : Token.scanUpTo k [] = [] := by cases k <;> rfl
  rwa [List.append_nil, hend, List.append_nil, ← hk] at hscan

/-! ## From tokens to trees -/

open LaneQueue.Json.Tree (step beginValue supply)

/-- Tokens that make one value: they begin with no end of an array and build the tree. -/
def Builds (ts : List Token) (t : Tree) : Prop :=
  ∃ tok rest, ts = tok :: rest ∧ tok ≠ .endArray ∧
    ∀ up, rest.foldl step (beginValue up tok) = supply t up

/-- The state is where a value may begin. -/
def Awaits (s : Tree.Status) (up : List Tree.Frame) : Prop :=
  ∀ {ts t}, Builds ts t → ts.foldl step s = supply t up

theorem awaits_value (up : List Tree.Frame) : Awaits (.reading up .value) up := by
  rintro _ t ⟨tok, rest, rfl, -, hb⟩
  exact hb up

theorem awaits_firstItem (up : List Tree.Frame) : Awaits (.reading up .firstItem) up := by
  rintro _ t ⟨tok, rest, rfl, hne, hb⟩
  rw [List.foldl_cons, ← hb up]
  refine congrArg (fun s => rest.foldl step s) ?_
  cases tok with
  | endArray => exact absurd rfl hne
  | _ => obtain _ | ⟨_ | _, _⟩ := up <;> rfl

mutual

/-- The tokens of a value build its tree. -/
theorem builds_tree : ∀ v : Value, v.isExact = true → Builds v.tokens v.tree
  | .null, _ | .bool _, _ | .int _, _ | .text _, _ | .array [], _ | .object [], _ =>
    ⟨_, _, rfl, nofun, fun _ => rfl⟩
  | .array (v :: vs), h =>
    ⟨_, _, rfl, nofun, fun up => foldl_items (v :: vs) nofun h [] up _ (awaits_firstItem _)⟩
  | .object (m :: ms), h =>
    ⟨_, _, rfl, nofun, fun up =>
      foldl_members (m :: ms) nofun h [] up (.reading (.members [] none :: up) .firstKey)
        fun _ => rfl⟩

/-- The items of an array, from where its first one begins. -/
theorem foldl_items : ∀ items : List Value, items ≠ [] → isExact.exactItems items = true →
    ∀ (done : List Tree) (up : List Tree.Frame) (s : Tree.Status), Awaits s (.items done :: up) →
      (tokens.tokensOfItems items ++ [Token.endArray]).foldl step s =
        supply (.array (done.reverse ++ tree.treesOfItems items)) up
  | [v], _, h, done, up, s, hs => by
    rw [tokens.tokensOfItems, List.foldl_append, hs (builds_tree v (Bool.and_eq_true_iff.1 h).1)]
    simp [supply, step, tree.treesOfItems]
  | v :: w :: vs, _, h, done, up, s, hs => by
    have h := Bool.and_eq_true_iff.1 h
    have hitems := foldl_items (w :: vs) nofun h.2 (v.tree :: done) up _ (awaits_value _)
    rw [tokens.tokensOfItems, List.append_assoc, List.foldl_append, hs (builds_tree v h.1)]
    refine hitems.trans ?_
    simp [tree.treesOfItems]

/-- The members of an object, from where its first key begins. -/
theorem foldl_members : ∀ members : List (String × Value), members ≠ [] →
    isExact.exactMembers members = true →
    ∀ (done : List (Option String × Tree)) (up : List Tree.Frame) (s : Tree.Status),
      (∀ k, step s (.text (some k)) = .reading (.members done (some k) :: up) .colon) →
      (tokens.tokensOfMembers members ++ [Token.endObject]).foldl step s =
        supply (.object (done.reverse ++ tree.treesOfMembers members)) up
  | [(k, v)], _, h, done, up, s, hs => by
    have hv := awaits_value (.members done (some k) :: up)
      (builds_tree v (Bool.and_eq_true_iff.1 h).1)
    rw [tokens.tokensOfMembers, List.cons_append, List.foldl_cons, hs, List.cons_append,
      List.foldl_cons, List.foldl_append]
    change List.foldl step (v.tokens.foldl step (Tree.Status.reading _ .value)) _ = _
    rw [hv]
    simp [supply, step, tree.treesOfMembers]
  | (k, v) :: m :: ms, _, h, done, up, s, hs => by
    have h := Bool.and_eq_true_iff.1 h
    have hv := awaits_value (.members done (some k) :: up) (builds_tree v h.1)
    have hmembers := foldl_members (m :: ms) nofun h.2 ((some k, v.tree) :: done) up
      (.reading (.members _ none :: up) .key) fun _ => rfl
    rw [tokens.tokensOfMembers, List.cons_append, List.foldl_cons, hs, List.cons_append,
      List.foldl_cons, List.append_assoc, List.foldl_append]
    change List.foldl step (v.tokens.foldl step (Tree.Status.reading _ .value)) _ = _
    rw [hv]
    refine hmembers.trans ?_
    simp [tree.treesOfMembers]

end

/-- **A written value is read back as its tree**, with nothing behind it. -/
theorem parse_bytes {v : Value} (h : v.isExact = true) : Tree.parse v.bytes = ⟨v.tree, false⟩ := by
  rw [Tree.parse, Tree.ofTokens, scan_bytes h, awaits_value _ (builds_tree v h)]
  rfl

/-- A reader that takes the tree of a value takes its text. -/
theorem read_bytes {α : Type} {r : Reader α} {v : Value} {a : α} (h : v.isExact = true)
    (hr : r v.tree = .ok a) : read r v.bytes = .ok a := by
  simp only [read, parse_bytes h, hr]
  rfl

end Value

/-- What is read of a text is what the reader takes of its tree. -/
theorem reader_of_read {α : Type} {r : Reader α} {bytes : List UInt8} {a : α}
    (h : read r bytes = .ok a) : r (Tree.parse bytes).root = .ok a := by
  simp only [read, bind, Except.bind] at h
  split at h
  · cases h
  · rename_i b hb
    split at h
    · cases h
    · obtain rfl := Except.ok.inj h
      exact hb

end LaneQueue.Json
