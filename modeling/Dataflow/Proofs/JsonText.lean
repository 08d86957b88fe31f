import Dataflow.Proofs.Numerals
/-!
# Documents are read from their text

The text of a value is cut into the tokens of its tree, and these are put together to the tree again.
Main statement: the tree of the indented text of a value is the tree of the value (`ofText?_indented`).
A double that is not finite has the tree of `null`, as it is written so.

`Lexes` carries the first half: it is kept when tokens are put in front of what follows, so each part
of a text is looked at alone. The second half bounds the fuel of the readers by the number of tokens.
-/
set_option autoImplicit false

namespace Dataflow.Json

/-! ## Strings -/

/-- The piece that a character is written as. -/
def pieceOf (c : Char) : Piece :=
  match c with
  | '"' | '\\' | '\x08' | '\x0c' | '\n' | '\r' | '\t' => .char c
  | c => if c.toNat < 0x20 then .unit c.toNat else .char c

/-- The pieces of the literal that a string is written as. -/
def piecesOf (s : String) : List Piece :=
  s.toList.map pieceOf

theorem hexUnit?_control : ∀ n < 0x20,
    hexUnit? '0' '0' (hexChar (n / 16)) (hexChar (n % 16)) = some n := by
  decide

theorem pieceOf_of_ge {c : Char} (h : ¬ c.toNat < 0x20) : pieceOf c = .char c := by
  rw [pieceOf.eq_def]
  split <;> simp [h]

/-- A character is scanned as its piece. -/
theorem scanString_escapeChar (c : Char) (rest : List Char) :
    scanString (escapeChar c ++ rest) = (scanString rest).map fun r => (pieceOf c :: r.1, r.2) := by
  by_cases hcontrol : c.toNat < 0x20
  · rw [escapeChar.eq_def, pieceOf.eq_def]
    split <;> first
      | rfl
      | simp only [hcontrol, if_true, List.cons_append, List.nil_append, scanString,
          hexUnit?_control _ hcontrol]
  · rw [pieceOf_of_ge hcontrol, escapeChar.eq_def]
    split
    · rfl
    · rfl
    · rfl
    · rfl
    · rfl
    · rfl
    · rfl
    · next hquote hslash _ _ _ _ _ =>
      rw [if_neg hcontrol, List.singleton_append, scanString.eq_def]
      split
      · next heq => exact absurd heq (by simp)
      · next heq => exact absurd (List.cons.inj heq).1 hquote
      · next heq => exact absurd (List.cons.inj heq).1 hslash
      · next heq => exact absurd (List.cons.inj heq).1 hslash
      · next heq =>
        obtain ⟨rfl, rfl⟩ := List.cons.inj heq
        rw [if_neg (not_or.mpr ⟨hslash, hcontrol⟩)]

theorem scanString_escape (s : List Char) (rest : List Char) :
    scanString (s.flatMap escapeChar ++ '"' :: rest) = some (s.map pieceOf, rest) := by
  induction s with
  | nil => rfl
  | cons c s ih =>
    rw [List.flatMap_cons, List.append_assoc, scanString_escapeChar, ih]
    rfl

theorem readChars_pieceOf (s : List Char) : readChars (s.map pieceOf) = .ok s := by
  induction s with
  | nil => rfl
  | cons c s ih =>
    rw [List.map_cons]
    have hpiece : pieceOf c = .char c ∨ pieceOf c = .unit c.toNat ∧ c.toNat < 0x20 := by
      by_cases hcontrol : c.toNat < 0x20
      · rw [pieceOf.eq_def]
        split <;> simp [hcontrol]
      · exact .inl (pieceOf_of_ge hcontrol)
    rcases hpiece with hchar | ⟨hunit, hcontrol⟩
    · rw [hchar, readChars, ih]
      rfl
    · rw [hunit, readChars.eq_def]
      dsimp only
      rw [if_neg (by omega), if_pos (by omega), ih, Char.ofNat_toNat]
      rfl

/-- **A string is read as it was written.** -/
@[simp]
theorem readPieces_piecesOf (s : String) : readPieces (piecesOf s) = .ok s := by
  rw [readPieces, piecesOf, readChars_pieceOf]
  simp [Except.map]

/-! ## Trees and their tokens -/

mutual

/-- The tokens that spell a tree. -/
def Tree.tokens : Tree → List Token
  | .null => [.null]
  | .bool b => [.bool b]
  | .number n => [.number n]
  | .string pieces => [.string pieces]
  | .array [] => [.bracketOpen, .bracketClose]
  | .array (t :: rest) => .bracketOpen :: t.tokens ++ itemTokens rest ++ [.bracketClose]
  | .object [] => [.braceOpen, .braceClose]
  | .object ((key, t) :: rest) =>
    .braceOpen :: .string key :: .colon :: t.tokens ++ memberTokens rest ++ [.braceClose]

/-- The tokens of items after the first. -/
def itemTokens : List Tree → List Token
  | [] => []
  | t :: rest => .comma :: t.tokens ++ itemTokens rest

/-- The tokens of members after the first. -/
def memberTokens : List (List Piece × Tree) → List Token
  | [] => []
  | (key, t) :: rest => .comma :: .string key :: .colon :: t.tokens ++ memberTokens rest

end

theorem Tree.tokens_array (t : Tree) (items : List Tree) (rest : List Token) :
    (Tree.array (t :: items)).tokens ++ rest
      = .bracketOpen :: (t.tokens ++ (itemTokens items ++ .bracketClose :: rest)) := by
  simp [tokens]

theorem Tree.tokens_object (key : List Piece) (t : Tree) (members : List (List Piece × Tree))
    (rest : List Token) :
    (Tree.object ((key, t) :: members)).tokens ++ rest
      = .braceOpen :: .string key :: .colon :: (t.tokens ++ (memberTokens members ++ .braceClose :: rest)) := by
  simp [tokens]

/-- A tree has a first token, which does not close an array. -/
theorem Tree.exists_tokens_eq (t : Tree) :
    ∃ token rest, t.tokens = token :: rest ∧ token ≠ .bracketClose := by
  cases t with
  | null => exact ⟨_, _, rfl, by simp⟩
  | bool b => exact ⟨_, _, rfl, by simp⟩
  | number n => exact ⟨_, _, rfl, by simp⟩
  | string pieces => exact ⟨_, _, rfl, by simp⟩
  | array items =>
    cases items with
    | nil => exact ⟨_, _, rfl, by simp⟩
    | cons t rest => exact ⟨_, _, rfl, by simp⟩
  | object members =>
    rcases members with _ | ⟨⟨key, t⟩, rest⟩
    · exact ⟨_, _, rfl, by simp⟩
    · exact ⟨_, _, rfl, by simp⟩

namespace Tree

theorem value?_bracketOpen (t : Tree) (fuel : Nat) (rest : List Token) :
    value? (fuel + 1) (.bracketOpen :: (t.tokens ++ rest))
      = (items? fuel (t.tokens ++ rest)).map fun r => (.array r.1, r.2) := by
  obtain ⟨token, more, htokens, hne⟩ := t.exists_tokens_eq
  rw [htokens, List.cons_append]
  cases token <;> first
    | rfl
    | exact absurd rfl hne

mutual

/-- The tokens of a tree are taken as this tree, wherever they stand. -/
theorem value?_tokens : (t : Tree) → (fuel : Nat) → 2 * t.tokens.length ≤ fuel + 1 →
    (rest : List Token) → value? (fuel + 1) (t.tokens ++ rest) = some (t, rest)
  | .null, _, _, _ => rfl
  | .bool _, _, _, _ => rfl
  | .number _, _, _, _ => rfl
  | .string _, _, _, _ => rfl
  | .array [], _, _, _ => rfl
  | .array (t :: items), fuel, h, rest => by
    have hfuel : 2 * (t.tokens.length + (itemTokens items).length + 1) ≤ fuel := by
      simp only [tokens, List.length_append, List.length_cons, List.length_nil] at h
      omega
    obtain ⟨fuel, rfl⟩ : ∃ k, fuel = k + 1 := ⟨fuel - 1, by omega⟩
    rw [tokens_array, value?_bracketOpen, items?_tokens t items fuel hfuel]
    rfl
  | .object [], _, _, _ => rfl
  | .object ((key, t) :: members), fuel, h, rest => by
    have hfuel : 2 * (t.tokens.length + (memberTokens members).length + 1) ≤ fuel := by
      simp only [tokens, List.length_append, List.length_cons, List.length_nil] at h
      omega
    obtain ⟨fuel, rfl⟩ : ∃ k, fuel = k + 1 := ⟨fuel - 1, by omega⟩
    have hmembers := members?_tokens key t members fuel hfuel rest
    rw [tokens_object, value?, hmembers]
    · rfl
    · simp
termination_by _ fuel => fuel

theorem items?_tokens : (t : Tree) → (items : List Tree) → (fuel : Nat) →
    2 * (t.tokens.length + (itemTokens items).length + 1) ≤ fuel + 1 → (rest : List Token) →
    items? (fuel + 1) (t.tokens ++ (itemTokens items ++ .bracketClose :: rest))
      = some (t :: items, rest)
  | t, [], fuel, h, rest => by
    obtain ⟨fuel, rfl⟩ : ∃ k, fuel = k + 1 := ⟨fuel - 1, by omega⟩
    rw [items?, value?_tokens t fuel (by omega)]
    rfl
  | t, t' :: items, fuel, h, rest => by
    have hfuel : 2 * (t'.tokens.length + (itemTokens items).length + 1) ≤ fuel := by
      simp only [itemTokens, List.length_append, List.length_cons] at h
      omega
    obtain ⟨fuel, rfl⟩ : ∃ k, fuel = k + 1 := ⟨fuel - 1, by omega⟩
    have hitems := items?_tokens t' items fuel hfuel rest
    rw [items?, value?_tokens t fuel (by omega)]
    simp only [itemTokens, List.cons_append, List.append_assoc, hitems]
    rfl
termination_by _ _ fuel => fuel

theorem members?_tokens : (key : List Piece) → (t : Tree) → (members : List (List Piece × Tree)) →
    (fuel : Nat) → 2 * (t.tokens.length + (memberTokens members).length + 1) ≤ fuel + 1 →
    (rest : List Token) →
    members? (fuel + 1)
        (.string key :: .colon :: (t.tokens ++ (memberTokens members ++ .braceClose :: rest)))
      = some ((key, t) :: members, rest)
  | key, t, [], fuel, h, rest => by
    obtain ⟨fuel, rfl⟩ : ∃ k, fuel = k + 1 := ⟨fuel - 1, by omega⟩
    rw [members?, value?_tokens t fuel (by omega)]
    rfl
  | key, t, (key', t') :: members, fuel, h, rest => by
    have hfuel : 2 * (t'.tokens.length + (memberTokens members).length + 1) ≤ fuel := by
      simp only [memberTokens, List.length_append, List.length_cons] at h
      omega
    obtain ⟨fuel, rfl⟩ : ∃ k, fuel = k + 1 := ⟨fuel - 1, by omega⟩
    have hmembers := members?_tokens key' t' members fuel hfuel rest
    rw [members?, value?_tokens t fuel (by omega)]
    simp only [memberTokens, List.cons_append, List.append_assoc, hmembers]
    rfl
termination_by _ _ _ fuel => fuel

end

/-- **Every tree is spelled by its tokens.** -/
theorem ofTokens?_tokens (t : Tree) : ofTokens? t.tokens = some t := by
  have hvalue := value?_tokens t (2 * t.tokens.length) (by omega) []
  rw [List.append_nil] at hvalue
  rw [ofTokens?, hvalue]

end Tree

/-! ## Texts and their tokens -/

theorem scanAll_succ {fuel : Nat} {s : List Char} {tokens : List Token}
    (h : scanAll fuel s = some tokens) : scanAll (fuel + 1) s = some tokens := by
  induction fuel generalizing s tokens with
  | zero =>
    cases s with
    | nil => exact h
    | cons c rest => exact absurd h (by simp [scanAll])
  | succ fuel ih =>
    cases s with
    | nil => exact h
    | cons c rest =>
      rw [scanAll] at h ⊢
      split at h
      · next hspace => rw [if_pos hspace, ih h]
      · next hspace =>
        rw [if_neg hspace]
        split at h
        · exact absurd h (by simp)
        · next token after hscan =>
          obtain ⟨more, hmore, rfl⟩ := Option.map_eq_some_iff.mp h
          rw [ih hmore]
          rfl

/-- The text consists of the tokens, with spaces between them. -/
structure Lexes (s : List Char) (tokens : List Token) : Prop where
  scan : ∃ fuel ≤ s.length, scanAll fuel s = some tokens

namespace Lexes

variable {s rest : List Char} {tokens : List Token} {c : Char} {t : Token}

theorem tokens?_eq (h : Lexes s tokens) : tokens? s = some tokens := by
  obtain ⟨fuel, hle, hscan⟩ := h.scan
  rw [tokens?]
  generalize s.length = n at hle
  induction hle with
  | refl => exact hscan
  | step _ ih => exact scanAll_succ ih

theorem nil : Lexes [] [] :=
  ⟨0, le_rfl, rfl⟩

theorem space (hc : isSpace c = true) (h : Lexes s tokens) : Lexes (c :: s) tokens := by
  obtain ⟨fuel, hle, hscan⟩ := h.scan
  refine ⟨fuel + 1, Nat.succ_le_succ hle, ?_⟩
  rw [scanAll, if_pos hc, hscan]

theorem token (hc : isSpace c = false) (hscan : Token.scan (c :: s ++ rest) = some (t, rest))
    (h : Lexes rest tokens) : Lexes (c :: s ++ rest) (t :: tokens) := by
  obtain ⟨fuel, hle, hrest⟩ := h.scan
  refine ⟨fuel + 1, ?_, ?_⟩
  · rw [List.cons_append, List.length_cons, List.length_append]
    omega
  · rw [List.cons_append] at hscan ⊢
    rw [scanAll, if_neg (by simp [hc]), hscan]
    dsimp only
    rw [hrest]
    rfl

/-- A token of one character. -/
theorem single (hc : isSpace c = false) (hscan : Token.scan (c :: rest) = some (t, rest))
    (h : Lexes rest tokens) : Lexes (c :: rest) (t :: tokens) :=
  token (s := []) hc hscan h

theorem newLine (level : Nat) (h : Lexes s tokens) : Lexes (newLine level ++ s) tokens := by
  refine space rfl ?_
  induction 2 * level with
  | zero => exact h
  | succ n ih => exact space rfl ih

theorem string (text : String) (h : Lexes rest tokens) :
    Lexes (stringChars text ++ rest) (.string (piecesOf text) :: tokens) := by
  have hscan : Token.scan (stringChars text ++ rest) = some (.string (piecesOf text), rest) := by
    have hstring := scanString_escape text.toList rest
    simp only [stringChars, List.cons_append, List.append_assoc, List.nil_append, Token.scan, hstring]
    rfl
  exact token rfl hscan h

theorem member (key : String) (h : Lexes rest tokens) :
    Lexes (stringChars key ++ (':' :: ' ' :: rest)) (.string (piecesOf key) :: .colon :: tokens) :=
  string key (single rfl rfl (space rfl h))

end Lexes

/-! ## Values and their trees -/

/-- The tree of the text of a number. -/
def Number.tree (n : Number) : Tree :=
  n.numeral?.elim .null .number

mutual

/-- The tree of the text of a value. -/
def Value.tree : Value → Tree
  | .null => .null
  | .bool b => .bool b
  | .number n => n.tree
  | .string s => .string (piecesOf s)
  | .array items => .array (itemTrees items)
  | .object members => .object (memberTrees members)

def itemTrees : List Value → List Tree
  | [] => []
  | v :: rest => v.tree :: itemTrees rest

def memberTrees : List (String × Value) → List (List Piece × Tree)
  | [] => []
  | (key, v) :: rest => (piecesOf key, v.tree) :: memberTrees rest

end

/-- A number literal starts with a minus or a digit. -/
theorem head_of_scan {c : Char} {s : List Char} {r : Numeral × List Char}
    (h : Numeral.scan (c :: s) = some r) : c = '-' ∨ c.isDigit = true := by
  by_contra hne
  obtain ⟨hminus, hdigit⟩ := not_or.mp hne
  have hwhole : scanWhole? (c :: s) = none := by
    simp [scanWhole?, Digits.span, hdigit]
  rw [Numeral.scan] at h
  · simp [hwhole] at h
  · rintro rest heq
    exact hminus (List.cons.inj heq).1

theorem token_scan_of_numeral {c : Char} {s rest : List Char} {literal : Numeral}
    (h : Numeral.scan (c :: s) = some (literal, rest)) :
    Token.scan (c :: s) = some (.number literal, rest) := by
  rcases head_of_scan h with rfl | hdigit
  · rw [Token.scan, h]
    · rfl
    all_goals simp
  · rw [Token.scan, h]
    · rfl
    -- Every other token starts with a character that is no digit.
    all_goals
      intros
      rename_i heq
      rw [(List.cons.inj heq).1] at hdigit
      exact absurd hdigit (by decide)

theorem lexes_number (n : Number) {rest : List Char} {tokens : List Token} (hrest : EndsNumber rest)
    (h : Lexes rest tokens) : Lexes (n.chars ++ rest) (n.tree.tokens ++ tokens) := by
  cases hn : n.numeral? with
  | none =>
    have hchars : n.chars = "null".toList := by
      cases n with
      | integer n => exact absurd hn (by simp [Number.numeral?])
      | float x =>
        rw [Number.numeral?, floatNumeral?] at hn
        rw [Number.chars, floatChars]
        split at hn
        · next hx => rw [hx]
        · next hx => rw [hx]
        · exact absurd hn (by simp)
        · exact absurd hn (by simp)
    rw [hchars, Number.tree, hn]
    exact Lexes.token (c := 'n') rfl rfl h
  | some literal =>
    have hscan := scan_chars hn hrest
    rw [Number.tree, hn]
    cases hchars : n.chars with
    | nil =>
      have hnothing : Numeral.scan (n.chars ++ []) = _ := scan_chars hn (by simp [EndsNumber])
      rw [hchars] at hnothing
      exact absurd hnothing (by simp [Numeral.scan, scanWhole?, Digits.span])
    | cons c s =>
      rw [hchars, List.cons_append] at hscan
      have hspace : isSpace c = false := by
        rcases head_of_scan hscan with rfl | hdigit
        · rfl
        · rw [← Bool.not_eq_true]
          intro hspace
          simp only [isSpace, Bool.or_eq_true, beq_iff_eq] at hspace
          rcases hspace with ((rfl | rfl) | rfl) | rfl <;> exact absurd hdigit (by decide)
      exact Lexes.token hspace (token_scan_of_numeral hscan) h

theorem endsNumber_newLine (level : Nat) (s : List Char) : EndsNumber (newLine level ++ s) := by
  rintro c ⟨rfl⟩
  decide

theorem endsNumber_comma (s : List Char) : EndsNumber (',' :: s) := by
  rintro c ⟨rfl⟩
  decide

theorem endsNumber_nil : EndsNumber [] := by
  simp [EndsNumber]

theorem endsNumber_indentedItems (level : Nat) (items : List Value) {close : List Char}
    (h : EndsNumber close) : EndsNumber (indentedItems level items ++ close) := by
  cases items with
  | nil => exact h
  | cons v rest => exact endsNumber_comma _

theorem endsNumber_indentedMembers (level : Nat) (members : List (String × Value)) {close : List Char}
    (h : EndsNumber close) : EndsNumber (indentedMembers level members ++ close) := by
  rcases members with _ | ⟨⟨key, v⟩, rest⟩
  · exact h
  · exact endsNumber_comma _

mutual

/-- The indented text of a value consists of the tokens of its tree. -/
theorem lexes_indented : (v : Value) → (level : Nat) → {rest : List Char} → {tokens : List Token} →
    EndsNumber rest → Lexes rest tokens →
    Lexes (v.indentedChars level ++ rest) (v.tree.tokens ++ tokens)
  | .null, _, _, _, _, h => Lexes.token (c := 'n') rfl rfl h
  | .bool true, _, _, _, _, h => Lexes.token (c := 't') rfl rfl h
  | .bool false, _, _, _, _, h => Lexes.token (c := 'f') rfl rfl h
  | .number n, _, _, _, hrest, h => lexes_number n hrest h
  | .string s, _, _, _, _, h => Lexes.string s h
  | .array [], _, _, _, _, h => .single rfl rfl (.single rfl rfl h)
  | .array (v :: items), level, rest, tokens, hrest, h => by
    have hclose : Lexes (newLine level ++ ']' :: rest) (.bracketClose :: tokens) :=
      .newLine level (.single rfl rfl h)
    have hends : EndsNumber (newLine level ++ ']' :: rest) := endsNumber_newLine level _
    have hitems := lexes_items items (level + 1) hends hclose
    have hvalue := lexes_indented v (level + 1) (endsNumber_indentedItems (level + 1) items hends) hitems
    have hopen : Lexes ('[' :: (newLine (level + 1) ++ (v.indentedChars (level + 1)
        ++ (indentedItems (level + 1) items ++ (newLine level ++ ']' :: rest))))) _ :=
      .single rfl rfl (.newLine (level + 1) hvalue)
    simpa [Value.indentedChars, Value.tree, itemTrees, Tree.tokens] using hopen
  | .object [], _, _, _, _, h => .single rfl rfl (.single rfl rfl h)
  | .object ((key, v) :: members), level, rest, tokens, hrest, h => by
    have hclose : Lexes (newLine level ++ '}' :: rest) (.braceClose :: tokens) :=
      .newLine level (.single rfl rfl h)
    have hends : EndsNumber (newLine level ++ '}' :: rest) := endsNumber_newLine level _
    have hmembers := lexes_members members (level + 1) hends hclose
    have hvalue := lexes_indented v (level + 1)
      (endsNumber_indentedMembers (level + 1) members hends) hmembers
    have hopen : Lexes ('{' :: (newLine (level + 1) ++ (stringChars key ++ (':' :: ' '
        :: (v.indentedChars (level + 1) ++ (indentedMembers (level + 1) members
          ++ (newLine level ++ '}' :: rest))))))) _ :=
      .single rfl rfl (.newLine (level + 1) (.member key hvalue))
    simpa [Value.indentedChars, Value.tree, memberTrees, Tree.tokens] using hopen

theorem lexes_items : (items : List Value) → (level : Nat) → {close : List Char} →
    {tokens : List Token} → EndsNumber close → Lexes close tokens →
    Lexes (indentedItems level items ++ close) (itemTokens (itemTrees items) ++ tokens)
  | [], _, _, _, _, h => h
  | v :: rest, level, close, tokens, hends, h => by
    have hrest := lexes_items rest level hends h
    have hvalue := lexes_indented v level (endsNumber_indentedItems level rest hends) hrest
    have hcomma : Lexes (',' :: (newLine level ++ (v.indentedChars level
        ++ (indentedItems level rest ++ close)))) _ :=
      .single rfl rfl (.newLine level hvalue)
    simpa [indentedItems, itemTrees, itemTokens] using hcomma

theorem lexes_members : (members : List (String × Value)) → (level : Nat) → {close : List Char} →
    {tokens : List Token} → EndsNumber close → Lexes close tokens →
    Lexes (indentedMembers level members ++ close) (memberTokens (memberTrees members) ++ tokens)
  | [], _, _, _, _, h => h
  | (key, v) :: rest, level, close, tokens, hends, h => by
    have hrest := lexes_members rest level hends h
    have hvalue := lexes_indented v level (endsNumber_indentedMembers level rest hends) hrest
    have hcomma : Lexes (',' :: (newLine level ++ (stringChars key ++ (':' :: ' '
        :: (v.indentedChars level ++ (indentedMembers level rest ++ close)))))) _ :=
      .single rfl rfl (.newLine level (.member key hvalue))
    simpa [indentedMembers, memberTrees, memberTokens] using hcomma

end

/-- **The indented text of a value is well-formed, and its tree is that of the value.** -/
theorem ofText?_indented (v : Value) : Tree.ofText? v.indented = some v.tree := by
  have hlexes := lexes_indented v 0 endsNumber_nil .nil
  rw [List.append_nil, List.append_nil] at hlexes
  rw [Tree.ofText?, Value.indented, String.toList_ofList, hlexes.tokens?_eq, Option.bind_some,
    Tree.ofTokens?_tokens]

end Dataflow.Json
