/-!
The tokens of a TOML document. Line ends are folded before anything else, so that a carriage return
is never part of one. A number or a date is not one token here: it is a run of words and dots, and
what it means is decided where a value is expected.
-/

namespace Tabletop.Toml

/-- Turns each carriage return before a line feed into nothing. -/
def foldLineEnds : List Char → List Char
  | '\r' :: '\n' :: cs => '\n' :: foldLineEnds cs
  | c :: cs => c :: foldLineEnds cs
  | [] => []

/-- The characters of a document without its byte order mark. -/
def characters (s : String) : List Char :=
  foldLineEnds <|
    match s.toList with
    | '\uFEFF' :: cs => cs
    | cs => cs

inductive Token where
  | newline
  | blank (text : List Char)
  | comma
  | equals
  | dot
  | squareOpen
  | squareClose
  | curlyOpen
  | curlyClose
  | word (text : List Char)
  | quoted (text : String) (multiline : Bool)
  deriving DecidableEq

def isGap (c : Char) : Bool :=
  c == ' ' || c == '\t'

/-- A character that a comment or a quoted text may hold once line ends are folded. -/
def isAllowed (c : Char) : Bool :=
  isGap c || c == '\n' || (0x20 ≤ c.toNat && c.toNat != 0x7F)

/-- A character of a word. A quote is one too, unless it comes first. -/
def isWord (c : Char) : Bool :=
  !(isGap c || c ∈ ['\n', '\r', '#', ',', '=', '.', '[', ']', '{', '}'])

/-! ### Quoted text -/

def hexValue? (c : Char) : Option Nat :=
  if '0' ≤ c ∧ c ≤ '9' then some (c.toNat - '0'.toNat)
  else if 'a' ≤ c ∧ c ≤ 'f' then some (c.toNat - 'a'.toNat + 10)
  else if 'A' ≤ c ∧ c ≤ 'F' then some (c.toNat - 'A'.toNat + 10)
  else none

/-- The character whose number is written in exactly `width` hexadecimal digits. -/
def hexChar? (width : Nat) (cs : List Char) : Option Char := do
  let digits ← (cs.take width).mapM hexValue?
  let n := digits.foldl (fun n d => n * 16 + d) 0
  if digits.length = width ∧ n.isValidChar then some (Char.ofNat n) else none

/-- What the characters after a backslash stand for, and how many of them do. -/
def escape? (multiline : Bool) : List Char → Option (List Char × Nat)
  | 'b' :: _ => some (['\x08'], 1)
  | 't' :: _ => some (['\t'], 1)
  | 'n' :: _ => some (['\n'], 1)
  | 'f' :: _ => some (['\x0c'], 1)
  | 'r' :: _ => some (['\r'], 1)
  | 'e' :: _ => some (['\x1b'], 1)
  | '"' :: _ => some (['"'], 1)
  | '\\' :: _ => some (['\\'], 1)
  | 'x' :: cs => (hexChar? 2 cs).map fun c => ([c], 3)
  | 'u' :: cs => (hexChar? 4 cs).map fun c => ([c], 5)
  | 'U' :: cs => (hexChar? 8 cs).map fun c => ([c], 9)
  | cs =>
    if multiline ∧ (cs.dropWhile isGap).head? = some '\n' then
      some ([], (cs.takeWhile fun c => isGap c || c == '\n').length)
    else none

/-- Replaces the escapes of a text. -/
def unescape? (multiline : Bool) : List Char → Option (List Char)
  | [] => some []
  | c :: cs =>
    if c = '\\' then do
      let (text, width) ← escape? multiline cs
      return text ++ (← unescape? multiline (cs.drop width))
    else do
      return c :: (← unescape? multiline cs)
termination_by cs => cs.length
decreasing_by all_goals simp only [List.length_cons, List.length_drop]; omega

/-- The text up to a closing quote on the same line, and what follows the quote. -/
def untilQuote (quote : Char) (escapes : Bool) : List Char → Option (List Char × List Char)
  | [] => none
  | [c] => if c = quote then some ([], []) else none
  | c :: d :: cs =>
    if c = quote then some ([], d :: cs)
    else if c = '\n' then none
    else if escapes ∧ c = '\\' then
      (untilQuote quote escapes cs).map fun (text, rest) => (c :: d :: text, rest)
    else (untilQuote quote escapes (d :: cs)).map fun (text, rest) => (c :: text, rest)

/-- The text up to three closing quotes, and what follows them. Of a longer run of quotes up to two
more belong to the text. -/
def untilQuotes (quote : Char) (escapes : Bool) : List Char → Option (List Char × List Char)
  | [] => none
  | [_] => none
  | c :: d :: cs =>
    if c = quote ∧ d = quote ∧ cs.head? = some quote then
      let extra := min 2 (cs.tail.takeWhile (· == quote)).length
      some (List.replicate extra quote, cs.tail.drop extra)
    else if escapes ∧ c = '\\' then
      (untilQuotes quote escapes cs).map fun (text, rest) => (c :: d :: text, rest)
    else (untilQuotes quote escapes (d :: cs)).map fun (text, rest) => (c :: text, rest)

/-- The raw text after an opening quote, and what follows its end. Two more quotes at once open a
text of several lines, whose first line feed does not count. -/
def raw? (quote : Char) (escapes : Bool) (cs : List Char) : Option (List Char × List Char) :=
  if cs.take 2 = [quote, quote] then
    untilQuotes quote escapes (if (cs.drop 2).head? = some '\n' then cs.drop 3 else cs.drop 2)
  else untilQuote quote escapes cs

/-- A quoted text whose opening quote has just been read, and what follows it. -/
def quoted? (quote : Char) (escapes : Bool) (cs : List Char) : Option (Token × List Char) :=
  let multiline := decide (cs.take 2 = [quote, quote])
  (raw? quote escapes cs).bind fun (raw, rest) =>
    ((if escapes then unescape? multiline raw else some raw).filter fun _ => raw.all isAllowed).map
      fun text => (.quoted (String.ofList text) multiline, rest)

theorem length_untilQuote {quote : Char} {escapes : Bool} {cs text rest : List Char}
    (h : untilQuote quote escapes cs = some (text, rest)) : rest.length ≤ cs.length := by
  fun_induction untilQuote quote escapes cs generalizing text rest with
  | case1 => cases h
  | case2 => cases h; simp
  | case3 => cases h
  | case4 => cases h; simp
  | case5 => cases h
  | case6 c d cs _ _ _ ih =>
    obtain ⟨⟨t, r⟩, ht, hr⟩ := Option.map_eq_some_iff.1 h
    cases hr
    have := ih ht
    simp only [List.length_cons]
    omega
  | case7 c d cs _ _ _ ih =>
    obtain ⟨⟨t, r⟩, ht, hr⟩ := Option.map_eq_some_iff.1 h
    cases hr
    have := ih ht
    simp only [List.length_cons] at this ⊢
    omega

theorem length_untilQuotes {quote : Char} {escapes : Bool} {cs text rest : List Char}
    (h : untilQuotes quote escapes cs = some (text, rest)) : rest.length ≤ cs.length := by
  fun_induction untilQuotes quote escapes cs generalizing text rest with
  | case1 => cases h
  | case2 => cases h
  | case3 => cases h; simp only [List.length_drop, List.length_tail, List.length_cons]; omega
  | case4 c d cs _ _ ih =>
    obtain ⟨⟨t, r⟩, ht, hr⟩ := Option.map_eq_some_iff.1 h
    cases hr
    have := ih ht
    simp only [List.length_cons]
    omega
  | case5 c d cs _ _ ih =>
    obtain ⟨⟨t, r⟩, ht, hr⟩ := Option.map_eq_some_iff.1 h
    cases hr
    have := ih ht
    simp only [List.length_cons] at this ⊢
    omega

theorem length_raw? {quote : Char} {escapes : Bool} {cs text rest : List Char}
    (h : raw? quote escapes cs = some (text, rest)) : rest.length ≤ cs.length := by
  unfold raw? at h
  split at h
  · have := length_untilQuotes h
    split at this <;> simp only [List.length_drop] at this <;> omega
  · exact length_untilQuote h

theorem length_quoted? {quote : Char} {escapes : Bool} {cs rest : List Char} {t : Token}
    (h : quoted? quote escapes cs = some (t, rest)) : rest.length ≤ cs.length := by
  obtain ⟨⟨raw, r⟩, hr, ht⟩ := Option.bind_eq_some_iff.1 h
  obtain ⟨text, _, hq⟩ := Option.map_eq_some_iff.1 ht
  cases hq
  exact length_raw? hr

/-! ### Tokens -/

theorem length_dropWhile_le {α : Type} (p : α → Bool) (l : List α) :
    (l.dropWhile p).length ≤ l.length :=
  (List.dropWhile_sublist p).length_le

/-- The token that a character makes by itself. -/
def Token.ofChar? : Char → Option Token
  | '\n' => some .newline
  | ',' => some .comma
  | '=' => some .equals
  | '.' => some .dot
  | '[' => some .squareOpen
  | ']' => some .squareClose
  | '{' => some .curlyOpen
  | '}' => some .curlyClose
  | _ => none

/-- The tokens of a document; a comment leaves none. -/
def tokens? : List Char → Option (List Token)
  | [] => some []
  | c :: cs =>
    match Token.ofChar? c with
    | some t => (tokens? cs).map (t :: ·)
    | none =>
      if c = '#' then
        if (cs.takeWhile (· != '\n')).all isAllowed then tokens? (cs.dropWhile (· != '\n'))
        else none
      else if c = '"' ∨ c = '\'' then
        match _h : quoted? c (c = '"') cs with
        | some (t, rest) => (tokens? rest).map (t :: ·)
        | none => none
      else if isGap c then
        (tokens? (cs.dropWhile isGap)).map (.blank (c :: cs.takeWhile isGap) :: ·)
      else if isWord c then
        (tokens? (cs.dropWhile isWord)).map (.word (c :: cs.takeWhile isWord) :: ·)
      else none
termination_by cs => cs.length
decreasing_by
  · simp
  · have := length_dropWhile_le (· != '\n') cs
    simp only [List.length_cons]; omega
  · have := length_quoted? _h
    simp only [List.length_cons]; omega
  · have := length_dropWhile_le isGap cs
    simp only [List.length_cons]; omega
  · have := length_dropWhile_le isWord cs
    simp only [List.length_cons]; omega

end Tabletop.Toml
