import ClientTypes.Json.Number

/-!
# Tokens of JSON text

`Token.scan` cuts text into punctuation, strings and leaves. Blanks between tokens are the four
that the grammar names. It accepts every text whose tokens are well formed and leaves their order
to the reader of values.
-/

namespace ClientTypes.Json

/-- A token; a leaf is a number or one of the three words. -/
inductive Token where
  | openArray
  | closeArray
  | openObject
  | closeObject
  | comma
  | colon
  | text (content : Option String)
  | leaf (value : Json)

/-- What a string is made of: characters, and the UTF-16 units that escapes name. -/
inductive StringPart where
  | char (c : Char)
  | unit (code : Nat)

/-- The value of a hexadecimal digit. -/
def hexDigit? (c : Char) : Option Nat :=
  if c.isDigit then some (c.toNat - '0'.toNat)
  else if 'a' ≤ c && c ≤ 'f' then some (c.toNat - 'a'.toNat + 10)
  else if 'A' ≤ c && c ≤ 'F' then some (c.toNat - 'A'.toNat + 10)
  else none

/-- The number that hexadecimal digits spell. -/
def hexValue? (cs : List Char) : Option Nat :=
  cs.foldlM (fun n c => (hexDigit? c).map (16 * n + ·)) 0

/-- The character that a one-letter escape stands for. -/
def escaped? : Char → Option Char
  | '"' => some '"'
  | '\\' => some '\\'
  | '/' => some '/'
  | 'b' => some '\x08'
  | 'f' => some '\x0c'
  | 'n' => some '\n'
  | 'r' => some '\r'
  | 't' => some '\t'
  | _ => none

/-- Reads a string after its opening quote; returns its parts and what follows the closing one. -/
def scanString : List Char → Option (List StringPart × List Char)
  | [] => none
  | '"' :: cs => some ([], cs)
  | '\\' :: 'u' :: a :: b :: c :: d :: cs =>
    (hexValue? [a, b, c, d]).bind fun code => (scanString cs).map (Prod.map (.unit code :: ·) id)
  | '\\' :: e :: cs =>
    (escaped? e).bind fun c => (scanString cs).map (Prod.map (.char c :: ·) id)
  | c :: cs =>
    if c.toNat < 0x20 ∨ c = '\\' then none
    else (scanString cs).map (Prod.map (.char c :: ·) id)

theorem length_lt_of_scanString {cs : List Char} {parts : List StringPart} {rest : List Char}
    (h : scanString cs = some (parts, rest)) : rest.length < cs.length := by
  fun_induction scanString cs generalizing parts rest with
  | case1 => simp at h
  | case2 cs => simp at h; simp [h.2]
  | case3 a b c d cs ih =>
    simp only [Option.bind_eq_some_iff, Option.map_eq_some_iff, Prod.map, id_eq, Prod.mk.injEq] at h
    obtain ⟨-, -, ⟨ps, r⟩, hr, -, rfl⟩ := h
    have := ih hr
    simp only [List.length_cons]
    omega
  | case4 e cs _ ih =>
    simp only [Option.bind_eq_some_iff, Option.map_eq_some_iff, Prod.map, id_eq, Prod.mk.injEq] at h
    obtain ⟨-, -, ⟨ps, r⟩, hr, -, rfl⟩ := h
    have := ih hr
    simp only [List.length_cons]
    omega
  | case5 => simp at h
  | case6 c cs _ _ _ _ ih =>
    simp only [Option.map_eq_some_iff, Prod.map, id_eq, Prod.mk.injEq] at h
    obtain ⟨⟨ps, r⟩, hr, -, rfl⟩ := h
    have := ih hr
    simp only [List.length_cons]
    omega

/-- The text of a string's parts: a high unit must be followed by a low one and together they name
one character. -/
def assemble : List StringPart → Option (List Char)
  | [] => some []
  | .char c :: parts => (assemble parts).map (c :: ·)
  | .unit high :: .unit low :: parts =>
    if 0xD800 ≤ high ∧ high < 0xDC00 ∧ 0xDC00 ≤ low ∧ low < 0xE000 then
      (assemble parts).map
        (Char.ofNat (0x10000 + (high - 0xD800) * 0x400 + (low - 0xDC00)) :: ·)
    else if high < 0xD800 ∨ 0xE000 ≤ high then
      (assemble (.unit low :: parts)).map (Char.ofNat high :: ·)
    else none
  | .unit code :: parts =>
    if code < 0xD800 ∨ 0xE000 ≤ code then (assemble parts).map (Char.ofNat code :: ·) else none

def Token.punctuation? : Char → Option Token
  | '[' => some .openArray
  | ']' => some .closeArray
  | '{' => some .openObject
  | '}' => some .closeObject
  | ',' => some .comma
  | ':' => some .colon
  | _ => none

/-- The value of a word. -/
def word? (cs : List Char) : Option Json :=
  match String.ofList cs with
  | "null" => some .null
  | "true" => some (.bool true)
  | "false" => some (.bool false)
  | _ => none

def isSpacing (c : Char) : Bool := c == ' ' || c == '\n' || c == '\t' || c == '\r'

/-- The tokens of a text; `none` where no token begins. -/
def Token.scan (cs : List Char) : Option (List Token) :=
  match cs with
  | [] => some []
  | c :: cs =>
    if isSpacing c then scan cs
    else if c = '"' then
      match _h : scanString cs with
      | none => none
      | some (parts, rest) =>
        (scan rest).map (.text ((assemble parts).map String.ofList) :: ·)
    else match punctuation? c with
      | some token => (scan cs).map (token :: ·)
      | none =>
        if c.isAlpha then do
          let value ← word? (c :: cs.takeWhile Char.isAlpha)
          let tokens ← scan (cs.dropWhile Char.isAlpha)
          return .leaf value :: tokens
        else do
          let literal := c :: cs.takeWhile isNumberPart
          let _ ← numberParts? literal
          let tokens ← scan (cs.dropWhile isNumberPart)
          return .leaf (.number (String.ofList literal)) :: tokens
termination_by cs.length
decreasing_by
  · simp
  · have := length_lt_of_scanString _h
    simp only [List.length_cons]
    omega
  · simp
  · have := (List.dropWhile_sublist Char.isAlpha (l := cs)).length_le
    simp only [List.length_cons]
    omega
  · have := (List.dropWhile_sublist isNumberPart (l := cs)).length_le
    simp only [List.length_cons]
    omega

end ClientTypes.Json
