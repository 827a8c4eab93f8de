import ClientTypes.Text.Char
import ClientTypes.Text.Split

/-!
# Struct tags

The tag text of a field is a row of pairs `key:"value"` with spaces before them. A value is written
with a backslash before the characters that need one. Reading stops at the first place where the
text has no such pair.

## Main definitions

* `Tag.lookup` — the value of the first pair with a given key
* `TagValue.parse` — a value as a wire name and options
-/

namespace ClientTypes

namespace Tag

/-- May occur in the key of a pair. -/
def isKeyChar (c : Char) : Bool := ' ' < c && c != ':' && c != '"' && c != '\x7f'

/-- Cuts a value at its closing quote. A backslash keeps the character after it from closing. -/
def cutValue : List Char → Option (List Char × List Char)
  | [] => none
  | '"' :: cs => some ([], cs)
  | '\\' :: c :: cs => (cutValue cs).map (Prod.map (fun body => '\\' :: c :: body) id)
  | c :: cs => (cutValue cs).map (Prod.map (c :: ·) id)

theorem length_lt_of_cutValue {cs body rest : List Char} (h : cutValue cs = some (body, rest)) :
    rest.length < cs.length := by
  fun_induction cutValue cs generalizing body rest with
  | case1 => simp at h
  | case2 cs => simp at h; simp [h.2]
  | case3 c cs ih =>
    simp only [Option.map_eq_some_iff, Prod.map, id_eq, Prod.mk.injEq] at h
    obtain ⟨⟨b, r⟩, hr, -, rfl⟩ := h
    have := ih hr
    simp only [List.length_cons]
    omega
  | case4 c cs _ _ ih =>
    simp only [Option.map_eq_some_iff, Prod.map, id_eq, Prod.mk.injEq] at h
    obtain ⟨⟨b, r⟩, hr, -, rfl⟩ := h
    have := ih hr
    simp only [List.length_cons]
    omega

/-- The character that a backslash and `c` stand for. -/
def escaped? (c : Char) : Option Char :=
  match c with
  | '\\' | '"' | '\'' => some c
  | 'n' => some '\n'
  | 't' => some '\t'
  | 'r' => some '\r'
  | _ => none

/-- The text that a written value stands for. -/
def unescape : List Char → Option (List Char)
  | [] => some []
  | ['\\'] => none
  | '\\' :: c :: cs => (escaped? c).bind fun e => (unescape cs).map (e :: ·)
  | c :: cs => (unescape cs).map (c :: ·)

/-- One pair at the front of some text: its key, its value as written, and what follows. -/
def cutPair (cs : List Char) : Option (List Char × List Char × List Char) :=
  let cs := cs.dropWhile (· == ' ')
  match cs.takeWhile isKeyChar, cs.dropWhile isKeyChar with
  | c :: key, ':' :: '"' :: rest => (cutValue rest).map fun (body, rest) => (c :: key, body, rest)
  | _, _ => none

theorem length_lt_of_cutPair {cs key body rest : List Char}
    (h : cutPair cs = some (key, body, rest)) : rest.length < cs.length := by
  dsimp only [cutPair] at h
  split at h
  · next c key' rest' _ hd =>
    simp only [Option.map_eq_some_iff, Prod.mk.injEq] at h
    obtain ⟨⟨b, r⟩, hr, -, -, rfl⟩ := h
    have h1 := length_lt_of_cutValue hr
    have h2 := (List.dropWhile_sublist isKeyChar (l := cs.dropWhile (· == ' '))).length_le
    have h3 := (List.dropWhile_sublist (· == ' ') (l := cs)).length_le
    simp only [hd, List.length_cons] at h2
    simp only
    omega
  · simp at h

/-- The value of the first pair with the given key. -/
def lookupChars (key cs : List Char) : Option (List Char) :=
  match h : cutPair cs with
  | none => none
  | some (name, body, rest) =>
    have : rest.length < cs.length := length_lt_of_cutPair h
    if name = key then unescape body else lookupChars key rest
termination_by cs.length

/-- The value of the first pair with the given key in a tag text. -/
def lookup (tags key : String) : Option String :=
  (lookupChars key.toList tags.toList).map String.ofList

end Tag

/-- What a tag says about a field. -/
structure TagValue where
  name : Option String
  options : List String
deriving DecidableEq, Repr, Inhabited

namespace TagValue

/-- Characters that a wire name may have besides letters and numbers. -/
def nameSymbols : List Char := "!#$%&()*+-./:;<=>?@[]^_\x7b|\x7d~ ".toList

def isNameChar (c : Char) : Bool := Text.isAlphanumeric c || nameSymbols.contains c

/-- A wire name, then options, with commas between them. A name that is empty or has an unsuitable
character is no name. -/
def parse (value : String) : TagValue :=
  match Text.split ',' value.toList with
  | [] => ⟨none, []⟩
  | name :: options =>
    { name := if name ≠ [] ∧ name.all isNameChar then some (String.ofList name) else none
      options := options.map String.ofList }

def hasOption (value : TagValue) (option : String) : Bool := value.options.contains option

end TagValue

end ClientTypes
