import GoSite.GoStrings

/-!
# Go strings as bytes

A Go string is a sequence of bytes. Ranging over one reads a code point from
each UTF-8 encoding and U+FFFD from each byte that starts none. Scanners that go
byte by byte cut strings anywhere, so what they cut out may be no UTF-8 at all.
-/
namespace GoSite.GoStrings

/-- A property of all bytes of a text is decided along the text. -/
instance (priority := 1100) decidableBAllByte (p : UInt8 → Prop) [DecidablePred p]
    (s : List UInt8) : Decidable (∀ b ∈ s, p b) := List.decidableBAll p s

/-- A code point and the bytes it was read from. -/
structure Rune where
  char : Char
  bytes : List UInt8

/-- The code point encoded at the beginning of a string. -/
def decodeRune (bytes : List UInt8) : Option Char :=
  ByteArray.utf8DecodeChar? ⟨bytes.toArray⟩ 0

/-- `range` over a string, with at most as many steps as it has bytes. -/
@[grind] def runesLoop : ℕ → List UInt8 → List Rune
  | 0, _ => []
  | _ + 1, [] => []
  | n + 1, b :: bytes =>
      match decodeRune (b :: bytes) with
      | none => ⟨Char.ofNat 0xFFFD, [b]⟩ :: runesLoop n bytes
      | some c =>
          ⟨c, (b :: bytes).take c.utf8Size⟩ :: runesLoop n ((b :: bytes).drop c.utf8Size)

def runes (bytes : List UInt8) : List Rune := runesLoop bytes.length bytes

/-- The text of a string. -/
def decode (bytes : List UInt8) : String := String.ofList ((runes bytes).map Rune.char)

/-- `strings.TrimSpace`. -/
def trimSpaceBytes (bytes : List UInt8) : List UInt8 :=
  (((runes bytes).dropWhile (isSpace ·.char)).rdropWhile (isSpace ·.char)).flatMap Rune.bytes

/-- `strings.Fields` on code points: the words between white space. `word` is
the one being read, from its end. -/
@[grind] def fieldsLoop : List Char → List Char → List (List Char)
  | word, [] => if word = [] then [] else [word.reverse]
  | word, c :: cs =>
      if isSpace c then
        if word = [] then fieldsLoop [] cs else word.reverse :: fieldsLoop [] cs
      else fieldsLoop (c :: word) cs

def fields (s : List Char) : List (List Char) := fieldsLoop [] s

/-- `strings.ReplaceAll` of a pair of code points. -/
@[grind] def replacePair (a b : Char) (new : List Char) : List Char → List Char
  | [] => []
  | [c] => [c]
  | c :: d :: cs =>
      if c = a ∧ d = b then new ++ replacePair a b new cs else c :: replacePair a b new (d :: cs)

/-- `strings.Index`. -/
@[grind] def index (s sub : List Char) : Option ℕ :=
  match s with
  | [] => if sub = [] then some 0 else none
  | c :: cs => if sub <+: c :: cs then some 0 else (index cs sub).map (· + 1)

end GoSite.GoStrings
