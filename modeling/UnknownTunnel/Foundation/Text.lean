import UnknownTunnel.Foundation.Bytes

/-!
# Text in byte strings

The functions on strings that a Go program takes from `strings`, `strconv`,
`net` and `path/filepath`. Strings are byte strings; where a function of the
library is about characters, it is about their UTF-8 encodings.
-/

namespace UnknownTunnel.Foundation.Text

/-- The encodings of the white space of `unicode.IsSpace`. -/
def spaces : List Bytes :=
  [[9], [10], [11], [12], [13], [32], [0xC2, 0x85], [0xC2, 0xA0], [0xE1, 0x9A, 0x80],
    [0xE2, 0x80, 0x80], [0xE2, 0x80, 0x81], [0xE2, 0x80, 0x82], [0xE2, 0x80, 0x83],
    [0xE2, 0x80, 0x84], [0xE2, 0x80, 0x85], [0xE2, 0x80, 0x86], [0xE2, 0x80, 0x87],
    [0xE2, 0x80, 0x88], [0xE2, 0x80, 0x89], [0xE2, 0x80, 0x8A], [0xE2, 0x80, 0xA8],
    [0xE2, 0x80, 0xA9], [0xE2, 0x80, 0xAF], [0xE2, 0x81, 0x9F], [0xE3, 0x80, 0x80]]

/-- A byte string without the white space it begins with. Every round takes at
least one byte, so as many rounds as there are bytes are enough. -/
def trimLeft : Nat → Bytes → Bytes
  | 0, s => s
  | fuel + 1, s =>
      match spaces.find? fun space => space.isPrefixOf s with
      | some space => trimLeft fuel (s.drop space.length)
      | none => s

def trimRight : Nat → Bytes → Bytes
  | 0, s => s
  | fuel + 1, s =>
      match spaces.find? fun space => space.isSuffixOf s with
      | some space => trimRight fuel (s.take (s.length - space.length))
      | none => s

/-- `strings.TrimSpace`. -/
def trimSpace (s : Bytes) : Bytes :=
  let left := trimLeft s.length s
  trimRight left.length left

/-- The lower-case form of an ASCII letter. -/
def lowerByte (b : UInt8) : UInt8 := if 65 ≤ b ∧ b ≤ 90 then b + 32 else b

/-- The number with the given decimal digits, most significant first. -/
def digits (s : Bytes) : Option Nat :=
  if s = [] ∨ s.any (fun b => b < 48 ∨ 57 < b) then none
  else some (s.foldl (fun acc b => acc * 10 + (b.toNat - 48)) 0)

/-- `strconv.Atoi` for integers of 64 bits. -/
def atoi (s : Bytes) : Option Int :=
  let value : Option Int :=
    match s with
    | 43 :: rest => (digits rest).map Int.ofNat
    | 45 :: rest => (digits rest).map fun n => -Int.ofNat n
    | _ => (digits s).map Int.ofNat
  value.filter fun n => -2 ^ 63 ≤ n ∧ n < 2 ^ 63

/-- `strconv.Itoa`. -/
def itoa : Int → Bytes
  | .ofNat n => (Nat.toDigits 10 n).map fun c => UInt8.ofNat c.toNat
  | .negSucc n => 45 :: (Nat.toDigits 10 (n + 1)).map fun c => UInt8.ofNat c.toNat

/-- Why `net.SplitHostPort` fails. -/
inductive AddrError
  | missingPort
  | tooManyColons
  | missingBracket
  | unexpectedOpen
  | unexpectedClose
  deriving DecidableEq

/-- The position of the last occurrence of a byte. -/
def lastIndexByte (b : UInt8) (s : Bytes) : Option Nat :=
  (s.reverse.idxOf? b).map fun i => s.length - 1 - i

/-- The parts of an address whose last colon is at `i`. The brackets of a host
have been checked, and no further one may stand after `opened` or `closed`. -/
def splitAt (s host : Bytes) (i opened closed : Nat) : Except AddrError (Bytes × Bytes) :=
  if 91 ∈ s.drop opened then .error .unexpectedOpen
  else if 93 ∈ s.drop closed then .error .unexpectedClose
  else .ok (host, s.drop (i + 1))

/-- `net.SplitHostPort`. -/
def splitHostPort (s : Bytes) : Except AddrError (Bytes × Bytes) :=
  match lastIndexByte 58 s with
  | none => .error .missingPort
  | some i =>
      if s.head? = some 91 then
        match s.idxOf? 93 with
        | none => .error .missingBracket
        | some close =>
            if close + 1 = s.length then .error .missingPort
            else if close + 1 = i then splitAt s ((s.take close).drop 1) i 1 (close + 1)
            else if s[close + 1]? = some 58 then .error .tooManyColons
            else .error .missingPort
      else if 58 ∈ s.take i then .error .tooManyColons
      else splitAt s (s.take i) i 0 0

/-- `net.JoinHostPort`: a host with a colon gets brackets. -/
def joinHostPort (host port : Bytes) : Bytes :=
  if 58 ∈ host then [91] ++ host ++ [93, 58] ++ port else host ++ [58] ++ port

/-- One element of a path is put on the stack of those before it. -/
def pushElement (rooted : Bool) (stack : List Bytes) (element : Bytes) : List Bytes :=
  if element = [] ∨ element = [46] then stack
  else if element = [46, 46] then
    match stack with
    | [] => if rooted then [] else [element]
    | last :: rest => if last = [46, 46] then element :: stack else rest
  else element :: stack

/-- `filepath.Clean`. -/
def clean (path : Bytes) : Bytes :=
  let rooted : Bool := path.head? = some 47
  let stack := (path.splitOn 47).foldl (pushElement rooted) []
  let body := List.intercalate [47] stack.reverse
  if rooted then 47 :: body else if body = [] then [46] else body

/-- `filepath.Join` of a directory and a name. -/
def join (dir name : Bytes) : Bytes :=
  if dir = [] then if name = [] then [] else clean name
  else if name = [] then clean dir
  else clean (dir ++ [47] ++ name)

theorem clean_ne_nil (path : Bytes) : clean path ≠ [] := by
  simp only [clean]
  split
  · exact List.cons_ne_nil _ _
  · split
    · exact List.cons_ne_nil _ _
    · assumption

theorem join_ne_nil (dir : Bytes) {name : Bytes} (h : name ≠ []) : join dir name ≠ [] := by
  rw [join, if_neg h, if_neg h]
  split <;> exact clean_ne_nil _

/-- `strings.Split` at commas, without the empty parts and surrounding space. -/
def splitCommas (s : Bytes) : List Bytes :=
  ((s.splitOn 44).map trimSpace).filter fun part => part ≠ []

end UnknownTunnel.Foundation.Text
