import ExactCover.Json.Token

namespace ExactCover.Json

/-- The quotation mark. -/
def quote : UInt8 := ascii '"'

/-- The backslash. -/
def backslash : UInt8 := ascii '\\'

/-- The letters of short escapes and the bytes they stand for. -/
def shortEscapes : List (UInt8 × UInt8) :=
  [(quote, quote), (backslash, backslash), (ascii '/', ascii '/'), (ascii 'b', 8),
    (ascii 'f', 12), (ascii 'n', 10), (ascii 'r', 13), (ascii 't', 9)]

/-- The byte that a short escape stands for. -/
def ofEscape? (letter : UInt8) : Option UInt8 := shortEscapes.lookup letter

/-- A hexadecimal digit in lower case. -/
def hexDigit (n : Nat) : UInt8 := ascii (Nat.digitChar n)

/-- The value of a hexadecimal digit in either case. -/
def hexValue? (b : UInt8) : Option Nat :=
  let n := b.toNat
  if 48 ≤ n ∧ n ≤ 57 then some (n - 48)
  else if 97 ≤ n ∧ n ≤ 102 then some (n - 87)
  else if 65 ≤ n ∧ n ≤ 70 then some (n - 55)
  else none

/-- How a byte of a string is written. Only quotation marks, backslashes and control characters are
    escaped, the latter by a letter where they have one. -/
def escape (b : UInt8) : Bytes :=
  if b = quote then [backslash, quote]
  else if b = backslash then [backslash, backslash]
  else if b = 8 then [backslash, ascii 'b']
  else if b = 12 then [backslash, ascii 'f']
  else if b = 10 then [backslash, ascii 'n']
  else if b = 13 then [backslash, ascii 'r']
  else if b = 9 then [backslash, ascii 't']
  else if b < 32 then
    [backslash, ascii 'u', ascii '0', ascii '0', hexDigit (b.toNat / 16), hexDigit (b.toNat % 16)]
  else [b]

/-- A string in quotation marks, with its control characters, quotation marks and backslashes
    escaped. -/
def writeString (s : String) : Bytes :=
  quote :: (Bytes.ofString s).flatMap escape ++ [quote]

/-- The number of four hexadecimal digits. -/
def readHex : Reader Nat
  | a :: b :: c :: d :: rest =>
    match [a, b, c, d].mapM hexValue? with
    | some ds => .ok (ds.foldl (fun n d => 16 * n + d) 0, rest)
    | none => .error .malformed
  | _ => .error .truncated

/-- The bytes of a code point. -/
def codePoint (n : Nat) : Bytes := String.utf8EncodeChar (Char.ofNat n)

/-- Reads the second escape of a character that needs two, whose first number is given. -/
def readTrailing (leading : Nat) : Reader Bytes
  | [] => .error .truncated
  | b :: bs =>
    if b ≠ backslash then .error .malformed
    else
      match bs with
      | [] => .error .truncated
      | c :: bs =>
        if c ≠ ascii 'u' then .error .malformed
        else
          match readHex bs with
          | .error e => .error e
          | .ok (trailing, rest) =>
            if 0xDC00 ≤ trailing ∧ trailing ≤ 0xDFFF then
              .ok (codePoint (0x10000 + (leading - 0xD800) * 0x400 + (trailing - 0xDC00)), rest)
            else .error .malformed

/-- The bytes of a character given by number. Characters beyond U+FFFF are given by two numbers, of
    which neither may stand alone. -/
def readCodePoint (bs : Bytes) : Except Error (Bytes × Bytes) :=
  match readHex bs with
  | .error e => .error e
  | .ok (n, rest) =>
    if 0xDC00 ≤ n ∧ n ≤ 0xDFFF then .error .malformed
    else if 0xD800 ≤ n ∧ n ≤ 0xDBFF then readTrailing n rest
    else .ok (codePoint n, rest)

/-- The bytes that an escape stands for, whose backslash has been read. -/
def readEscape : Reader Bytes
  | [] => .error .truncated
  | b :: bs =>
    match ofEscape? b with
    | some c => .ok ([c], bs)
    | none => if b = ascii 'u' then readCodePoint bs else .error .malformed

/-- Reading a number takes up bytes, so less is left than there was. -/
theorem readHex_length_le {bs rest : Bytes} {n : Nat} (h : readHex bs = .ok (n, rest)) :
    rest.length ≤ bs.length := by
  unfold readHex at h
  split at h
  · split at h
    · cases h
      simp only [List.length_cons]
      omega
    · cases h
  · cases h

theorem readTrailing_length_le {leading : Nat} {bs rest out : Bytes}
    (h : readTrailing leading bs = .ok (out, rest)) : rest.length ≤ bs.length := by
  unfold readTrailing at h
  repeat' split at h
  all_goals try contradiction
  rename_i heq _
  have hle := readHex_length_le heq
  simp only [Except.ok.injEq, Prod.mk.injEq] at h
  simp only [List.length_cons, ← h.2]
  omega

theorem readCodePoint_length_le {bs rest out : Bytes} (h : readCodePoint bs = .ok (out, rest)) :
    rest.length ≤ bs.length := by
  unfold readCodePoint at h
  split at h
  · cases h
  · rename_i heq
    have hle := readHex_length_le heq
    repeat' split at h
    · cases h
    · exact Nat.le_trans (readTrailing_length_le h) hle
    · cases h
      exact hle

/-- An escape takes up bytes, so reading a string goes on with fewer of them. -/
theorem readEscape_length_le {bs rest out : Bytes} (h : readEscape bs = .ok (out, rest)) :
    rest.length ≤ bs.length := by
  unfold readEscape at h
  split at h
  · cases h
  · split at h
    · cases h
      exact Nat.le_succ _
    · split at h
      · exact Nat.le_succ_of_le (readCodePoint_length_le h)
      · cases h

/-- The bytes of a string up to its closing quotation mark. -/
def readBody (bs : Bytes) : Except Error (Bytes × Bytes) :=
  match bs with
  | [] => .error .truncated
  | b :: bs =>
    if b = quote then .ok ([], bs)
    else if b = backslash then
      match _h : readEscape bs with
      | .error e => .error e
      | .ok (out, rest) => (readBody rest).map fun (body, rest) => (out ++ body, rest)
    else if b < 32 then .error .malformed
    else (readBody bs).map fun (body, rest) => (b :: body, rest)
termination_by bs.length
decreasing_by
  · exact Nat.lt_succ_of_le (readEscape_length_le _h)
  · simp

/-- Reads a string whose opening quotation mark has been read. Only at the end is it seen whether
    its bytes are UTF-8. -/
def readString (bs : Bytes) : Except Error (String × Bytes) := do
  let (body, rest) ← readBody bs
  match Bytes.toString? body with
  | some s => .ok (s, rest)
  | none => .error .malformed

/-- Passes over a string whose opening quotation mark has been read. Which characters its bytes and
    escapes give does not matter. -/
def skipString : Bytes → Except Error Bytes
  | [] => .error .truncated
  | b :: bs =>
    if b = quote then .ok bs
    else if b = backslash then
      match bs with
      | [] => .error .truncated
      | c :: bs =>
        if (ofEscape? c).isSome then skipString bs
        else if c = ascii 'u' then
          match bs with
          | d :: e :: f :: g :: bs =>
            if [d, e, f, g].all fun digit => (hexValue? digit).isSome then skipString bs
            else .error .malformed
          | _ => .error .truncated
        else .error .malformed
    else if b < 32 then .error .malformed
    else skipString bs

end ExactCover.Json
