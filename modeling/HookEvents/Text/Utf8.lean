namespace HookEvents.Text

def utf8Bytes (s : String) : List UInt8 := s.toUTF8.data.toList

def decodeUtf8? (bytes : List UInt8) : Option String := String.fromUTF8? ⟨bytes.toArray⟩

def firstChar? (bytes : List UInt8) : Option Char := ByteArray.utf8DecodeChar? ⟨bytes.toArray⟩ 0

def utf8Width (first : UInt8) : Nat :=
  if first < 0x80 then 1
  else if first < 0xC2 then 0
  else if first < 0xE0 then 2
  else if first < 0xF0 then 3
  else if first < 0xF5 then 4
  else 0

def isContinuation (byte : UInt8) : Bool := 0x80 ≤ byte && byte ≤ 0xBF

def isSecond (first second : UInt8) : Bool :=
  isContinuation second && (first ≠ 0xE0 || 0xA0 ≤ second) && (first ≠ 0xED || second ≤ 0x9F) &&
    (first ≠ 0xF0 || 0x90 ≤ second) && (first ≠ 0xF4 || second ≤ 0x8F)

/-- How many bytes go on like a character, where there is none at the front. -/
def brokenLength : List UInt8 → Nat
  | first :: second :: rest =>
    if utf8Width first < 3 || !isSecond first second then 1
    else match rest with
      | third :: _ => if utf8Width first = 4 && isContinuation third then 3 else 2
      | [] => 2
  | _ => 1

/-- Reads on after `skipped` bytes. What is no character is replaced. -/
def lossyFrom : Nat → List UInt8 → List Char
  | _, [] => []
  | skipped + 1, _ :: bytes => lossyFrom skipped bytes
  | 0, byte :: bytes =>
    match firstChar? (byte :: bytes) with
    | some c => c :: lossyFrom (c.utf8Size - 1) bytes
    | none => '\uFFFD' :: lossyFrom (brokenLength (byte :: bytes) - 1) bytes

def lossy (bytes : List UInt8) : String := String.ofList (lossyFrom 0 bytes)

end HookEvents.Text
