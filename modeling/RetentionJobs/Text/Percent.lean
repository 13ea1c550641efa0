/-! Percent signs with two hexadecimal digits stand for bytes, and bytes are read as UTF-8. -/
namespace RetentionJobs.Text

def utf8Bytes (cs : List Char) : List UInt8 := cs.flatMap String.utf8EncodeChar

def hexByte? (b : UInt8) : Option UInt8 :=
  if 48 ≤ b ∧ b ≤ 57 then some (b - 48)
  else if 97 ≤ b ∧ b ≤ 102 then some (b - 87)
  else if 65 ≤ b ∧ b ≤ 70 then some (b - 55)
  else none

/-- Decodes the bytes that a percent sign and two digits stand for. A percent sign without digits
stands for itself. -/
def percentDecode : List UInt8 → List UInt8
  | [] => []
  | b :: x :: y :: rest =>
    if b = 37 then
      match hexByte? x, hexByte? y with
      | some h, some l => (h * 16 + l) :: percentDecode rest
      | _, _ => b :: percentDecode (x :: y :: rest)
    else b :: percentDecode (x :: y :: rest)
  | b :: rest => b :: percentDecode rest

/-- How many bytes of a character are still missing, its bits so far, and the bounds of the next
byte. -/
structure Pending where
  missing : Nat
  bits : Nat
  low : UInt8 := 0x80
  high : UInt8 := 0xBF

/-- What a first byte begins: a whole character, a part of one, or nothing. -/
def lead (b : UInt8) : Except Pending (Option Char) :=
  if b < 0x80 then .ok (some (Char.ofNat b.toNat))
  else if b < 0xC2 then .ok none
  else if b < 0xE0 then .error ⟨1, b.toNat - 0xC0, 0x80, 0xBF⟩
  else if b = 0xE0 then .error ⟨2, 0, 0xA0, 0xBF⟩
  else if b = 0xED then .error ⟨2, 0xD, 0x80, 0x9F⟩
  else if b < 0xF0 then .error ⟨2, b.toNat - 0xE0, 0x80, 0xBF⟩
  else if b = 0xF0 then .error ⟨3, 0, 0x90, 0xBF⟩
  else if b < 0xF4 then .error ⟨3, b.toNat - 0xF0, 0x80, 0xBF⟩
  else if b = 0xF4 then .error ⟨3, 4, 0x80, 0x8F⟩
  else .ok none

/-- Reads bytes as UTF-8. A longest run of bytes that begins a character but does not complete it is
read as `none`, and so is a byte that begins none. -/
def utf8Decode (state : Option Pending) : List UInt8 → List (Option Char)
  | [] => if state.isSome then [none] else []
  | b :: rest =>
    let fresh (_ : Unit) : List (Option Char) :=
      match lead b with
      | .ok c => c :: utf8Decode none rest
      | .error p => utf8Decode (some p) rest
    match state with
    | none => fresh ()
    | some p =>
      if p.low ≤ b ∧ b ≤ p.high then
        let bits := p.bits * 64 + (b.toNat - 0x80)
        if p.missing ≤ 1 then some (Char.ofNat bits) :: utf8Decode none rest
        else utf8Decode (some ⟨p.missing - 1, bits, 0x80, 0xBF⟩) rest
      else none :: fresh ()

/-- The text of bytes, with a replacement character for what is not UTF-8. -/
def utf8Lossy (bytes : List UInt8) : List Char :=
  (utf8Decode none bytes).map (·.getD '\ufffd')

def utf8? (bytes : List UInt8) : Option (List Char) := (utf8Decode none bytes).mapM id

end RetentionJobs.Text
