import ScriptTyping.Text.Hex

set_option autoImplicit false

namespace ScriptTyping.Utf8

inductive Reason where
  | badStart
  | badContinuation
  | unfinished
deriving DecidableEq

def Reason.message : Reason → String
  | badStart => "invalid start byte"
  | badContinuation => "invalid continuation byte"
  | unfinished => "unexpected end of data"

inductive Segment where
  | char (c : Char)
  | bad (bytes : List UInt8) (reason : Reason)

-- What the first byte of an encoding says: its share of the code point, how many bytes follow, and
-- the range in which the next of them lies.
structure Opening where
  share : Nat
  following : Nat
  low : UInt8
  high : UInt8

def opening? (first : UInt8) : Option Opening :=
  if first < 0x80 then some ⟨first.toNat, 0, 0x80, 0xBF⟩
  else if first < 0xC2 then none
  else if first < 0xE0 then some ⟨first.toNat - 0xC0, 1, 0x80, 0xBF⟩
  else if first < 0xF0 then
    some ⟨first.toNat - 0xE0, 2, if first = 0xE0 then 0xA0 else 0x80,
      if first = 0xED then 0x9F else 0xBF⟩
  else if first < 0xF5 then
    some ⟨first.toNat - 0xF0, 3, if first = 0xF0 then 0x90 else 0x80,
      if first = 0xF4 then 0x8F else 0xBF⟩
  else none

def continueWith (code : Nat) (low high : UInt8) (taken : List UInt8) :
    Nat → List UInt8 → Segment × List UInt8
  | 0, rest => (.char (Char.ofNat code), rest)
  | _ + 1, [] => (.bad taken.reverse .unfinished, [])
  | more + 1, byte :: rest =>
      if low ≤ byte ∧ byte ≤ high then
        continueWith (code * 64 + byte.toNat % 64) 0x80 0xBF (byte :: taken) more rest
      else (.bad taken.reverse .badContinuation, byte :: rest)

theorem length_continueWith (code : Nat) (low high : UInt8) (taken : List UInt8) (more : Nat)
    (bytes : List UInt8) :
    (continueWith code low high taken more bytes).2.length ≤ bytes.length := by
  induction more generalizing code low high taken bytes with
  | zero => simp [continueWith]
  | succ more ih =>
      cases bytes with
      | nil => simp [continueWith]
      | cons byte rest =>
          simp only [continueWith]
          split
          · exact Nat.le_succ_of_le (ih _ _ _ _ rest)
          · simp

def next (first : UInt8) (rest : List UInt8) : Segment × List UInt8 :=
  match opening? first with
  | none => (.bad [first] .badStart, rest)
  | some opening =>
      continueWith opening.share opening.low opening.high [first] opening.following rest

theorem length_next (first : UInt8) (rest : List UInt8) :
    (next first rest).2.length ≤ rest.length := by
  unfold next
  split
  · simp
  · exact length_continueWith ..

def segmentsFrom (bytes : List UInt8) (found : Array Segment) : Array Segment :=
  match bytes with
  | [] => found
  | first :: rest =>
      let step := next first rest
      segmentsFrom step.2 (found.push step.1)
termination_by bytes.length
decreasing_by exact Nat.lt_succ_of_le (length_next first rest)

def segments (bytes : List UInt8) : List Segment := (segmentsFrom bytes #[]).toList

def Segment.shown : Segment → Char
  | char c => c
  | bad _ _ => '\uFFFD'

def decodeLenient (bytes : ByteArray) : String :=
  String.ofList ((segments bytes.toList).map Segment.shown)

structure Fault where
  position : Nat
  bytes : List UInt8
  reason : Reason

def Fault.message (fault : Fault) : String :=
  match fault.bytes with
  | [byte] =>
      "'utf-8' codec can't decode byte 0x" ++ String.ofList (Hex.digits 2 byte.toNat) ++
        " in position " ++ toString fault.position ++ ": " ++ fault.reason.message
  | bytes =>
      "'utf-8' codec can't decode bytes in position " ++ toString fault.position ++ "-" ++
        toString (fault.position + bytes.length - 1) ++ ": " ++ fault.reason.message

def firstFault (position : Nat) : List Segment → Fault
  | [] => ⟨position, [], .unfinished⟩
  | .char c :: rest => firstFault (position + c.utf8Size) rest
  | .bad bytes reason :: _ => ⟨position, bytes, reason⟩

def decode (bytes : ByteArray) : Except Fault String :=
  match String.fromUTF8? bytes with
  | some text => .ok text
  | none => .error (firstFault 0 (segments bytes.toList))

-- The text of a range of bytes; a range is cut to the bytes there are.
def decodeRange (bytes : ByteArray) (start stop : Nat) : Except Fault String :=
  decode (bytes.extract start stop)

end ScriptTyping.Utf8
