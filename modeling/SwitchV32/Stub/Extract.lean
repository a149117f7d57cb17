import SwitchV32.Stub.Parser
import SwitchV32.Memory

/-!
# Fields of a packet

`stubb_a_dub/src/extract.c`: a cursor that cuts the packet into strings, by
writing their NULs into the input buffer. The bytes of the buffer from `filled`
on are not for the stub to read or write.
-/

namespace SwitchV32

/-- How a builder ends without a reply. -/
inductive BuildFault
  /-- the assertion of `sad_cursor_tokenizer` fails -/
  | assertion
  /-- the input buffer is read or written at an index that is not below `filled` -/
  | outside
  /-- an array whose size the client chooses does not fit on the stack -/
  | stack
  /-- one of the `sys_ops` ends the program -/
  | sys (stop : Stop)
  /-- still in `wait_for_halt` when the client sends nothing more -/
  | waiting
  deriving DecidableEq, Repr

namespace Pkt

def read (p : Pkt) (i : Nat) : Except BuildFault U8 :=
  match p.data[i]? with
  | some b => .ok b
  | none => .error .outside

def write (p : Pkt) (i : Nat) (b : U8) : Except BuildFault Pkt :=
  if i < p.data.length then .ok { p with data := p.data.set i b } else .error .outside

/-- The characters of the string at index `i`, which has a NUL. -/
def str (p : Pkt) (i : Nat) : Except BuildFault (List U8) :=
  if (0 : U8) ∈ p.data.drop i then .ok (cString (p.data.drop i)) else .error .outside

end Pkt

/-- The terminator of a field; `EOB` is the end of the packet. -/
abbrev Term := Option U8

abbrev eob : Term := none

/-- How far the string at `start` goes, `idx` bytes of which are passed and up to `n` are left. -/
def tokenLoop (p : Pkt) (term : Term) (start : Nat) : Nat → Nat → Except BuildFault Nat
  | 0, idx => .ok idx
  | n + 1, idx =>
    match term with
    | none => tokenLoop p term start n (idx + 1)
    | some c => do
      let b ← p.read (start + (idx + 1))
      -- early exit on terminator
      if b = c then return idx + 1
      else tokenLoop p term start n (idx + 1)

/-- `end_pkt_data - cursor` on a `size_t` -/
def tokenLen (p : Pkt) (cursor : Nat) : Nat :=
  if cursor ≤ p.endPktData then p.endPktData - cursor else 2 ^ 64 - (cursor - p.endPktData)

/-- The index of the string, the next cursor and the buffer. -/
def sadCursorTokenizer (p : Pkt) (cursor : Nat) (term : Term) :
    Except BuildFault (Nat × Nat × Pkt) := do
  -- crash if calling this AFTER reaching the EOB
  if cursor = p.endPktData + 1 then throw .assertion
  let idx ← tokenLoop p term cursor (tokenLen p cursor) 0
  let p ← p.write (cursor + idx) 0
  return (cursor, cursor + (idx + 1), p)

def sadExtractStr (p : Pkt) (cursor : Nat) (term : Term) : Except BuildFault (Nat × Nat × Pkt) :=
  sadCursorTokenizer p cursor term

/-- A number that the check lets through, `none` being `STUB_UNEXPECTED`. -/
def sadExtract (check : Int → Bool) (p : Pkt) (cursor : Nat) (term : Term) :
    Except BuildFault (Option Int × Nat × Pkt) := do
  let (start, cursor, p) ← sadCursorTokenizer p cursor term
  let str ← p.str start
  let val := strtol16 str
  return (if check val then some val else none, cursor, p)

def checkUint32 (val : Int) : Bool := !(val > 2 ^ 32 - 1 || val < 0)
def checkUint64 (val : Int) : Bool := !(val = longMax || val < 0)
def checkLong (val : Int) : Bool := !(val = longMax || val = longMin)

def sadExtractUint32 := sadExtract checkUint32
def sadExtractUint64 := sadExtract checkUint64
def sadExtractLong := sadExtract checkLong

end SwitchV32
