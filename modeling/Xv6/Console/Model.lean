import Mathlib.Algebra.Group.Int.Defs
import Mathlib.Algebra.Group.Nat.Defs
import Mathlib.Logic.Function.Basic
import Mathlib.Tactic.Common
import Xv6.Lib.Ring

/-!
# The console as a source of lines (`console.c`)

`consoleintr` takes the characters of the keyboard and the serial line and edits the line
at the end of the input buffer; `consoleread` hands out what has been committed.  Both run
with `cons.lock` held, and a reader gives the lock up only where it sleeps, so the model
takes one call of `consoleintr` and one stretch of `consoleread` from `acquire` or `sleep`
to the next `sleep` or return as one step.

`Typed.key` is not from the source.  It says what typing a character is for: the line that
is being edited and the text that has been committed.
-/

namespace Xv6
namespace Console

open Lib Function

def INPUT_BUF : Nat := 128

/-- `C(x)`. -/
def ctrl (x : Char) : UInt8 := UInt8.ofNat (x.toNat - '@'.toNat)

def newline : UInt8 := 10

def carriageReturn : UInt8 := 13

def delete : UInt8 := 0x7f

/-- `input`. -/
structure Input where
  buf : Nat → UInt8
  r : UInt32
  w : UInt32
  e : UInt32

/-- The place of an index in `buf`. -/
def cell (i : UInt32) : Nat := i.toNat % INPUT_BUF

/-! ## `consoleintr` -/

/-- The loop of `C('U')`.  The index reaches `w` after `e - w` rounds at most. -/
def killLoop : Nat → Input → Input
  | 0, inp => inp
  | n + 1, inp =>
    if inp.e ≠ inp.w ∧ inp.buf (cell (inp.e - 1)) ≠ newline then
      killLoop n { inp with e := inp.e - 1 }
    else inp

def killLine (inp : Input) : Input := killLoop (inp.e - inp.w).toNat inp

/-- The branch `default`. -/
def insert (inp : Input) (c : UInt8) : Input :=
  if c ≠ 0 ∧ inp.e - inp.r < 128 then
    let c := if c = carriageReturn then newline else c
    let e := inp.e + 1
    let w := if c = newline ∨ c = ctrl 'D' ∨ e = inp.r + 128 then e else inp.w
    ⟨update inp.buf (cell inp.e) c, inp.r, w, e⟩
  else inp

/-- One character. -/
def key (inp : Input) (c : UInt8) : Input :=
  if c = ctrl 'P' then inp
  else if c = ctrl 'U' then killLine inp
  else if c = ctrl 'H' ∨ c = delete then
    if inp.e ≠ inp.w then { inp with e := inp.e - 1 } else inp
  else insert inp c

/-- `cs` is what `getc` gives. -/
def consoleintr (inp : Input) (cs : List UInt8) : Input := cs.foldl key inp

/-! ## `consoleread` -/

/-- How a stretch of `consoleread` ends, with the value of `n`. -/
inductive Status where
  | asleep (n : Nat)
  | ret (n : Nat)
deriving DecidableEq

/-- The loop, from the test `n > 0` on.  Gives the bytes stored at `dst`. -/
def readLoop (target : Nat) : Nat → Input → Input × List UInt8 × Status
  | 0, inp => (inp, [], .ret 0)
  | n + 1, inp =>
    if inp.r = inp.w then (inp, [], .asleep (n + 1))
    else
      let c := inp.buf (cell inp.r)
      let next := { inp with r := inp.r + 1 }
      if c = ctrl 'D' then
        if n + 1 < target then ({ next with r := next.r - 1 }, [], .ret (n + 1))
        else (next, [], .ret (n + 1))
      else if c = newline then (next, [c], .ret n)
      else
        match readLoop target n next with
        | (inp', bytes, status) => (inp', c :: bytes, status)

/-! ## What is typed -/

/-- The text that has been committed, and the line that is being edited. -/
structure Typed where
  committed : List UInt8
  line : List UInt8

/-- What a character does.  There is room for `INPUT_BUF` characters that no reader has
taken; a line that fills it is committed. -/
def Typed.key (taken : Nat) (t : Typed) (c : UInt8) : Typed :=
  if c = ctrl 'P' then t
  else if c = ctrl 'U' then ⟨t.committed, []⟩
  else if c = ctrl 'H' ∨ c = delete then ⟨t.committed, t.line.dropLast⟩
  else if c ≠ 0 ∧ t.committed.length + t.line.length - taken < INPUT_BUF then
    let c := if c = carriageReturn then newline else c
    let line := t.line ++ [c]
    if c = newline ∨ c = ctrl 'D' ∨ t.committed.length + line.length - taken = INPUT_BUF then
      ⟨t.committed ++ line, []⟩
    else ⟨t.committed, line⟩
  else t

/-! ## The system -/

/-- What readers get. -/
inductive Out where
  /-- A byte is stored at `dst`. -/
  | byte (b : UInt8)
  /-- A read of more than 0 bytes returns 0. -/
  | zero
deriving DecidableEq

/-- The console and its readers. -/
structure Sys where
  input : Input
  /-- A reader that sleeps, with `n` and `target`. -/
  reader : Nat → Option (Nat × Nat)
  typed : Typed
  /-- What the readers got. -/
  log : List Out

inductive Label where
  | intr (cs : List UInt8)
  /-- Reader `i` calls `consoleread` for `n` bytes. -/
  | call (i : Nat) (n : Int)
  /-- Reader `i` goes on after `sleep`. -/
  | wake (i : Nat)

/-- What a reader got in a stretch.  The call returns `target - n`. -/
def outs (target : Nat) (bytes : List UInt8) (status : Status) : List Out :=
  bytes.map Out.byte ++
    match status with
    | .asleep _ => []
    | .ret n => if target - n = 0 then [.zero] else []

/-- The end of a stretch. -/
def Sys.finish (s : Sys) (i target : Nat) (res : Input × List UInt8 × Status) : Sys where
  input := res.1
  reader := update s.reader i
    (match res.2.2 with
    | .asleep n => some (n, target)
    | .ret _ => none)
  typed := s.typed
  log := s.log ++ outs target res.2.1 res.2.2

def step (l : Label) (s : Sys) : Except Unit Sys :=
  match l with
  | .intr cs => .ok { s with
      input := consoleintr s.input cs
      typed := cs.foldl (Typed.key s.log.length) s.typed }
  | .call i n =>
    match s.reader i with
    | some _ => .error ()
    | none =>
      -- a call for no bytes returns at once
      if n ≤ 0 then .ok s
      else .ok (s.finish i n.toNat (readLoop n.toNat n.toNat s.input))
  | .wake i =>
    match s.reader i with
    | none => .error ()
    | some (n, target) => .ok (s.finish i target (readLoop target n s.input))

def Steps (s : Sys) (l : Label) (s' : Sys) : Prop := step l s = .ok s'

/-- The buffer at the start, with the indexes that are 0. -/
def start (buf : Nat → UInt8) : Sys := ⟨⟨buf, 0, 0, 0⟩, fun _ => none, ⟨[], []⟩, []⟩

end Console
end Xv6
