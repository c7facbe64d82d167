/-!
Where printing goes. A sink may have room for a number of bytes only; what does not fit is
cut off at the last byte that does, and the write fails.
-/

set_option autoImplicit false

namespace Lox

structure Sink where
  written : ByteArray
  capacity : Option Nat

namespace Sink

def unlimited : Sink := ⟨.empty, none⟩

def limited (capacity : Nat) : Sink := ⟨.empty, some capacity⟩

/-- Writes what fits, and tells whether that was all. -/
def write (s : Sink) (text : String) : Bool × Sink :=
  let whole := s.written ++ text.toUTF8
  match s.capacity with
  | none => (true, { s with written := whole })
  | some capacity =>
    if whole.size ≤ capacity then (true, { s with written := whole })
    else (false, { s with written := whole.extract 0 capacity })

end Sink

end Lox
