import BoundedBytes.Demo.Arithmetic
import BoundedBytes.Stack.Basic

namespace BoundedBytes.Demo
open Trial

-- A stack of 32 bytes from its first bounds to its last byte.
def stackTrial : Trial (Stack 32) Unit := do
  expect (← attempt (·.init 0 32)) (.error .invalidRange) "init with inverted bounds should fail"
  let unset ← inspect fun s => some s.cursors.isNone
  check unset "failed init should leave the stack unset"
  expect (← attempt (·.init 32 0)) (.ok ()) "should initialise stack"
  if let some cursors ← inspect fun s => some s.cursors then
    info ("cursors: " ++ render cursors)
  let top ← inspect fun s => some (s.cursors.map (·.top))
  expect top (some 32) "top should start on the sentinel"
  expect (← inspect Stack.capacity) 32 "capacity should be 32"
  expect (← attempt Stack.pop) (.error .underflow) "pop from empty stack should fail"
  expect (← attempt (·.push 5)) (.ok ()) "should push 5"
  expect (← attempt Stack.pop) (.ok 5) "pop should return 5"
  expect (← attempt Stack.pop) (.error .underflow) "second pop should underflow"
  let values := (List.range' 1 32).map UInt8.ofNat
  for value in values do
    expect (← attempt (·.push value)) (.ok ()) "should be able to fill stack"
  let full ← inspect fun s => some s.cursors
  expect (← attempt (·.push 33)) (.error .overflow) "push to full stack should fail"
  let kept ← inspect fun s => some (decide (s.cursors = full))
  check kept "failed push should not move the cursors"
  for value in values.reverse do
    expect (← attempt Stack.pop) (.ok value) "should pop filled values in reverse"
  expect (← attempt Stack.pop) (.error .underflow) "drained stack should underflow"

def stackLog : Checked Log := stackTrial.log "stack" (Stack.new 32)

end BoundedBytes.Demo
