import BoundedBytes.Demo.Arithmetic
import BoundedBytes.Queue.Basic

namespace BoundedBytes.Demo
open Trial

-- A queue of 32 slots filled, drained and led across the end of its ring. The
-- last ten insertions start on the last slot, so they wrap.
def queueTrial : Trial (Queue 32) Unit := do
  expect (← attempt (·.init 0 32)) (.ok ()) "should initialise queue"
  expect (← attempt Queue.dequeue) (.error .empty) "get from empty queue should fail"
  expect (← attempt (·.enqueue 5)) (.ok ()) "should put 5 into queue"
  expect (← attempt Queue.dequeue) (.ok 5) "get should return 5"
  expect (← attempt Queue.dequeue) (.error .empty) "second get should fail"
  expect (← attempt Queue.initWhole) (.ok ()) "should re-initialise queue"
  let filling := (List.range' 1 31).map UInt8.ofNat
  for value in filling do
    expect (← attempt (·.enqueue value)) (.ok ()) "should be able to fill queue"
  expect (← attempt (·.enqueue 130)) (.error .full) "last put to full queue should fail"
  for value in filling do
    expect (← attempt Queue.dequeue) (.ok value) "should get filled values in order"
  let wrapping := (List.range' 1 10).map UInt8.ofNat
  for value in wrapping do
    expect (← attempt (·.enqueue value)) (.ok ()) "should put 10 more values"
  if let some cursors ← inspect fun q => some q.cursors then
    info ("cursors after wrap: " ++ render cursors)
  for value in wrapping do
    expect (← attempt Queue.dequeue) (.ok value) "should get wrapped values in order"
  expect (← attempt Queue.dequeue) (.error .empty) "drained queue should be empty"

def queueLog : Checked Log := queueTrial.log "queue" (Queue.new 32)

end BoundedBytes.Demo
