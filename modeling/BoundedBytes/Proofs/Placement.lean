import BoundedBytes.Proofs.Queue.Placement
import BoundedBytes.Proofs.Stack.Placement

namespace BoundedBytes

-- Two containers of any histories, given equal room at any two places of
-- arrays of any sizes, cannot be told apart from then on, except by where they
-- lie.
theorem run_displaced (size size' : Word) :
    (∀ (q ready : Queue size) (q' ready' : Queue size') (start stop start' stop' : Word)
        (calls : List Queue.Call),
      q.init start stop = some (.ok (), ready) →
      q'.init start' stop' = some (.ok (), ready') →
      stop.toNat - start.toNat = stop'.toNat - start'.toNat →
      (∀ call ∈ calls, call.keepsBounds = true) →
      ∃ answers last last', run (observed Queue.step) ready calls = some (answers, last) ∧
        run (observed Queue.step) ready' calls = some (answers, last') ∧
        ∃ c d, last.cursors = some c ∧ last'.cursors = some d ∧ c.Shifted start start' d) ∧
    ∀ (s ready : Stack size) (s' ready' : Stack size') (sentinel bottom sentinel' bottom' : Word)
        (calls : List Stack.Call),
      s.init sentinel bottom = some (.ok (), ready) →
      s'.init sentinel' bottom' = some (.ok (), ready') →
      sentinel.toNat - bottom.toNat = sentinel'.toNat - bottom'.toNat →
      (∀ call ∈ calls, call.keepsBounds = true) →
      ∃ answers last last', run (observed Stack.step) ready calls = some (answers, last) ∧
        run (observed Stack.step) ready' calls = some (answers, last') ∧
        ∃ c d, last.cursors = some c ∧ last'.cursors = some d ∧ c.Shifted bottom bottom' d := by
  constructor
  · intro q ready q' ready' start stop start' stop' calls accepted accepted' slots kept
    exact Queue.run_shifted accepted accepted' slots kept
  · intro s ready s' ready' sentinel bottom sentinel' bottom' calls accepted accepted' slots kept
    exact Stack.run_shifted accepted accepted' slots kept

-- A new container beside a used one, each time in the upper slots of the latter.
-- A queue of two slots takes one byte at a time.
theorem run_displaced_used :
    (∃ used ready : Queue 5, ∃ ready' : Queue 3,
      run Queue.step (.new 5) [.initWhole, .enqueue 9] = some ([.ok none, .ok none], used) ∧
        used.init 3 5 = some (.ok (), ready) ∧ (Queue.new 3).init 1 3 = some (.ok (), ready') ∧
        run (observed Queue.step) ready [.enqueue 7, .enqueue 8, .dequeue] =
          some ([(.ok none, ⟨1, 1, false, true⟩), (.error .full, ⟨1, 1, false, true⟩),
            (.ok (some 7), ⟨1, 0, true, false⟩)], ⟨#v[9, 0, 0, 7, 0], some ⟨3, 5, 4, 3, 4⟩⟩) ∧
        run (observed Queue.step) ready' [.enqueue 7, .enqueue 8, .dequeue] =
          some ([(.ok none, ⟨1, 1, false, true⟩), (.error .full, ⟨1, 1, false, true⟩),
            (.ok (some 7), ⟨1, 0, true, false⟩)], ⟨#v[0, 7, 0], some ⟨1, 3, 2, 1, 2⟩⟩) ∧
        Queue.Cursors.Shifted 3 1 ⟨3, 5, 4, 3, 4⟩ ⟨1, 3, 2, 1, 2⟩) ∧
    ∃ used ready : Stack 5, ∃ ready' : Stack 3,
      run Stack.step (.new 5) [.initWhole, .push 9] = some ([.ok none, .ok none], used) ∧
        used.init 5 3 = some (.ok (), ready) ∧ (Stack.new 3).init 2 0 = some (.ok (), ready') ∧
        run (observed Stack.step) ready [.peek, .push 7, .pop] =
          some ([(.error .underflow, ⟨2, 0, true, false⟩), (.ok none, ⟨2, 1, false, false⟩),
            (.ok (some 7), ⟨2, 0, true, false⟩)], ⟨#v[0, 0, 0, 0, 7], some ⟨5, 3, 5⟩⟩) ∧
        run (observed Stack.step) ready' [.peek, .push 7, .pop] =
          some ([(.error .underflow, ⟨2, 0, true, false⟩), (.ok none, ⟨2, 1, false, false⟩),
            (.ok (some 7), ⟨2, 0, true, false⟩)], ⟨#v[0, 7, 0], some ⟨2, 0, 2⟩⟩) ∧
        Stack.Cursors.Shifted 3 0 ⟨5, 3, 5⟩ ⟨2, 0, 2⟩ := by
  constructor
  · let used : Queue 5 := ⟨#v[9, 0, 0, 0, 0], some ⟨0, 5, 0, 4, 1⟩⟩
    let ready : Queue 5 := ⟨#v[9, 0, 0, 0, 0], some ⟨3, 5, 3, 4, 3⟩⟩
    let ready' : Queue 3 := ⟨#v[0, 0, 0], some ⟨1, 3, 1, 2, 1⟩⟩
    obtain ⟨answers, last, last', ran, ran', c, d, present, present', shifted⟩ :=
      (run_displaced 5 3).1 used ready (.new 3) ready' 3 5 1 3 [.enqueue 7, .enqueue 8, .dequeue]
        rfl rfl rfl (by decide)
    cases ran
    cases ran'
    cases present
    cases present'
    exact ⟨used, ready, ready', rfl, rfl, rfl, rfl, rfl, shifted⟩
  · let used : Stack 5 := ⟨#v[0, 0, 0, 0, 9], some ⟨5, 0, 4⟩⟩
    let ready : Stack 5 := ⟨#v[0, 0, 0, 0, 9], some ⟨5, 3, 5⟩⟩
    let ready' : Stack 3 := ⟨#v[0, 0, 0], some ⟨2, 0, 2⟩⟩
    obtain ⟨answers, last, last', ran, ran', c, d, present, present', shifted⟩ :=
      (run_displaced 5 3).2 used ready (.new 3) ready' 5 3 2 0 [.peek, .push 7, .pop]
        rfl rfl rfl (by decide)
    cases ran
    cases ran'
    cases present
    cases present'
    exact ⟨used, ready, ready', rfl, rfl, rfl, rfl, rfl, shifted⟩

end BoundedBytes
