import AuthMe.Audit.Writer

/-!
# What a step does to an audit writer

`Moves c s e s' o` says what each step can do; the fields that no law is about (the samples, the
promises of `flush` and `close`) are left open. `step_moves` is the inversion of `step`.
-/

namespace AuthMe.Audit

variable {α τ : Type}

/-! ## Steps -/

/-- The loop moves events from the queue to the jobs, and a slot is taken for each of them. -/
structure Moved (c : Config τ) (moved : List (Work α)) (s s' : State α τ) : Prop where
  stack : s'.stack = s.stack
  counts : s'.counts = s.counts
  writing : s'.writing = s.writing
  rejected : s'.rejected = s.rejected
  settled : s'.settled = s.settled
  calls : s'.calls = s.calls
  jobs : s'.jobs = s.jobs ++ moved
  queue : s.queue.toList = moved ++ s'.queue.toList
  capacity : s'.queue.capacity = s.queue.capacity
  active : s'.active = s.active + moved.length
  active_le : s.active ≤ c.concurrency → s'.active ≤ c.concurrency

theorem Moved.refl (c : Config τ) (s : State α τ) : Moved c [] s s :=
  ⟨rfl, rfl, rfl, rfl, rfl, rfl, (List.append_nil _).symm, rfl, rfl, rfl, id⟩

/-- What a step can do. -/
inductive Moves (c : Config τ) (s : State α τ) : Event α τ → State α τ → Output α → Prop
  | threw {event options now calls samples message} (hcalls : s.calls ≤ calls) :
    Moves c s (.enqueue event options now) { s with calls := calls, samples := samples }
      (.threw message)
  | slot {event options now samples} (hactive : s.active < c.concurrency) :
    Moves c s (.enqueue event options now)
      { s with
        calls := s.calls + 1, samples := samples, active := s.active + 1
        counts := { s.counts with accepted := s.counts.accepted + 1 }
        stack := .accepted ⟨s.calls, event⟩ true :: s.stack }
      (.accepted ⟨s.calls, event⟩)
  | queued {event options now samples queue} (hactive : ¬ s.active < c.concurrency)
      (hcapacity : queue.capacity = s.queue.capacity)
      (hqueue : queue.toList = s.queue.toList ++ [⟨s.calls, event⟩]) :
    Moves c s (.enqueue event options now)
      { s with
        calls := s.calls + 1, samples := samples, queue := queue
        counts := { s.counts with accepted := s.counts.accepted + 1 }
        stack := .accepted ⟨s.calls, event⟩ false :: s.stack }
      (.accepted ⟨s.calls, event⟩)
  | dropped {event options now samples} :
    Moves c s (.enqueue event options now)
      { s with
        calls := s.calls + 1, samples := samples
        counts := { s.counts with dropped := s.counts.dropped + 1 }
        stack := .dropped s.calls :: s.stack }
      (.dropped s.calls)
  | sampled {event options now samples} :
    Moves c s (.enqueue event options now)
      { s with
        calls := s.calls + 1, samples := samples
        counts := { s.counts with sampled := s.counts.sampled + 1 }
        stack := .sampled s.calls :: s.stack }
      (.sampled s.calls)
  | flush {flushing} : Moves c s .flush { s with flushing := flushing } .silent
  | close {accepting flushing closed} :
    Moves c s .close { s with accepting := accepting, flushing := flushing, closed := closed }
      .silent
  | launches {work stack} (hstack : s.stack = .accepted work true :: stack) :
    Moves c s .hookReturns { s with stack := stack, jobs := s.jobs ++ [work] }
      (.returned work.id .accepted)
  | leaves {work stack} (hstack : s.stack = .accepted work false :: stack) :
    Moves c s .hookReturns { s with stack := stack } (.returned work.id .accepted)
  | droppedReturns {id stack} (hstack : s.stack = .dropped id :: stack) :
    Moves c s .hookReturns { s with stack := stack } (.returned id .dropped)
  | sampledReturns {id stack} (hstack : s.stack = .sampled id :: stack) :
    Moves c s .hookReturns { s with stack := stack } (.returned id .sampled)
  | failureReturns {work stack} (hstack : s.stack = .writeFailure work :: stack) :
    Moves c s .hookReturns { s with stack := stack, settled := work :: s.settled } .silent
  | starts {work jobs} (hstack : s.stack = []) (hjobs : s.jobs = work :: jobs) :
    Moves c s .start { s with jobs := jobs, writing := work :: s.writing } (.started work)
  | resolves {id work writing} (hwriting : s.writing.Perm (work :: writing)) :
    Moves c s (.settle id true) { s with writing := writing, settled := work :: s.settled } .silent
  | rejects {id work writing} (hwriting : s.writing.Perm (work :: writing)) :
    Moves c s (.settle id false) { s with writing := writing, rejected := work :: s.rejected }
      .silent
  | fails {id work rejected} (hstack : s.stack = [])
      (hrejected : s.rejected.Perm (work :: rejected)) :
    Moves c s (.reject id)
      { s with
        rejected := rejected, stack := [.writeFailure work]
        counts := { s.counts with writeFailures := s.counts.writeFailures + 1 } } .silent
  | finishes {id work settled s' moved} (hstack : s.stack = [])
      (hsettled : s.settled.Perm (work :: settled))
      (hmoved : Moved c moved { s with settled := settled, active := s.active - 1 } s')
      (hfull : s'.queue.length ≠ 0 → c.concurrency ≤ s'.active) :
    Moves c s (.finish id) s' .silent

theorem hookReturns_moves {c : Config τ} {s s' : State α τ} {o : Output α}
    (h : hookReturns s = some (s', o)) : Moves c s .hookReturns s' o := by
  unfold hookReturns at h
  split at h
  · cases h
  · rename_i work startImmediately stack hstack
    cases startImmediately with
    | true =>
      cases h
      exact .launches hstack
    | false =>
      cases h
      exact .leaves hstack
  · rename_i hstack
    cases h
    exact .droppedReturns hstack
  · rename_i hstack
    cases h
    exact .sampledReturns hstack
  · rename_i hstack
    cases h
    exact .failureReturns hstack

/-! ## pick -/

theorem pick_perm {id : Nat} {ws rest : List (Work α)} {w : Work α}
    (h : pick id ws = some (w, rest)) : ws.Perm (w :: rest) := by
  induction ws generalizing rest with
  | nil => cases h
  | cons x xs ih =>
    unfold pick at h
    split at h
    · cases h
      exact .refl _
    · obtain ⟨r, hr, heq⟩ := Option.map_eq_some_iff.mp h
      obtain ⟨w', rest'⟩ := r
      cases heq
      exact ((ih hr).cons x).trans (.swap _ _ _)

theorem pick_head (w : Work α) (ws : List (Work α)) : pick w.id (w :: ws) = some (w, ws) := by
  simp [pick]

/-! ## drain -/

theorem drainLoop_moved (c : Config τ) (fuel : Nat) (s : State α τ)
    (hfuel : s.queue.length ≤ fuel) :
    ∃ moved, Moved c moved s (s.drainLoop c fuel) ∧
      ((s.drainLoop c fuel).queue.length ≠ 0 → c.concurrency ≤ (s.drainLoop c fuel).active) := by
  induction fuel generalizing s with
  | zero => exact ⟨[], .refl c s, fun hne => absurd (Nat.le_zero.mp hfuel) hne⟩
  | succ fuel ih =>
    unfold State.drainLoop
    by_cases hactive : s.active < c.concurrency
    · rw [if_pos hactive]
      cases hshift : s.queue.shift with
      | none => exact ⟨[], .refl c s, fun hne => absurd (RingBuffer.shift_eq_none hshift) hne⟩
      | some r =>
        obtain ⟨work, queue⟩ := r
        obtain ⟨hcap, hlist⟩ := RingBuffer.shift_eq_some hshift
        have hlength : s.queue.length = queue.length + 1 := by
          rw [← s.queue.length_toList, hlist, List.length_cons, queue.length_toList]
        have hle : queue.length ≤ fuel := by omega
        obtain ⟨moved, h, hfull⟩ :=
          ih (State.execute { s with active := s.active + 1, queue := queue } work) hle
        refine ⟨work :: moved, ?_, hfull⟩
        refine ⟨h.stack, h.counts, h.writing, h.rejected, h.settled, h.calls, ?_, ?_, ?_, ?_, ?_⟩
        · rw [h.jobs]
          simp [State.execute]
        · rw [hlist]
          exact congrArg (List.cons work) h.queue
        · exact h.capacity.trans hcap
        · rw [h.active, List.length_cons]
          change s.active + 1 + moved.length = _
          omega
        · intro _
          exact h.active_le hactive
    · rw [if_neg hactive]
      exact ⟨[], .refl c s, fun _ => Nat.le_of_not_lt hactive⟩

theorem drain_moved (c : Config τ) (s : State α τ) :
    ∃ moved, Moved c moved s (s.drain c) ∧
      ((s.drain c).queue.length ≠ 0 → c.concurrency ≤ (s.drain c).active) := by
  obtain ⟨moved, h, hfull⟩ := drainLoop_moved c s.queue.length s (Nat.le_refl _)
  refine ⟨moved, ?_⟩
  unfold State.drain
  dsimp only
  split
  · exact ⟨h, hfull⟩
  · exact ⟨⟨h.stack, h.counts, h.writing, h.rejected, h.settled, h.calls, h.jobs, h.queue,
      h.capacity, h.active, h.active_le⟩, hfull⟩

/-! ## enqueue -/

variable [LT τ] [DecidableLT τ]

theorem rememberWindow_eq (c : Config τ) (s : State α τ) (sample : Option (Sample × τ)) :
    ∃ samples, s.rememberWindow c sample = { s with samples := samples } := by
  cases sample with
  | none => exact ⟨s.samples, rfl⟩
  | some sample => exact ⟨_, rfl⟩

/-- `place` in a call of `enqueue`, whose number has been taken. -/
theorem place_moves {c : Config τ} {s : State α τ} {event : α} {options : Options}
    {now : Option τ} {sample : Option (Sample × τ)} (samples : OrderedMap String τ) :
    Moves c s (.enqueue event options now)
      (place c { s with calls := s.calls + 1, samples := samples } ⟨s.calls, event⟩ sample).1
      (place c { s with calls := s.calls + 1, samples := samples } ⟨s.calls, event⟩ sample).2 := by
  unfold place
  by_cases hactive : s.active < c.concurrency
  · obtain ⟨samples', hremember⟩ := rememberWindow_eq c
      { s with calls := s.calls + 1, samples := samples, active := s.active + 1 } sample
    simp only [if_pos hactive, hremember]
    exact .slot hactive
  · simp only [if_neg hactive]
    cases hpush : s.queue.push ⟨s.calls, event⟩ with
    | none => exact .dropped
    | some queue =>
      obtain ⟨-, hcapacity, hqueue⟩ := RingBuffer.push_eq_some hpush
      obtain ⟨samples', hremember⟩ := rememberWindow_eq c
        { s with calls := s.calls + 1, samples := samples, queue := queue } sample
      simp only [hremember]
      exact .queued hactive hcapacity hqueue

theorem enqueue_moves (c : Config τ) (s : State α τ) (event : α) (options : Options)
    (now : Option τ) :
    Moves c s (.enqueue event options now) (enqueue c s event options now).1
      (enqueue c s event options now).2 := by
  have hcalls : s.calls ≤ s.calls + 1 := Nat.le_succ _
  unfold enqueue
  cases validateSampleOptions options with
  | error message => exact .threw hcalls
  | ok sample =>
    dsimp only
    split
    · exact .dropped
    · cases sample with
      | none => exact place_moves s.samples
      | some sample =>
        cases now with
        | none => exact .threw hcalls
        | some now =>
          dsimp only
          split
          · exact place_moves _
          · split
            · exact .sampled
            · exact place_moves _

/-! ## The inversion -/

theorem step_moves {c : Config τ} {s s' : State α τ} {e : Event α τ} {o : Output α}
    (h : step c s e = some (s', o)) : Moves c s e s' o := by
  cases e with
  | enqueue event options now =>
    have hpair : enqueue c s event options now = (s', o) := Option.some.inj h
    have hmoves := enqueue_moves c s event options now
    rw [hpair] at hmoves
    exact hmoves
  | flush =>
    cases h
    unfold State.flush
    split
    · exact .flush
    · exact .flush
  | close =>
    cases h
    unfold State.close State.flush
    split
    · exact .close
    · dsimp only
      split
      · exact .close
      · exact .close
  | hookReturns => exact hookReturns_moves h
  | start =>
    simp only [step] at h
    split at h
    · rename_i hstack hjobs
      cases h
      exact .starts hstack hjobs
    · cases h
  | settle id ok =>
    simp only [step] at h
    split at h
    · cases h
    · rename_i hpick
      cases ok with
      | true =>
        cases h
        exact .resolves (pick_perm hpick)
      | false =>
        cases h
        exact .rejects (pick_perm hpick)
  | reject id =>
    simp only [step] at h
    split at h
    · rename_i hstack hpick
      cases h
      exact .fails hstack (pick_perm hpick)
    · cases h
  | finish id =>
    simp only [step] at h
    split at h
    · rename_i work settled hstack hpick
      cases h
      obtain ⟨moved, hmoved, hfull⟩ :=
        drain_moved c { s with settled := settled, active := s.active - 1 }
      exact .finishes hstack (pick_perm hpick) hmoved hfull
    · cases h

end AuthMe.Audit
