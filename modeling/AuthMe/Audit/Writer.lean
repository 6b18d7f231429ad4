import AuthMe.Basic
import AuthMe.Text
import AuthMe.Collections.OrderedMap
import AuthMe.Collections.RingBuffer
import AuthMe.Transition.Run

/-!
# The audit writer

`BoundedAuditWriter` of `src/src/observability/audit-writer.js`, as a machine whose steps are what
runs without a pause. `enqueue` runs up to the hook that it invokes, and the rest of it runs
when the hook returns; in between the hook can call `enqueue`, `flush` and `close`, so the calls
in progress form a stack. A hook that throws, or returns a promise that rejects, has returned.

`#execute` puts a job on the queue of the promise jobs, which run in the order in which they
were put there, and only when no call is in progress. The promise of a write settles at any
time; its handlers run later, in any order.

An event is identified by the number of the `enqueue` call that it was handed to. The numbers
of the clock are a type `τ` with their order; the end of a window is a parameter of the writer.
-/

namespace AuthMe.Audit

/-! ## Arguments -/

/-- What is handed to a writer, with the checks of the constructor. -/
structure Config (τ : Type) where
  maxQueue : Nat
  concurrency : Nat
  maxSampleKeys : Nat
  /-- `now + windowMs`, or the greatest number if the sum is not finite. -/
  windowEnd : τ → Int → τ
  concurrency_pos : 1 ≤ concurrency
  maxSampleKeys_pos : 1 ≤ maxSampleKeys

/-- The value of an option that is neither `undefined` nor `null`. -/
inductive OptionValue
  | string (s : String)
  | integer (n : Int)
  | other
  deriving DecidableEq

/-- The options of `enqueue`. -/
inductive Options
  | notAnObject
  | of (sampleKey sampleWindowMs : Option OptionValue)
  deriving DecidableEq

structure Sample where
  key : String
  windowMs : Int
  deriving DecidableEq

def maxSampleKeyLength : Nat := 512

/-- `#validateSampleOptions`; an error is the message of the exception. -/
def validateSampleOptions : Options → Except String (Option Sample)
  | .notAnObject => .error "enqueue options must be an object"
  | .of none none => .ok none
  | .of none (some _) | .of (some _) none =>
    .error "sampleKey and sampleWindowMs must be provided together"
  | .of (some key) (some windowMs) =>
    match key with
    | .string key =>
      if 0 < Text.length key ∧ Text.length key ≤ maxSampleKeyLength then
        match windowMs with
        | .integer n =>
          if isSafeInteger n ∧ 1 ≤ n then .ok (some ⟨key, n⟩)
          else .error "sampleWindowMs must be a safe integer greater than or equal to 1"
        | _ => .error "sampleWindowMs must be a safe integer greater than or equal to 1"
      else .error "sampleKey must be a non-empty string no longer than 512 characters"
    | _ => .error "sampleKey must be a non-empty string no longer than 512 characters"

/-! ## The state -/

/-- An event that a call of `enqueue` was given. -/
structure Work (α : Type) where
  id : Nat
  event : α
  deriving DecidableEq

structure Counts where
  accepted : Nat
  dropped : Nat
  sampled : Nat
  writeFailures : Nat
  deriving DecidableEq

/-- A hook that is running, and what is left to be done when it returns. -/
inductive Frame (α : Type)
  | accepted (work : Work α) (startImmediately : Bool)
  | dropped (id : Nat)
  | sampled (id : Nat)
  | writeFailure (work : Work α)
  deriving DecidableEq

structure State (α τ : Type) where
  accepting : Bool
  active : Nat
  queue : RingBuffer (Work α)
  counts : Counts
  samples : OrderedMap String τ
  /-- `#flushPromise` is there. -/
  flushing : Bool
  /-- `#closePromise` is there. -/
  closed : Bool
  /-- The hooks that are running, the innermost first. -/
  stack : List (Frame α)
  /-- The jobs that will call `write`. -/
  jobs : List (Work α)
  /-- The writes whose promises have not settled. -/
  writing : List (Work α)
  /-- The writes that were rejected, and whose failures have not been counted. -/
  rejected : List (Work α)
  /-- The writes whose slots have not been given back. -/
  settled : List (Work α)
  /-- How often `enqueue` has been called. -/
  calls : Nat

variable {α τ : Type} [LT τ] [DecidableLT τ]

def State.initial (c : Config τ) : State α τ where
  accepting := true
  active := 0
  queue := .empty c.maxQueue
  counts := ⟨0, 0, 0, 0⟩
  samples := .empty
  flushing := false
  closed := false
  stack := []
  jobs := []
  writing := []
  rejected := []
  settled := []
  calls := 0

namespace State

/-! ## Samples -/

def pruneSamples (s : State α τ) (now : τ) : State α τ :=
  { s with samples := s.samples.filter fun _ expiresAt => now < expiresAt }

/-- The key with the earliest expiry, the first one of several. -/
def earliest (samples : List (String × τ)) : Option (String × τ) :=
  samples.foldl (fun best candidate =>
    match best with
    | none => some candidate
    | some least => if candidate.2 < least.2 then some candidate else some least) none

def rememberSample (c : Config τ) (s : State α τ) (key : String) (expiresAt : τ) : State α τ :=
  let samples :=
    if (s.samples.get? key).isNone ∧ c.maxSampleKeys ≤ s.samples.entries.length then
      match earliest s.samples.entries with
      | none => s.samples
      | some (earliestKey, _) => s.samples.erase earliestKey
    else s.samples
  { s with samples := samples.set key expiresAt }

/-- The sample is kept until its window is over. -/
def rememberWindow (c : Config τ) (s : State α τ) : Option (Sample × τ) → State α τ
  | none => s
  | some (sample, now) => s.rememberSample c sample.key (c.windowEnd now sample.windowMs)

/-! ## Work -/

/-- `#recordDropped`, up to the hook. -/
def recordDropped (s : State α τ) (id : Nat) : State α τ :=
  { s with
    counts := { s.counts with dropped := s.counts.dropped + 1 }
    stack := .dropped id :: s.stack }

/-- `#accept`, up to the hook. -/
def accept (s : State α τ) (work : Work α) (startImmediately : Bool) : State α τ :=
  { s with
    counts := { s.counts with accepted := s.counts.accepted + 1 }
    stack := .accepted work startImmediately :: s.stack }

/-- `#execute`: the write is called by a job. -/
def execute (s : State α τ) (work : Work α) : State α τ := { s with jobs := s.jobs ++ [work] }

/-- The loop of `#drain`; it runs once for each event in the queue at most. -/
def drainLoop (c : Config τ) : Nat → State α τ → State α τ
  | 0, s => s
  | fuel + 1, s =>
    if s.active < c.concurrency then
      match s.queue.shift with
      | none => s
      | some (work, queue) =>
        drainLoop c fuel (execute { s with active := s.active + 1, queue := queue } work)
    else s

/-- `#drain`. -/
def drain (c : Config τ) (s : State α τ) : State α τ :=
  let s := drainLoop c s.queue.length s
  if s.active ≠ 0 ∨ s.queue.length ≠ 0 ∨ !s.flushing then s else { s with flushing := false }

/-- `flush`. -/
def flush (s : State α τ) : State α τ :=
  if s.active = 0 ∧ s.queue.length = 0 then s else { s with flushing := true }

/-- `close`. -/
def close (s : State α τ) : State α τ :=
  if s.closed then s else { flush { s with accepting := false } with closed := true }

end State

/-! ## Steps -/

/-- What `enqueue` returns. -/
inductive Result
  | accepted
  | dropped
  | sampled
  deriving DecidableEq

/-- A step: a call, the return of the innermost hook, the job of `#execute`, the settlement of the
promise of a write, and its handlers. The clock is read as `none` when it does not return a
finite number. -/
inductive Event (α τ : Type)
  | enqueue (event : α) (options : Options) (now : Option τ)
  | flush
  | close
  | hookReturns
  | start
  | settle (id : Nat) (ok : Bool)
  | reject (id : Nat)
  | finish (id : Nat)
  deriving DecidableEq

/-- What a step shows. -/
inductive Output (α : Type)
  | accepted (work : Work α)
  | dropped (id : Nat)
  | sampled (id : Nat)
  | threw (message : String)
  | returned (id : Nat) (result : Result)
  | started (work : Work α)
  | silent
  deriving DecidableEq

/-- Takes out the work of a call. -/
def pick (id : Nat) : List (Work α) → Option (Work α × List (Work α))
  | [] => none
  | w :: ws => if w.id = id then some (w, ws) else (pick id ws).map fun r => (r.1, w :: r.2)

/-- `enqueue` after the samples have been looked at. -/
def place (c : Config τ) (s : State α τ) (work : Work α) (sample : Option (Sample × τ)) :
    State α τ × Output α :=
  if s.active < c.concurrency then
    -- the slot is taken before the hook runs
    let s := { s with active := s.active + 1 }
    ((s.rememberWindow c sample).accept work true, .accepted work)
  else
    match s.queue.push work with
    | some queue =>
      let s := { s with queue := queue }
      ((s.rememberWindow c sample).accept work false, .accepted work)
    | none => (s.recordDropped work.id, .dropped work.id)

/-- `enqueue`, up to the hook or the exception. -/
def enqueue (c : Config τ) (s : State α τ) (event : α) (options : Options) (now : Option τ) :
    State α τ × Output α :=
  let id := s.calls
  let s := { s with calls := id + 1 }
  match validateSampleOptions options with
  | .error message => (s, .threw message)
  | .ok sample =>
    if !s.accepting then (s.recordDropped id, .dropped id)
    else
      match sample with
      | none => place c s ⟨id, event⟩ none
      | some sample =>
        match now with
        | none => (s, .threw "now must return a finite number")
        | some now =>
          let s := s.pruneSamples now
          match s.samples.get? sample.key with
          | none => place c s ⟨id, event⟩ (some (sample, now))
          | some expiresAt =>
            if now < expiresAt then
              ({ s with
                counts := { s.counts with sampled := s.counts.sampled + 1 }
                stack := .sampled id :: s.stack }, .sampled id)
            else place c s ⟨id, event⟩ (some (sample, now))

/-- The innermost hook returns, and the call that has invoked it goes on. -/
def hookReturns (s : State α τ) : Option (State α τ × Output α) :=
  match s.stack with
  | [] => none
  | .accepted work startImmediately :: stack =>
    let s := { s with stack := stack }
    some (if startImmediately then s.execute work else s, .returned work.id .accepted)
  | .dropped id :: stack => some ({ s with stack := stack }, .returned id .dropped)
  | .sampled id :: stack => some ({ s with stack := stack }, .returned id .sampled)
  | .writeFailure work :: stack =>
    some ({ s with stack := stack, settled := work :: s.settled }, .silent)

def step (c : Config τ) (s : State α τ) : Event α τ → Option (State α τ × Output α)
  | .enqueue event options now => some (enqueue c s event options now)
  | .flush => some (s.flush, .silent)
  | .close => some (s.close, .silent)
  | .hookReturns => hookReturns s
  | .start =>
    match s.stack, s.jobs with
    | [], work :: jobs => some ({ s with jobs := jobs, writing := work :: s.writing }, .started work)
    | _, _ => none
  | .settle id ok =>
    match pick id s.writing with
    | none => none
    | some (work, writing) =>
      some (if ok then { s with writing := writing, settled := work :: s.settled }
        else { s with writing := writing, rejected := work :: s.rejected }, .silent)
  | .reject id =>
    match s.stack, pick id s.rejected with
    | [], some (work, rejected) =>
      some ({ s with
        rejected := rejected
        counts := { s.counts with writeFailures := s.counts.writeFailures + 1 }
        stack := [.writeFailure work] }, .silent)
    | _, _ => none
  | .finish id =>
    match s.stack, pick id s.settled with
    | [], some (_, settled) =>
      let s := { s with settled := settled, active := s.active - 1 }
      some (s.drain c, .silent)
    | _, _ => none

end AuthMe.Audit
