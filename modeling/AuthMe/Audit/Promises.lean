import AuthMe.Audit.WriterRun

/-!
# The promises of an audit writer

What `flush` and `close` of `src/src/observability/audit-writer.js` return. All callers of `flush`
that find work share one promise, until `#drain` finds the writer drained and resolves it; `RESOLVED`
is returned by a drained writer. The promise of `close` is kept for the calls of `close` to come.

The promises are added to the machine of the writer: a step of a `Promising` writer is a step of the
writer, and what becomes of its promises.
-/

namespace AuthMe.Audit

open Transition

variable {α τ : Type}

/-- No write is active, and no event waits. -/
def State.Drained (s : State α τ) : Prop := s.active = 0 ∧ s.queue.length = 0

instance (s : State α τ) : Decidable s.Drained := inferInstanceAs (Decidable (_ ∧ _))

/-! ## The machine -/

/-- A promise that `flush` has made has a number. -/
inductive Promise
  | resolved
  | made (n : Nat)
  deriving DecidableEq

structure Promises where
  flushPromise : Option Nat
  /-- The promise that `#resolveFlush` resolves. -/
  resolveFlush : Option Nat
  closePromise : Option Promise
  /-- How many promises have been made. -/
  made : Nat
  /-- The promises that have been resolved. -/
  resolved : List Nat
  deriving DecidableEq

namespace Promises

def initial : Promises := ⟨none, none, none, 0, []⟩

def IsResolved (p : Promises) : Promise → Prop
  | .resolved => True
  | .made n => n ∈ p.resolved

/-- `flush`. -/
def flush (s : State α τ) (p : Promises) : Promise × Promises :=
  if s.Drained then (.resolved, p)
  else
    match p.flushPromise with
    | some n => (.made n, p)
    | none =>
      (.made p.made, { p with
        flushPromise := some p.made
        resolveFlush := some p.made
        made := p.made + 1 })

/-- `close`. -/
def close (s : State α τ) (p : Promises) : Promise × Promises :=
  match p.closePromise with
  | some q => (q, p)
  | none => ((p.flush s).1, { (p.flush s).2 with closePromise := some (p.flush s).1 })

/-- The end of `#drain`, and the promise that it resolves. -/
def drain (s : State α τ) (p : Promises) : Option Nat × Promises :=
  if s.Drained then
    match p.resolveFlush with
    | none => (none, p)
    | some n => (some n, { p with
        flushPromise := none
        resolveFlush := none
        resolved := n :: p.resolved })
  else (none, p)

end Promises

structure Promising (α τ : Type) where
  writer : State α τ
  promises : Promises

/-- What a step shows of the writer, what `flush` or `close` returns, and the promise that is
resolved. -/
structure Shown (α : Type) where
  output : Output α
  returned : Option Promise := none
  resolves : Option Nat := none
  deriving DecidableEq

namespace Promising

def initial (c : Config τ) : Promising α τ := ⟨.initial c, .initial⟩

/-- What becomes of the promises in a step of the writer from `s` to `s'`. -/
def promisesStep (s s' : State α τ) (p : Promises) (o : Output α) : Event α τ → Shown α × Promises
  | .flush => ({ output := o, returned := some (p.flush s).1 }, (p.flush s).2)
  | .close => ({ output := o, returned := some (p.close s).1 }, (p.close s).2)
  | .finish _ => ({ output := o, resolves := (p.drain s').1 }, (p.drain s').2)
  | _ => ({ output := o }, p)

variable [LT τ] [DecidableLT τ]

def step (c : Config τ) (w : Promising α τ) (e : Event α τ) : Option (Promising α τ × Shown α) :=
  (Audit.step c w.writer e).map fun x =>
    let y := promisesStep w.writer x.1 w.promises x.2 e
    (⟨x.1, y.2⟩, y.1)

end Promising

/-! ## Steps of the writer -/

theorem pick_id {id : Nat} {ws rest : List (Work α)} {w : Work α}
    (h : pick id ws = some (w, rest)) : w.id = id := by
  induction ws generalizing rest with
  | nil => cases h
  | cons x xs ih =>
    unfold pick at h
    split at h
    · rename_i hid
      cases h
      exact hid
    · obtain ⟨⟨w', rest'⟩, hr, heq⟩ := Option.map_eq_some_iff.mp h
      cases heq
      exact ih hr

/-- The loop of `#drain` leaves the flags of the writer. -/
theorem drainLoop_flags (c : Config τ) (fuel : Nat) (s : State α τ) :
    (s.drainLoop c fuel).accepting = s.accepting ∧ (s.drainLoop c fuel).closed = s.closed ∧
      (s.drainLoop c fuel).flushing = s.flushing := by
  induction fuel generalizing s with
  | zero => exact ⟨rfl, rfl, rfl⟩
  | succ fuel ih =>
    unfold State.drainLoop
    split
    · split
      · exact ⟨rfl, rfl, rfl⟩
      · exact ih _
    · exact ⟨rfl, rfl, rfl⟩

theorem drain_flags (c : Config τ) (s : State α τ) :
    (s.drain c).accepting = s.accepting ∧ (s.drain c).closed = s.closed ∧
      (s.drain c).flushing = (s.flushing && !decide (s.drain c).Drained) := by
  obtain ⟨haccepting, hclosed, hflushing⟩ := drainLoop_flags c s.queue.length s
  unfold State.drain
  dsimp only
  split
  · rename_i hpending
    refine ⟨haccepting, hclosed, ?_⟩
    rw [hflushing]
    rcases hpending with hactive | hqueue | hflag
    · simp [State.Drained, hactive]
    · simp [State.Drained, hqueue]
    · have hoff : s.flushing = false := by simpa [hflushing] using hflag
      rw [hoff, Bool.false_and]
  · rename_i hdrained
    refine ⟨haccepting, hclosed, ?_⟩
    simp only [not_or, not_not] at hdrained
    simp [State.Drained, hdrained.1, hdrained.2.1]

variable {c : Config τ} {s s' : State α τ} {e : Event α τ} {o : Output α}

/-- A step other than the end of a write does not drain the writer, and a drained writer stays so
unless it accepts an event. -/
theorem drained_moves (h : Moves c s e s' o) (hfinish : ∀ id, e ≠ .finish id) :
    (s'.Drained → s.Drained) ∧ (s.Drained → o.accepted? = none → s'.Drained) := by
  have hpos := c.concurrency_pos
  cases h with
  | slot hfree => exact ⟨fun h => absurd h.1 (Nat.succ_ne_zero _), fun _ h => by cases h⟩
  | queued hfull => exact ⟨fun h => absurd h.1 (by dsimp only; omega), fun _ h => by cases h⟩
  | finishes => exact absurd rfl (hfinish _)
  | _ => exact ⟨id, fun h _ => h⟩

/-- The flags after a step that is no `flush`, no `close` and no end of a write. -/
theorem flags_moves (h : Moves c s e s' o) (hflush : e ≠ .flush) (hclose : e ≠ .close)
    (hfinish : ∀ id, e ≠ .finish id) :
    s'.accepting = s.accepting ∧ s'.closed = s.closed ∧ s'.flushing = s.flushing := by
  cases h with
  | flush => exact absurd rfl hflush
  | close => exact absurd rfl hclose
  | finishes => exact absurd rfl (hfinish _)
  | _ => exact ⟨rfl, rfl, rfl⟩

theorem writing_moves {w : Work α} (h : Moves c s e s' o) (hw : w ∈ s.writing)
    (hsettle : ∀ id ok, e ≠ .settle id ok) : w ∈ s'.writing := by
  cases h with
  | starts => exact .tail _ hw
  | resolves => exact absurd rfl (hsettle _ _)
  | rejects => exact absurd rfl (hsettle _ _)
  | finishes _ _ hmoved _ =>
    rw [hmoved.writing]
    exact hw
  | _ => exact hw

theorem started_moves {w : Work α} (h : Moves c s e s' o) (hw : o.started? = some w) :
    w ∈ s'.writing := by
  cases h with
  | starts =>
    cases hw
    exact .head _
  | _ => cases hw

section Step

variable [LT τ] [DecidableLT τ]

/-- A write stops being active in no step but the settlement of its promise. -/
theorem writing_step {w : Work α} (h : step c s e = some (s', o)) (hw : w ∈ s.writing) :
    w ∈ s'.writing ∨ ∃ ok, e = .settle w.id ok := by
  by_cases hsettle : ∀ id ok, e ≠ .settle id ok
  · exact .inl (writing_moves (step_moves h) hw hsettle)
  · simp only [ne_eq, not_forall, not_not] at hsettle
    obtain ⟨id, ok, rfl⟩ := hsettle
    simp only [step] at h
    split at h
    · cases h
    · rename_i work writing hpick
      have hs' : s'.writing = writing := by
        cases ok <;> cases h <;> rfl
      rcases List.mem_cons.mp ((pick_perm hpick).mem_iff.mp hw) with rfl | hmem
      · exact .inr ⟨ok, by rw [pick_id hpick]⟩
      · exact .inl (hs' ▸ hmem)

/-- A writer that is closed accepts nothing. -/
theorem accepted_of_closed (h : step c s e = some (s', o)) (hclosed : s.accepting = false) :
    o.accepted? = none := by
  cases e with
  | enqueue event options now =>
    have hpair : enqueue c s event options now = (s', o) := Option.some.inj h
    unfold enqueue at hpair
    dsimp only at hpair
    split at hpair
    · cases hpair
      rfl
    · rw [hclosed] at hpair
      cases hpair
      rfl
  | hookReturns =>
    cases step_moves h <;> rfl
  | flush | close =>
    cases h
    rfl
  | start =>
    cases step_moves h
    rfl
  | settle id ok =>
    cases step_moves h <;> rfl
  | reject id | finish id =>
    cases step_moves h
    rfl

end Step

theorem flush_flags (s : State α τ) : s.flush.accepting = s.accepting ∧ s.flush.closed = s.closed ∧
    s.flush.flushing = (s.flushing || !decide s.Drained) := by
  unfold State.flush
  split
  · rename_i hdrained
    exact ⟨rfl, rfl, by simp [State.Drained, hdrained]⟩
  · rename_i hpending
    exact ⟨rfl, rfl, by simp [State.Drained, hpending]⟩

theorem flush_drained (s : State α τ) : s.flush.Drained ↔ s.Drained := by
  unfold State.flush
  split <;> rfl

/-! ## The invariant -/

namespace Promising

/-- The slots of the two promises. A promise that has not been resolved is the one to be resolved
next, and there is one only while there is work. -/
structure Ok (w : Promising α τ) : Prop where
  slots : w.promises.flushPromise = w.promises.resolveFlush
  pending : ∀ n, w.promises.resolveFlush = some n → n < w.promises.made ∧ n ∉ w.promises.resolved ∧
    ¬ w.writer.Drained
  done : ∀ n, n < w.promises.made → w.promises.resolveFlush = some n ∨ n ∈ w.promises.resolved
  lt : ∀ n ∈ w.promises.resolved, n < w.promises.made
  /-- The flags of the writer are those of its promises. -/
  flushing : w.writer.flushing = w.promises.flushPromise.isSome
  closed : w.writer.closed = w.promises.closePromise.isSome
  accepting : w.promises.closePromise.isSome → w.writer.accepting = false
  /-- The promise of `close` is the one of the last work, or has been resolved with it. -/
  closing : ∀ q, w.promises.closePromise = some q →
    (w.writer.Drained → w.promises.IsResolved q) ∧
      (¬ w.writer.Drained → ∃ n, q = .made n ∧ w.promises.resolveFlush = some n)

theorem ok_initial (c : Config τ) : (initial c : Promising α τ).Ok := by
  constructor
  case slots | flushing | closed => rfl
  all_goals simp [initial, Promises.initial]

/-- A step that leaves the promises and does not finish the work. -/
theorem Ok.keep {w : Promising α τ} (h : w.Ok)
    (hflags : s'.accepting = w.writer.accepting ∧ s'.closed = w.writer.closed ∧
      s'.flushing = w.writer.flushing)
    (hdrained : s'.Drained → w.writer.Drained)
    (hstay : w.writer.Drained → w.writer.accepting = false → s'.Drained) :
    Ok ⟨s', w.promises⟩ := by
  constructor
  case slots => exact h.slots
  case pending =>
    intro n hn
    obtain ⟨hlt, hnot, hpending⟩ := h.pending n hn
    exact ⟨hlt, hnot, fun hs' => hpending (hdrained hs')⟩
  case done => exact h.done
  case lt => exact h.lt
  case flushing => exact hflags.2.2.trans h.flushing
  case closed => exact hflags.2.1.trans h.closed
  case accepting => exact fun hclosed => hflags.1.trans (h.accepting hclosed)
  case closing =>
    intro q hq
    obtain ⟨hdone, hopen⟩ := h.closing q hq
    have haccepting := h.accepting (by rw [hq]; rfl)
    exact ⟨fun hs' => hdone (hdrained hs'), fun hs' => hopen fun hs => hs' (hstay hs haccepting)⟩

theorem Ok.flush {w : Promising α τ} (h : w.Ok) :
    Ok ⟨w.writer.flush, (w.promises.flush w.writer).2⟩ := by
  obtain ⟨haccepting, hclosed, hflushing⟩ := flush_flags w.writer
  by_cases hdrained : w.writer.Drained
  · have hp : (w.promises.flush w.writer).2 = w.promises := by rw [Promises.flush, if_pos hdrained]
    have hflag : w.writer.flush.flushing = w.writer.flushing := by simp [hflushing, hdrained]
    rw [hp]
    exact h.keep ⟨haccepting, hclosed, hflag⟩ (flush_drained _).mp fun hs _ => (flush_drained _).mpr hs
  · cases hslot : w.promises.flushPromise with
    | some n =>
      have hp : (w.promises.flush w.writer).2 = w.promises := by
        rw [Promises.flush, if_neg hdrained, hslot]
      have hflag : w.writer.flush.flushing = w.writer.flushing := by
        rw [hflushing, h.flushing, hslot]
        rfl
      rw [hp]
      exact h.keep ⟨haccepting, hclosed, hflag⟩ (flush_drained _).mp
        fun hs _ => (flush_drained _).mpr hs
    | none =>
      have hp : (w.promises.flush w.writer).2 = { w.promises with
          flushPromise := some w.promises.made
          resolveFlush := some w.promises.made
          made := w.promises.made + 1 } := by
        rw [Promises.flush, if_neg hdrained, hslot]
      have hnone : w.promises.resolveFlush = none := h.slots ▸ hslot
      rw [hp]
      constructor
      case slots => rfl
      case pending =>
        rintro n ⟨⟩
        refine ⟨Nat.lt_succ_self _, fun hmem => ?_, fun hs => hdrained ((flush_drained _).mp hs)⟩
        exact Nat.lt_irrefl _ (h.lt _ hmem)
      case done =>
        intro n hn
        rcases Nat.lt_succ_iff_lt_or_eq.mp hn with hlt | rfl
        · exact .inr ((h.done n hlt).resolve_left (by simp [hnone]))
        · exact .inl rfl
      case lt => exact fun n hn => Nat.lt_succ_of_lt (h.lt n hn)
      case flushing => simp [hflushing, hdrained]
      case closed => exact hclosed.trans h.closed
      case accepting => exact fun hp => haccepting.trans (h.accepting hp)
      case closing =>
        intro q hq
        obtain ⟨n, -, hn⟩ := (h.closing q hq).2 hdrained
        rw [hnone] at hn
        cases hn

/-- What `flush` returns while there is work is the promise to be resolved next. -/
theorem flush_pending {p : Promises} (hpending : ¬ s.Drained) :
    ∃ n, (p.flush s).1 = .made n ∧ (p.flush s).2.flushPromise = some n := by
  rw [Promises.flush, if_neg hpending]
  split
  · rename_i n hn
    exact ⟨n, rfl, hn⟩
  · exact ⟨p.made, rfl, rfl⟩

theorem Ok.close {w : Promising α τ} (h : w.Ok) :
    Ok ⟨w.writer.close, (w.promises.close w.writer).2⟩ := by
  cases hslot : w.promises.closePromise with
  | some q =>
    have hp : (w.promises.close w.writer).2 = w.promises := by rw [Promises.close, hslot]
    have hs : w.writer.close = w.writer := by rw [State.close, if_pos (by rw [h.closed, hslot]; rfl)]
    rw [hp, hs]
    exact h
  | none =>
    have hp : w.promises.close w.writer = ((w.promises.flush w.writer).1,
        { (w.promises.flush w.writer).2 with closePromise := some (w.promises.flush w.writer).1 }) := by
      rw [Promises.close, hslot]
    have hs : w.writer.close = { State.flush { w.writer with accepting := false } with closed := true } := by
      rw [State.close, if_neg (by rw [h.closed, hslot]; simp)]
    have hshut : Ok ⟨{ w.writer with accepting := false }, w.promises⟩ :=
      ⟨h.slots, h.pending, h.done, h.lt, h.flushing, h.closed, fun _ => rfl, h.closing⟩
    have hflush := hshut.flush
    have hdrained : (State.flush { w.writer with accepting := false }).Drained ↔ w.writer.Drained :=
      flush_drained _
    rw [hp, hs]
    constructor
    case slots => exact hflush.slots
    case pending => exact hflush.pending
    case done => exact hflush.done
    case lt => exact hflush.lt
    case flushing => exact hflush.flushing
    case closed => rfl
    case accepting => exact fun _ => (flush_flags _).1
    case closing =>
      rintro q ⟨⟩
      constructor
      · intro hs'
        have hfirst : (w.promises.flush w.writer).1 = .resolved := by
          rw [Promises.flush, if_pos (hdrained.mp hs')]
        simp [hfirst, Promises.IsResolved]
      · intro hs'
        obtain ⟨n, hn, hslot'⟩ := flush_pending (p := w.promises) fun hs => hs' (hdrained.mpr hs)
        exact ⟨n, hn, hflush.slots ▸ hslot'⟩

/-- The end of a write: there was work before it. -/
theorem Ok.drain {w : Promising α τ} (h : w.Ok) (hbusy : ¬ w.writer.Drained)
    (haccepting : s'.accepting = w.writer.accepting) (hclosed : s'.closed = w.writer.closed)
    (hflushing : s'.flushing = (w.writer.flushing && !decide s'.Drained)) :
    Ok ⟨s', (w.promises.drain s').2⟩ := by
  by_cases hdrained : s'.Drained
  · cases hslot : w.promises.resolveFlush with
    | none =>
      have hp : (w.promises.drain s').2 = w.promises := by
        rw [Promises.drain, if_pos hdrained, hslot]
      have hopen : w.promises.closePromise = none := by
        cases hclose : w.promises.closePromise with
        | none => rfl
        | some q =>
          obtain ⟨n, -, hn⟩ := (h.closing q hclose).2 hbusy
          rw [hslot] at hn
          cases hn
      rw [hp]
      constructor
      case slots => exact h.slots
      case pending => exact fun n hn => absurd (hslot.symm.trans hn) (by simp)
      case done => exact h.done
      case lt => exact h.lt
      case flushing => simp [hflushing, hdrained, h.slots, hslot]
      case closed => exact hclosed.trans h.closed
      case accepting => exact fun hp => haccepting.trans (h.accepting hp)
      case closing => exact fun q hq => absurd (hopen.symm.trans hq) (by simp)
    | some n =>
      have hp : (w.promises.drain s').2 = { w.promises with
          flushPromise := none
          resolveFlush := none
          resolved := n :: w.promises.resolved } := by
        rw [Promises.drain, if_pos hdrained, hslot]
      obtain ⟨hlt, -, -⟩ := h.pending n hslot
      rw [hp]
      constructor
      case slots => rfl
      case pending => rintro n ⟨⟩
      case done =>
        intro m hm
        rcases h.done m hm with hnext | hmem
        · rw [hslot] at hnext
          cases hnext
          exact .inr (.head _)
        · exact .inr (.tail _ hmem)
      case lt =>
        intro m hm
        rcases List.mem_cons.mp hm with rfl | hmem
        · exact hlt
        · exact h.lt m hmem
      case flushing => simp [hflushing, hdrained]
      case closed => exact hclosed.trans h.closed
      case accepting => exact fun hp => haccepting.trans (h.accepting hp)
      case closing =>
        intro q hq
        obtain ⟨m, rfl, hm⟩ := (h.closing q hq).2 hbusy
        rw [hslot] at hm
        cases hm
        exact ⟨fun _ => .head _, fun hs' => absurd hdrained hs'⟩
  · have hp : (w.promises.drain s').2 = w.promises := by
      rw [Promises.drain, if_neg hdrained]
    have hflag : s'.flushing = w.writer.flushing := by simp [hflushing, hdrained]
    rw [hp]
    exact h.keep ⟨haccepting, hclosed, hflag⟩ (fun hs' => absurd hs' hdrained)
      fun hs _ => absurd hs hbusy

variable [LT τ] [DecidableLT τ] {w w' : Promising α τ} {x : Shown α}

/-- **Inversion.** A step is one of the writer. -/
theorem step_eq_some (h : step c w e = some (w', x)) :
    Audit.step c w.writer e = some (w'.writer, x.output) ∧
      promisesStep w.writer w'.writer w.promises x.output e = (x, w'.promises) := by
  obtain ⟨⟨s', o⟩, hstep, heq⟩ := Option.map_eq_some_iff.mp h
  have houtput : (promisesStep w.writer s' w.promises o e).1.output = o := by cases e <;> rfl
  simp only [Prod.mk.injEq] at heq
  obtain ⟨rfl, rfl⟩ := heq
  rw [houtput]
  exact ⟨hstep, rfl⟩

theorem busy_of_finish {id : Nat} (hb : Bounded c s) (h : Audit.step c s (.finish id) = some (s', o)) :
    ¬ s.Drained := by
  intro hdrained
  simp only [Audit.step] at h
  split at h
  · rename_i work settled _ hpick
    have hlength := (pick_perm hpick).length_eq
    have hslots := hb.slots
    rw [hdrained.1, hlength, List.length_cons] at hslots
    omega
  · cases h

theorem Ok.step (hb : Bounded c w.writer) (h : w.Ok) (hstep : step c w e = some (w', x)) : w'.Ok := by
  obtain ⟨hwriter, hpromises⟩ := step_eq_some hstep
  have hmoves := step_moves hwriter
  -- a step that is none of the three below
  have hother : e ≠ .flush → e ≠ .close → (∀ id, e ≠ .finish id) → w'.promises = w.promises →
      w'.Ok := by
    intro hflush hclose hfinish hp
    obtain ⟨hdrained, hstay⟩ := drained_moves hmoves hfinish
    have hkeep := h.keep (flags_moves hmoves hflush hclose hfinish) hdrained
      fun hs haccepting => hstay hs (accepted_of_closed hwriter haccepting)
    rw [← hp] at hkeep
    exact hkeep
  obtain ⟨s', p'⟩ := w'
  have hp : (promisesStep w.writer s' w.promises x.output e).2 = p' := congrArg Prod.snd hpromises
  cases e with
  | flush =>
    have hs : w.writer.flush = s' := congrArg Prod.fst (Option.some.inj hwriter)
    rw [← hp, ← hs]
    exact h.flush
  | close =>
    have hs : w.writer.close = s' := congrArg Prod.fst (Option.some.inj hwriter)
    rw [← hp, ← hs]
    exact h.close
  | finish id =>
    have hbusy := busy_of_finish hb hwriter
    simp only [Audit.step] at hwriter
    split at hwriter
    · rename_i work settled _ _
      have hs : State.drain c { w.writer with settled := settled, active := w.writer.active - 1 } = s' :=
        congrArg Prod.fst (Option.some.inj hwriter)
      obtain ⟨haccepting, hclosed, hflushing⟩ :=
        drain_flags c { w.writer with settled := settled, active := w.writer.active - 1 }
      rw [← hp, ← hs]
      exact h.drain hbusy haccepting hclosed hflushing
    · cases hwriter
  | _ => exact hother (by simp) (by simp) (by simp) hp.symm

/-! ## Runs -/

abbrev Trace (α τ : Type) : Type := List (Event α τ × Shown α)

/-- What the trace shows of the writer. -/
def ofWriter (tr : Trace α τ) : Audit.Trace α τ := tr.map fun y => (y.1, y.2.output)

variable {tr : Trace α τ} {G : Promising α τ → Event α τ → Prop}

theorem run_ofWriter (h : Run (step c) G w tr w') :
    Run (Audit.step c) Always w.writer (ofWriter tr) w'.writer := by
  induction h with
  | nil => exact .nil _
  | cons _ hstep _ ih => exact .cons trivial (step_eq_some hstep).1 ih

theorem bounded_of_run (h : Run (step c) G (initial c) tr w) : Bounded c w.writer :=
  bounded_run (run_ofWriter h)

theorem ok_of_run (h : Run (step c) G (initial c) tr w) : w.Ok := by
  refine h.along (I := fun m _ => m.Ok) ?_ (ok_initial c)
  intro m past e m' o hrun hm _ hstep
  exact hm.step (bounded_of_run hrun) hstep

/-- The promise of the write has settled. -/
def Settled (tr : Audit.Trace α τ) (work : Work α) : Prop :=
  ∃ ok o, (.settle work.id ok, o) ∈ tr

theorem settled_of_started {tr : Audit.Trace α τ} (h : Run (Audit.step c) Always (.initial c) tr s) :
    ∀ work ∈ started tr, work ∈ s.writing ∨ Settled tr work := by
  refine h.history (I := fun m past => ∀ work ∈ started past, work ∈ m.writing ∨ Settled past work) ?_
    (by simp [started])
  intro m past e m' o hm _ hstep work hwork
  rw [started_concat, List.mem_append, Option.mem_toList] at hwork
  rcases hwork with hold | hnew
  · rcases hm work hold with hmem | ⟨ok, o', hmem⟩
    · rcases writing_step hstep hmem with hkept | ⟨ok, rfl⟩
      · exact .inl hkept
      · exact .inr ⟨ok, o, by simp⟩
    · exact .inr ⟨ok, o', List.mem_append_left _ hmem⟩
  · exact .inl (started_moves (step_moves hstep) hnew)

/-- When the writer is drained, every event that it has accepted has been written. -/
theorem settled_of_drained {tr : Audit.Trace α τ} (h : Run (Audit.step c) Always (.initial c) tr s)
    (hdrained : s.Drained) : ∀ work ∈ accepted tr, Settled tr work := by
  intro work hwork
  have hslots := (bounded_run h).slots
  rw [hdrained.1] at hslots
  have hslotted : s.slotted = [] := List.eq_nil_of_length_eq_zero (by omega)
  have hjobs : s.jobs = [] := List.eq_nil_of_length_eq_zero (by omega)
  have hwriting : s.writing = [] := List.eq_nil_of_length_eq_zero (by omega)
  have hqueue : s.queue.toList = [] :=
    List.eq_nil_of_length_eq_zero (s.queue.length_toList.trans hdrained.2)
  have hline := (line_run h).mem_iff.mp hwork
  rw [line, hslotted, hjobs, hqueue] at hline
  rcases settled_of_started h work (by simpa using hline) with hmem | hsettled
  · rw [hwriting] at hmem
    cases hmem
  · exact hsettled

/-! ## What becomes of a promise -/

theorem resolved_step (h : step c w e = some (w', x)) :
    w'.promises.resolved = x.resolves.toList ++ w.promises.resolved ∧
      w.promises.made ≤ w'.promises.made ∧
      ∀ n, x.resolves = some n → w'.writer.Drained := by
  obtain ⟨-, hpromises⟩ := step_eq_some h
  generalize x.output = o at hpromises
  obtain ⟨rfl, hp⟩ := Prod.mk.inj hpromises
  rw [← hp]
  cases e with
  | flush =>
    simp only [Promises.flush]
    split
    · simp
    · split <;> simp
  | close =>
    simp only [Promises.close, Promises.flush]
    split
    · simp
    · split
      · simp
      · split <;> simp
  | finish id =>
    simp only [Promises.drain]
    split
    · split <;> simp_all
    · simp
  | _ => simp

theorem returned_step {q : Promise} (hok : w'.Ok) (h : step c w e = some (w', x))
    (hq : x.returned = some q) :
    (w'.writer.Drained → w'.promises.IsResolved q) ∧
      (¬ w'.writer.Drained → ∃ n, q = .made n ∧ w'.promises.resolveFlush = some n) := by
  obtain ⟨hwriter, hpromises⟩ := step_eq_some h
  obtain ⟨hx, hp⟩ := Prod.mk.inj hpromises
  rw [← hx] at hq
  cases e with
  | flush =>
    have hs : w.writer.flush = w'.writer := congrArg Prod.fst (Option.some.inj hwriter)
    have hdrained : w'.writer.Drained ↔ w.writer.Drained := hs ▸ flush_drained w.writer
    cases hq
    constructor
    · intro hs'
      rw [Promises.flush, if_pos (hdrained.mp hs')]
      trivial
    · intro hs'
      obtain ⟨n, hn, hslot⟩ := flush_pending (p := w.promises) fun hs => hs' (hdrained.mpr hs)
      refine ⟨n, hn, ?_⟩
      rw [← hok.slots, ← hp]
      exact hslot
  | close =>
    cases hq
    refine hok.closing _ ?_
    rw [← hp]
    simp only [Promises.close]
    split
    · assumption
    · rfl
  | _ => cases hq

/-- While there is work, the promise to be resolved next stays so. -/
theorem first_drained (hb : Bounded c w.writer) (hok : w.Ok) {n : Nat}
    (hn : w.promises.resolveFlush = some n)
    (h : Run (step c) (fun m _ => ¬ m.writer.Drained) w tr w') (hdrained : w'.writer.Drained) :
    ∃ front e x, tr = front ++ [(e, x)] ∧ x.resolves = some n ∧ ∀ y ∈ front, y.2.resolves = none := by
  induction h with
  | nil => exact absurd hdrained (hok.pending n hn).2.2
  | @cons w w₁ w₂ e x tr hG hstep rest ih =>
    obtain ⟨hlt, hnot, -⟩ := hok.pending n hn
    have hb₁ := bounded_moves hb (step_moves (step_eq_some hstep).1)
    have hok₁ := hok.step hb hstep
    obtain ⟨hresolved, hmade, honly⟩ := resolved_step hstep
    have hdone := hok₁.done n (Nat.lt_of_lt_of_le hlt hmade)
    by_cases hfirst : w₁.writer.Drained
    · cases rest with
      | nil =>
        have hmem := hdone.resolve_left fun hnext => (hok₁.pending n hnext).2.2 hfirst
        rw [hresolved, List.mem_append] at hmem
        have hx := Option.mem_toList.mp (hmem.resolve_right hnot)
        exact ⟨[], e, x, rfl, hx, fun y hy => by cases hy⟩
      | cons hG' => exact absurd hfirst hG'
    · have hnone : x.resolves = none := by
        cases hx : x.resolves with
        | none => rfl
        | some m => exact absurd (honly m hx) hfirst
      have hnext := hdone.resolve_right fun hmem => by
        rw [hresolved, hnone] at hmem
        exact hnot hmem
      obtain ⟨front, e', x', rfl, hx', hfront⟩ := ih hb₁ hok₁ hnext hdrained
      refine ⟨(e, x) :: front, e', x', rfl, hx', fun y hy => ?_⟩
      rcases List.mem_cons.mp hy with rfl | hy
      · exact hnone
      · exact hfront y hy

theorem resolved_run (h : Run (step c) G w tr w') (n : Nat) :
    n ∈ w'.promises.resolved ↔ n ∈ w.promises.resolved ∨ ∃ y ∈ tr, y.2.resolves = some n := by
  induction h with
  | nil => simp
  | cons _ hstep _ ih =>
    rw [ih, (resolved_step hstep).1, List.mem_append, Option.mem_toList]
    simp only [List.exists_mem_cons_iff]
    tauto

/-! ## After `close` -/

theorem accepting_step (h : Audit.step c s e = some (s', o)) (hclosed : s.accepting = false) :
    s'.accepting = false := by
  cases e with
  | flush =>
    have hs : s.flush = s' := congrArg Prod.fst (Option.some.inj h)
    exact hs ▸ (flush_flags s).1.trans hclosed
  | close =>
    have hs : s.close = s' := congrArg Prod.fst (Option.some.inj h)
    rw [← hs, State.close]
    split
    · exact hclosed
    · exact (flush_flags _).1
  | finish id =>
    simp only [Audit.step] at h
    split at h
    · have hs : State.drain c _ = s' := congrArg Prod.fst (Option.some.inj h)
      rw [← hs]
      exact (drain_flags _ _).1.trans hclosed
    · cases h
  | _ => exact (flags_moves (step_moves h) (by simp) (by simp) (by simp)).1.trans hclosed

theorem accepted_run {tr : Audit.Trace α τ} {G : State α τ → Event α τ → Prop}
    (h : Run (Audit.step c) G s tr s') (hclosed : s.accepting = false) : accepted tr = [] := by
  induction h with
  | nil => rfl
  | cons _ hstep _ ih =>
    rw [accepted, List.filterMap_cons, accepted_of_closed hstep hclosed]
    exact ih (accepting_step hstep hclosed)

/-! ## The law -/

/-- What holds of the promises of a run. Each field speaks of the last step or of the whole trace;
the beginnings of a run are runs. -/
structure DrainLaw (c : Config τ) (tr : Trace α τ) (w : Promising α τ) : Prop where
  settled : w.writer.Drained → ∀ work ∈ accepted (ofWriter tr), Settled (ofWriter tr) work
  /-- A promise is resolved only by a step after which the writer is drained. -/
  resolves : ∀ front e x n, tr = front ++ [(e, x)] → x.resolves = some n → w.writer.Drained
  resolved : ∀ n, n ∈ w.promises.resolved ↔ ∃ y ∈ tr, y.2.resolves = some n
  /-- What `flush` and `close` return has been resolved if and only if the writer is drained. -/
  returned : ∀ front e x q, tr = front ++ [(e, x)] → x.returned = some q →
    (w.promises.IsResolved q ↔ w.writer.Drained)
  /-- What they return otherwise is resolved by the first step after which it is. -/
  first : ∀ front e x q, tr = front ++ [(e, x)] → x.returned = some q → ¬ w.writer.Drained →
    ∃ n, q = .made n ∧ ∀ tr' w', Run (step c) (fun m _ => ¬ m.writer.Drained) w tr' w' →
      w'.writer.Drained → ∃ front' e' x', tr' = front' ++ [(e', x')] ∧ x'.resolves = some n ∧
        ∀ y ∈ front', y.2.resolves = none
  closed : ∀ front x after, tr = front ++ (.close, x) :: after → accepted (ofWriter after) = []

/-- `flush` and `close` wait until the writer is drained, and no longer. -/
theorem drain_law (h : Run (step c) Always (initial c) tr w) : DrainLaw c tr w := by
  have hok := ok_of_run h
  have hlast : ∀ front e x, tr = front ++ [(e, x)] → ∃ m, step c m e = some (w, x) := by
    rintro front e x rfl
    obtain ⟨m, m', -, -, hstep, hnil⟩ := h.split_at
    cases hnil
    exact ⟨m, hstep⟩
  constructor
  case settled => exact settled_of_drained (run_ofWriter h)
  case resolves =>
    intro front e x n htr hn
    obtain ⟨m, hstep⟩ := hlast front e x htr
    exact (resolved_step hstep).2.2 n hn
  case resolved =>
    intro n
    rw [resolved_run h n]
    exact or_iff_right (by simp [initial, Promises.initial])
  case returned =>
    intro front e x q htr hq
    obtain ⟨m, hstep⟩ := hlast front e x htr
    obtain ⟨hdone, hpending⟩ := returned_step hok hstep hq
    refine ⟨fun hresolved => ?_, hdone⟩
    by_contra hbusy
    obtain ⟨n, rfl, hn⟩ := hpending hbusy
    exact (hok.pending n hn).2.1 hresolved
  case first =>
    intro front e x q htr hq hbusy
    obtain ⟨m, hstep⟩ := hlast front e x htr
    obtain ⟨n, hqn, hn⟩ := (returned_step hok hstep hq).2 hbusy
    exact ⟨n, hqn, fun tr' w' hrun hdrained => first_drained (bounded_of_run h) hok hn hrun hdrained⟩
  case closed =>
    rintro front x after rfl
    obtain ⟨m, m', hrun, -, hstep, hrest⟩ := h.split_at
    refine accepted_run (run_ofWriter hrest) ?_
    have hs : m.writer.close = m'.writer :=
      congrArg Prod.fst (Option.some.inj (step_eq_some hstep).1)
    rw [← hs, State.close]
    split
    · rename_i hclosed
      exact (ok_of_run hrun).accepting ((ok_of_run hrun).closed ▸ hclosed)
    · exact (flush_flags _).1

/-- Two calls of `flush` around an event that waits share a promise. The promise of `close` is the
next one, and the event after it is dropped. -/
theorem drain_law_of_two : ∃ tr w,
    Run (step singleSlot) Always (initial singleSlot : Promising String Int) tr w ∧
      DrainLaw singleSlot tr w ∧
      tr.filterMap (fun y => y.2.returned) = [.resolved, .made 0, .made 0, .made 1, .made 1] ∧
      tr.filterMap (fun y => y.2.resolves) = [0, 1] ∧
      (accepted (ofWriter tr)).map Work.event = ["login", "logout", "probe"] := by
  have h : exec (step singleSlot) Always (initial singleSlot : Promising String Int)
      [.flush, .enqueue "login" (.of none none) (some 0), .flush, .hookReturns,
        .enqueue "logout" (.of none none) (some 0), .hookReturns, .start, .settle 0 true, .finish 0,
        .flush, .start, .settle 1 true, .finish 1, .enqueue "probe" (.of none none) (some 0), .close,
        .hookReturns, .start, .enqueue "late" (.of none none) (some 0), .hookReturns, .close,
        .settle 2 true, .finish 2] = some (_, _) := rfl
  have hrun := Run.of_exec h
  exact ⟨_, _, hrun, drain_law hrun, rfl, rfl, rfl⟩

end Promising

end AuthMe.Audit
