import AuthMe.Audit.WriterStep

/-!
# Runs of an audit writer

What holds of every run of a writer from its start, whatever the hooks call and in whatever
order the writes settle: an accepted event is written exactly once, an event that is dropped or
sampled is not written, and the slots and the queue are bounded (`delivery_law`).
-/

namespace AuthMe.Audit

open Transition

variable {α τ : Type}

/-! ## What a trace shows -/

abbrev Trace (α τ : Type) : Type := List (Event α τ × Output α)

namespace Output

def accepted? : Output α → Option (Work α)
  | .accepted work => some work
  | _ => none

def refused? : Output α → Option Nat
  | .dropped id | .sampled id => some id
  | _ => none

def started? : Output α → Option (Work α)
  | .started work => some work
  | _ => none

def returned? : Output α → Option (Nat × Result)
  | .returned id result => some (id, result)
  | _ => none

end Output

/-- The events that were accepted, in the order of acceptance. -/
def accepted (tr : Trace α τ) : List (Work α) := tr.filterMap fun x => x.2.accepted?

/-- The calls that were dropped or sampled. -/
def refused (tr : Trace α τ) : List Nat := tr.filterMap fun x => x.2.refused?

/-- The events that were passed to `write`, in that order. -/
def started (tr : Trace α τ) : List (Work α) := tr.filterMap fun x => x.2.started?

/-- The calls of `enqueue` that returned, with their results. -/
def returned (tr : Trace α τ) : List (Nat × Result) := tr.filterMap fun x => x.2.returned?

section Trace

variable (tr : Trace α τ) (e : Event α τ) (o : Output α)

@[simp] theorem accepted_concat : accepted (tr ++ [(e, o)]) = accepted tr ++ o.accepted?.toList := by
  rw [accepted, List.filterMap_append]
  cases o <;> rfl

@[simp] theorem refused_concat : refused (tr ++ [(e, o)]) = refused tr ++ o.refused?.toList := by
  rw [refused, List.filterMap_append]
  cases o <;> rfl

@[simp] theorem started_concat : started (tr ++ [(e, o)]) = started tr ++ o.started?.toList := by
  rw [started, List.filterMap_append]
  cases o <;> rfl

@[simp] theorem returned_concat : returned (tr ++ [(e, o)]) = returned tr ++ o.returned?.toList := by
  rw [returned, List.filterMap_append]
  cases o <;> rfl

end Trace

/-! ## What the stack holds -/

namespace Frame

/-- The event of a slot that has been taken before the hook runs. -/
def slot? : Frame α → Option (Work α)
  | .accepted work true => some work
  | _ => none

/-- The event whose failure is being reported. -/
def failure? : Frame α → Option (Work α)
  | .writeFailure work => some work
  | _ => none

/-- The frame is a call of `enqueue`. -/
def isCall : Frame α → Bool
  | .writeFailure _ => false
  | _ => true

end Frame

namespace State

def slotted (s : State α τ) : List (Work α) := s.stack.filterMap Frame.slot?

def failing (s : State α τ) : List (Work α) := s.stack.filterMap Frame.failure?

/-- The calls of `enqueue` in progress. -/
def callsInProgress (s : State α τ) : Nat := s.stack.countP Frame.isCall

/-- Nothing is left to be done. -/
structure Idle (s : State α τ) : Prop where
  stack : s.stack = []
  queue : s.queue.toList = []
  jobs : s.jobs = []
  writing : s.writing = []
  rejected : s.rejected = []
  settled : s.settled = []

end State

/-! ## Slots and queue -/

/-- Each slot is held by one event, and an event waits only when there is no slot. -/
structure Bounded (c : Config τ) (s : State α τ) : Prop where
  capacity : s.queue.capacity = c.maxQueue
  active_le : s.active ≤ c.concurrency
  busy : s.queue.length ≠ 0 → s.active = c.concurrency
  slots : s.active = s.slotted.length + s.jobs.length + s.writing.length + s.rejected.length +
    s.failing.length + s.settled.length

theorem bounded_initial (c : Config τ) : Bounded c (.initial c : State α τ) :=
  ⟨rfl, Nat.zero_le _, fun h => absurd rfl h, rfl⟩

theorem bounded_moves {c : Config τ} {s s' : State α τ} {e : Event α τ} {o : Output α}
    (hs : Bounded c s) (h : Moves c s e s' o) : Bounded c s' := by
  obtain ⟨hcapacity, hactive, hbusy, hslots⟩ := hs
  unfold State.slotted State.failing at hslots
  cases h with
  | threw _ | flush | close => exact ⟨hcapacity, hactive, hbusy, hslots⟩
  | slot hfree =>
    refine ⟨hcapacity, hfree, fun hne => ?_, ?_⟩
    · have := hbusy hne
      omega
    · simp [State.slotted, State.failing, List.filterMap_cons, Frame.slot?, Frame.failure?]
      omega
  | queued hfull hcap hqueue =>
    refine ⟨hcap.trans hcapacity, hactive, fun _ => ?_, hslots⟩
    dsimp only
    omega
  | dropped | sampled => exact ⟨hcapacity, hactive, hbusy, hslots⟩
  | launches hstack | leaves hstack | droppedReturns hstack | sampledReturns hstack
  | failureReturns hstack =>
    refine ⟨hcapacity, hactive, hbusy, ?_⟩
    simp [hstack, State.slotted, State.failing, List.filterMap_cons, Frame.slot?, Frame.failure?] at hslots ⊢
    omega
  | starts hstack hjobs =>
    refine ⟨hcapacity, hactive, hbusy, ?_⟩
    simp [hjobs, State.slotted, State.failing] at hslots ⊢
    omega
  | resolves hperm | rejects hperm =>
    refine ⟨hcapacity, hactive, hbusy, ?_⟩
    simp [hperm.length_eq, State.slotted, State.failing] at hslots ⊢
    omega
  | fails hstack hperm =>
    refine ⟨hcapacity, hactive, hbusy, ?_⟩
    simp [hstack, hperm.length_eq, State.slotted, State.failing, List.filterMap_cons, Frame.slot?,
      Frame.failure?]
      at hslots ⊢
    omega
  | finishes hstack hperm hmoved hfull =>
    have hle := hmoved.active_le (Nat.le_trans (Nat.sub_le _ _) hactive)
    refine ⟨hmoved.capacity.trans hcapacity, hle, fun hne => ?_, ?_⟩
    · exact Nat.le_antisymm hle (hfull hne)
    · have hlength := hperm.length_eq
      simp [hstack] at hslots
      simp [hmoved.active, hmoved.stack, hmoved.jobs, hmoved.writing, hmoved.rejected,
        hmoved.settled, hstack, State.slotted, State.failing] at hlength ⊢
      omega

/-! ## Results -/

/-- A call that has been counted has returned, or its hook is running. -/
def Counted (s : State α τ) (tr : Trace α τ) : Prop :=
  s.counts.accepted + s.counts.dropped + s.counts.sampled =
    (returned tr).length + s.callsInProgress

theorem counted_moves {c : Config τ} {s s' : State α τ} {tr : Trace α τ} {e : Event α τ}
    {o : Output α} (hs : Counted s tr) (h : Moves c s e s' o) :
    Counted s' (tr ++ [(e, o)]) := by
  unfold Counted State.callsInProgress at hs ⊢
  rw [returned_concat, List.length_append]
  cases h with
  | slot | queued | dropped | sampled =>
    simp [List.countP_cons, Output.returned?, Frame.isCall]
    omega
  | launches hstack | leaves hstack | droppedReturns hstack | sampledReturns hstack
  | failureReturns hstack =>
    simp [hstack, List.countP_cons, Output.returned?, Frame.isCall] at hs ⊢
    omega
  | fails hstack hperm =>
    simp [hstack, Output.returned?, Frame.isCall] at hs ⊢
    omega
  | finishes hstack hperm hmoved hfull =>
    rw [hmoved.counts, hmoved.stack]
    exact hs
  | threw | flush | close | starts | resolves | rejects => exact hs

/-! ## Identities -/

/-- The calls that were accepted, dropped or sampled. -/
def decided (tr : Trace α τ) : List Nat := (accepted tr).map Work.id ++ refused tr

/-- A call is decided once. -/
structure Known (s : State α τ) (tr : Trace α τ) : Prop where
  nodup : (decided tr).Nodup
  lt : ∀ id ∈ decided tr, id < s.calls

theorem Known.fresh {s s' : State α τ} {tr tr' : Trace α τ} (hs : Known s tr)
    (hperm : (decided tr').Perm (s.calls :: decided tr)) (hcalls : s'.calls = s.calls + 1) :
    Known s' tr' := by
  constructor
  · rw [hperm.nodup_iff, List.nodup_cons]
    refine ⟨fun hmem => ?_, hs.nodup⟩
    exact Nat.lt_irrefl _ (hs.lt _ hmem)
  · intro id hid
    rcases List.mem_cons.mp (hperm.mem_iff.mp hid) with heq | hold
    · omega
    · have := hs.lt id hold
      omega

theorem known_moves {c : Config τ} {s s' : State α τ} {tr : Trace α τ} {e : Event α τ}
    {o : Output α} (hs : Known s tr) (h : Moves c s e s' o) : Known s' (tr ++ [(e, o)]) := by
  -- a step that decides no call
  have hkeep : o.accepted? = none → o.refused? = none → s.calls ≤ s'.calls →
      Known s' (tr ++ [(e, o)]) := by
    intro haccepted hrefused hcalls
    have hsame : decided (tr ++ [(e, o)]) = decided tr := by
      simp [decided, haccepted, hrefused]
    exact ⟨hsame ▸ hs.nodup, fun id hid => Nat.lt_of_lt_of_le (hs.lt id (hsame ▸ hid)) hcalls⟩
  cases h with
  | slot | queued =>
    apply hs.fresh _ rfl
    simp only [decided, accepted_concat, refused_concat, Output.accepted?, Output.refused?,
      Option.toList, List.map_append, List.map_cons, List.map_nil, List.append_nil,
      List.append_assoc]
    exact List.perm_middle
  | dropped | sampled =>
    apply hs.fresh _ rfl
    simp only [decided, accepted_concat, refused_concat, Output.accepted?, Output.refused?,
      Option.toList, List.append_nil, ← List.append_assoc]
    exact List.perm_append_singleton _ _
  | threw hcalls => exact hkeep rfl rfl hcalls
  | finishes _ _ hmoved _ => exact hkeep rfl rfl (Nat.le_of_eq hmoved.calls.symm)
  | flush | close | launches | leaves | droppedReturns | sampledReturns | failureReturns
  | starts | resolves | rejects | fails => exact hkeep rfl rfl (Nat.le_refl _)

/-! ## The line of events -/

/-- The events that were started, then those that a job will start, those whose slot is taken,
and those that wait for one. -/
def line (s : State α τ) (tr : Trace α τ) : List (Work α) :=
  started tr ++ (s.jobs ++ (s.slotted ++ s.queue.toList))

/-- An accepted event enters the line, at its end if no hook is running; no other step changes
the line. -/
theorem line_moves {c : Config τ} {s s' : State α τ} {e : Event α τ} {o : Output α}
    (tr : Trace α τ) (hs : Bounded c s) (h : Moves c s e s' o) :
    (o.accepted? = none ∧ line s' (tr ++ [(e, o)]) = line s tr) ∨
    ∃ w before after, o = .accepted w ∧ line s tr = before ++ after ∧
      line s' (tr ++ [(e, o)]) = before ++ w :: after ∧ (s.stack = [] → after = []) := by
  unfold line State.slotted
  rw [started_concat]
  cases h with
  | slot hfree =>
    refine .inr ⟨_, started tr ++ s.jobs, s.stack.filterMap Frame.slot? ++ s.queue.toList, rfl,
      (List.append_assoc _ _ _).symm, ?_, fun hstack => ?_⟩
    · simp [Frame.slot?, Output.started?]
    · have hempty : s.queue.length = 0 := by
        by_contra hne
        have := hs.busy hne
        omega
      rw [← s.queue.length_toList] at hempty
      simp [hstack, List.eq_nil_of_length_eq_zero hempty]
  | queued _ _ hqueue =>
    refine .inr ⟨_, _, [], rfl, (List.append_nil _).symm, ?_, fun _ => rfl⟩
    simp [hqueue, List.filterMap_cons, Frame.slot?, Output.started?]
  | launches hstack | leaves hstack | droppedReturns hstack | sampledReturns hstack
  | failureReturns hstack =>
    refine .inl ⟨rfl, ?_⟩
    simp [hstack, List.filterMap_cons, Frame.slot?, Output.started?]
  | starts hstack hjobs =>
    refine .inl ⟨rfl, ?_⟩
    simp [hjobs, Output.started?]
  | fails hstack _ =>
    refine .inl ⟨rfl, ?_⟩
    simp [hstack, Frame.slot?, Output.started?]
  | finishes hstack _ hmoved _ =>
    refine .inl ⟨rfl, ?_⟩
    have hqueue := hmoved.queue
    dsimp only at hqueue
    simp [hmoved.stack, hmoved.jobs, hstack, hqueue, Output.started?]
  | dropped | sampled =>
    refine .inl ⟨rfl, ?_⟩
    simp [List.filterMap_cons, Frame.slot?, Output.started?]
  | threw | flush | close | resolves | rejects =>
    refine .inl ⟨rfl, ?_⟩
    simp [Output.started?]

/-! ## Answers -/

/-- The trace shows what the frame is about. -/
def Backed (tr : Trace α τ) : Frame α → Prop
  | .accepted work _ => work ∈ accepted tr
  | .dropped id | .sampled id => id ∈ refused tr
  | .writeFailure _ => True

/-- The result of a call is what has become of the event. -/
def Answered (tr : Trace α τ) : Nat × Result → Prop
  | (id, .accepted) => id ∈ (accepted tr).map Work.id
  | (id, .dropped) | (id, .sampled) => id ∈ refused tr

/-- The calls in progress and the results are about events of the trace. -/
structure Truthful (s : State α τ) (tr : Trace α τ) : Prop where
  stack : ∀ f ∈ s.stack, Backed tr f
  results : ∀ r ∈ returned tr, Answered tr r
  own : ∀ w ∈ accepted tr, ∃ options now, (.enqueue w.event options now, .accepted w) ∈ tr

theorem truthful_concat {tr : Trace α τ} (e : Event α τ) (o : Output α) :
    (∀ f, Backed tr f → Backed (tr ++ [(e, o)]) f) ∧
      ∀ r, Answered tr r → Answered (tr ++ [(e, o)]) r := by
  have haccepted : ∀ w ∈ accepted tr, w ∈ accepted (tr ++ [(e, o)]) := by
    intro w hw
    rw [accepted_concat]
    exact List.mem_append_left _ hw
  have hrefused : ∀ id ∈ refused tr, id ∈ refused (tr ++ [(e, o)]) := by
    intro id hid
    rw [refused_concat]
    exact List.mem_append_left _ hid
  constructor
  · intro f hf
    cases f with
    | accepted work _ => exact haccepted _ hf
    | dropped id | sampled id => exact hrefused _ hf
    | writeFailure _ => trivial
  · rintro ⟨id, result⟩ hr
    cases result with
    | accepted =>
      obtain ⟨w, hw, rfl⟩ := List.mem_map.mp hr
      exact List.mem_map_of_mem (haccepted w hw)
    | dropped | sampled => exact hrefused _ hr

/-- A frame is put on the stack with its event in the trace. -/
theorem frames_moves {c : Config τ} {s s' : State α τ} {e : Event α τ} {o : Output α}
    (tr : Trace α τ) (h : Moves c s e s' o) {f : Frame α} (hf : f ∈ s'.stack) :
    f ∈ s.stack ∨ Backed (tr ++ [(e, o)]) f := by
  cases h with
  | slot | queued =>
    rcases List.mem_cons.mp hf with rfl | hold
    · refine .inr ?_
      simp [Backed, Output.accepted?]
    · exact .inl hold
  | dropped | sampled =>
    rcases List.mem_cons.mp hf with rfl | hold
    · refine .inr ?_
      simp [Backed, Output.refused?]
    · exact .inl hold
  | launches hstack | leaves hstack | droppedReturns hstack | sampledReturns hstack
  | failureReturns hstack =>
    rw [hstack]
    exact .inl (List.mem_cons_of_mem _ hf)
  | fails hstack _ =>
    rw [List.mem_singleton.mp hf]
    exact .inr trivial
  | finishes _ _ hmoved _ =>
    refine .inl ?_
    rw [hmoved.stack] at hf
    exact hf
  | threw | flush | close | starts | resolves | rejects => exact .inl hf

/-- A result is the one of a frame that was on the stack. -/
theorem returned_moves {c : Config τ} {s s' : State α τ} {e : Event α τ} {o : Output α}
    (tr : Trace α τ) (h : Moves c s e s' o) {r : Nat × Result} (hr : o.returned? = some r) :
    ∃ f ∈ s.stack, Backed tr f → Answered tr r := by
  cases h with
  | launches hstack | leaves hstack =>
    cases hr
    rw [hstack]
    exact ⟨_, List.mem_cons_self, fun hf => List.mem_map_of_mem hf⟩
  | droppedReturns hstack | sampledReturns hstack =>
    cases hr
    rw [hstack]
    exact ⟨_, List.mem_cons_self, id⟩
  | _ => cases hr

theorem accepted_moves {c : Config τ} {s s' : State α τ} {e : Event α τ} {o : Output α}
    {w : Work α} (h : Moves c s e s' o) (hw : o.accepted? = some w) :
    o = .accepted w ∧ ∃ options now, e = .enqueue w.event options now := by
  cases h with
  | slot | queued =>
    cases hw
    exact ⟨rfl, _, _, rfl⟩
  | _ => cases hw

theorem truthful_moves {c : Config τ} {s s' : State α τ} {tr : Trace α τ} {e : Event α τ}
    {o : Output α} (hs : Truthful s tr) (h : Moves c s e s' o) :
    Truthful s' (tr ++ [(e, o)]) := by
  obtain ⟨hbacked, hanswered⟩ : (∀ f, Backed tr f → Backed (tr ++ [(e, o)]) f) ∧
      ∀ r, Answered tr r → Answered (tr ++ [(e, o)]) r := truthful_concat e o
  constructor
  · intro f hf
    rcases frames_moves tr h hf with hold | hnew
    · exact hbacked f (hs.stack f hold)
    · exact hnew
  · intro r hr
    rw [returned_concat] at hr
    rcases List.mem_append.mp hr with hold | hnew
    · exact hanswered r (hs.results r hold)
    · obtain ⟨f, hf, hthen⟩ := returned_moves tr h (Option.mem_toList.mp hnew)
      exact hanswered r (hthen (hs.stack f hf))
  · intro w hw
    rw [accepted_concat] at hw
    rcases List.mem_append.mp hw with hold | hnew
    · obtain ⟨options, now, hmem⟩ := hs.own w hold
      exact ⟨options, now, List.mem_append_left _ hmem⟩
    · obtain ⟨rfl, options, now, rfl⟩ := accepted_moves h (Option.mem_toList.mp hnew)
      exact ⟨options, now, List.mem_append_right _ List.mem_cons_self⟩

/-! ## Progress -/

/-- The step is not a call of the writer. -/
def Event.internal : Event α τ → Bool
  | .enqueue _ _ _ | .flush | .close => false
  | _ => true

/-- The steps that a frame leads to. -/
def Frame.work : Frame α → Nat
  | .accepted _ true => 6
  | .writeFailure _ => 2
  | _ => 1

/-- The steps that are left, if nothing is called. -/
def State.work (s : State α τ) : Nat :=
  (s.stack.map Frame.work).sum + 6 * s.queue.toList.length + 5 * s.jobs.length +
    4 * s.writing.length + 3 * s.rejected.length + s.settled.length

theorem work_moves {c : Config τ} {s s' : State α τ} {e : Event α τ} {o : Output α}
    (h : Moves c s e s' o) (he : e.internal = true) : s'.work < s.work := by
  unfold State.work
  cases h with
  | threw | slot | queued | dropped | sampled | flush | close => cases he
  | launches hstack | leaves hstack | droppedReturns hstack | sampledReturns hstack
  | failureReturns hstack =>
    simp only [hstack, List.map_cons, List.sum_cons, List.length_append, List.length_cons,
      List.length_nil, Frame.work]
    omega
  | starts hstack hjobs =>
    simp [hjobs]
    omega
  | resolves hperm | rejects hperm =>
    simp [hperm.length_eq]
    omega
  | fails hstack hperm =>
    simp [hstack, hperm.length_eq, Frame.work]
    omega
  | finishes hstack hperm hmoved _ =>
    have hqueue := hmoved.queue
    dsimp only at hqueue
    simp only [hmoved.stack, hmoved.jobs, hmoved.writing, hmoved.rejected, hmoved.settled, hqueue,
      hperm.length_eq, List.length_append, List.length_cons]
    omega

variable [LT τ] [DecidableLT τ]

/-- A writer that is not idle can take a step without being called. -/
theorem Bounded.progress {c : Config τ} {s : State α τ} (hs : Bounded c s) (hidle : ¬ s.Idle) :
    ∃ e : Event α τ, e.internal = true ∧ (step c s e).isSome := by
  cases hstack : s.stack with
  | cons f stack =>
    refine ⟨.hookReturns, rfl, ?_⟩
    cases f <;> simp [step, hookReturns, hstack]
  | nil =>
    cases hjobs : s.jobs with
    | cons w jobs => exact ⟨.start, rfl, by simp [step, hstack, hjobs]⟩
    | nil =>
      cases hwriting : s.writing with
      | cons w writing =>
        exact ⟨.settle w.id true, rfl, by simp [step, hwriting, pick_head]⟩
      | nil =>
        cases hrejected : s.rejected with
        | cons w rejected =>
          exact ⟨.reject w.id, rfl, by simp [step, hstack, hrejected, pick_head]⟩
        | nil =>
          cases hsettled : s.settled with
          | cons w settled =>
            exact ⟨.finish w.id, rfl, by simp [step, hstack, hsettled, pick_head]⟩
          | nil =>
            -- no slot is taken, so nothing waits for one
            refine absurd ⟨hstack, ?_, hjobs, hwriting, hrejected, hsettled⟩ hidle
            have hactive := hs.slots
            simp [State.slotted, State.failing, hstack, hjobs, hwriting, hrejected, hsettled]
              at hactive
            by_contra hne
            have hlength : s.queue.length ≠ 0 := by
              rw [← s.queue.length_toList]
              exact fun hzero => hne (List.eq_nil_of_length_eq_zero hzero)
            have := hs.busy hlength
            have := c.concurrency_pos
            omega

theorem work_run {c : Config τ} {s s' : State α τ} {tr : Trace α τ}
    (h : Run (step c) (fun _ e => e.internal = true) s tr s') : tr.length + s'.work ≤ s.work := by
  induction h with
  | nil => simp
  | cons hG hstep _ ih =>
    have hless := work_moves (step_moves hstep) hG
    rw [List.length_cons]
    omega

/-! ## The law -/

/-- While a hook is running, `enqueue` is not called. -/
def HooksDoNotEnqueue (s : State α τ) : Event α τ → Prop
  | .enqueue _ _ _ => s.stack = []
  | _ => True

/-- What holds of a trace and of the state that it leads to. -/
structure DeliveryLaw (c : Config τ) (tr : Trace α τ) (s : State α τ) : Prop where
  /-- An event is passed to `write` once at most, and only if it was accepted. -/
  once : ((started tr).map Work.id).Nodup
  only : ∀ w ∈ started tr, w ∈ accepted tr
  never : ∀ w ∈ started tr, w.id ∉ refused tr
  /-- The accepted events are those that were handed over in a call that was answered so. -/
  own : ∀ w ∈ accepted tr, ∃ options now, (.enqueue w.event options now, .accepted w) ∈ tr
  answers : ∀ r ∈ returned tr, Answered tr r
  /-- Every accepted event is passed to `write`, once the writer has come to rest; it does so
  after a bounded number of steps. -/
  delivered : s.Idle → ∀ w ∈ accepted tr, w ∈ started tr ∧
    ((started tr).map Work.id).count w.id = 1
  progress : ¬ s.Idle → ∃ e : Event α τ, e.internal = true ∧ (step c s e).isSome
  bounded : ∀ tr' s', Run (step c) (fun _ e => e.internal = true) s tr' s' → tr'.length ≤ s.work
  active_le : s.active ≤ c.concurrency
  writing_le : s.writing.length ≤ s.active
  queue_le : s.queue.length ≤ c.maxQueue
  busy : s.queue.length ≠ 0 → s.active = c.concurrency
  counts : s.callsInProgress = 0 →
    s.counts.accepted + s.counts.dropped + s.counts.sampled = (returned tr).length
  order : Run (step c) HooksDoNotEnqueue (.initial c) tr s → started tr <+: accepted tr

theorem bounded_run {c : Config τ} {s : State α τ} {tr : Trace α τ} {G}
    (h : Run (step c) G (.initial c) tr s) : Bounded c s :=
  h.invariant (fun _ _ _ _ hs _ hstep => bounded_moves hs (step_moves hstep)) (bounded_initial c)

/-- The accepted events are those of the line. -/
theorem line_run {c : Config τ} {s : State α τ} {tr : Trace α τ}
    (h : Run (step c) Always (.initial c) tr s) : (accepted tr).Perm (line s tr) := by
  refine h.along (I := fun m past => (accepted past).Perm (line m past)) ?_ (.refl _)
  intro m past e m' o hrun hm _ hstep
  rw [accepted_concat]
  rcases line_moves past (bounded_run hrun) (step_moves hstep) with
    ⟨hnone, hline⟩ | ⟨w, before, after, rfl, hline, hline', -⟩
  · rw [hnone, hline]
    simpa using hm
  · rw [hline']
    rw [hline] at hm
    exact (hm.append_right [w]).trans ((List.perm_append_singleton w _).trans
      List.perm_middle.symm)

/-- If hooks do not call `enqueue`, the line is in the order of acceptance. -/
theorem line_run_in_order {c : Config τ} {s : State α τ} {tr : Trace α τ}
    (h : Run (step c) HooksDoNotEnqueue (.initial c) tr s) : accepted tr = line s tr := by
  refine h.along (I := fun m past => accepted past = line m past) ?_ rfl
  intro m past e m' o hrun hm hG hstep
  rw [accepted_concat]
  rcases line_moves past (bounded_run hrun) (step_moves hstep) with
    ⟨hnone, hline⟩ | ⟨w, before, after, rfl, hline, hline', hlast⟩
  · rw [hnone, hline]
    simpa using hm
  · obtain ⟨-, options, now, rfl⟩ := accepted_moves (step_moves hstep) rfl
    have hafter := hlast hG
    rw [hline', hm, hline, hafter]
    simp [Output.accepted?]

/-- Audit delivery is exactly once and bounded. -/
theorem audit_delivery {c : Config τ} {s : State α τ} {tr : Trace α τ}
    (h : Run (step c) Always (.initial c) tr s) : DeliveryLaw c tr s := by
  have hbounded : Bounded c s := bounded_run h
  have hline : (accepted tr).Perm (line s tr) := line_run h
  have hnone {β : Type} {P : β → Prop} : ∀ x ∈ ([] : List β), P x := fun x hx =>
    absurd hx List.not_mem_nil
  have hknown : Known s tr := by
    refine h.history (I := Known) (fun m past e m' o hm _ hstep => ?_) ⟨.nil, hnone⟩
    exact known_moves hm (step_moves hstep)
  have hcounted : Counted s tr := by
    refine h.history (I := Counted) (fun m past e m' o hm _ hstep => ?_) rfl
    exact counted_moves hm (step_moves hstep)
  have htruthful : Truthful s tr := by
    refine h.history (I := Truthful) (fun m past e m' o hm _ hstep => ?_) ⟨hnone, hnone, hnone⟩
    exact truthful_moves hm (step_moves hstep)
  obtain ⟨hids, -, hapart⟩ := List.nodup_append.mp hknown.nodup
  have hstarted : (line s tr).map Work.id |>.Nodup := (hline.map Work.id).nodup_iff.mp hids
  have honly : ∀ w ∈ started tr, w ∈ accepted tr := fun w hw =>
    hline.mem_iff.mpr (List.mem_append_left _ hw)
  have honce : ((started tr).map Work.id).Nodup := by
    rw [line, List.map_append] at hstarted
    exact (List.nodup_append.mp hstarted).1
  constructor
  · exact honce
  · exact honly
  · intro w hw hmem
    exact hapart w.id (List.mem_map_of_mem (honly w hw)) w.id hmem rfl
  · exact htruthful.own
  · exact htruthful.results
  · intro hidle w hw
    have hmem : w ∈ started tr := by
      have := hline.mem_iff.mp hw
      simpa [line, State.slotted, hidle.jobs, hidle.stack, hidle.queue] using this
    exact ⟨hmem, List.count_eq_one_of_mem honce (List.mem_map_of_mem hmem)⟩
  · exact hbounded.progress
  · intro tr' s' hrun
    have := work_run hrun
    omega
  · exact hbounded.active_le
  · have := hbounded.slots
    omega
  · rw [← hbounded.capacity]
    exact s.queue.length_le
  · exact hbounded.busy
  · intro hnone
    rw [hcounted, hnone, Nat.add_zero]
  · intro hquiet
    rw [line_run_in_order hquiet, line]
    exact List.prefix_append _ _

/-- A writer with one slot and a queue for one event. -/
def singleSlot : Config Int where
  maxQueue := 1
  concurrency := 1
  maxSampleKeys := 1
  windowEnd now windowMs := now + windowMs
  concurrency_pos := Nat.one_pos
  maxSampleKeys_pos := Nat.one_pos

/-- The hook of the first event calls `enqueue` twice: one event waits, one is dropped. The first
write fails, the second one does not. -/
theorem audit_delivery_of_two : ∃ tr s,
    Run (step singleSlot) Always (.initial singleSlot : State String Int) tr s ∧
      DeliveryLaw singleSlot tr s ∧ (started tr).map Work.event = ["login", "logout"] ∧
      refused tr = [2] ∧ s.counts = ⟨2, 1, 0, 1⟩ ∧ s.Idle := by
  have h : exec (step singleSlot) Always (.initial singleSlot : State String Int)
      [.enqueue "login" (.of none none) (some 0), .enqueue "logout" (.of none none) (some 0),
        .hookReturns, .enqueue "probe" (.of none none) (some 0), .hookReturns, .hookReturns,
        .start, .settle 0 false, .reject 0, .hookReturns, .finish 0, .start, .settle 1 true,
        .finish 1] = some (_, _) := rfl
  have hrun := Run.of_exec h
  exact ⟨_, _, hrun, audit_delivery hrun, rfl, rfl, rfl, rfl, rfl, rfl, rfl, rfl, rfl⟩

end AuthMe.Audit
