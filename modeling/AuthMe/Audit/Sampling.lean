import AuthMe.Audit.WriterRun

/-!
# Which calls an audit writer samples

An accepted call with a sample key opens a window. Until the window ends, the calls with the same
key are answered with `sampled`, unless the record of the window was evicted in between, because
there were too many.

`Records` says what a step can do to the records of windows. The law compares the answers with the
windows that the trace shows (`Remembered`).
-/

namespace AuthMe.Audit

open Transition (Run Always EachStep concat_eq_append_cons exec)

variable {α τ : Type} [LinearOrder τ] {c : Config τ}

/-! ## The earliest record -/

theorem earliest_foldl {samples : List (String × τ)} {best : Option (String × τ)} :
    ∀ least, samples.foldl (fun best candidate =>
      match best with
      | none => some candidate
      | some least => if candidate.2 < least.2 then some candidate else some least) best = some least →
    (least ∈ samples ∨ best = some least) ∧ (∀ x ∈ samples, least.2 ≤ x.2) ∧
      ∀ x, best = some x → least.2 ≤ x.2 := by
  induction samples generalizing best with
  | nil =>
    intro least h
    refine ⟨.inr h, (fun x hx => by cases hx), fun x hx => ?_⟩
    cases h.symm.trans hx
    exact le_refl _
  | cons y ys ih =>
    intro least h
    rw [List.foldl_cons] at h
    obtain ⟨hfound, hall, hbest⟩ := ih least h
    cases best with
    | none =>
      have hy := hbest y rfl
      refine ⟨.inl ?_, ?_, (fun x hx => by cases hx)⟩
      · rcases hfound with hmem | heq
        · exact .tail _ hmem
        · cases heq
          exact .head _
      · intro x hx
        rcases List.mem_cons.mp hx with rfl | hx
        · exact hy
        · exact hall x hx
    | some b =>
      by_cases hlt : y.2 < b.2
      · simp only [hlt, if_true] at hfound hbest
        have hy := hbest y rfl
        refine ⟨.inl ?_, ?_, ?_⟩
        · rcases hfound with hmem | heq
          · exact .tail _ hmem
          · cases heq
            exact .head _
        · intro x hx
          rcases List.mem_cons.mp hx with rfl | hx
          · exact hy
          · exact hall x hx
        · rintro x ⟨⟩
          exact le_trans hy (le_of_lt hlt)
      · simp only [hlt, if_false] at hfound hbest
        have hb := hbest b rfl
        refine ⟨?_, ?_, ?_⟩
        · rcases hfound with hmem | heq
          · exact .inl (.tail _ hmem)
          · exact .inr heq
        · intro x hx
          rcases List.mem_cons.mp hx with rfl | hx
          · exact le_trans hb (le_of_not_gt hlt)
          · exact hall x hx
        · rintro x ⟨⟩
          exact hb

theorem earliest_eq_some {samples : List (String × τ)} {least : String × τ}
    (h : State.earliest samples = some least) :
    least ∈ samples ∧ ∀ x ∈ samples, least.2 ≤ x.2 := by
  obtain ⟨hfound, hall, -⟩ := earliest_foldl least h
  rcases hfound with hmem | hnone
  · exact ⟨hmem, hall⟩
  · cases hnone

theorem earliest_isSome {samples : List (String × τ)} (h : samples ≠ []) :
    ∃ least, State.earliest samples = some least := by
  have hkeep : ∀ (list : List (String × τ)) (b : String × τ),
      ∃ least, list.foldl (fun best candidate =>
        match best with
        | none => some candidate
        | some least => if candidate.2 < least.2 then some candidate else some least) (some b) =
          some least := by
    intro list
    induction list with
    | nil => exact fun b => ⟨b, rfl⟩
    | cons y ys ih =>
      intro b
      rw [List.foldl_cons]
      by_cases hlt : y.2 < b.2
      · simpa only [hlt, if_true] using ih y
      · simpa only [hlt, if_false] using ih b
  obtain ⟨y, ys, rfl⟩ := List.exists_cons_of_ne_nil h
  exact hkeep ys y

/-! ## Windows -/

/-- The sample of a call, with the reading of the clock. -/
def Event.sample? : Event α τ → Option (Sample × τ)
  | .enqueue _ options (some now) =>
    match validateSampleOptions options with
    | .ok (some sample) => some (sample, now)
    | _ => none
  | _ => none

structure Window (τ : Type) where
  key : String
  expires : τ
  deriving DecidableEq

/-- The window that a step opens. -/
def opens (c : Config τ) (x : Event α τ × Output α) : Option (Window τ) :=
  match x.2 with
  | .accepted _ => x.1.sample?.map fun (sample, now) => ⟨sample.key, c.windowEnd now sample.windowMs⟩
  | _ => none

/-- The records of the windows that have not ended. -/
def unended (m : State α τ) (now : τ) : OrderedMap String τ := m.samples.filter fun _ expires => now < expires

/-- The records after one more window has been opened. -/
def remember (c : Config τ) (samples : OrderedMap String τ) (w : Window τ) : OrderedMap String τ :=
  (if (samples.get? w.key).isNone ∧ c.maxSampleKeys ≤ samples.entries.length then
      match State.earliest samples.entries with
      | none => samples
      | some (earliestKey, _) => samples.erase earliestKey
    else samples).set w.key w.expires

theorem get?_unended {m : State α τ} {now : τ} {key : String} {expires : τ} :
    (unended m now).get? key = some expires ↔ m.samples.get? key = some expires ∧ now < expires := by
  rw [unended, OrderedMap.get?_filter, Option.filter_eq_some_iff, decide_eq_true_eq]

/-- What a step can do to the records. -/
inductive Records (c : Config τ) (m : State α τ) (e : Event α τ) (m' : State α τ) (o : Output α) : Prop
  | kept (same : m'.samples = m.samples) (opens : opens c (e, o) = none)
      (other : m.accepting = true → e.sample? = none)
  | sampled {sample now} (called : e.sample? = some (sample, now)) (output : o = .sampled m.calls)
      (found : ((unended m now).get? sample.key).isSome) (same : m'.samples = unended m now)
  | dropped {sample now} (called : e.sample? = some (sample, now)) (output : o = .dropped m.calls)
      (free : (unended m now).get? sample.key = none) (same : m'.samples = unended m now)
  | opened {sample now work} (called : e.sample? = some (sample, now)) (output : o = .accepted work)
      (number : work.id = m.calls)
      (free : (unended m now).get? sample.key = none)
      (same : m'.samples = remember c (unended m now) ⟨sample.key, c.windowEnd now sample.windowMs⟩)

omit [LinearOrder τ] in
theorem drainLoop_samples (fuel : Nat) (s : State α τ) : (s.drainLoop c fuel).samples = s.samples := by
  induction fuel generalizing s with
  | zero => rfl
  | succ fuel ih =>
    unfold State.drainLoop
    split
    · split
      · rfl
      · exact ih _
    · rfl

omit [LinearOrder τ] in
theorem drain_samples (s : State α τ) : (s.drain c).samples = s.samples := by
  unfold State.drain
  dsimp only
  split
  · exact drainLoop_samples _ s
  · exact drainLoop_samples _ s

omit [LinearOrder τ] in
theorem flush_samples (s : State α τ) : s.flush.samples = s.samples := by
  unfold State.flush
  split <;> rfl

omit [LinearOrder τ] in
theorem close_samples (s : State α τ) : s.close.samples = s.samples := by
  unfold State.close
  split
  · rfl
  · exact flush_samples _

/-- Without a sample the records are left alone. -/
theorem place_none (s : State α τ) (work : Work α) :
    (place c s work none).1.samples = s.samples := by
  unfold place
  split
  · rfl
  · split <;> rfl

/-- With a sample the window is opened, or the event is dropped. -/
theorem place_some (s : State α τ) (work : Work α) (sample : Sample) (now : τ) :
    ((place c s work (some (sample, now))).2 = .dropped work.id ∧
      (place c s work (some (sample, now))).1.samples = s.samples) ∨
    ((place c s work (some (sample, now))).2 = .accepted work ∧
      (place c s work (some (sample, now))).1.samples =
        remember c s.samples ⟨sample.key, c.windowEnd now sample.windowMs⟩) := by
  unfold place
  split
  · exact .inr ⟨rfl, rfl⟩
  · split
    · exact .inr ⟨rfl, rfl⟩
    · exact .inl ⟨rfl, rfl⟩

theorem enqueue_records (s : State α τ) (event : α) (options : Options) (now : Option τ) :
    Records c s (.enqueue event options now) (enqueue c s event options now).1
      (enqueue c s event options now).2 := by
  unfold enqueue
  cases hvalid : validateSampleOptions options with
  | error message => exact .kept rfl rfl fun _ => by cases now <;> simp [Event.sample?, hvalid]
  | ok sample =>
    dsimp only
    split
    · rename_i hclosed
      refine .kept rfl rfl fun haccepting => ?_
      rw [haccepting] at hclosed
      cases hclosed
    · cases sample with
      | none =>
        have hsample : Event.sample? (.enqueue event options now) = none := by
          cases now <;> simp [Event.sample?, hvalid]
        refine .kept (place_none _ _) ?_ fun _ => hsample
        unfold opens
        dsimp only
        rw [hsample]
        split <;> rfl
      | some sample =>
        cases now with
        | none => exact .kept rfl rfl fun _ => rfl
        | some now =>
          have hsample : Event.sample? (.enqueue event options (some now)) = some (sample, now) := by
            simp [Event.sample?, hvalid]
          have hplace : (unended s now).get? sample.key = none → Records c s
              (.enqueue event options (some now))
              (place c (State.pruneSamples { s with calls := s.calls + 1 } now) ⟨s.calls, event⟩
                (some (sample, now))).1
              (place c (State.pruneSamples { s with calls := s.calls + 1 } now) ⟨s.calls, event⟩
                (some (sample, now))).2 := by
            intro hfree
            rcases place_some (c := c) (State.pruneSamples { s with calls := s.calls + 1 } now)
              ⟨s.calls, event⟩ sample now with ⟨hout, hsamples⟩ | ⟨hout, hsamples⟩
            · exact .dropped hsample hout hfree hsamples
            · exact .opened hsample hout rfl hfree hsamples
          dsimp only
          split
          · rename_i hfree
            exact hplace hfree
          · rename_i expires hfound
            have hlt : now < expires := (get?_unended.mp hfound).2
            rw [if_pos hlt]
            exact .sampled hsample rfl (Option.isSome_of_eq_some hfound) rfl

/-- The steps that call no `enqueue` leave the records alone. -/
theorem step_samples {m m' : State α τ} {e : Event α τ} {o : Output α}
    (h : step c m e = some (m', o)) (hcall : ∀ event options now, e ≠ .enqueue event options now) :
    m'.samples = m.samples := by
  cases e with
  | enqueue event options now => exact absurd rfl (hcall event options now)
  | flush =>
    cases h
    exact flush_samples m
  | close =>
    cases h
    exact close_samples m
  | hookReturns =>
    simp only [step, hookReturns] at h
    split at h
    · cases h
    · rename_i work startImmediately stack hstack
      cases h
      cases startImmediately <;> rfl
    all_goals cases h; rfl
  | start =>
    simp only [step] at h
    split at h
    · cases h
      rfl
    · cases h
  | settle id ok =>
    simp only [step] at h
    split at h
    · cases h
    · cases ok <;> (cases h; rfl)
  | reject id =>
    simp only [step] at h
    split at h
    · cases h
      rfl
    · cases h
  | finish id =>
    simp only [step] at h
    split at h
    · cases h
      exact drain_samples _
    · cases h

theorem step_records {m m' : State α τ} {e : Event α τ} {o : Output α}
    (h : step c m e = some (m', o)) : Records c m e m' o := by
  by_cases hcall : ∃ event options now, e = .enqueue event options now
  · obtain ⟨event, options, now, rfl⟩ := hcall
    have hpair : enqueue c m event options now = (m', o) := Option.some.inj h
    have hrecords := enqueue_records (c := c) m event options now
    rw [hpair] at hrecords
    exact hrecords
  · have hother : ∀ event options now, e ≠ .enqueue event options now := by
      intro event options now heq
      exact hcall ⟨event, options, now, heq⟩
    have hsample : e.sample? = none := by
      unfold Event.sample?
      split
      · rename_i event options now
        exact absurd rfl (hother event options (some now))
      · rfl
    refine .kept (step_samples h hother) ?_ fun _ => hsample
    unfold opens
    dsimp only
    rw [hsample]
    split <;> rfl

/-! ## Evictions -/

/-- The step removes a record whose window has not ended. -/
def Evicts (m : State α τ) (e : Event α τ) (m' : State α τ) (key : String) : Prop :=
  ∃ now expires sample, e.sample? = some (sample, now) ∧ (unended m now).get? key = some expires ∧
    m'.samples.get? key = none

/-- What is known of a record that is evicted: it is the earliest one, and there is no place for
another one. -/
structure Evictable (c : Config τ) (m : State α τ) (e : Event α τ) (key : String) : Prop where
  least : ∀ sample now expires other expires', e.sample? = some (sample, now) →
    (unended m now).get? key = some expires → (unended m now).get? other = some expires' →
    expires ≤ expires'
  full : ∀ sample now, e.sample? = some (sample, now) →
    c.maxSampleKeys ≤ (unended m now).entries.length

theorem evictable_of_evicts {m m' : State α τ} {e : Event α τ} {o : Output α} {key : String}
    (h : Records c m e m' o) (hevicts : Evicts m e m' key) : Evictable c m e key := by
  obtain ⟨now, expires, sample, hsample, hget, hgone⟩ := hevicts
  cases h with
  | kept hsame hopens hother =>
    rw [hsame, (get?_unended.mp hget).1] at hgone
    cases hgone
  | sampled hcalled hout hfound hsame =>
    cases hsample.symm.trans hcalled
    rw [hsame, hget] at hgone
    cases hgone
  | dropped hcalled hout hfree hsame =>
    cases hsample.symm.trans hcalled
    rw [hsame, hget] at hgone
    cases hgone
  | opened hcalled hout _ hfree hsame =>
    cases hsample.symm.trans hcalled
    rw [hsame, remember, OrderedMap.get?_set] at hgone
    split at hgone
    · cases hgone
    · split at hgone
      · rename_i hfull
        cases hleast : State.earliest (unended m now).entries with
        | none =>
          rw [hleast] at hgone
          exact absurd (hget.symm.trans hgone) (by simp)
        | some least =>
          obtain ⟨earliestKey, earliestExpiry⟩ := least
          obtain ⟨hmem, hall⟩ := earliest_eq_some hleast
          have hkey : key = earliestKey := by
            by_contra hne
            rw [hleast] at hgone
            have hget' := OrderedMap.get?_erase_of_ne (unended m now) hne
            rw [hget] at hget'
            exact absurd (hget'.symm.trans hgone) (by simp)
          subst hkey
          constructor
          · intro sample' now' expires₁ other expires' hcalled' hget₁ hother
            cases hsample.symm.trans hcalled'
            have hown := OrderedMap.mem_entries_iff.mp hmem
            cases hown.symm.trans hget₁
            exact hall _ (OrderedMap.mem_entries_iff.mpr hother)
          · intro sample' now' hcalled'
            cases hsample.symm.trans hcalled'
            exact hfull.2
      · exact absurd (hget.symm.trans hgone) (by simp)

/-! ## The windows of a trace -/

/-- An accepted event of the trace has opened a window of the key that ends at `expires`, and the
record has not been evicted since. -/
def Remembered (c : Config τ) (tr : Trace α τ) (key : String) (expires : τ) : Prop :=
  ∃ front x after m, tr = front ++ x :: after ∧ opens c x = some ⟨key, expires⟩ ∧
    Run (step c) Always (.initial c) (front ++ [x]) m ∧
    EachStep (step c) (fun m e m' => ¬ Evicts m e m' key) m after

/-- The readings of the clock. -/
def clocks (tr : Trace α τ) : List τ :=
  tr.filterMap fun x => x.1.sample?.map Prod.snd

variable {tr : Trace α τ} {m m' : State α τ} {e : Event α τ} {o : Output α} {key : String} {expires : τ}

theorem Remembered.opened (hrun : Run (step c) Always (.initial c) tr m) (hstep : step c m e = some (m', o))
    (h : opens c (e, o) = some ⟨key, expires⟩) : Remembered c (tr ++ [(e, o)]) key expires := by
  refine ⟨tr, (e, o), [], m', rfl, h, hrun.append (.single trivial hstep), ?_⟩
  intro past e' o' rest m₁ m₂ htr
  cases past <;> cases htr

theorem Remembered.kept (hrun : Run (step c) Always (.initial c) tr m) (hstep : step c m e = some (m', o))
    (h : Remembered c tr key expires) (hkept : ¬ Evicts m e m' key) :
    Remembered c (tr ++ [(e, o)]) key expires := by
  obtain ⟨front, x, after, m₀, rfl, hopens, hfront, hafter⟩ := h
  have hrest : Run (step c) Always m₀ after m := by
    rw [List.append_cons] at hrun
    obtain ⟨m₁, hfirst, hsecond⟩ := hrun.split
    rwa [hfront.eq_of_trace hfirst]
  exact ⟨front, x, after ++ [(e, o)], m₀, by simp, hopens, hfront,
    (EachStep.concat hrest hstep).mpr ⟨hafter, hkept⟩⟩

theorem Remembered.of_concat (hrun : Run (step c) Always (.initial c) tr m)
    (hstep : step c m e = some (m', o)) (h : Remembered c (tr ++ [(e, o)]) key expires) :
    opens c (e, o) = some ⟨key, expires⟩ ∨ (Remembered c tr key expires ∧ ¬ Evicts m e m' key) := by
  obtain ⟨front, x, after, m₀, htr, hopens, hfront, hafter⟩ := h
  rcases concat_eq_append_cons htr with ⟨-, rfl, -⟩ | ⟨after', rfl, rfl⟩
  · exact .inl hopens
  · have hrest : Run (step c) Always m₀ after' m := by
      rw [List.append_cons] at hrun
      obtain ⟨m₁, hfirst, hsecond⟩ := hrun.split
      rwa [hfront.eq_of_trace hfirst]
    obtain ⟨hbefore, hlast⟩ := (EachStep.concat hrest hstep).mp hafter
    exact .inr ⟨⟨front, x, after', m₀, rfl, hopens, hfront, hbefore⟩, hlast⟩

/-! ## One step -/

namespace Records

theorem of_get? (h : Records c m e m' o) (hget : m'.samples.get? key = some expires) :
    opens c (e, o) = some ⟨key, expires⟩ ∨ m.samples.get? key = some expires := by
  cases h with
  | kept hsame _ _ => exact .inr (hsame ▸ hget)
  | sampled _ _ _ hsame | dropped _ _ _ hsame =>
    rw [hsame] at hget
    exact .inr (get?_unended.mp hget).1
  | @opened sample now work hcalled hout _ hfree hsame =>
    rw [hsame, remember, OrderedMap.get?_set] at hget
    split at hget
    · rename_i hkey
      cases hget
      refine .inl ?_
      rw [hout, opens, hcalled, hkey]
      rfl
    · have hold : (unended m now).get? key = some expires → m.samples.get? key = some expires :=
        fun hunended => (get?_unended.mp hunended).1
      refine .inr (hold ?_)
      split at hget
      · cases hleast : State.earliest (unended m now).entries with
        | none => rwa [hleast] at hget
        | some least =>
          rw [hleast] at hget
          have hget' : ((unended m now).erase least.1).get? key = some expires := hget
          rw [OrderedMap.get?_erase] at hget'
          split at hget'
          · cases hget'
          · exact hget'
      · exact hget

theorem get?_of_opens (h : Records c m e m' o) (hopens : opens c (e, o) = some ⟨key, expires⟩) :
    m'.samples.get? key = some expires := by
  cases h with
  | kept _ hnone _ => cases hnone.symm.trans hopens
  | sampled _ hout _ _ | dropped _ hout _ _ =>
    rw [hout] at hopens
    cases hopens
  | opened hcalled hout _ hfree hsame =>
    rw [hout, opens, hcalled] at hopens
    cases hopens
    rw [hsame, remember, OrderedMap.get?_set_self]

/-- A record is kept, or its window is over, unless it is evicted. -/
theorem get?_of_kept (h : Records c m e m' o) (hget : m.samples.get? key = some expires)
    (hkept : ¬ Evicts m e m' key) :
    m'.samples.get? key = some expires ∨ ∃ sample now, e.sample? = some (sample, now) ∧ expires ≤ now := by
  have hrecords := h
  have hlook : ∀ sample now, e.sample? = some (sample, now) →
      (o.accepted? = none ∨ (unended m now).get? sample.key = none) →
      m'.samples.get? key = some expires ∨ expires ≤ now := by
    intro sample now hcalled hfree
    by_cases hlt : now < expires
    · refine .inl ?_
      have hunended := get?_unended.mpr ⟨hget, hlt⟩
      cases hafter : m'.samples.get? key with
      | none => exact absurd ⟨now, expires, sample, hcalled, hunended, hafter⟩ hkept
      | some expires' =>
        rcases hrecords.of_get? hafter with hopens | hsame
        · rcases hfree with hout | hfree
          · unfold opens at hopens
            split at hopens
            · rename_i hout'
              rw [show o = _ from hout'] at hout
              cases hout
            · cases hopens
          · unfold opens at hopens
            split at hopens
            · rw [show Event.sample? e = _ from hcalled] at hopens
              cases hopens
              rw [hfree] at hunended
              cases hunended
            · cases hopens
        · exact hsame.symm.trans hget ▸ rfl
    · exact .inr (le_of_not_gt hlt)
  cases h with
  | kept hsame _ _ => exact .inl (hsame ▸ hget)
  | sampled hcalled hout _ _ | dropped hcalled hout _ _ =>
    subst hout
    exact (hlook _ _ hcalled (.inl rfl)).imp_right fun hle => ⟨_, _, hcalled, hle⟩
  | opened hcalled hout _ hfree _ =>
    exact (hlook _ _ hcalled (.inr hfree)).imp_right fun hle => ⟨_, _, hcalled, hle⟩

end Records

/-! ## The number of records -/

omit [LinearOrder τ] in
theorem length_put (key : String) (expires : τ) (xs : List (String × τ)) :
    (OrderedMap.put key expires xs).length =
      if (OrderedMap.lookup key xs).isSome then xs.length else xs.length + 1 := by
  induction xs with
  | nil => rfl
  | cons x xs ih =>
    by_cases hx : x.1 = key
    · simp [OrderedMap.put, OrderedMap.lookup, hx]
    · simp only [OrderedMap.put, OrderedMap.lookup, hx, if_false, List.length_cons, ih]
      split <;> rfl

theorem length_remember {samples : OrderedMap String τ} (h : samples.entries.length ≤ c.maxSampleKeys)
    (w : Window τ) : (remember c samples w).entries.length ≤ c.maxSampleKeys := by
  have hpos := c.maxSampleKeys_pos
  unfold remember
  split
  · rename_i hfull
    have hne : samples.entries ≠ [] := by
      intro hnil
      have hlength := hfull.2
      rw [hnil, List.length_nil] at hlength
      omega
    obtain ⟨least, hleast⟩ := earliest_isSome hne
    obtain ⟨hmem, -⟩ := earliest_eq_some hleast
    rw [hleast]
    have herase : (samples.erase least.1).entries.length < samples.entries.length := by
      apply List.length_filter_lt_length_iff_exists.mpr
      exact ⟨least, hmem, by simp⟩
    have hput := length_put w.key w.expires (samples.erase least.1).entries
    change (OrderedMap.put w.key w.expires (samples.erase least.1).entries).length ≤ _
    split at hput <;> omega
  · rename_i hspace
    have hput := length_put w.key w.expires samples.entries
    change (OrderedMap.put w.key w.expires samples.entries).length ≤ _
    split at hput
    · omega
    · rename_i hnone
      have hfree : (samples.get? w.key).isNone = true := by
        unfold OrderedMap.get?
        simpa using hnone
      have hlt : ¬ c.maxSampleKeys ≤ samples.entries.length := fun hle => hspace ⟨hfree, hle⟩
      omega

omit [LinearOrder τ] in
theorem length_filter_le (samples : OrderedMap String τ) (p : String → τ → Bool) :
    (samples.filter p).entries.length ≤ samples.entries.length := List.length_filter_le _ _

theorem Records.length_le (h : Records c m e m' o) (hm : m.samples.entries.length ≤ c.maxSampleKeys) :
    m'.samples.entries.length ≤ c.maxSampleKeys := by
  have hunended : ∀ now, (unended m now).entries.length ≤ c.maxSampleKeys := fun now =>
    Nat.le_trans (length_filter_le _ _) hm
  cases h with
  | kept hsame _ _ => rwa [hsame]
  | sampled _ _ _ hsame | dropped _ _ _ hsame =>
    rw [hsame]
    exact hunended _
  | opened _ _ _ _ hsame =>
    rw [hsame]
    exact length_remember (hunended _) _

/-! ## A run -/

/-- The records are those of the windows of the trace, but for windows that have ended. -/
structure Recorded (c : Config τ) (m : State α τ) (tr : Trace α τ) : Prop where
  length : m.samples.entries.length ≤ c.maxSampleKeys
  remembered : ∀ key expires, m.samples.get? key = some expires → Remembered c tr key expires
  kept : ∀ key expires, Remembered c tr key expires →
    m.samples.get? key = some expires ∨ ∃ t ∈ clocks tr, expires ≤ t

theorem recorded_step (hrun : Run (step c) Always (.initial c) tr m) (hm : Recorded c m tr)
    (hstep : step c m e = some (m', o)) : Recorded c m' (tr ++ [(e, o)]) := by
  have hrecords := step_records hstep
  constructor
  · exact hrecords.length_le hm.length
  · intro key expires hget
    rcases hrecords.of_get? hget with hopens | hold
    · exact .opened hrun hstep hopens
    · refine (hm.remembered key expires hold).kept hrun hstep ?_
      rintro ⟨now, expires', sample, -, -, hgone⟩
      rw [hget] at hgone
      cases hgone
  · intro key expires hremembered
    rcases hremembered.of_concat hrun hstep with hopens | ⟨hbefore, hkept⟩
    · exact .inl (hrecords.get?_of_opens hopens)
    · rcases hm.kept key expires hbefore with hget | ⟨t, ht, hle⟩
      · refine (hrecords.get?_of_kept hget hkept).imp_right ?_
        rintro ⟨sample, now, hcalled, hle⟩
        refine ⟨now, ?_, hle⟩
        simp [clocks, hcalled]
      · refine .inr ⟨t, ?_, hle⟩
        rw [clocks, List.filterMap_append]
        exact List.mem_append_left _ ht

theorem recorded_run (h : Run (step c) Always (.initial c) tr m) : Recorded c m tr := by
  refine h.along (I := Recorded c) (fun m past e m' o hrun hm _ hstep => ?_) ⟨?_, ?_, ?_⟩
  · exact recorded_step hrun hm hstep
  · exact Nat.zero_le _
  · intro key expires hget
    cases hget
  · rintro key expires ⟨front, x, after, m₀, htr, -⟩
    cases front <;> cases htr

/-! ## Answers -/

/-- The answer that a step decides on, with the number of the call. -/
def Output.decision? : Output α → Option (Nat × Result)
  | .accepted work => some (work.id, .accepted)
  | .dropped id => some (id, .dropped)
  | .sampled id => some (id, .sampled)
  | _ => none

def decisions (tr : Trace α τ) : List (Nat × Result) := tr.filterMap fun x => x.2.decision?

/-- The answer that a hook delays. -/
def Frame.answer? : Frame α → Option (Nat × Result)
  | .accepted work _ => some (work.id, .accepted)
  | .dropped id => some (id, .dropped)
  | .sampled id => some (id, .sampled)
  | .writeFailure _ => none

/-- A call is answered with what was decided, and decided once. -/
structure Decided (s : State α τ) (tr : Trace α τ) : Prop where
  nodup : ((decisions tr).map Prod.fst).Nodup
  lt : ∀ d ∈ decisions tr, d.1 < s.calls
  stack : ∀ f ∈ s.stack, ∀ d, f.answer? = some d → d ∈ decisions tr
  returned : ∀ r ∈ returned tr, r ∈ decisions tr

section

omit [LinearOrder τ]

variable {s s' : State α τ}

theorem decisions_concat (tr : Trace α τ) (e : Event α τ) (o : Output α) :
    decisions (tr ++ [(e, o)]) = decisions tr ++ o.decision?.toList := by
  unfold decisions
  rw [List.filterMap_append]
  cases hd : o.decision? <;> simp [hd]

theorem Decided.fresh (hs : Decided s tr) {d : Nat × Result} (hdecision : o.decision? = some d)
    (hd : d.1 = s.calls) (hcalls : s'.calls = s.calls + 1) {f : Frame α} (hstack : s'.stack = f :: s.stack)
    (hanswer : ∀ d', f.answer? = some d' → d' = d) (hreturned : o.returned? = none) :
    Decided s' (tr ++ [(e, o)]) := by
  have hlist : decisions (tr ++ [(e, o)]) = decisions tr ++ [d] := by rw [decisions_concat, hdecision]; rfl
  constructor
  · rw [hlist, List.map_append, List.nodup_append]
    refine ⟨hs.nodup, List.nodup_singleton _, ?_⟩
    rintro n hn m' hm' rfl
    obtain ⟨d', hd', rfl⟩ := List.mem_map.mp hn
    have hlt := hs.lt d' hd'
    rw [List.map_singleton, List.mem_singleton] at hm'
    omega
  · intro d' hd'
    rw [hlist] at hd'
    rcases List.mem_append.mp hd' with hold | hnew
    · have := hs.lt d' hold
      omega
    · rw [List.mem_singleton.mp hnew]
      omega
  · intro g hg d' hd'
    rw [hlist]
    rw [hstack] at hg
    rcases List.mem_cons.mp hg with rfl | hold
    · rw [hanswer d' hd']
      exact List.mem_append_right _ (.head _)
    · exact List.mem_append_left _ (hs.stack g hold d' hd')
  · intro r hr
    rw [returned_concat, hreturned] at hr
    rw [hlist]
    exact List.mem_append_left _ (hs.returned r (by simpa using hr))

theorem Decided.keep (hs : Decided s tr) (hdecision : o.decision? = none) (hcalls : s.calls ≤ s'.calls)
    (hstack : ∀ f ∈ s'.stack, f ∈ s.stack ∨ f.answer? = none)
    (hreturned : ∀ r, o.returned? = some r → ∃ f ∈ s.stack, f.answer? = some r) :
    Decided s' (tr ++ [(e, o)]) := by
  have hlist : decisions (tr ++ [(e, o)]) = decisions tr := by
    rw [decisions_concat, hdecision]
    exact List.append_nil _
  constructor
  · rw [hlist]
    exact hs.nodup
  · intro d hd
    rw [hlist] at hd
    exact Nat.lt_of_lt_of_le (hs.lt d hd) hcalls
  · intro f hf d hd
    rw [hlist]
    rcases hstack f hf with hold | hnone
    · exact hs.stack f hold d hd
    · cases hnone.symm.trans hd
  · intro r hr
    rw [hlist]
    rw [returned_concat] at hr
    rcases List.mem_append.mp hr with hold | hnew
    · exact hs.returned r hold
    · obtain ⟨f, hf, hanswer⟩ := hreturned r (Option.mem_toList.mp hnew)
      exact hs.stack f hf r hanswer

theorem decided_moves (hs : Decided s tr) (h : Moves c s e s' o) : Decided s' (tr ++ [(e, o)]) := by
  cases h with
  | slot | queued | dropped | sampled =>
    refine hs.fresh rfl rfl rfl rfl ?_ rfl
    rintro d ⟨⟩
    rfl
  | threw hcalls => exact hs.keep rfl hcalls (fun f hf => .inl hf) fun r hr => by cases hr
  | flush | close | starts | resolves | rejects =>
    exact hs.keep rfl (Nat.le_refl _) (fun f hf => .inl hf) fun r hr => by cases hr
  | launches hstack | leaves hstack | droppedReturns hstack | sampledReturns hstack =>
    refine hs.keep rfl (Nat.le_refl _) ?_ ?_
    · intro f hf
      rw [hstack]
      exact .inl (.tail _ hf)
    · rintro r ⟨⟩
      rw [hstack]
      exact ⟨_, .head _, rfl⟩
  | failureReturns hstack =>
    refine hs.keep rfl (Nat.le_refl _) ?_ fun r hr => by cases hr
    intro f hf
    rw [hstack]
    exact .inl (.tail _ hf)
  | fails hstack hrejected =>
    refine hs.keep rfl (Nat.le_refl _) ?_ fun r hr => by cases hr
    intro f hf
    rw [List.mem_singleton.mp hf]
    exact .inr rfl
  | finishes hstack hsettled hmoved hfull =>
    refine hs.keep rfl (Nat.le_of_eq hmoved.calls.symm) ?_ fun r hr => by cases hr
    intro f hf
    rw [hmoved.stack] at hf
    exact .inl hf

/-- A call has one answer. -/
theorem Decided.unique (hs : Decided s tr) {n : Nat} {r r' : Result} (h : (n, r) ∈ decisions tr)
    (h' : (n, r') ∈ decisions tr) : r = r' := by
  have hpair := List.inj_on_of_nodup_map hs.nodup h h' rfl
  cases hpair
  rfl

end

theorem decided_run (h : Run (step c) Always (.initial c) tr m) : Decided m tr := by
  refine h.history (I := Decided) (fun s past e s' o hs _ hstep => ?_) ⟨List.nodup_nil, ?_, ?_, ?_⟩
  · exact decided_moves hs (step_moves hstep)
  · intro d hd
    cases hd
  · intro f hf
    cases hf
  · intro r hr
    cases hr

/-! ## The law -/

/-- What holds of a trace and of the state that it leads to. -/
structure SamplingLaw (c : Config τ) (tr : Trace α τ) (s : State α τ) : Prop where
  /-- A call with a sample is sampled, and returns so, if and only if a window of its key is open and
  its record is there. -/
  sampled : ∀ front event options now sample o after m,
    tr = front ++ (.enqueue event options (some now), o) :: after →
    Run (step c) Always (.initial c) front m → m.accepting = true →
    validateSampleOptions options = .ok (some sample) →
      ((o = .sampled m.calls ↔ ∃ expires, Remembered c front sample.key expires ∧ now < expires) ∧
        ∀ r, (m.calls, r) ∈ returned tr → (r = .sampled ↔ o = .sampled m.calls))
  bounded : s.samples.entries.length ≤ c.maxSampleKeys
  /-- A record is evicted only if there is no place for another one, and it is an earliest one. -/
  evicted : EachStep (step c) (fun m e m' => ∀ key, Evicts m e m' key → Evictable c m e key)
    (.initial c) tr
  /-- Only an accepted call opens a window. -/
  opened : EachStep (step c) (fun m e m' => ∀ key expires, m'.samples.get? key = some expires →
    m.samples.get? key = some expires ∨
      ∃ work, step c m e = some (m', .accepted work) ∧
        opens c (e, .accepted work) = some ⟨key, expires⟩) (.initial c) tr

omit [LinearOrder τ] in
theorem mem_decisions {front after : Trace α τ} {d : Nat × Result} (h : o.decision? = some d) :
    d ∈ decisions (front ++ (e, o) :: after) := by
  rw [decisions, List.filterMap_append, List.filterMap_cons]
  simp [h]

/-- **Sampling.** In every run with a clock that does not go back. -/
theorem sampling_law {s : State α τ} (h : Run (step c) Always (.initial c) tr s)
    (hclock : (clocks tr).Pairwise (· ≤ ·)) : SamplingLaw c tr s := by
  constructor
  case sampled =>
    rintro front event options now sample o after m rfl hfront haccepting hvalid
    obtain ⟨m₁, m', hrun, -, hstep, -⟩ := h.split_at
    obtain rfl := hfront.eq_of_trace hrun
    have hsample : Event.sample? (.enqueue event options (some now)) = some (sample, now) := by
      simp [Event.sample?, hvalid]
    have hrecorded := recorded_run hfront
    have hbefore : ∀ t ∈ clocks front, t ≤ now := by
      intro t ht
      rw [clocks, List.filterMap_append, List.filterMap_cons] at hclock
      simp only [hsample, Option.map_some] at hclock
      exact (List.pairwise_append.mp hclock).2.2 t ht now (.head _)
    have hdecided := decided_run h
    -- if there is no record, no window is open
    have hnone : (unended m now).get? sample.key = none →
        ¬ ∃ expires, Remembered c front sample.key expires ∧ now < expires := by
      rintro hfree ⟨expires, hremembered, hlt⟩
      rcases hrecorded.kept _ _ hremembered with hget | ⟨t, ht, hle⟩
      · rw [get?_unended.mpr ⟨hget, hlt⟩] at hfree
        cases hfree
      · exact absurd hlt (not_lt_of_ge (le_trans hle (hbefore t ht)))
    cases step_records hstep with
    | kept _ _ hother => cases hsample.symm.trans (hother haccepting)
    | sampled hcalled hout hfound hsame =>
      cases hsample.symm.trans hcalled
      subst hout
      obtain ⟨expires, hget⟩ := Option.isSome_iff_exists.mp hfound
      obtain ⟨hold, hlt⟩ := get?_unended.mp hget
      refine ⟨iff_of_true rfl ⟨expires, hrecorded.remembered _ _ hold, hlt⟩, fun r hr => ?_⟩
      exact iff_of_true (hdecided.unique (hdecided.returned _ hr) (mem_decisions rfl)) rfl
    | dropped hcalled hout hfree hsame =>
      cases hsample.symm.trans hcalled
      subst hout
      refine ⟨iff_of_false (fun heq => by cases heq) (hnone hfree), fun r hr => ?_⟩
      obtain rfl := hdecided.unique (hdecided.returned _ hr) (mem_decisions rfl)
      exact iff_of_false (fun heq => by cases heq) (fun heq => by cases heq)
    | opened hcalled hout hnumber hfree hsame =>
      cases hsample.symm.trans hcalled
      subst hout
      refine ⟨iff_of_false (fun heq => by cases heq) (hnone hfree), fun r hr => ?_⟩
      rw [← hnumber] at hr
      obtain rfl := hdecided.unique (hdecided.returned _ hr) (mem_decisions rfl)
      exact iff_of_false (fun heq => by cases heq) (fun heq => by cases heq)
  case bounded => exact (recorded_run h).length
  case evicted =>
    intro past e o rest m m' _ _ hstep key hevicts
    exact evictable_of_evicts (step_records hstep) hevicts
  case opened =>
    intro past e o rest m m' _ _ hstep key expires hget
    refine ((step_records hstep).of_get? hget).symm.imp_right fun hopens => ?_
    cases o with
    | accepted work => exact ⟨work, hstep, hopens⟩
    | _ => cases hopens

/-- A writer that remembers one key. The second call is in the window of the first one; the third
one evicts it, so the fourth one is accepted. -/
theorem sampling_law_of_four : ∃ tr s,
    Run (step singleSlot) Always (.initial singleSlot : State String Int) tr s ∧
      SamplingLaw singleSlot tr s ∧
      returned tr = [(0, .accepted), (1, .sampled), (2, .accepted), (3, .dropped)] := by
  have h : exec (step singleSlot) Always (.initial singleSlot : State String Int)
      [.enqueue "login" (.of (some (.string "a")) (some (.integer 10))) (some 0), .hookReturns,
        .enqueue "login" (.of (some (.string "a")) (some (.integer 10))) (some 5), .hookReturns,
        .enqueue "logout" (.of (some (.string "b")) (some (.integer 10))) (some 6), .hookReturns,
        .enqueue "login" (.of (some (.string "a")) (some (.integer 10))) (some 7), .hookReturns] =
          some (_, _) := rfl
  have hrun := Run.of_exec h
  exact ⟨_, _, hrun, sampling_law hrun (by decide), rfl⟩

end AuthMe.Audit
