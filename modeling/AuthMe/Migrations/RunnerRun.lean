import AuthMe.Migrations.Runner

/-!
# Runs of the migration runner

The invariant of all runs (`Inv`): the schema and the history agree, what the runs have applied
is a prefix of what was pending, and each runner is at a place of the script that the server
bears out (`Place`). Only a runner that holds the lock sends a statement that changes the history,
so a step of one runner leaves the places of the others (`Place.frame`).
-/

namespace AuthMe.Migrations

open Transition

/-! ## Places -/

/-- The phases between the lock and the unlock. -/
def Phase.inside : Phase → Bool
  | .createTable | .history | .check _ _ | .begin _ _ | .execute _ _ | .insert _ _ | .commit _ _
  | .rollback _ | .state => true
  | _ => false

/-- What the open transaction of a runner has done. -/
def Phase.work : Phase → Option (List Entry × Checksums)
  | .execute _ _ => some ([], [])
  | .insert e _ => some ([e], [])
  | .commit e _ => some ([e], [(e.name, e.checksum)])
  | _ => none

/-- The entries that may still be without a row. -/
def Phase.todo : Phase → Option (List Entry)
  | .check e rest | .begin e rest | .execute e rest | .insert e rest | .commit e rest =>
    some (e :: rest)
  | .state | .unlock (.ok ()) | .close (.ok ()) | .ended (.ok ()) => some []
  | _ => none

/-- The entry that is without a row. -/
def Phase.fresh : Phase → Option Entry
  | .begin e _ | .execute e _ | .insert e _ | .commit e _ => some e
  | _ => none

/-- The manifest up to the given rest is applied. -/
def Applied (manifest : List Entry) (s : Server) (rest : List Entry) : Prop :=
  ∃ done, manifest = done ++ rest ∧ ∀ e ∈ done, e ∈ s.executed

/-- What the server says of a runner in the given phase. -/
structure Place (manifest : List Entry) (s : Server) (i : Nat) (p : Phase) : Prop where
  lock : p.inside = true → s.lock = some i
  work : ∀ executed rows, s.transaction i = some (.active executed rows) →
    p.work = some (executed, rows)
  opened : ∀ w, p.work = some w → s.transaction i = some (.active w.1 w.2)
  todo : ∀ rest, p.todo = some rest → Applied manifest s rest
  fresh : ∀ e, p.fresh = some e → e ∉ s.executed
  table : ∀ e rest, p = .commit e rest → s.history ≠ none

variable {manifest : List Entry} {s s' : Server} {i j : Nat} {p : Phase}

theorem Phase.inside_of_fresh {e : Entry} (h : p.fresh = some e) : p.inside = true := by
  cases p <;> first | rfl | cases h

theorem Applied.mono {rest : List Entry} (h : Applied manifest s rest)
    (hsub : s.executed ⊆ s'.executed) : Applied manifest s' rest := by
  obtain ⟨done, hm, hdone⟩ := h
  exact ⟨done, hm, fun e he => hsub (hdone e he)⟩

theorem Applied.all (h : Applied manifest s []) : ∀ e ∈ manifest, e ∈ s.executed := by
  obtain ⟨done, hm, hdone⟩ := h
  rw [hm, List.append_nil]
  exact hdone

theorem Applied.start : Applied manifest s manifest := ⟨[], rfl, by simp⟩

theorem Applied.next {e : Entry} {rest : List Entry} (h : Applied manifest s (e :: rest))
    (he : e ∈ s.executed) : Applied manifest s rest := by
  obtain ⟨done, hm, hdone⟩ := h
  refine ⟨done ++ [e], by simp [hm], ?_⟩
  intro d hd
  rcases List.mem_append.mp hd with hd | hd
  · exact hdone d hd
  · rw [List.mem_singleton.mp hd]
    exact he

/-! ## What one runner leaves to the others -/

/-- A step of a runner, as the others see it. -/
structure Frame (i : Nat) (s s' : Server) : Prop where
  lock : ∀ j, j ≠ i → s.lock = some j → s'.lock = some j
  transaction : ∀ j, j ≠ i → s'.transaction j = s.transaction j
  subset : s.executed ⊆ s'.executed
  executed : s.lock ≠ some i → s'.executed = s.executed
  table : s.history ≠ none → s'.history ≠ none

theorem Place.frame (h : Place manifest s j p) (hf : Frame i s s') (hij : j ≠ i) :
    Place manifest s' j p where
  lock hp := hf.lock j hij (h.lock hp)
  work executed rows ht := h.work executed rows (by rw [← hf.transaction j hij, ht])
  opened w hw := by rw [hf.transaction j hij, h.opened w hw]
  todo rest hrest := (h.todo rest hrest).mono hf.subset
  fresh e he := by
    have hlock := h.lock (Phase.inside_of_fresh he)
    have hne : s.lock ≠ some i := by
      rw [hlock]
      intro heq
      exact hij (Option.some.inj heq)
    rw [hf.executed hne]
    exact h.fresh e he
  table e rest hp := hf.table (h.table e rest hp)

theorem Frame.trans {s'' : Server} (h : Frame i s s') (h' : Frame i s' s'')
    (heq : s''.executed = s'.executed) : Frame i s s'' where
  lock j hj hl := h'.lock j hj (h.lock j hj hl)
  transaction j hj := (h'.transaction j hj).trans (h.transaction j hj)
  subset := heq ▸ h.subset
  executed hl := heq.trans (h.executed hl)
  table ht := h'.table (h.table ht)

@[simp] theorem Server.setTransaction_lock (t : Option Transaction) :
    (s.setTransaction i t).lock = s.lock := rfl

@[simp] theorem Server.setTransaction_executed (t : Option Transaction) :
    (s.setTransaction i t).executed = s.executed := rfl

@[simp] theorem Server.setTransaction_row (t : Option Transaction) (name : String) :
    (s.setTransaction i t).row name = s.row name := rfl

@[simp] theorem Server.setTransaction_self (t : Option Transaction) :
    (s.setTransaction i t).transaction i = t := by simp [Server.setTransaction]

theorem Frame.setTransaction (s : Server) (i : Nat) (t : Option Transaction) :
    Frame i s (s.setTransaction i t) where
  lock _ _ h := h
  transaction j hj := by simp [Server.setTransaction, hj]
  subset := List.Subset.refl _
  executed _ := rfl
  table h := h

theorem Frame.unlock (s : Server) (i : Nat) : Frame i s (s.unlock i) where
  lock j hj h := by simp [Server.unlock, h, hj]
  transaction _ _ := rfl
  subset := List.Subset.refl _
  executed _ := rfl
  table h := h

theorem Frame.drop (s : Server) (i : Nat) : Frame i s (s.drop i) :=
  (Frame.unlock s i).trans (Frame.setTransaction _ i none) rfl

/-! ## The rows of the history -/

theorem Server.get?_insertRows {h : OrderedMap String String} {name checksum : String}
    (a : String) : (Server.insertRows h [(name, checksum)]).get? a =
      if a = name then some checksum else h.get? a := OrderedMap.get?_set h name a checksum

/-- The history of a server that agrees with its schema tells what is applied. -/
theorem Agrees.mem_iff (h : Agrees manifest s) (hnodup : (manifest.map Entry.name).Nodup)
    {e : Entry} (he : e ∈ manifest) : e ∈ s.executed ↔ s.row e.name = some e.checksum := by
  rw [h.row_iff]
  constructor
  · intro hmem
    exact ⟨e, hmem, rfl, rfl⟩
  · rintro ⟨d, hd, hname, -⟩
    have heq := List.inj_on_of_nodup_map hnodup (h.subset d hd) he hname
    exact heq ▸ hd

theorem Agrees.row_none (h : Agrees manifest s) (hnodup : (manifest.map Entry.name).Nodup)
    {e : Entry} (he : e ∈ manifest) : s.row e.name = none ↔ e ∉ s.executed := by
  constructor
  · intro hrow hmem
    rw [(h.mem_iff hnodup he).mp hmem] at hrow
    cases hrow
  · intro hmem
    cases hrow : s.row e.name with
    | none => rfl
    | some c =>
      obtain ⟨d, hd, hname, -⟩ := (h.row_iff _ _).mp hrow
      have heq := List.inj_on_of_nodup_map hnodup (h.subset d hd) he hname
      exact absurd (heq ▸ hd) hmem

theorem Agrees.of_eq (h : Agrees manifest s) (hexec : s'.executed = s.executed)
    (hrow : ∀ name, s'.row name = s.row name) : Agrees manifest s' where
  subset := hexec ▸ h.subset
  nodup := hexec ▸ h.nodup
  row_iff name checksum := by rw [hrow, hexec, h.row_iff]

/-- The commit of an entry that was without a row, together with its row. -/
theorem Agrees.commit (h : Agrees manifest s) (hnodup : (manifest.map Entry.name).Nodup)
    {e : Entry} (he : e ∈ manifest) (hfresh : e ∉ s.executed)
    (hhistory : s.history ≠ none) :
    Agrees manifest (s.commit [e] [(e.name, e.checksum)]) := by
  obtain ⟨m, hm⟩ := Option.ne_none_iff_exists'.mp hhistory
  have hrow : ∀ a, (s.commit [e] [(e.name, e.checksum)]).row a =
      if a = e.name then some e.checksum else s.row a := by
    intro a
    simp only [Server.row, Server.commit, hm, Option.map_some, Option.bind_some]
    exact Server.get?_insertRows a
  constructor
  · intro d hd
    rcases List.mem_append.mp hd with hd | hd
    · exact h.subset d hd
    · rw [List.mem_singleton.mp hd]
      exact he
  · exact List.nodup_append.mpr ⟨h.nodup, by simp, by
      intro d hd d' hd' heq
      rw [List.mem_singleton.mp hd'] at heq
      exact hfresh (heq ▸ hd)⟩
  · intro name checksum
    rw [hrow]
    simp only [Server.commit, List.mem_append, List.mem_singleton]
    by_cases hname : name = e.name
    · rw [if_pos hname]
      constructor
      · intro hc
        exact ⟨e, Or.inr rfl, hname.symm, Option.some.inj hc⟩
      · rintro ⟨d, hd | rfl, hdname, rfl⟩
        · have heq := List.inj_on_of_nodup_map hnodup (h.subset d hd) he (hdname.trans hname)
          exact absurd (heq ▸ hd) hfresh
        · rfl
    · rw [if_neg hname, h.row_iff]
      constructor
      · rintro ⟨d, hd, hd'⟩
        exact ⟨d, Or.inl hd, hd'⟩
      · rintro ⟨d, hd | rfl, hdname, hdc⟩
        · exact ⟨d, hd, hdname, hdc⟩
        · exact absurd hdname.symm hname

/-! ## Steps -/

/-- What a step of a runner does to the server, and where the runner is then. -/
structure Moved (manifest : List Entry) (i : Nat) (s s' : Server) (p : Phase) : Prop where
  frame : Frame i s s'
  place : Place manifest s' i p
  agrees : Agrees manifest s'
  grown : s'.executed = s.executed ∨
    ∃ e rest, Applied manifest s (e :: rest) ∧ e ∉ s.executed ∧ s'.executed = s.executed ++ [e]

/-- No transaction is open. -/
def Quiet (s : Server) (i : Nat) : Prop :=
  ∀ executed rows, s.transaction i ≠ some (.active executed rows)

theorem Place.quiet (h : Place manifest s i p) (hw : p.work = none) : Quiet s i := by
  intro executed rows ht
  have := h.work executed rows ht
  rw [hw] at this
  cases this

theorem Quiet.setTransaction_none : Quiet (s.setTransaction i none) i := by
  intro executed rows
  simp

theorem Quiet.refuse : Quiet (s.refuse i) i := by
  intro executed rows
  rw [Server.refuse, Server.setTransaction_self]
  cases s.transaction i <;> simp

theorem Server.refuse_of_quiet (h : Quiet s i) : s.refuse i = s := by
  have heq : (s.transaction i).map (fun _ => Transaction.aborted) = s.transaction i := by
    cases ht : s.transaction i with
    | none => rfl
    | some t =>
      cases t with
      | active executed rows => exact absurd ht (h executed rows)
      | aborted => rfl
  simp [Server.refuse, Server.setTransaction, heq]

/-- A runner without an open transaction. -/
theorem Place.of_quiet (hs : Quiet s i) (hw : p.work = none) (hf : p.fresh = none)
    (hlock : p.inside = true → s.lock = some i)
    (htodo : ∀ rest, p.todo = some rest → Applied manifest s rest) : Place manifest s i p where
  lock := hlock
  work executed rows ht := absurd ht (hs executed rows)
  opened w h := by rw [hw] at h; cases h
  todo := htodo
  fresh e h := by rw [hf] at h; cases h
  table e rest h := by rw [h] at hw; cases hw

/-- A runner that is done, or about to give the lock back. -/
theorem Place.of_result {result : Except String Unit} (hs : Quiet s i)
    (hp : p = .unlock result ∨ p = .close result ∨ p = .ended result)
    (hall : result = .ok () → Applied manifest s []) : Place manifest s i p := by
  have htodo : ∀ rest, p.todo = some rest → Applied manifest s rest := by
    intro rest hrest
    rcases hp with rfl | rfl | rfl <;> cases result <;> cases hrest <;> exact hall rfl
  rcases hp with rfl | rfl | rfl <;>
    exact .of_quiet hs rfl rfl (by intro h; cases h) htodo

theorem Place.loop (hs : Quiet s i) (hlock : s.lock = some i) {rest : List Entry}
    (h : Applied manifest s rest) : Place manifest s i (.loop rest) := by
  cases rest with
  | nil =>
    refine .of_quiet hs rfl rfl (fun _ => hlock) ?_
    intro rest hrest
    cases hrest
    exact h
  | cons e rest =>
    refine .of_quiet hs rfl rfl (fun _ => hlock) ?_
    intro rest hrest
    cases hrest
    exact h

/-- The result that a phase carries, when there is nothing left to be applied. -/
theorem Place.result {result : Except String Unit}
    (hp : p = .unlock result ∨ p = .close result ∨ p = .ended result)
    (h : Place manifest s i p) : result = .ok () → Applied manifest s [] := by
  rintro rfl
  rcases hp with rfl | rfl | rfl <;> exact h.todo [] rfl

theorem Place.fail (hs : Quiet s i) (message : String) :
    Place manifest s i (.unlock (.error message)) :=
  .of_result hs (Or.inl rfl) (by intro h; cases h)

/-- Where a runner goes when its statement fails. -/
theorem Place.resume_error {q : Statement} (h : Place manifest s i p) (hq : p.query = some q)
    (e : QueryError) : Place manifest (s.refuse i) i (p.resume manifest (.error e)) := by
  have hquiet : Quiet (s.refuse i) i := Quiet.refuse
  have hroll : p.inside = true → Place manifest (s.refuse i) i (.rollback e.message) := by
    intro hp
    refine .of_quiet hquiet rfl rfl (fun _ => h.lock hp) ?_
    intro rest hrest
    cases hrest
  cases p with
  | idle | close _ | ended _ | crashed => cases hq
  | lock | createTable | check _ _ | begin _ _ | rollback _ => exact .fail hquiet _
  | execute _ _ | insert _ _ | commit _ _ => exact hroll rfl
  | history => exact .fail hquiet _
  | state =>
    simp only [Phase.resume, verifyMigrationState]
    split
    · exact .fail hquiet _
    · exact .fail hquiet _
  | unlock result =>
    exact .of_result hquiet (Or.inr (Or.inl rfl)) fun hr => (h.result (Or.inl rfl) hr).mono
      (List.Subset.refl _)

theorem Agrees.setTransaction (h : Agrees manifest s) (t : Option Transaction) :
    Agrees manifest (s.setTransaction i t) := h.of_eq rfl fun _ => rfl

theorem Moved.refuse {q : Statement} (hs : Agrees manifest s) (h : Place manifest s i p)
    (hq : p.query = some q) (e : QueryError) :
    Moved manifest i s (s.refuse i) (p.resume manifest (.error e)) :=
  ⟨.setTransaction s i _, h.resume_error hq e, hs.setTransaction _, Or.inl rfl⟩

/-- A step that leaves the schema and the history. -/
theorem Moved.of_row {p' : Phase} (hs : Agrees manifest s) (hf : Frame i s s')
    (hexec : s'.executed = s.executed) (hrow : ∀ name, s'.row name = s.row name)
    (hp : Place manifest s' i p') : Moved manifest i s s' p' :=
  ⟨hf, hp, hs.of_eq hexec hrow, Or.inl hexec⟩

theorem Frame.refl (s : Server) (i : Nat) : Frame i s s :=
  ⟨fun _ _ h => h, fun _ _ => rfl, List.Subset.refl _, fun _ => rfl, fun h => h⟩

theorem Moved.stay {p' : Phase} (hs : Agrees manifest s) (hp : Place manifest s i p') :
    Moved manifest i s s p' := .of_row hs (.refl s i) rfl (fun _ => rfl) hp

/-! ## A statement that the server executes -/

theorem moved_lock {a : Except QueryError Checksums} (hs : Agrees manifest s)
    (h : Place manifest s i .lock) (hx : s.execute i .lock = some (s', a)) :
    Moved manifest i s s' (Phase.lock.resume manifest a) := by
  simp only [Server.execute] at hx
  split at hx
  · rename_i hfree
    cases hx
    refine .of_row hs ⟨?_, fun _ _ => rfl, List.Subset.refl _, fun _ => rfl, fun h => h⟩ rfl
      (fun _ => rfl) ?_
    · intro j hj hl
      rcases hfree with hfree | hfree
      · rw [hfree] at hl
        cases hl
      · rw [hfree] at hl
        exact absurd (Option.some.inj hl).symm hj
    · refine .of_quiet (h.quiet rfl) rfl rfl (fun _ => rfl) ?_
      intro rest hrest
      cases hrest
  · cases hx

theorem moved_createTable {a : Except QueryError Checksums} (hs : Agrees manifest s)
    (h : Place manifest s i .createTable) (hx : s.execute i .createTable = some (s', a)) :
    Moved manifest i s s' (Phase.createTable.resume manifest a) := by
  cases hx
  refine .of_row hs ⟨fun _ _ h => h, fun _ _ => rfl, List.Subset.refl _, fun _ => rfl, by simp⟩
    rfl ?_ ?_
  · intro name
    simp only [Server.row]
    cases s.history <;> rfl
  · refine .of_quiet (h.quiet rfl) rfl rfl (fun _ => h.lock rfl) ?_
    intro rest hrest
    cases hrest

/-- What `SELECT name, checksum` gives back. -/
theorem execute_selectAll {a : Except QueryError Checksums}
    (hx : s.execute i .selectAll = some (s', a)) : s' = s ∧
      ∀ rows, a = .ok rows → ∀ name c, OrderedMap.lookup name rows = some c → s.row name = some c := by
  simp only [Server.execute] at hx
  split at hx
  · cases hx
    refine ⟨rfl, ?_⟩
    intro rows hrows
    cases hrows
  · rename_i m hm
    cases hx
    refine ⟨rfl, ?_⟩
    intro rows hrows name c hc
    cases hrows
    have hmem := OrderedMap.mem_of_lookup hc
    rw [orderByName, List.mem_insertionSort] at hmem
    simp only [Server.row, hm, Option.bind_some]
    exact OrderedMap.mem_entries_iff.mp hmem

theorem moved_history {a : Except QueryError Checksums} (hs : Agrees manifest s)
    (h : Place manifest s i .history) (hx : s.execute i .selectAll = some (s', a)) :
    Moved manifest i s s' (Phase.history.resume manifest a) := by
  obtain ⟨rfl, -⟩ := execute_selectAll hx
  apply Moved.stay hs
  simp only [Phase.resume]
  split
  · exact .loop (h.quiet rfl) (h.lock rfl) .start
  · exact .fail (h.quiet rfl) _

theorem moved_state {a : Except QueryError Checksums} (hs : Agrees manifest s)
    (h : Place manifest s i .state) (hx : s.execute i .selectAll = some (s', a)) :
    Moved manifest i s s' (Phase.state.resume manifest a) := by
  obtain ⟨rfl, -⟩ := execute_selectAll hx
  exact .stay hs (.of_result (h.quiet rfl) (Or.inl rfl) fun _ => h.todo [] rfl)

theorem moved_check {a : Except QueryError Checksums} {e : Entry} {rest : List Entry}
    (hnodup : (manifest.map Entry.name).Nodup) (hs : Agrees manifest s)
    (h : Place manifest s i (.check e rest)) (hx : s.execute i (.select e.name) = some (s', a)) :
    Moved manifest i s s' ((Phase.check e rest).resume manifest a) := by
  have htodo := h.todo _ rfl
  have he : e ∈ manifest := by
    obtain ⟨done, hm, -⟩ := htodo
    simp [hm]
  simp only [Server.execute] at hx
  split at hx
  · cases hx
    exact .stay hs (.fail (h.quiet rfl) _)
  · rename_i m hm
    cases hx
    apply Moved.stay hs
    have hrow : s.row e.name = m.get? e.name := by simp [Server.row, hm]
    cases hget : m.get? e.name with
    | none =>
      rw [hget] at hrow
      refine ⟨fun _ => h.lock rfl, ?_, ?_, ?_, ?_, ?_⟩
      · intro executed rows ht
        exact absurd ht (h.quiet rfl executed rows)
      · intro w hw
        cases hw
      · intro rest' hrest
        cases hrest
        exact htodo
      · intro e' he'
        cases he'
        exact (hs.row_none hnodup he).mp hrow
      · intro e' rest' hp
        cases hp
    | some c =>
      rw [hget] at hrow
      simp only [Option.toList_some, List.map_cons, List.map_nil, Phase.resume]
      split
      · exact .fail (h.quiet rfl) _
      · rename_i hc
        have hc' : c = e.checksum := by simpa using hc
        rw [hc'] at hrow
        exact .loop (h.quiet rfl) (h.lock rfl)
          (htodo.next ((hs.mem_iff hnodup he).mpr hrow))

/-- A statement inside the transaction of an entry: the transaction is the one that the next
phase expects. -/
theorem Moved.inTransaction {p' : Phase} {w : List Entry × Checksums} {e : Entry}
    (hs : Agrees manifest s) (h : Place manifest s i p) (hin : p.inside = true)
    (hw : p'.work = some w) (htodo : p'.todo = p.todo) (hfresh : ∀ d, p'.fresh = some d → d = e)
    (he : e ∉ s.executed) (htable : ∀ d rest, p' = .commit d rest → s.history ≠ none) :
    Moved manifest i s (s.setTransaction i (some (.active w.1 w.2))) p' := by
  refine .of_row hs (.setTransaction s i _) rfl (fun _ => rfl)
    ⟨fun _ => h.lock hin, ?_, ?_, ?_, ?_, htable⟩
  · intro executed rows ht
    rw [Server.setTransaction_self] at ht
    cases ht
    exact hw
  · intro w' hw'
    rw [hw] at hw'
    cases hw'
    exact Server.setTransaction_self _
  · intro rest hrest
    rw [htodo] at hrest
    exact (h.todo rest hrest).mono (List.Subset.refl _)
  · intro d hd
    rw [hfresh d hd]
    exact he

theorem moved_begin {a : Except QueryError Checksums} {e : Entry} {rest : List Entry}
    (hs : Agrees manifest s) (h : Place manifest s i (.begin e rest))
    (hx : s.execute i .begin = some (s', a)) :
    Moved manifest i s s' ((Phase.begin e rest).resume manifest a) := by
  cases hx
  refine .inTransaction (w := ([], [])) hs h rfl rfl rfl ?_ (h.fresh e rfl) ?_
  · intro d hd
    cases hd
    rfl
  · intro d rest' hp
    cases hp

theorem moved_execute {a : Except QueryError Checksums} {e : Entry} {rest : List Entry}
    (hs : Agrees manifest s) (h : Place manifest s i (.execute e rest))
    (hx : s.execute i (.execute e) = some (s', a)) :
    Moved manifest i s s' ((Phase.execute e rest).resume manifest a) := by
  have ht := h.opened _ rfl
  simp only [Server.execute, ht] at hx
  cases hx
  refine .inTransaction (w := ([e], [])) hs h rfl rfl rfl ?_ (h.fresh e rfl) ?_
  · intro d hd
    cases hd
    rfl
  · intro d rest' hp
    cases hp

theorem moved_insert {a : Except QueryError Checksums} {e : Entry} {rest : List Entry}
    (hs : Agrees manifest s) (h : Place manifest s i (.insert e rest))
    (hx : s.execute i (.insert e.name e.checksum) = some (s', a)) :
    Moved manifest i s s' ((Phase.insert e rest).resume manifest a) := by
  have ht := h.opened _ rfl
  have hrefuse : s.setTransaction i (some .aborted) = s.refuse i := by
    rw [Server.refuse, ht]
    rfl
  simp only [Server.execute, ht, hrefuse] at hx
  split at hx
  · cases hx
    exact .refuse hs h rfl _
  · rename_i htable
    split at hx
    · cases hx
      exact .refuse hs h rfl _
    · cases hx
      refine .inTransaction (w := ([e], [(e.name, e.checksum)])) hs h rfl rfl rfl ?_
        (h.fresh e rfl) fun _ _ _ => htable
      intro d hd
      cases hd
      rfl

theorem moved_commit {a : Except QueryError Checksums} {e : Entry} {rest : List Entry}
    (hnodup : (manifest.map Entry.name).Nodup) (hs : Agrees manifest s)
    (h : Place manifest s i (.commit e rest)) (hx : s.execute i .commit = some (s', a)) :
    Moved manifest i s s' ((Phase.commit e rest).resume manifest a) := by
  have ht := h.opened _ rfl
  have htodo := h.todo _ rfl
  have hfresh := h.fresh e rfl
  have hlock := h.lock rfl
  have he : e ∈ manifest := by
    obtain ⟨done, hm, -⟩ := htodo
    simp [hm]
  simp only [Server.execute, ht] at hx
  cases hx
  have hcommit := (hs.commit hnodup he hfresh (h.table e rest rfl)).setTransaction (i := i) none
  have hsub : s.executed ⊆ s.executed ++ [e] := List.subset_append_left _ _
  refine ⟨⟨fun _ _ hl => hl, ?_, hsub, fun hl => absurd hlock hl, ?_⟩, ?_, hcommit,
    Or.inr ⟨e, rest, htodo, hfresh, rfl⟩⟩
  · intro j hj
    simp [Server.setTransaction, Server.commit, hj]
  · intro hm
    simpa [Server.commit, Server.setTransaction] using hm
  · have hnext : Applied manifest (s.commit [e] [(e.name, e.checksum)]) rest :=
      (htodo.mono hsub).next (by simp [Server.commit])
    have hquiet : Quiet ((s.commit [e] [(e.name, e.checksum)]).setTransaction i none) i :=
      .setTransaction_none
    exact .loop hquiet hlock (hnext.mono (List.Subset.refl _))

theorem moved_rollback {a : Except QueryError Checksums} {message : String}
    (hs : Agrees manifest s) (hx : s.execute i .rollback = some (s', a)) :
    Moved manifest i s s' ((Phase.rollback message).resume manifest a) := by
  cases hx
  exact .of_row hs (.setTransaction s i none) rfl (fun _ => rfl) (.fail .setTransaction_none _)

theorem moved_unlock {a : Except QueryError Checksums} {result : Except String Unit}
    (hs : Agrees manifest s) (h : Place manifest s i (.unlock result))
    (hx : s.execute i .unlock = some (s', a)) :
    Moved manifest i s s' ((Phase.unlock result).resume manifest a) := by
  cases hx
  refine .of_row hs (.unlock s i) rfl (fun _ => rfl) (.of_result ?_ (Or.inr (Or.inl rfl)) ?_)
  · exact h.quiet rfl
  · intro hr
    exact (h.result (Or.inl rfl) hr).mono (List.Subset.refl _)

/-- **A statement and its answer.** -/
theorem moved_serve {a : Except QueryError Checksums} {q : Statement}
    (hnodup : (manifest.map Entry.name).Nodup) (hs : Agrees manifest s) (h : Place manifest s i p)
    (hq : p.query = some q) (hx : s.serve i q = some (s', a)) :
    Moved manifest i s s' (p.resume manifest a) := by
  unfold Server.serve at hx
  split at hx
  · rename_i haborted
    cases hx
    have hquiet : Quiet s i := by
      intro executed rows ht
      rw [haborted.1] at ht
      cases ht
    have hrefuse := Moved.refuse hs h hq inFailedTransaction
    rwa [Server.refuse_of_quiet hquiet] at hrefuse
  · cases p with
    | idle | close _ | ended _ | crashed => cases hq
    | lock => cases hq; exact moved_lock hs h hx
    | createTable => cases hq; exact moved_createTable hs h hx
    | history => cases hq; exact moved_history hs h hx
    | check e rest => cases hq; exact moved_check hnodup hs h hx
    | begin e rest => cases hq; exact moved_begin hs h hx
    | execute e rest => cases hq; exact moved_execute hs h hx
    | insert e rest => cases hq; exact moved_insert hs h hx
    | commit e rest => cases hq; exact moved_commit hnodup hs h hx
    | rollback message => cases hq; exact moved_rollback hs hx
    | state => cases hq; exact moved_state hs h hx
    | unlock result => cases hq; exact moved_unlock hs h hx

theorem Agrees.drop (h : Agrees manifest s) : Agrees manifest (s.drop i) := by
  have hunlock : Agrees manifest (s.unlock i) := h.of_eq rfl fun _ => rfl
  exact hunlock.setTransaction none

/-- The session ends after a step. -/
theorem Moved.drop {p' p'' : Phase} (h : Moved manifest i s s' p')
    (hp : Place manifest (s'.drop i) i p'') : Moved manifest i s (s'.drop i) p'' where
  frame := h.frame.trans (.drop s' i) rfl
  place := hp
  agrees := h.agrees.drop
  grown := h.grown

theorem Place.disconnect (h : ∀ result, p = .unlock result → result = .ok () →
    Applied manifest s []) (message : String) :
    Place manifest (s.drop i) i (p.disconnect message) := by
  have hquiet : Quiet (s.drop i) i := .setTransaction_none
  cases p with
  | unlock result =>
    exact .of_result hquiet (Or.inr (Or.inr rfl)) fun hr =>
      (h result rfl hr).mono (List.Subset.refl _)
  | _ => exact .of_result hquiet (Or.inr (Or.inr rfl)) (by intro h; cases h)

/-! ## Runs -/

/-- What is pending when the given migrations are applied, in the order of the manifest. -/
def pending (manifest start : List Entry) : List Entry := manifest.filter fun e => e ∉ start

structure Inv (manifest start : List Entry) (s : State) : Prop where
  agrees : Agrees manifest s.server
  place : ∀ i, Place manifest s.server i (s.runners i)
  order : ∃ new, s.server.executed = start ++ new ∧ new <+: pending manifest start

/-- A prefix that has everything up to an entry, and not the entry, ends right before it. -/
theorem prefix_eq {α : Type} {new done rest : List α} {e : α}
    (h : new <+: done ++ e :: rest) (hnodup : (done ++ e :: rest).Nodup)
    (hdone : ∀ d ∈ done, d ∈ new) (he : e ∉ new) : new = done := by
  rcases List.prefix_or_prefix_of_prefix h (List.prefix_append done (e :: rest)) with hp | hp
  · have hdone' := (List.nodup_append.mp hnodup).1
    exact hp.eq_of_length_le (hdone'.length_le_of_subset hdone)
  · obtain ⟨more, rfl⟩ := hp
    cases more with
    | nil => simp
    | cons y more =>
      have hy := (List.prefix_append_right_inj done).mp h
      rw [List.cons_prefix_cons] at hy
      exact absurd (by simp [hy.1]) he

/-- The next entry of a runner is the next one that was pending at the start. -/
theorem pending_grows {start new rest : List Entry} {e : Entry} (hmanifest : manifest.Nodup)
    (hexec : s.executed = start ++ new) (hnew : new <+: pending manifest start)
    (htodo : Applied manifest s (e :: rest)) (he : e ∉ s.executed) :
    new ++ [e] <+: pending manifest start := by
  obtain ⟨done, hm, hdone⟩ := htodo
  have hestart : e ∉ start := fun h => he (by simp [hexec, h])
  have henew : e ∉ new := fun h => he (by simp [hexec, h])
  have hsplit : pending manifest start =
      pending done start ++ e :: pending rest start := by
    simp [pending, hm, hestart]
  have hnodup : (pending manifest start).Nodup := hmanifest.filter _
  rw [hsplit] at hnew hnodup ⊢
  have hall : ∀ d ∈ pending done start, d ∈ new := by
    intro d hd
    simp only [pending, List.mem_filter, decide_eq_true_eq] at hd
    have hmem := hdone d hd.1
    rw [hexec, List.mem_append] at hmem
    exact hmem.resolve_left hd.2
  rw [prefix_eq hnew hnodup hall henew]
  exact ⟨pending rest start, by simp⟩

variable {start : List Entry} {m m' : State}

theorem Inv.moved {p' : Phase} (hnodup : (manifest.map Entry.name).Nodup)
    (h : Inv manifest start m) (hmoved : Moved manifest i m.server s' p') :
    Inv manifest start (m.put s' i p') where
  agrees := hmoved.agrees
  place j := by
    by_cases hj : j = i
    · subst hj
      simpa [State.put] using hmoved.place
    · simpa [State.put, hj] using (h.place j).frame hmoved.frame hj
  order := by
    obtain ⟨new, hexec, hnew⟩ := h.order
    rcases hmoved.grown with hg | ⟨e, rest, htodo, he, hg⟩
    · exact ⟨new, hg.trans hexec, hnew⟩
    · refine ⟨new ++ [e], ?_, pending_grows (hnodup.of_map _) hexec hnew htodo he⟩
      change s'.executed = _
      rw [hg, hexec, List.append_assoc]

/-- The session ends. -/
theorem Moved.reset (hs : Agrees manifest s) (hp : Place manifest (s.drop i) i p) :
    Moved manifest i s (s.drop i) p := ⟨.drop s i, hp, hs.drop, Or.inl rfl⟩

theorem Inv.reply {q : Statement} {r : Reply} (hnodup : (manifest.map Entry.name).Nodup)
    (h : Inv manifest start m) (hq : (m.runners i).query = some q)
    (hr : reply manifest m i q r = some m') : Inv manifest start m' := by
  have hplace := h.place i
  cases r with
  | served =>
    simp only [Migrations.reply] at hr
    split at hr
    · cases hr
    · rename_i server answer hserve
      cases hr
      exact h.moved hnodup (moved_serve hnodup h.agrees hplace hq hserve)
  | refused error =>
    cases hr
    exact h.moved hnodup (.refuse h.agrees hplace hq error)
  | lost executed message =>
    cases executed with
    | false =>
      cases hr
      refine h.moved hnodup (.reset h.agrees (.disconnect ?_ message))
      intro result hresult
      exact hplace.result (Or.inl hresult)
    | true =>
      simp only [Migrations.reply] at hr
      split at hr
      · cases hr
      · rename_i server answer hserve
        cases hr
        have hmoved := moved_serve hnodup h.agrees hplace hq hserve
        refine h.moved hnodup (hmoved.drop (.disconnect ?_ message))
        intro result hresult hok
        have hbefore := hplace.result (Or.inl hresult) hok
        exact hbefore.mono hmoved.frame.subset

theorem Inv.step {ev : Event} {o : Unit} (hnodup : (manifest.map Entry.name).Nodup)
    (h : Inv manifest start m) (hstep : step manifest m ev = some (m', o)) :
    Inv manifest start m' := by
  cases ev with
  | start i =>
    simp only [Migrations.step] at hstep
    split at hstep
    · rename_i hp
      cases hstep
      have hplace := h.place i
      rw [hp] at hplace
      refine h.moved hnodup (.stay h.agrees (.of_quiet (hplace.quiet rfl) rfl rfl ?_ ?_))
      · intro h
        cases h
      · intro rest h
        cases h
    · cases hstep
  | reply i r =>
    simp only [Migrations.step] at hstep
    split at hstep
    · cases hstep
    · rename_i q hq
      obtain ⟨m₁, hr, heq⟩ := Option.map_eq_some_iff.mp hstep
      cases heq
      exact h.reply hnodup hq hr
  | finish i =>
    simp only [Migrations.step] at hstep
    split at hstep
    · rename_i result hp
      cases hstep
      have hplace := h.place i
      refine h.moved hnodup (.reset h.agrees (.of_result .setTransaction_none
        (Or.inr (Or.inr rfl)) ?_))
      intro hr
      exact (hplace.result (Or.inr (Or.inl hp)) hr).mono (List.Subset.refl _)
    · cases hstep
  | crash i =>
    have hcrash : Place manifest (m.server.drop i) i .crashed := by
      refine .of_quiet .setTransaction_none rfl rfl ?_ ?_
      · intro h
        cases h
      · intro rest h
        cases h
    simp only [Migrations.step] at hstep
    split at hstep
    · cases hstep
    · cases hstep
    · cases hstep
    · cases hstep
      exact h.moved hnodup (.reset h.agrees hcrash)

theorem Start.inv (h : Start manifest m) : Inv manifest m.server.executed m where
  agrees := h.agrees
  place i := by
    rw [h.idle i]
    refine .of_quiet ?_ rfl rfl ?_ ?_
    · intro executed rows ht
      rw [h.transaction i] at ht
      cases ht
    · intro h
      cases h
    · intro rest h
      cases h
  order := ⟨[], by simp, List.nil_prefix⟩

theorem inv_of_run {G : State → Event → Prop} {tr : List (Event × Unit)}
    (hnodup : (manifest.map Entry.name).Nodup) (h₀ : Start manifest m)
    (h : Run (step manifest) G m tr m') : Inv manifest m.server.executed m' :=
  h.invariant (fun _ _ _ _ hi _ hstep => hi.step hnodup hstep) h₀.inv

/-! ## The law -/

/-- What the runs have applied is in the order of the names. -/
theorem Inv.precedes {start before after : List Entry} {e d : Entry}
    (hsorted : (manifest.map Entry.name).Pairwise Precedes) (h : Inv manifest start m)
    (hsplit : m.server.executed = before ++ e :: after) (hd : d ∈ before) (hstart : d ∉ start) :
    Precedes d.name e.name := by
  obtain ⟨new, hexec, hnew⟩ := h.order
  have hnewsorted : new.Pairwise fun x y => Precedes x.name y.name :=
    (List.pairwise_map.mp hsorted).sublist (hnew.sublist.trans List.filter_sublist)
  rw [hexec, List.append_eq_append_iff] at hsplit
  rcases hsplit with ⟨x, hbefore, hnewx⟩ | ⟨x, hstartx, -⟩
  · rw [hbefore, List.mem_append] at hd
    rw [hnewx, List.pairwise_append] at hnewsorted
    exact hnewsorted.2.2 d (hd.resolve_left hstart) e List.mem_cons_self
  · exact absurd (by simp [hstartx, hd]) hstart

/-- **Migrations apply once, and in order.** Whatever part of the manifest is applied when the
first run starts, and however runs overlap, fail and crash: no migration is committed twice, each
has its row exactly when its SQL is committed, a run that ends without error leaves the manifest
applied and nothing else, and a run applies a migration after one that is later in the order of
the file names only if that one was there at the start. -/
theorem migrate_once_in_order {sha256 : String → String} {directory : OrderedMap String String}
    {manifest : List Entry} (hload : loadMigrationManifest sha256 directory = .ok manifest)
    {s₀ s : State} {tr : List (Event × Unit)} (h₀ : Start manifest s₀)
    (h : Run (step manifest) Always s₀ tr s) :
    s.server.executed.Nodup ∧
    (∀ e ∈ manifest, e ∈ s.server.executed ↔ s.server.row e.name = some e.checksum) ∧
    (∀ name checksum, s.server.row name = some checksum →
      ∃ e ∈ manifest, e.name = name ∧ e.checksum = checksum) ∧
    (∀ i, s.runners i = .ended (.ok ()) → ∀ e, e ∈ s.server.executed ↔ e ∈ manifest) ∧
    (∀ before e after, s.server.executed = before ++ e :: after → ∀ d ∈ before,
      d ∉ s₀.server.executed → Precedes d.name e.name ∧
        ((digits d.name).length = (digits e.name).length → number d.name ≤ number e.name)) := by
  obtain ⟨hsorted, hnodup, -, -⟩ := loadMigrationManifest_ok hload
  have hinv := inv_of_run hnodup h₀ h
  refine ⟨hinv.agrees.nodup, fun e he => hinv.agrees.mem_iff hnodup he, ?_, ?_, ?_⟩
  · intro name checksum hrow
    obtain ⟨e, he, hname⟩ := (hinv.agrees.row_iff name checksum).mp hrow
    exact ⟨e, hinv.agrees.subset e he, hname⟩
  · intro i hi e
    have hall := ((hinv.place i).result (Or.inr (Or.inr hi)) rfl).all
    exact ⟨hinv.agrees.subset e, hall e⟩
  · intro before e after hsplit d hd hstart
    have hprecedes := hinv.precedes hsorted hsplit hd hstart
    exact ⟨hprecedes, fun hlen => number_le_of_units_le hlen hprecedes⟩

/-! ### A release of two migrations -/

def digestOf (sql : String) : String :=
  if sql = "CREATE TABLE a (id UUID)" then
    "d76f62faf477ccd793a4b3ad157040b2c9ad6f9cdc5cda91c322084d78bacb75"
  else if sql = "CREATE TABLE b (id UUID)" then
    "c2f7ab450fbab2f7a2c2e833f8636f4aebbbd273a868d337f14ace62c267aa05"
  else ""

def release : OrderedMap String String :=
  (OrderedMap.empty.set "002_b.sql" "CREATE TABLE b (id UUID)").set "001_a.sql"
    "CREATE TABLE a (id UUID)"

def firstFile : Entry :=
  ⟨"001_a.sql", digestOf "CREATE TABLE a (id UUID)", "CREATE TABLE a (id UUID)"⟩

def secondFile : Entry :=
  ⟨"002_b.sql", digestOf "CREATE TABLE b (id UUID)", "CREATE TABLE b (id UUID)"⟩

/-- A server that has applied the given entries. -/
def serverWith (entries : List Entry) : State where
  server :=
    { history := some (entries.foldl (fun h e => h.set e.name e.checksum) .empty)
      executed := entries
      lock := none
      transaction := fun _ => none }
  runners := fun _ => .idle

/-- The next statements of a runner are executed, and the answers reach it. -/
def served (i n : Nat) : List Event := List.replicate n (.reply i .served)

theorem release_manifest :
    loadMigrationManifest digestOf release = .ok [firstFile, secondFile] := rfl

theorem start_empty : Start [firstFile, secondFile] (serverWith []) where
  agrees := ⟨by simp [serverWith], List.nodup_nil, by simp [serverWith, Server.row]⟩
  idle _ := rfl
  lock := rfl
  transaction _ := rfl

/-- The history has a gap: the second file is applied and the first one is not. -/
theorem start_gap : Start [firstFile, secondFile] (serverWith [secondFile]) where
  agrees := by
    refine ⟨by simp [serverWith], by simp [serverWith], ?_⟩
    intro name checksum
    simp only [serverWith, Server.row, List.foldl_cons, List.foldl_nil, Option.bind_some,
      OrderedMap.get?_set, OrderedMap.get?_empty, List.mem_singleton]
    constructor
    · intro h
      split at h
      · rename_i hname
        exact ⟨secondFile, rfl, hname.symm, Option.some.inj h⟩
      · cases h
    · rintro ⟨e, rfl, rfl, rfl⟩
      simp
  idle _ := rfl
  lock := rfl
  transaction _ := rfl

/-- The first runner dies after its first commit, and the second one, which has waited for the
lock, applies what is left. -/
theorem migrate_once_in_order_release : ∃ tr s,
    Run (step [firstFile, secondFile]) Always (serverWith []) tr s ∧
      s.runners 1 = .ended (.ok ()) ∧
      ∀ e, e ∈ s.server.executed ↔ e ∈ [firstFile, secondFile] := by
  have h : exec (step [firstFile, secondFile]) Always (serverWith [])
      ([.start 0, .start 1] ++ served 0 8 ++ [.crash 0] ++ served 1 11 ++ [.finish 1]) =
        some (_, _) := rfl
  have hrun := Run.of_exec h
  exact ⟨_, _, hrun, rfl, (migrate_once_in_order release_manifest start_empty hrun).2.2.2.1 1 rfl⟩

/-- A gap in the history is filled: the migration with the lower number comes last. -/
theorem migrate_after_higher : ∃ s₀ tr s, Start [firstFile, secondFile] s₀ ∧
    Run (step [firstFile, secondFile]) Always s₀ tr s ∧ s.runners 0 = .ended (.ok ()) ∧
      s.server.executed = [secondFile, firstFile] ∧
      number firstFile.name < number secondFile.name := by
  have h : exec (step [firstFile, secondFile]) Always (serverWith [secondFile])
      ([.start 0] ++ served 0 11 ++ [.finish 0]) = some (_, _) := rfl
  exact ⟨_, _, _, start_gap, Run.of_exec h, rfl, rfl, by decide⟩

end AuthMe.Migrations
