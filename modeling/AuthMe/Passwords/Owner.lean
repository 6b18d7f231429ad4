import AuthMe.Passwords.Spec

/-!
# The owner of a transaction

What a statement does to the store (`Effect`), and what the store keeps of the log of a call: while
a transaction of the call is active, the version that it has locked holds the hash that it has
written, or else the committed one (`Owner`). With what a request does when it commits, this gives
what an operation can do to the stored hash (`Stored`).
-/

namespace AuthMe.Passwords

open Service Scim

variable {cfg : Config} {s s' : State} {log : Log} {op : Op} {t : Nat}

/-! ## What a statement does -/

/-- What an operation can answer and do to the store. -/
inductive Effect (cfg : Config) (s : State) : (op : Op) → op.Res → State → Prop
  | findUser (res : Option UserRow) : Effect cfg s .findUser res s
  | verifyPassword (hash password : String) :
    Effect cfg s (.verifyPassword hash password) (s.verifies hash password) s
  | hashFails (password : String) : Effect cfg s (.hashPassword password) none s
  | hashPassword {hash : String} (password : String) (hnew : hash ∉ s.hashes.map Prod.fst) :
    Effect cfg s (.hashPassword password) (some hash)
      { s with hashes := (hash, password) :: s.hashes }
  | remaining (passed : Bool) : Effect cfg s .remaining passed s
  | rehashFails (expectedHash passwordHash : String) :
    Effect cfg s (.rehashPasswordIfCurrent expectedHash passwordHash) none s
  | rehash (expectedHash passwordHash : String) (res : Option Bool) (hnone : s.holder = none) :
    Effect cfg s (.rehashPasswordIfCurrent expectedHash passwordHash) res
      { s with toLockedRow := s.write (if s.row.passwordHash = expectedHash then
        { s.row with passwordHash := passwordHash } else s.row) }
  | beginFails : Effect cfg s .begin none s
  | begin : Effect cfg s .begin (some s.begun) { s with toLockedRow := s.start }
  | queryFails (t : Nat) (statement : Statement) : Effect cfg s (.query t statement) none s
  | reads (t : Nat) {statement : Statement} (row : UserRow) (hno : statement ≠ .lock)
    (hhash : statement.passwordHash? = none) : Effect cfg s (.query t statement) (some row) s
  | lock {t : Nat} {row : UserRow} (hactive : t ∈ s.active) (hacquire : s.acquire t = some row) :
    Effect cfg s (.query t .lock) (some row) { s with toLockedRow := s.hold t row }
  | update {t : Nat} {row : UserRow} (w : Write) (hactive : t ∈ s.active)
    (hacquire : s.acquire t = some row) :
    Effect cfg s (.query t (.update w)) (some (w.apply cfg.lowerCase row))
      { s with toLockedRow := s.hold t (w.apply cfg.lowerCase row) }
  | commit {t : Nat} (answered : Bool) (hactive : t ∈ s.active) :
    Effect cfg s (.commit t) (.committed answered) { s with toLockedRow := s.commit t }
  | commitFails (t : Nat) : Effect cfg s (.commit t) .aborted s
  | commitAborts (t : Nat) : Effect cfg s (.commit t) .aborted { s with toLockedRow := s.close t }
  | rollback (t : Nat) : Effect cfg s (.rollback t) () { s with toLockedRow := s.close t }

theorem runStatement_effect {statement : Statement} {res : Option UserRow} (hactive : t ∈ s.active)
    (h : runStatement cfg s t statement = some (res, s')) :
    Effect cfg s (.query t statement) res s' := by
  cases statement with
  | lock =>
    obtain ⟨row, hrow, heq⟩ := Option.map_eq_some_iff.mp h
    cases heq
    exact .lock hactive hrow
  | update w =>
    obtain ⟨row, hrow, heq⟩ := Option.map_eq_some_iff.mp h
    cases heq
    exact .update w hactive hrow
  | select =>
    cases h
    exact .reads t _ (by simp) rfl
  | other =>
    cases h
    exact .reads t _ (by simp) rfl

theorem answer_effect {choice : Choice} {res : op.Res}
    (h : answer cfg s choice op = some (res, s')) : Effect cfg s op res s' := by
  cases op with
  | findUser =>
    cases choice <;> cases h <;> exact .findUser _
  | verifyPassword hash password =>
    cases h
    exact .verifyPassword hash password
  | hashPassword password =>
    cases choice with
    | hash hash =>
      simp only [answer] at h
      split at h
      · rename_i hok
        cases h
        exact .hashPassword password hok.2
      · cases h
    | _ =>
      cases h
      exact .hashFails password
  | remaining =>
    cases choice with
    | remaining passed =>
      cases h
      exact .remaining _
    | _ => cases h
  | rehashPasswordIfCurrent expectedHash passwordHash =>
    cases choice with
    | done | lost =>
      simp only [answer] at h
      split at h
      · cases h
      · rename_i hholder
        cases h
        exact .rehash _ _ _ (by simpa using hholder)
    | _ =>
      cases h
      exact .rehashFails _ _
  | begin =>
    cases choice with
    | done =>
      cases h
      exact .begin
    | _ =>
      cases h
      exact .beginFails
  | query t statement =>
    cases choice with
    | done =>
      simp only [answer] at h
      split at h
      · rename_i hactive
        exact runStatement_effect hactive h
      · cases h
        exact .queryFails t statement
    | _ =>
      cases h
      exact .queryFails t statement
  | commit t =>
    cases choice with
    | done | lost =>
      simp only [answer] at h
      split at h
      · rename_i hactive
        cases h
        exact .commit _ hactive
      · cases h
        exact .commitFails t
    | _ =>
      cases h
      exact .commitAborts t
  | rollback t =>
    cases h
    exact .rollback t

/-! ## The owner of a transaction -/

/-- What the store keeps of the log of a call: the hashes, and the versions of its transactions. -/
structure Owner (s : State) (log : Log) : Prop where
  hashed : ∀ password hash, Answered log (.hashPassword password) (some hash) →
    (hash, password) ∈ s.hashes
  verified : ∀ hash password, Answered log (.verifyPassword hash password) true →
    (hash, password) ∈ s.hashes
  begun : ∀ t, Owns log t → t < s.begun
  version : ∀ t, Owns log t → t ∈ s.active → ∀ row, s.holder = some ⟨t, row⟩ →
    row.passwordHash = (written t log).getD s.row.passwordHash
  wrote : ∀ t, Owns log t → t ∈ s.active → ∀ hash, written t log = some hash →
    ∃ row, s.holder = some ⟨t, row⟩
  locked : ∀ t row, Owns log t → Answered log (.query t .lock) (some row) → t ∈ s.active →
    (∃ own, s.holder = some ⟨t, own⟩) ∧ row.passwordHash = s.row.passwordHash

theorem owner_nil (s : State) : Owner s [] where
  hashed := by
    rintro password hash ⟨before, after, h⟩
    cases h
  verified := by
    rintro hash password ⟨before, after, h⟩
    cases h
  begun := by
    rintro t ⟨before, after, h⟩
    cases h
  version := by
    rintro t ⟨before, after, h⟩
    cases h
  wrote := by
    rintro t ⟨before, after, h⟩
    cases h
  locked := by
    rintro t row ⟨before, after, h⟩
    cases h

/-- A step of somebody else. -/
theorem Owner.apart (h : Owner s log) (hapart : s.toLockedRow.Apart (Owns log) s'.toLockedRow)
    (hhashes : ∀ x ∈ s.hashes, x ∈ s'.hashes) : Owner s' log where
  hashed password hash hanswer := hhashes _ (h.hashed password hash hanswer)
  verified hash password hanswer := hhashes _ (h.verified hash password hanswer)
  begun t ht := Nat.lt_of_lt_of_le (h.begun t ht) hapart.begun
  version t ht hactive row hholder := by
    have hheld := (hapart.holder ⟨t, row⟩ ht hactive).mp hholder
    rw [h.version t ht (hapart.active t ht hactive) row hheld, hapart.row ⟨t, row⟩ ht hactive hheld]
  wrote t ht hactive hash hwritten := by
    obtain ⟨row, hheld⟩ := h.wrote t ht (hapart.active t ht hactive) hash hwritten
    exact ⟨row, (hapart.holder ⟨t, row⟩ ht hactive).mpr hheld⟩
  locked t row ht hread hactive := by
    obtain ⟨⟨own, hheld⟩, hhash⟩ := h.locked t row ht hread (hapart.active t ht hactive)
    refine ⟨⟨own, (hapart.holder ⟨t, own⟩ ht hactive).mpr hheld⟩, ?_⟩
    rw [hhash, hapart.row ⟨t, own⟩ ht hactive hheld]

/-- What an operation leaves alone, for the owner of other transactions. -/
theorem Effect.apart {T : Nat → Prop} {res : op.Res} (h : Effect cfg s op res s')
    (hother : ∀ t, Owns log t → ¬ T t) (hbegun : ∀ t, T t → t < s.begun)
    (hallowed : Allowed log op) :
    s.toLockedRow.Apart T s'.toLockedRow ∧ ∀ x ∈ s.hashes, x ∈ s'.hashes := by
  cases h with
  | hashPassword password _ => exact ⟨.refl T _, fun x hx => List.mem_cons_of_mem _ hx⟩
  | rehash _ _ _ hnone => exact ⟨LockedRow.apart_write hnone T _, fun _ hx => hx⟩
  | begin => exact ⟨LockedRow.apart_start hbegun, fun _ hx => hx⟩
  | lock _ hacquire =>
    exact ⟨LockedRow.apart_hold (hother _ hallowed.1) hacquire _, fun _ hx => hx⟩
  | update w _ hacquire =>
    exact ⟨LockedRow.apart_hold (hother _ hallowed) hacquire _, fun _ hx => hx⟩
  | commit _ _ => exact ⟨LockedRow.apart_commit T _ _, fun _ hx => hx⟩
  | commitAborts t | rollback t => exact ⟨LockedRow.apart_close T _ t, fun _ hx => hx⟩
  | _ => exact ⟨.refl T _, fun _ hx => hx⟩

/-- An entry that says nothing about versions, and nothing about hashes that the store does not
know. -/
def quiet (s : State) : Entry operations State → Bool
  | ⟨.hashPassword password, some hash, _, _⟩ => s.verifies hash password
  | ⟨.verifyPassword hash password, true, _, _⟩ => s.verifies hash password
  | ⟨.begin, some _, _, _⟩ | ⟨.query _ .lock, some _, _, _⟩ => false
  | ⟨.query _ statement, some _, _, _⟩ => statement.passwordHash?.isNone
  | _ => true

theorem answered_cons {x : Entry operations State} {res : op.Res} :
    Answered (x :: log) op res ↔ (∃ before after, x = ⟨op, res, before, after⟩) ∨
      Answered log op res := by
  simp only [Answered, List.mem_cons, exists_or, eq_comm]

theorem writtenBy_of_quiet {x : Entry operations State} (hx : quiet s x = true) (t : Nat) :
    writtenBy t x = none := by
  unfold writtenBy
  split
  · rename_i t' statement row before after
    have hnone : statement.passwordHash? = none := by
      cases statement with
      | lock => cases hx
      | update w => simpa [quiet] using hx
      | _ => rfl
    rw [hnone, ite_self]
  · rfl

theorem Owner.cons {x : Entry operations State} (h : Owner s log) (hx : quiet s x = true) :
    Owner s (x :: log) := by
  have howns : ∀ t, Owns (x :: log) t → Owns log t := by
    intro t ht
    rcases answered_cons.mp ht with ⟨before, after, rfl⟩ | ht
    · cases hx
    · exact ht
  have hwritten : ∀ t, written t (x :: log) = written t log := by
    intro t
    rw [written_cons, writtenBy_of_quiet hx]
    rfl
  refine ⟨?_, ?_, fun t ht => h.begun t (howns t ht), ?_, ?_, ?_⟩
  · intro password hash hanswer
    rcases answered_cons.mp hanswer with ⟨before, after, rfl⟩ | hanswer
    · exact verifies_iff.mp hx
    · exact h.hashed password hash hanswer
  · intro hash password hanswer
    rcases answered_cons.mp hanswer with ⟨before, after, rfl⟩ | hanswer
    · exact verifies_iff.mp hx
    · exact h.verified hash password hanswer
  · intro t ht hactive row hholder
    rw [hwritten]
    exact h.version t (howns t ht) hactive row hholder
  · intro t ht hactive hash
    rw [hwritten]
    exact h.wrote t (howns t ht) hactive hash
  · intro t row ht hread
    rcases answered_cons.mp hread with ⟨before, after, rfl⟩ | hread
    · cases hx
    · exact h.locked t row (howns t ht) hread

/-- The version of a transaction that gets the lock. -/
theorem Owner.acquired (h : Owner s log) (ht : Owns log t) (hactive : t ∈ s.active) {row : UserRow}
    (hacquire : s.acquire t = some row) :
    row.passwordHash = (written t log).getD s.row.passwordHash := by
  rcases LockedRow.acquire_eq_some.mp hacquire with ⟨hnone, rfl⟩ | hheld
  · cases hwritten : written t log with
    | none => rfl
    | some hash =>
      obtain ⟨own, hown⟩ := h.wrote t ht hactive hash hwritten
      rw [hnone] at hown
      cases hown
  · exact h.version t ht hactive row hheld

/-- A statement of a transaction of the call that locks or writes the row. -/
theorem Owner.query (h : Owner s log) (ht : Owns log t) (hactive : t ∈ s.active)
    {row row' : UserRow} (hacquire : s.acquire t = some row) {statement : Statement}
    (hrow : row'.passwordHash = statement.passwordHash?.getD row.passwordHash)
    (hlock : statement = .lock → written t log = none) (before after : State) :
    Owner { s with toLockedRow := s.hold t row' }
      (⟨.query t statement, some row', before, after⟩ :: log) := by
  have hversion := h.acquired ht hactive hacquire
  have howns : ∀ t', Owns (⟨.query t statement, some row', before, after⟩ :: log) t' →
      Owns log t' := by
    intro t' ht'
    rcases answered_cons.mp ht' with ⟨_, _, hx⟩ | ht'
    · cases hx
    · exact ht'
  have hother : ∀ t' own, s.holder = some ⟨t', own⟩ → t' = t := by
    intro t' own hheld
    rcases LockedRow.acquire_eq_some.mp hacquire with ⟨hnone, -⟩ | hsome
    · rw [hheld] at hnone
      cases hnone
    · rw [hheld] at hsome
      cases hsome
      rfl
  have hwritten : ∀ t', written t' (⟨.query t statement, some row', before, after⟩ :: log) =
      (if t = t' then statement.passwordHash? else none).or (written t' log) := by
    intro t'
    rw [written_cons]
    rfl
  refine ⟨?_, ?_, fun t' ht' => h.begun t' (howns t' ht'), ?_, ?_, ?_⟩
  · intro password hash hanswer
    rcases answered_cons.mp hanswer with ⟨_, _, hx⟩ | hanswer
    · cases hx
    · exact h.hashed password hash hanswer
  · intro hash password hanswer
    rcases answered_cons.mp hanswer with ⟨_, _, hx⟩ | hanswer
    · cases hx
    · exact h.verified hash password hanswer
  · intro t' _ _ own hheld
    cases hheld
    rw [hwritten, if_pos rfl, hrow, hversion]
    cases statement.passwordHash? <;> rfl
  · intro t' ht' hactive' hash hhash
    by_cases hsame : t = t'
    · subst hsame
      exact ⟨row', rfl⟩
    · rw [hwritten, if_neg hsame] at hhash
      obtain ⟨own, hheld⟩ := h.wrote t' (howns t' ht') hactive' hash hhash
      exact absurd (hother t' own hheld).symm hsame
  · intro t' own ht' hread hactive'
    rcases answered_cons.mp hread with ⟨_, _, hx⟩ | hread
    · cases hx
      refine ⟨⟨_, rfl⟩, ?_⟩
      rw [hrow, hversion, hlock rfl]
      rfl
    · obtain ⟨⟨held, hheld⟩, hhash⟩ := h.locked t' own (howns t' ht') hread hactive'
      rw [hother t' held hheld]
      exact ⟨⟨row', rfl⟩, hhash⟩

theorem Owner.begin (h : Owner s log) (hlock : s.toLockedRow.Wf) (hfresh : Fresh log)
    (before after : State) :
    Owner { s with toLockedRow := s.start } (⟨.begin, some s.begun, before, after⟩ :: log) := by
  have hstart : Owner { s with toLockedRow := s.start } log :=
    h.apart (LockedRow.apart_start h.begun) fun _ hx => hx
  have hwritten : ∀ t, written t (⟨.begin, some s.begun, before, after⟩ :: log) = none := by
    intro t
    rw [written_cons, hfresh.written]
    rfl
  refine ⟨?_, ?_, ?_, ?_, ?_, ?_⟩
  · intro password hash hanswer
    rcases answered_cons.mp hanswer with ⟨_, _, hx⟩ | hanswer
    · cases hx
    · exact hstart.hashed password hash hanswer
  · intro hash password hanswer
    rcases answered_cons.mp hanswer with ⟨_, _, hx⟩ | hanswer
    · cases hx
    · exact hstart.verified hash password hanswer
  · intro t ht
    rcases answered_cons.mp ht with ⟨_, _, hx⟩ | ht
    · cases hx
      exact Nat.lt_succ_self _
    · exact hstart.begun t ht
  · intro t ht hactive row hheld
    rcases answered_cons.mp ht with ⟨_, _, hx⟩ | ht
    · cases hx
      -- the new transaction is not the one with the lock
      have hlt := hlock.active _ (hlock.holder _ hheld)
      exact absurd hlt (Nat.lt_irrefl _)
    · have hversion := hstart.version t ht hactive row hheld
      rwa [hwritten, ← hfresh.written t]
  · intro t _ _ hash hhash
    rw [hwritten] at hhash
    cases hhash
  · intro t row _ hread
    rcases answered_cons.mp hread with ⟨_, _, hx⟩ | hread
    · cases hx
    · exact absurd hread (hfresh.locked t row)

/-- An operation of the call itself. -/
theorem Owner.reply (h : Owner s log) (hlock : s.toLockedRow.Wf) (hallowed : Allowed log op)
    {res : op.Res} (heffect : Effect cfg s op res s') (after : State) :
    Owner s' (⟨op, res, s, after⟩ :: log) := by
  cases heffect with
  | findUser res => exact h.cons rfl
  | hashFails password => exact h.cons rfl
  | remaining passed => exact h.cons rfl
  | rehashFails _ _ => exact h.cons rfl
  | beginFails => exact h.cons rfl
  | queryFails t statement => exact h.cons (by cases statement <;> rfl)
  | commitFails t => exact h.cons rfl
  | reads t row hno hhash =>
    rename_i statement
    cases statement with
    | lock => exact absurd rfl hno
    | update w => exact h.cons (by simpa [quiet] using hhash)
    | _ => exact h.cons rfl
  | rehash _ _ res hnone =>
    refine Owner.cons ?_ rfl
    exact h.apart (LockedRow.apart_write hnone _ _) fun _ hx => hx
  | commit answered _ =>
    refine Owner.cons ?_ rfl
    exact h.apart (LockedRow.apart_commit _ _ _) fun _ hx => hx
  | commitAborts t | rollback t =>
    refine Owner.cons ?_ rfl
    exact h.apart (LockedRow.apart_close _ _ t) fun _ hx => hx
  | lock hactive hacquire => exact h.query hallowed.1 hactive hacquire rfl (fun _ => hallowed.2) _ _
  | update w hactive hacquire =>
    refine h.query hallowed hactive hacquire (passwordHash_apply cfg.lowerCase w _) ?_ _ _
    intro hcontra
    cases hcontra
  | begin => exact h.begin hlock hallowed _ _
  | @hashPassword hash password hnew =>
    refine Owner.cons ?_ (verifies_iff.mpr List.mem_cons_self)
    exact h.apart (.refl _ _) fun x hx => List.mem_cons_of_mem _ hx
  | verifyPassword hash password =>
    refine h.cons ?_
    cases hknown : s.verifies hash password with
    | true => simp [quiet, hknown]
    | false => simp [quiet]

/-! ## The stored hash -/

theorem Effect.wf {res : op.Res} (h : Effect cfg s op res s') (hlock : s.toLockedRow.Wf) :
    s'.toLockedRow.Wf := by
  cases h with
  | rehash _ _ _ _ => exact hlock.write _
  | begin => exact hlock.start
  | lock hactive _ => exact hlock.hold hactive _
  | update w hactive _ => exact hlock.hold hactive _
  | commit _ _ => exact hlock.commit _
  | commitAborts t | rollback t => exact hlock.close t
  | _ => exact hlock

theorem Effect.functional {res : op.Res} (h : Effect cfg s op res s')
    (hnodup : (s.hashes.map Prod.fst).Nodup) : (s'.hashes.map Prod.fst).Nodup := by
  cases h with
  | hashPassword password hnew => exact List.nodup_cons.mpr ⟨hnew, hnodup⟩
  | _ => exact hnodup

/-- What an operation does to the stored hash: a transaction that is committed leaves it or stores
the hash that the call has computed of the password that it has hashed, and a rehash leaves it or
replaces the one that it expects by one of the same password. -/
inductive Stored (s s' : State) (log : Log) : Entry operations State → Prop
  | same {x : Entry operations State} (hhash : s'.row.passwordHash = s.row.passwordHash)
    (hno : ∀ t answered before after, x = ⟨.commit t, .committed answered, before, after⟩ →
      hashed log = none) : Stored s s' log x
  | changed {t : Nat} {password : String} {answered : Bool} {before after : State}
    (hhashed : hashed log = some password) (hunspent : Unspent log)
    (hanswer : Answered log (.hashPassword password) (some s'.row.passwordHash)) :
    Stored s s' log ⟨.commit t, .committed answered, before, after⟩
  | rehashed {password : String} {res : Option Bool} {before after : State}
    (hunspent : Unspent log)
    (hverified : Answered log (.verifyPassword s.row.passwordHash password) true)
    (hanswer : Answered log (.hashPassword password) (some s'.row.passwordHash)) :
    Stored s s' log
      ⟨.rehashPasswordIfCurrent s.row.passwordHash s'.row.passwordHash, res, before, after⟩

/-- The version of a transaction that has done what it is there for. -/
theorem Complete.view (h : Complete log t) (hown : Owner s log) (ht : Owns log t)
    (hactive : t ∈ s.active) :
    (hashed log = none ∧ (s.view t).passwordHash = s.row.passwordHash) ∨
      ∃ password, hashed log = some password ∧
        Answered log (.hashPassword password) (some (s.view t).passwordHash) := by
  have hheld : ∀ row, s.holder = some ⟨t, row⟩ →
      (s.view t).passwordHash = (written t log).getD s.row.passwordHash := by
    intro row hrow
    rw [LockedRow.view_of_holder hrow]
    exact hown.version t ht hactive row hrow
  cases h with
  | changed hsets hwritten =>
    obtain ⟨password, hpassword, hanswer⟩ := hsets
    obtain ⟨row, hrow⟩ := hown.wrote t ht hactive _ hwritten
    refine .inr ⟨password, hpassword, ?_⟩
    rw [hheld row hrow, hwritten]
    exact hanswer
  | untouched hsets hwritten =>
    refine .inl ⟨hsets, ?_⟩
    by_cases hrow : ∃ row, s.holder = some ⟨t, row⟩
    · obtain ⟨row, hrow⟩ := hrow
      rw [hheld row hrow, hwritten]
      rfl
    · rw [LockedRow.view_of_not_holder fun row hholder => hrow ⟨row, hholder⟩]
  | copied hsets hread hwritten =>
    obtain ⟨⟨row, hrow⟩, hsame⟩ := hown.locked t _ ht hread hactive
    refine .inl ⟨hsets, ?_⟩
    rw [hheld row hrow, hwritten]
    exact hsame

theorem Effect.stored {res : op.Res} (h : Effect cfg s op res s') (hown : Owner s log)
    (hallowed : Allowed log op) (before after : State) :
    Stored s s' log ⟨op, res, before, after⟩ := by
  cases h with
  | commit answered hactive =>
    obtain ⟨howns, hcomplete, hunspent⟩ := hallowed
    obtain ⟨hno, hview⟩ | ⟨password, hhashed, hanswer⟩ := hcomplete.view hown howns hactive
    · exact .same hview fun _ _ _ _ _ => hno
    · exact .changed hhashed hunspent hanswer
  | rehash expectedHash passwordHash res hnone =>
    obtain ⟨⟨password, hverified, hanswer⟩, hunspent⟩ := hallowed
    by_cases hexpected : s.row.passwordHash = expectedHash
    · subst hexpected
      rw [if_pos rfl]
      exact .rehashed hunspent hverified hanswer
    · exact .same (by simp [LockedRow.write, hexpected]) fun _ _ _ _ hx => by cases hx
  | _ => exact .same rfl fun _ _ _ _ hx => by cases hx

theorem change_effect {e : Change} (h : change s e = some s') :
    (∀ T, s.toLockedRow.Apart T s'.toLockedRow) ∧ s'.hashes = s.hashes ∧
      s'.row.passwordHash = s.row.passwordHash ∧ (s.toLockedRow.Wf → s'.toLockedRow.Wf) := by
  cases e with
  | disconnect t =>
    cases h
    exact ⟨fun T => LockedRow.apart_close T _ t, rfl, rfl, fun hlock => hlock.close t⟩
  | write row =>
    simp only [change] at h
    split at h
    · rename_i hok
      cases h
      exact ⟨fun T => LockedRow.apart_write (Option.isNone_iff_eq_none.mp hok.1) T row, rfl, hok.2,
        fun hlock => hlock.write row⟩
    · cases h

end AuthMe.Passwords
