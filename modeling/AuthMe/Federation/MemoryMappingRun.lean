import AuthMe.Federation.MemoryMappingSpec

/-!
# The mapping in a run

What holds of every state that a run reaches: an identifier is drawn by one call, no two calls hold one
lock, a call that has found no link for its identity finds none until it makes one (`vacant`), and a
link has been made for a user that the call has created for the identity, or that `link` was asked for
(`origin`).
-/

namespace AuthMe.Federation.Mapping.Memory

open Scim (LowerCase)
open Service (Entry Answered Answers)
open Transition (Run Always)

abbrev Call : Type := Service.Call operations State Request (Reply DataLayer.Tables.Account)

abbrev Pool : Type := Service.Pool operations State Request (Reply DataLayer.Tables.Account)

abbrev Event : Type := Service.Event Request Choice DataLayer.Tables.State

abbrev Output : Type := Service.Output operations State

abbrev Trace : Type := List (Event × Output)

/-- There are accounts, and no links. -/
def State.initial (accounts : DataLayer.Tables.State) : State :=
  ⟨accounts, .empty, [], accounts.users.rows.map (·.id)⟩

/-- From these accounts, the repository comes to the pool. -/
abbrev Reaches (lower : LowerCase) (disabledPasswordHash : String) (accounts : DataLayer.Tables.State)
    (tr : Trace) (p : Pool) : Prop :=
  Run (Service.step (service lower disabledPasswordHash)) Always (.initial (.initial accounts)) tr p

section

variable {lower : LowerCase} {disabledPasswordHash : String} {accounts : DataLayer.Tables.State}
  {choice : Choice} {s s' : State} {p p' : Pool} {e : Event} {o : Output} {tr tr' : Trace} {n m : Nat}
  {c d : Call} {identity : Identity} {userId : String} {link : Link}

/-! ## Identifiers -/

theorem issued_answer {op : Op} {res : op.Res} (h : s.answer lower choice op = some (res, s'))
    (hissued : userId ∈ s.issued) : userId ∈ s'.issued := by
  cases op with
  | attach identity user =>
    have hboth : s.attach identity user = (res, s') := Option.some.inj h
    rcases attach_cases hboth with ⟨rfl, -⟩ | ⟨-, rfl, -⟩
    · exact hissued
    · exact hissued
  | unlink realm user providerId issuer =>
    have hboth : s.unlink realm user providerId issuer = (res, s') := Option.some.inj h
    rcases unlink_cases hboth with ⟨-, rfl⟩ | ⟨link, -, -, rfl⟩
    · exact hissued
    · exact hissued
  | lock _ =>
    simp only [State.answer] at h
    split at h
    · cases h
    · cases h
      exact hissued
  | randomUUID =>
    simp only [State.answer] at h
    split at h
    · cases h
    · cases h
      exact List.mem_cons_of_mem _ hissued
  | createUser user =>
    simp only [State.answer] at h
    split at h
    · cases h
      exact hissued
    · split at h <;> cases h <;> exact hissued
  | _ =>
    cases h
    exact hissued

/-- A new identifier has not been issued. -/
theorem drawn_answer (lower : LowerCase) (h : s.answer lower choice .randomUUID = some (userId, s')) :
    userId ∉ s.issued ∧ userId ∈ s'.issued := by
  simp only [State.answer] at h
  split at h
  · cases h
  · rename_i hnew
    cases h
    exact ⟨hnew, List.mem_cons_self⟩

theorem issued_step (h : Service.step (service lower disabledPasswordHash) p e = some (p', o))
    (hissued : userId ∈ p.store.issued) : userId ∈ p'.store.issued := by
  cases Service.step_move h with
  | start _ => exact hissued
  | reply _ _ hanswer => exact issued_answer hanswer hissued
  | change hchange =>
    cases hchange
    exact List.mem_append_right _ hissued

theorem issued_of_drawn (h : Reaches lower disabledPasswordHash accounts tr p)
    (hc : p.calls n = some c) (hdrawn : Answered c.log Op.randomUUID userId) :
    userId ∈ p.store.issued := by
  suffices hall : ∀ n c userId, p.calls n = some c → Answered c.log Op.randomUUID userId →
      userId ∈ p.store.issued from hall n c userId hc hdrawn
  refine h.invariant (I := fun p => ∀ n c userId, p.calls n = some c →
    Answered c.log Op.randomUUID userId → userId ∈ p.store.issued) ?_ (by rintro _ _ _ ⟨⟩)
  intro p e p' o hp _ hstep n c userId hc hdrawn
  rcases (Service.step_move hstep).answered hc hdrawn with
    ⟨old, hold, hbefore⟩ | ⟨old, choice, next, -, -, -, hanswer⟩
  · exact issued_step hstep (hp n old userId hold hbefore)
  · exact (drawn_answer lower hanswer).2

/-- No two calls draw the same identifier. -/
theorem eq_of_drawn (h : Reaches lower disabledPasswordHash accounts tr p) (hc : p.calls n = some c)
    (hd : p.calls m = some d) (hdrawn : Answered c.log Op.randomUUID userId)
    (hdrawn' : Answered d.log Op.randomUUID userId) : n = m := by
  suffices hall : ∀ n m c d userId, p.calls n = some c → p.calls m = some d →
      Answered c.log Op.randomUUID userId → Answered d.log Op.randomUUID userId → n = m from
    hall n m c d userId hc hd hdrawn hdrawn'
  refine h.along (I := fun p _ => ∀ n m c d userId, p.calls n = some c → p.calls m = some d →
    Answered c.log Op.randomUUID userId → Answered d.log Op.randomUUID userId → n = m) ?_
    (by rintro _ _ _ _ _ ⟨⟩)
  intro p tr e p' o hrun hp _ hstep n m c d userId hc hd hca hda
  refine (Service.step_move hstep).once (fun n m c d => hp n m c d userId) ?_ hc hd hca hda
  intro choice s hanswer n c hc hdrawn
  exact (drawn_answer lower hanswer).1 (issued_of_drawn hrun hc hdrawn)

/-! ## Locks -/

theorem performs (h : Reaches lower disabledPasswordHash accounts tr p) (hc : p.calls n = some c)
    {op : Op} {next : op.Res → Method} (hprogram : c.program = .await op next) :
    Performs lower c.request c.log op :=
  (methods_spec lower disabledPasswordHash).performs h hc hprogram

theorem owned (h : Reaches lower disabledPasswordHash accounts tr p) : lockTable.Owned p := by
  refine Service.Locks.owned_run lockTable_sound (methods_spec lower disabledPasswordHash) ?_ h
  intro r log op lockKey hperforms hreleases
  cases op with
  | unlock k =>
    cases hreleases
    exact hperforms.1
  | _ => cases hreleases

/-- A call that has not made the link of its identity yet, and has seen that there is none. -/
structure Guards (identity : Identity) (log : Log) : Prop where
  holds : lockTable.Holds (key identity) log
  vacant : Vacant identity log
  unset : ∀ link, ¬Answered log (.setLink link) ()

theorem Searching.guards {log : Log} (h : Searching identity log) : Guards identity log where
  holds := h.holds
  vacant := h.vacant
  unset := by
    rintro link ⟨before, after, hmem⟩
    cases h.searched _ hmem

theorem Guards.cons {log : Log} (h : Guards identity log) {x : Entry operations State}
    (hreleases : lockTable.releases x.op = none) (hset : ∀ link, x.op ≠ .setLink link) :
    Guards identity (x :: log) where
  holds := h.holds.cons hreleases
  vacant := h.vacant.imp .there .there
  unset := by
    rintro link ⟨before, after, hmem⟩
    rcases List.mem_cons.mp hmem with heq | hmem
    · exact hset link (congrArg Entry.op heq).symm
    · exact h.unset link ⟨before, after, hmem⟩

theorem Drawn.guards {log : Log} (h : Drawn identity userId log) : Guards identity log := by
  obtain ⟨hsearching⟩ := h
  exact hsearching.guards.cons rfl (by simp)

theorem Made.guards {log : Log} (h : Made identity userId log) : Guards identity log := by
  obtain ⟨hdrawn, -, -⟩ := h
  exact hdrawn.guards.cons rfl (by simp)

theorem resolves_of_vacant (h : Reaches lower disabledPasswordHash accounts tr p)
    (hc : p.calls n = some c) (hvacant : Vacant identity c.log) :
    c.request.Resolves lower identity := by
  have hspec := methods_spec lower disabledPasswordHash
  rcases hvacant with hread | hdeleted
  · obtain ⟨log, -, hperforms⟩ := hspec.answered h hc hread
    exact hperforms.1.1
  · obtain ⟨log, -, hperforms⟩ := hspec.answered h hc hdeleted
    exact hperforms.1.1

theorem not_links_of_resolves {r : Request} {other : Identity} (h : r.Resolves lower identity) :
    ¬r.Links lower other userId := by
  obtain ⟨input, normalized, rfl, -⟩ := h
  rintro ⟨input', normalized', heq, -⟩
  cases heq

/-- A new link is made by a call that holds the lock of its identity. -/
theorem holds_of_made (h : Reaches lower disabledPasswordHash accounts tr p) (hc : p.calls n = some c)
    {op : Op} {next : op.Res → Method} (hprogram : c.program = .await op next) {res : op.Res}
    (hanswer : p.store.answer lower choice op = some (res, s'))
    (hnone : p.store.links.get? (key identity) = none)
    (hsome : s'.links.get? (key identity) = some link) :
    lockTable.Holds (key identity) c.log ∧ (op = .setLink link ∨
      op = .attach identity link.userId) := by
  have hperforms := (performs h hc hprogram).1
  have hidentity := identity_of_get? hsome
  rcases made hanswer hsome with hold | rfl | ⟨heq, -⟩
  · rw [hnone] at hold
    cases hold
  · obtain ⟨-, hmade⟩ := hperforms
    exact ⟨hidentity ▸ hmade.guards.holds, .inl rfl⟩
  · cases heq
    exact ⟨hidentity ▸ hperforms.2, .inr (hidentity ▸ rfl)⟩

theorem vacant_cons {log : Log} {x : Entry operations State} :
    Vacant identity (x :: log) ↔ x = ⟨.getLink identity, none, x.before, x.after⟩ ∨
      x = ⟨.deleteLink identity, (), x.before, x.after⟩ ∨ Vacant identity log := by
  constructor
  · rintro (⟨before, after, hmem⟩ | ⟨before, after, hmem⟩)
    · rcases List.mem_cons.mp hmem with rfl | hmem
      · exact .inl rfl
      · exact .inr (.inr (.inl ⟨before, after, hmem⟩))
    · rcases List.mem_cons.mp hmem with rfl | hmem
      · exact .inr (.inl rfl)
      · exact .inr (.inr (.inr ⟨before, after, hmem⟩))
  · rintro (heq | heq | hvacant)
    · exact .inl ⟨x.before, x.after, heq ▸ List.mem_cons_self⟩
    · exact .inr ⟨x.before, x.after, heq ▸ List.mem_cons_self⟩
    · exact hvacant.imp .there .there

/-- A call takes its locks first. -/
theorem not_vacant_of_takes {r : Request} {log : Log} {op : Op} {lockKey : String}
    (htakes : lockTable.takes op = some lockKey) (h : Condition lower r log op) :
    ¬Vacant identity log := by
  cases op with
  | lock k =>
    rintro (⟨before, after, hmem⟩ | ⟨before, after, hmem⟩)
    · obtain ⟨k', hop⟩ := h _ hmem
      cases hop
    · obtain ⟨k', hop⟩ := h _ hmem
      cases hop
  | _ => cases htakes

/-- The operations of the call itself leave it so. -/
theorem vacant_after (h : Reaches lower disabledPasswordHash accounts tr p) (hc : p.calls n = some c)
    {op : Op} {next : op.Res → Method} (hprogram : c.program = .await op next) {res : op.Res}
    (hanswer : Answers (service lower disabledPasswordHash) ⟨op, res, p.store, s'⟩)
    (hbefore : Guards identity c.log → p.store.links.get? (key identity) = none)
    (hguards : Guards identity (⟨op, res, p.store, s'⟩ :: c.log)) :
    s'.links.get? (key identity) = none := by
  have hperforms := (performs h hc hprogram).1
  obtain ⟨choice, hanswer⟩ := hanswer
  have hvacant := hguards.vacant
  rw [vacant_cons] at hvacant
  rcases hvacant with heq | heq | hvacant
  · cases heq
    have hnone : p.store.links.get? (key identity) = none :=
      congrArg Prod.fst (Option.some.inj hanswer)
    have hsame : p.store = s' := congrArg Prod.snd (Option.some.inj hanswer)
    rwa [← hsame]
  · cases heq
    have hlinks : p.store.links.erase (key identity) = s'.links :=
      congrArg (fun x => x.2.links) (Option.some.inj hanswer)
    rw [← hlinks, Table.get?_erase, if_pos rfl]
  · have hold : Guards identity c.log := by
      refine ⟨?_, hvacant, fun link hset => hguards.unset link hset.there⟩
      rcases hguards.holds with htakes | ⟨hholds, -⟩
      · exact absurd hvacant (not_vacant_of_takes htakes hperforms)
      · exact hholds
    rw [Option.eq_none_iff_forall_ne_some]
    intro link hlink
    obtain ⟨-, rfl | rfl⟩ := holds_of_made h hc hprogram hanswer (hbefore hold) hlink
    · exact hguards.unset link .here
    · exact not_links_of_resolves (resolves_of_vacant h hc hvacant) hperforms.1

/-- A call that has seen that its identity has no link finds none, until it makes one. -/
theorem vacant (h : Reaches lower disabledPasswordHash accounts tr p) (hc : p.calls n = some c)
    (hguards : Guards identity c.log) : p.store.links.get? (key identity) = none := by
  suffices hall : ∀ n c identity, p.calls n = some c → Guards identity c.log →
      p.store.links.get? (key identity) = none from hall n c identity hc hguards
  refine h.along (I := fun p _ => ∀ n c identity, p.calls n = some c → Guards identity c.log →
    p.store.links.get? (key identity) = none) ?_ (by rintro _ _ _ ⟨⟩)
  intro p tr e p' o hrun hp _ hstep n c identity hc hguards
  cases (Service.step_move hstep).became hc with
  | start _ _ hnew =>
    subst hnew
    exact hguards.holds.elim
  | reply hold hprogram hanswer hnew _ =>
    subst hnew
    exact vacant_after hrun hold hprogram hanswer (hp n _ identity hold) hguards
  | same hold hother =>
    have hnone := hp n c identity hold hguards
    cases Service.step_move hstep with
    | start r => exact hnone
    | @reply m choice d op next res s hd hprogram hanswer =>
      rw [Option.eq_none_iff_forall_ne_some]
      intro link hlink
      obtain ⟨hholds, -⟩ := holds_of_made hrun hd hprogram hanswer hnone hlink
      cases (owned hrun hold hguards.holds).2 hd hholds
      exact hother choice rfl
    | change hchange =>
      cases hchange
      exact hnone

/-! ## The origin of a link -/

/-- The user of the link has been created for the identity, or `link` was asked for the two. -/
inductive Origin (lower : LowerCase) (p : Pool) (link : Link) : Prop
  | created {n : Nat} {c : Call} {user : Store.User} {account : DataLayer.Tables.Account}
    (hc : p.calls n = some c) (hresolves : c.request.Resolves lower link.identity)
    (hcreated : Answered c.log (.createUser user) (.ok account)) (haccount : account.id = link.userId)
    (hset : Answered c.log (.setLink link) ())
  | linked {n : Nat} {c : Call} (hc : p.calls n = some c)
    (hlinks : c.request.Links lower link.identity link.userId)
    (hattached : Answered c.log (.attach link.identity link.userId) (.linked link))

theorem Origin.mono (h : Origin lower p link)
    (hextends : ∀ n c, p.calls n = some c → ∃ c', p'.calls n = some c' ∧ c.Extends c') :
    Origin lower p' link := by
  cases h with
  | created hc hresolves hcreated haccount hset =>
    obtain ⟨c', hc', hc₀⟩ := hextends _ _ hc
    exact .created hc' (hc₀.request.symm ▸ hresolves) (hcreated.mono fun _ => hc₀.mem) haccount
      (hset.mono fun _ => hc₀.mem)
  | linked hc hlinks hattached =>
    obtain ⟨c', hc', hc₀⟩ := hextends _ _ hc
    exact .linked hc' (hc₀.request.symm ▸ hlinks) (hattached.mono fun _ => hc₀.mem)

theorem wf (h : Reaches lower disabledPasswordHash accounts tr p) : p.Wf :=
  (Service.Pool.wf_initial _).run h

theorem Made.created {log : Log} (h : Made identity userId log) :
    ∃ user account, Answered log (.createUser user) (.ok account) ∧ account.id = userId := by
  obtain ⟨-, -, haccount⟩ := h
  exact ⟨_, _, .here, haccount⟩

/-- Every link has an origin. -/
theorem origin (h : Reaches lower disabledPasswordHash accounts tr p) {lockKey : String}
    (hlink : p.store.links.get? lockKey = some link) : Origin lower p link := by
  suffices hall : ∀ lockKey link, p.store.links.get? lockKey = some link → Origin lower p link from
    hall lockKey link hlink
  refine h.along (I := fun p _ => ∀ lockKey link, p.store.links.get? lockKey = some link →
    Origin lower p link) ?_ (by rintro _ _ ⟨⟩)
  intro p tr e p' o hrun hp _ hstep lockKey link hlink
  have hextends := fun n c (hc : p.calls n = some c) =>
    Service.extends_of_step (wf hrun) hstep hc
  cases Service.step_move hstep with
  | start r => exact (hp lockKey link hlink).mono hextends
  | @reply n choice c op next res s hc hprogram hanswer =>
    have hperforms := (performs hrun hc hprogram).1
    have hnew : ∀ c' : Call, (p.set n c').calls n = some c' := by simp [Service.Pool.set]
    rcases made hanswer hlink with hold | rfl | ⟨heq, -⟩
    · exact (hp lockKey link hold).mono hextends
    · obtain ⟨hresolves, hmade⟩ := hperforms
      obtain ⟨user, account, hcreated, haccount⟩ := hmade.created
      exact .created (hnew _) hresolves hcreated.there haccount .here
    · cases heq
      exact .linked (hnew _) hperforms.1 .here
  | change hchange =>
    cases hchange
    exact (hp lockKey link hlink).mono hextends

theorem Drawn.answered {log : Log} (h : Drawn identity userId log) :
    Answered log Op.randomUUID userId := by
  obtain ⟨-⟩ := h
  exact .here

/-- The identifier of a user that a call has created was drawn by the call. -/
theorem drawn_of_created (h : Reaches lower disabledPasswordHash accounts tr p)
    (hc : p.calls n = some c) {user : Store.User} {account : DataLayer.Tables.Account}
    (hcreated : Answered c.log (.createUser user) (.ok account)) :
    Answered c.log Op.randomUUID account.id := by
  obtain ⟨before, after, hmem⟩ := hcreated
  have hid := id_of_createUser (Service.Run.answers h hc _ hmem)
  obtain ⟨log, hlog, ⟨identity, -, hdrawn⟩, -⟩ :=
    (methods_spec lower disabledPasswordHash).answered h hc ⟨before, after, hmem⟩
  rw [hid]
  exact hdrawn.answered.mono hlog

/-- The answer of the operation shows the link. -/
inductive Shows (link : Link) : Entry operations State → Prop
  | getLink {asked : Identity} {before after : State} :
    Shows link ⟨.getLink asked, some link, before, after⟩
  | conflict {asked : Identity} {userId : String} {before after : State} :
    Shows link ⟨.attach asked userId, .conflict link, before, after⟩
  | list {realm userId : String} {links : List Link} {before after : State} (hmem : link ∈ links) :
    Shows link ⟨.list realm userId, links, before, after⟩
  | unlink {realm userId providerId issuer : String} {before after : State} :
    Shows link ⟨.unlink realm userId providerId issuer, some link, before, after⟩

/-- A link that an operation shows is there. -/
theorem mem_of_shows {x : Entry operations State} (h : Shows link x)
    (hanswer : s.answer lower choice x.op = some (x.res, s')) : link ∈ s.links.rows := by
  cases h with
  | getLink =>
    have hget := congrArg Prod.fst (Option.some.inj hanswer)
    exact Table.mem_rows_iff.mpr ((Table.keyOf_of_get? hget).symm ▸ hget)
  | conflict =>
    rcases attach_cases (Option.some.inj hanswer) with ⟨-, -, hfound⟩ | ⟨hnew, -⟩
    · exact hfound link rfl
    · cases hnew
  | @list realm userId links before after hmem =>
    have hlist : (s.links.rows.filter fun link =>
        link.identity.realm = realm && link.userId = userId) = links :=
      congrArg Prod.fst (Option.some.inj hanswer)
    rw [← hlist] at hmem
    exact List.mem_of_mem_filter hmem
  | unlink =>
    rcases unlink_cases (Option.some.inj hanswer) with ⟨hnone, -⟩ | ⟨found, hmem, hfound, -⟩
    · cases hnone
    · cases hfound
      exact hmem

/-- A link that a call has been shown has an origin. -/
theorem origin_of_shows (h : Reaches lower disabledPasswordHash accounts tr p)
    (hc : p.calls n = some c) {x : Entry operations State} (hx : x ∈ c.log) (hshows : Shows link x) :
    Origin lower p link := by
  obtain ⟨tr₁, tr₂, choice, q, q', -, -, rfl, hq, hstep, -, -, hanswer, hrest⟩ :=
    Service.Run.made h hc hx
  have hmem : link ∈ q.store.links.rows := mem_of_shows hshows hanswer
  refine (origin hq (Table.mem_rows_iff.mp hmem)).mono fun m d hd => ?_
  exact Service.extends_of_run (wf hq) (.cons trivial hstep hrest) hd

/-- A link that a call has written has an origin. -/
theorem origin_of_setLink (h : Reaches lower disabledPasswordHash accounts tr p)
    (hc : p.calls n = some c) (hset : Answered c.log (.setLink link) ()) : Origin lower p link := by
  obtain ⟨log, hlog, ⟨hresolves, hmade⟩, -⟩ :=
    (methods_spec lower disabledPasswordHash).answered h hc hset
  obtain ⟨user, account, hcreated, haccount⟩ := hmade.created
  exact .created hc hresolves (hcreated.mono hlog) haccount hset

end

end AuthMe.Federation.Mapping.Memory
