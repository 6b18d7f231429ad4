import AuthMe.Federation.MemoryMappingRun

/-!
# Identities keep their users

In every run of the repository in memory (`identities_mapped`), whatever the rest of the program does to
the users: what an identity is given to stays the same user, until a link of the identity is taken away
(`unlinked_between`), and so no two users are created for it in between (`unlinked_between_creations`). A
user has two links with one provider and issuer only if `link` was asked for the user while the call
that created it had not written its own link yet (`late_of_rivals`).
-/

namespace AuthMe.Federation.Mapping.Memory

open DataLayer.Tables (Account)
open Scim (LowerCase)
open Service (Entry Answered Precedes)
open Transition (Run Always)

/-- An operation of a call with the request has given the identity to the user. -/
inductive Gives (lower : LowerCase) (r : Request) (identity : Identity) (userId : String) :
    Entry operations State → Prop
  | found {link : Link} {before after : State} (huser : link.userId = userId) :
    Gives lower r identity userId ⟨.getLink identity, some link, before, after⟩
  | set {before after : State} :
    Gives lower r identity userId ⟨.setLink ⟨identity, userId⟩, (), before, after⟩
  | linked {asked : String} {link : Link} {before after : State} (huser : link.userId = userId) :
    Gives lower r identity userId ⟨.attach identity asked, .linked link, before, after⟩
  | created {user : Store.User} {account : Account} {before after : State}
    (hresolves : r.Resolves lower identity) (haccount : account.id = userId) :
    Gives lower r identity userId ⟨.createUser user, .ok account, before, after⟩

/-- The step takes the link of the identity away. -/
def Unlinked (identity : Identity) (x : Event × Output) : Prop :=
  ∃ n entry, x.2 = .replied n entry ∧ Unlinks identity entry

/-- The identity has a link to the user, or a call has created the user for it and has the link still
to write. -/
def Mapped (lower : LowerCase) (p : Pool) (identity : Identity) (userId : String) : Prop :=
  (∃ n c, p.calls n = some c ∧ c.request.Resolves lower identity ∧ Made identity userId c.log) ∨
    p.store.links.get? (key identity) = some ⟨identity, userId⟩

section

variable {lower : LowerCase} {disabledPasswordHash : String} {accounts : DataLayer.Tables.State}
  {p p' : Pool} {e e' : Event} {o : Output} {tr tr₁ tr₂ tr₃ : Trace} {n m : Nat} {c d : Call}
  {x y : Entry operations State} {identity : Identity} {userId userId' : String} {link link' : Link}

/-! ## One step -/

/-- What a step has done that shows the answer of an operation. -/
theorem replied (h : Service.step (service lower disabledPasswordHash) p e = some (p', .replied n x)) :
    ∃ c next choice, p.calls n = some c ∧ c.program = .await x.op next ∧
      p.store.answer lower choice x.op = some (x.res, p'.store) ∧
      p'.calls n = some (c.reply x (next x.res)) := by
  generalize ho : Service.Output.replied n x = o at h
  cases Service.step_move h with
  | reply hc hprogram hanswer =>
    cases ho
    exact ⟨_, _, _, hc, hprogram, hanswer, by simp [Service.Pool.set]⟩
  | _ => cases ho

/-- Who gives an identity to a user holds the lock of the identity. -/
theorem holds_of_gives {log : Log} {r : Request} (h : Condition lower r log x.op)
    (hgives : Gives lower r identity userId x) : lockTable.Holds (key identity) log := by
  cases hgives with
  | found => exact h.2
  | set => exact h.2.guards.holds
  | linked => exact h.2
  | created hresolves =>
    obtain ⟨other, hother, hdrawn⟩ := h
    rw [← Resolves.unique hresolves hother]
    exact hdrawn.guards.holds

theorem link_eq (hlink : p.store.links.get? (key identity) = some link) :
    p.store.links.get? (key identity) = some ⟨identity, link.userId⟩ := by
  rw [hlink, ← identity_of_get? hlink]

theorem get?_of_attach {s s' : State} {asked : String}
    (h : s.attach identity asked = (.linked link, s')) :
    s'.links.get? (key identity) = some link := by
  rcases attach_cases h with ⟨rfl, hfound, -⟩ | ⟨hnew, rfl, -⟩
  · exact (hfound link rfl).2
  · cases hnew
    rw [Table.get?_insert]
    exact if_pos rfl

theorem mapped_after (h : Reaches lower disabledPasswordHash accounts tr p)
    (hstep : Service.step (service lower disabledPasswordHash) p e = some (p', .replied n x))
    (hc : p.calls n = some c) (hgives : Gives lower c.request identity userId x) :
    Mapped lower p' identity userId := by
  obtain ⟨c₀, next, choice, hc₀, hprogram, hanswer, hafter⟩ := replied hstep
  cases hc.symm.trans hc₀
  have hperforms := (performs h hc hprogram).1
  cases hgives with
  | found huser =>
    have hget : p.store.links.get? (key identity) = some _ :=
      congrArg Prod.fst (Option.some.inj hanswer)
    have hsame : p.store = p'.store := congrArg Prod.snd (Option.some.inj hanswer)
    rw [← huser]
    exact .inr (link_eq (hsame ▸ hget))
  | set =>
    have hlinks : p.store.links.insert ⟨identity, userId⟩ = p'.store.links :=
      congrArg (fun x => x.2.links) (Option.some.inj hanswer)
    refine .inr ?_
    rw [← hlinks, Table.get?_insert]
    exact if_pos rfl
  | @linked asked link _ _ huser =>
    have hboth : p.store.attach identity asked = (.linked link, p'.store) := Option.some.inj hanswer
    rw [← huser]
    exact .inr (link_eq (get?_of_attach hboth))
  | created hresolves haccount =>
    obtain ⟨other, hother, hdrawn⟩ := hperforms
    have hid := id_of_created hanswer
    refine .inl ⟨n, _, hafter, hresolves, ?_⟩
    rw [← Resolves.unique hresolves hother]
    exact .intro (haccount ▸ hid ▸ hdrawn) (hid ▸ haccount) haccount

/-- What is given to a user is given to that user again. -/
theorem given_again (h : Reaches lower disabledPasswordHash accounts tr p)
    (hstep : Service.step (service lower disabledPasswordHash) p e = some (p', .replied n x))
    (hc : p.calls n = some c) (hmapped : Mapped lower p identity userId)
    (hgives : Gives lower c.request identity userId' x) : userId' = userId := by
  obtain ⟨c₀, next, choice, hc₀, hprogram, hanswer, -⟩ := replied hstep
  cases hc.symm.trans hc₀
  obtain ⟨hcondition, hsettled⟩ := performs h hc hprogram
  rcases hmapped with ⟨m, d, hd, hresolves, hmade⟩ | hlink
  · -- the call that has created the user holds the lock, and goes on to write the link
    have hsame := (owned h hd hmade.guards.holds).2 hc (holds_of_gives hcondition hgives)
    subst hsame
    cases hc.symm.trans hd
    have hop := hsettled identity userId hresolves hmade
    cases hgives with
    | set =>
      cases hop
      rfl
    | _ => cases hop
  · cases hgives with
    | found huser =>
      have hget : p.store.links.get? (key identity) = some _ :=
        congrArg Prod.fst (Option.some.inj hanswer)
      rw [hlink] at hget
      cases hget
      exact huser.symm
    | set =>
      have hnone := vacant h hc hcondition.2.guards
      rw [hlink] at hnone
      cases hnone
    | @linked asked link _ _ huser =>
      have hboth : p.store.attach identity asked = (.linked link, p'.store) := Option.some.inj hanswer
      rcases attach_cases hboth with ⟨-, hfound, -⟩ | ⟨-, -, hnone, -⟩
      · obtain ⟨-, hget⟩ := hfound link rfl
        rw [hlink] at hget
        cases hget
        exact huser.symm
      · rw [hlink] at hnone
        cases hnone
    | created hresolves =>
      obtain ⟨other, hother, hdrawn⟩ := hcondition
      rw [Resolves.unique hresolves hother] at hdrawn
      have hnone := vacant h hc hdrawn.guards
      rw [hlink] at hnone
      cases hnone

theorem mapped_step (h : Reaches lower disabledPasswordHash accounts tr p)
    (hstep : Service.step (service lower disabledPasswordHash) p e = some (p', o))
    (hmapped : Mapped lower p identity userId) :
    Mapped lower p' identity userId ∨ Unlinked identity (e, o) := by
  rcases hmapped with ⟨m, d, hd, hresolves, hmade⟩ | hlink
  · left
    cases Service.step_move hstep with
    | start r =>
      have hm : m ≠ p.next := Nat.ne_of_lt (wf h m d hd)
      refine .inl ⟨m, d, ?_, hresolves, hmade⟩
      simpa [Service.Pool.set, Function.update_of_ne hm] using hd
    | @reply n choice c op next res s hc hprogram hanswer =>
      by_cases hm : m = n
      · subst hm
        cases hc.symm.trans hd
        have hop := (performs h hc hprogram).2 identity userId hresolves hmade
        subst hop
        cases hanswer
        refine .inr ?_
        rw [Table.get?_insert]
        exact if_pos rfl
      · refine .inl ⟨m, d, ?_, hresolves, hmade⟩
        simpa [Service.Pool.set, Function.update_of_ne hm] using hd
    | change _ => exact .inl ⟨m, d, hd, hresolves, hmade⟩
  · cases Service.step_move hstep with
    | start r => exact .inl (.inr hlink)
    | reply hc hprogram hanswer =>
      rcases lost hanswer hlink with hkept | hunlinks | ⟨new, rfl, hidentity⟩
      · exact .inl (.inr hkept)
      · exact .inr ⟨_, _, rfl, hunlinks⟩
      · have hnone := vacant h hc (performs h hc hprogram).1.2.guards
        rw [hidentity, hlink] at hnone
        cases hnone
    | change hchange =>
      cases hchange
      exact .inl (.inr hlink)

/-! ## Between two steps -/

/-- The states around two steps of a run. -/
theorem around (h : Reaches lower disabledPasswordHash accounts
      (tr₁ ++ (e, .replied n x) :: (tr₂ ++ (e', .replied m y) :: tr₃)) p) :
    ∃ p₁ p₁' p₂ p₂',
      Reaches lower disabledPasswordHash accounts tr₁ p₁ ∧
      Service.step (service lower disabledPasswordHash) p₁ e = some (p₁', .replied n x) ∧
      Run (Service.step (service lower disabledPasswordHash)) Always p₁' tr₂ p₂ ∧
      Service.step (service lower disabledPasswordHash) p₂ e' = some (p₂', .replied m y) ∧
      Run (Service.step (service lower disabledPasswordHash)) Always p₂' tr₃ p := by
  obtain ⟨p₁, p₁', hbefore, -, hfirst, hrest⟩ := h.split_at
  obtain ⟨p₂, p₂', hbetween, -, hsecond, hafter⟩ := hrest.split_at
  exact ⟨p₁, p₁', p₂, p₂', hbefore, hfirst, hbetween, hsecond, hafter⟩

theorem request_eq (hwf : p.Wf)
    (h : Run (Service.step (service lower disabledPasswordHash)) Always p tr p')
    (hc : p.calls n = some c) (hd : p'.calls n = some d) : c.request = d.request := by
  obtain ⟨c', hc', hextends⟩ := Service.extends_of_run hwf h hc
  cases hc'.symm.trans hd
  exact hextends.request.symm

/-- Between an operation that gives an identity to a user and one that gives it to another user, the
link is taken away. -/
theorem unlinked_between (h : Reaches lower disabledPasswordHash accounts
      (tr₁ ++ (e, .replied n x) :: (tr₂ ++ (e', .replied m y) :: tr₃)) p)
    (hc : p.calls n = some c) (hd : p.calls m = some d)
    (hx : Gives lower c.request identity userId x) (hy : Gives lower d.request identity userId' y) :
    userId' = userId ∨ ∃ z ∈ tr₂, Unlinked identity z := by
  obtain ⟨p₁, p₁', p₂, p₂', hbefore, hfirst, hbetween, hsecond, hafter⟩ := around h
  have hfirst' := Run.single (G := Always) trivial hfirst
  have hsecond' := Run.single (G := Always) trivial hsecond
  have hreached : Reaches lower disabledPasswordHash accounts _ p₁' := hbefore.append hfirst'
  obtain ⟨c₁, -, -, hc₁, -⟩ := replied hfirst
  obtain ⟨d₂, -, -, hd₂, -⟩ := replied hsecond
  have hmapped : Mapped lower p₁' identity userId := by
    refine mapped_after hbefore hfirst hc₁ ?_
    rwa [request_eq (wf hbefore) (hfirst'.append (hbetween.append (hsecond'.append hafter))) hc₁ hc]
  have huntil := hbetween.until_ended (E := Unlinked identity)
    (I := fun q => (∃ tr, Reaches lower disabledPasswordHash accounts tr q) ∧
      Mapped lower q identity userId) (by
    rintro q e q' o ⟨⟨tr, hq⟩, hmapped⟩ hG hstep
    rcases mapped_step hq hstep hmapped with hnext | hends
    · exact .inl ⟨⟨_, hq.append (.single hG hstep)⟩, hnext⟩
    · exact .inr hends) ⟨⟨_, hreached⟩, hmapped⟩
  rcases huntil with ⟨⟨tr, hreached₂⟩, hmapped₂⟩ | hunlinked
  · left
    refine given_again hreached₂ hsecond hd₂ hmapped₂ ?_
    rwa [request_eq (wf hreached₂) (hsecond'.append hafter) hd₂ hd]
  · exact .inr hunlinked

theorem Drawn.not_created {log : Log} (h : Drawn identity userId log) {user : Store.User}
    {res : Except Failure Account} : ¬Answered log (.createUser user) res := by
  obtain ⟨hsearching⟩ := h
  rintro ⟨before, after, hmem⟩
  rcases List.mem_cons.mp hmem with heq | hmem
  · cases heq
  · cases hsearching.searched _ hmem

/-- Between the creations of two users for one identity, the link is taken away. -/
theorem unlinked_between_creations {user user' : Store.User} {account account' : Account}
    {before after before' after' : State}
    (h : Reaches lower disabledPasswordHash accounts
      (tr₁ ++ (e, .replied n ⟨.createUser user, .ok account, before, after⟩) ::
        (tr₂ ++ (e', .replied m ⟨.createUser user', .ok account', before', after'⟩) :: tr₃)) p)
    (hc : p.calls n = some c) (hd : p.calls m = some d) (hn : c.request.Resolves lower identity)
    (hm : d.request.Resolves lower identity) : ∃ z ∈ tr₂, Unlinked identity z := by
  rcases unlinked_between h hc hd (.created hn rfl) (.created hm rfl) with hsame | hunlinked
  · -- one identifier is drawn by one call, and a call creates one user
    obtain ⟨p₁, p₁', p₂, p₂', hbefore, hfirst, hbetween, hsecond, -⟩ := around h
    have hreached : Reaches lower disabledPasswordHash accounts _ p₂ :=
      (hbefore.append (.single trivial hfirst)).append hbetween
    obtain ⟨c₁, next, choice, -, -, -, hc₁⟩ := replied hfirst
    obtain ⟨d₂, next', choice', hd₂, hprogram, hanswer, -⟩ := replied hsecond
    obtain ⟨c₂, hc₂, hextends⟩ := Service.extends_of_run
      (wf (hbefore.append (.single trivial hfirst))) hbetween hc₁
    have hcreated : Answered c₂.log (.createUser user) (.ok account) := Answered.here.mono fun _ =>
      hextends.mem
    obtain ⟨other, -, hdrawn⟩ := (performs hreached hd₂ hprogram).1
    have hid := id_of_created hanswer
    have hdrew : Answered d₂.log Op.randomUUID account.id := by
      rw [← hsame, hid]
      exact hdrawn.answered
    have hcalls := eq_of_drawn hreached hc₂ hd₂ (drawn_of_created hreached hc₂ hcreated) hdrew
    subst hcalls
    cases hc₂.symm.trans hd₂
    exact (hdrawn.not_created hcreated).elim
  · exact hunlinked

/-! ## Two links of one user -/

/-- In the trace, `link` attaches the first link before a call that has created the user writes the
second one. -/
def Late (tr : Trace) (link link' : Link) : Prop :=
  ∃ n m, Precedes tr n (.attach link.identity link.userId) m (.setLink link')

theorem Late.append (h : Late tr link link') : Late (tr ++ tr₁) link link' := by
  obtain ⟨n, m, t₁, t₂, t₃, choice, choice', x, y, rfl, hx, hy⟩ := h
  exact ⟨n, m, t₁, t₂, t₃ ++ tr₁, choice, choice', x, y, by simp, hx, hy⟩

/-- A step makes one link. -/
theorem made_unique {s s' : State} {op : Op} {res : op.Res} {choice : Choice}
    (hanswer : s.answer lower choice op = some (res, s')) {lockKey lockKey' : String}
    (hlink : s'.links.get? lockKey = some link) (hlink' : s'.links.get? lockKey' = some link')
    (hnew : s.links.get? lockKey ≠ some link) (hnew' : s.links.get? lockKey' ≠ some link') :
    link = link' := by
  rcases made hanswer hlink with hsame | rfl | ⟨heq, -⟩
  · exact absurd hsame hnew
  · rcases made hanswer hlink' with hsame' | hop | ⟨heq', -⟩
    · exact absurd hsame' hnew'
    · cases hop
      rfl
    · cases heq'
  · cases heq
    rcases made hanswer hlink' with hsame' | hop | ⟨heq', -⟩
    · exact absurd hsame' hnew'
    · cases hop
    · injection heq' with hop
      injection hop with hidentity huser
      exact Link.mk.injEq .. ▸ ⟨hidentity, huser⟩

/-- A link that comes to an older one of the same user. -/
theorem late_of_made (h : Reaches lower disabledPasswordHash accounts tr p) (hc : p.calls n = some c)
    {op : Op} {next : op.Res → Method} (hprogram : c.program = .await op next) {res : op.Res}
    {choice : Choice} {s' : State} (hanswer : p.store.answer lower choice op = some (res, s'))
    {lockKey lockKey' : String} (hold : p.store.links.get? lockKey = some link)
    (hnone : p.store.links.get? lockKey' ≠ some link') (hnew : s'.links.get? lockKey' = some link')
    (hrivals : link.Rivals link') :
    Late (tr ++ [(.resume n choice, .replied n ⟨op, res, p.store, s'⟩)]) link link' := by
  have hperforms := (performs h hc hprogram).1
  rcases made hanswer hnew with hsame | rfl | ⟨-, halone⟩
  · exact absurd hsame hnone
  · cases origin h hold with
    | @created m d user account hd _ hcreated haccount hset =>
      -- the older link is of the user that this call has created, and so this call has written it
      obtain ⟨-, hmade⟩ := hperforms
      obtain ⟨user', account', hcreated', haccount'⟩ := hmade.created
      have hdrew := drawn_of_created h hd hcreated
      have hdrew' := drawn_of_created h hc hcreated'
      rw [haccount, hrivals.2.1, ← haccount'] at hdrew
      have hcalls := eq_of_drawn h hd hc hdrew hdrew'
      subst hcalls
      cases hd.symm.trans hc
      exact absurd hset (hmade.guards.unset _)
    | @linked m d hd _ hattached => exact ⟨m, n, Precedes.intro h hd hattached⟩
  · have hkey := Table.keyOf_of_get? hold
    have hjoins := halone link (Table.mem_rows_iff.mpr (hkey ▸ hold))
    rw [joins_of_rivals hrivals] at hjoins
    cases hjoins

/-- Of two links of one user with one provider, `link` has attached one while the call that created the
user was to write the other one. -/
theorem late_of_rivals (h : Reaches lower disabledPasswordHash accounts tr p)
    {lockKey lockKey' : String} (hlink : p.store.links.get? lockKey = some link)
    (hlink' : p.store.links.get? lockKey' = some link') (hrivals : link.Rivals link')
    (hne : link ≠ link') : Late tr link link' ∨ Late tr link' link := by
  suffices hall : ∀ lockKey lockKey' link link', p.store.links.get? lockKey = some link →
      p.store.links.get? lockKey' = some link' → link.Rivals link' → link ≠ link' →
      Late tr link link' ∨ Late tr link' link from hall _ _ _ _ hlink hlink' hrivals hne
  refine h.along (I := fun p tr => ∀ lockKey lockKey' link link',
    p.store.links.get? lockKey = some link → p.store.links.get? lockKey' = some link' →
    link.Rivals link' → link ≠ link' → Late tr link link' ∨ Late tr link' link) ?_
    (by rintro _ _ _ _ ⟨⟩)
  intro p tr e p' o hrun hp _ hstep lockKey lockKey' link link' hlink hlink' hrivals hne
  cases Service.step_move hstep with
  | start r => exact (hp _ _ _ _ hlink hlink' hrivals hne).imp .append .append
  | reply hc hprogram hanswer =>
    by_cases hold : p.store.links.get? lockKey = some link
    · by_cases hold' : p.store.links.get? lockKey' = some link'
      · exact (hp _ _ _ _ hold hold' hrivals hne).imp .append .append
      · exact .inl (late_of_made hrun hc hprogram hanswer hold hold' hlink' hrivals)
    · by_cases hold' : p.store.links.get? lockKey' = some link'
      · exact .inr (late_of_made hrun hc hprogram hanswer hold' hold hlink hrivals.symm)
      · -- a step makes one link
        exact absurd (made_unique hanswer hlink hlink' hold hold') hne
  | change hchange =>
    cases hchange
    exact (hp _ _ _ _ hlink hlink' hrivals hne).imp .append .append

end

/-- What holds of a trace of the repository and of the pool that it leads to. -/
structure Laws (lower : LowerCase) (tr : Trace) (p : Pool) : Prop where
  /-- A link is of a user that was created for the identity, or `link` was asked for the two. -/
  origin : ∀ lockKey link, p.store.links.get? lockKey = some link → Origin lower p link
  /-- What is answered is what was found, made, attached, listed or taken away, and a call that does not
  answer with a user or with the link it has attached has given nothing to anybody. -/
  returns : ∀ n c reply, p.calls n = some c → c.program = .done reply →
    Returns lower c.request c.log reply
  /-- So is every link that a call answers with. -/
  told : ∀ n c reply, p.calls n = some c → c.program = .done reply →
    ∀ link ∈ reply.told, Origin lower p link
  /-- An identity keeps its user until the link is taken away. -/
  stable : ∀ tr₁ tr₂ tr₃ e e' n m x y c d identity userId userId',
    tr = tr₁ ++ (e, .replied n x) :: (tr₂ ++ (e', .replied m y) :: tr₃) →
    p.calls n = some c → p.calls m = some d → Gives lower c.request identity userId x →
    Gives lower d.request identity userId' y → userId' = userId ∨ ∃ z ∈ tr₂, Unlinked identity z
  /-- Until then one user is created for it. -/
  creations : ∀ tr₁ tr₂ tr₃ e e' n m c d identity user user' account account' b b' a a',
    tr = tr₁ ++ (e, .replied n ⟨.createUser user, .ok account, b, a⟩) ::
      (tr₂ ++ (e', .replied m ⟨.createUser user', .ok account', b', a'⟩) :: tr₃) →
    p.calls n = some c → p.calls m = some d → c.request.Resolves lower identity →
    d.request.Resolves lower identity → ∃ z ∈ tr₂, Unlinked identity z
  /-- `resolve` takes a link away only if it has found that the user is not there. -/
  stale : ∀ n c identity, p.calls n = some c → Answered c.log (.deleteLink identity) () →
    ∃ link, Answered c.log (.getLink identity) (some link) ∧
      Answered c.log (.findUserById identity.realm link.userId) none
  /-- A second link of a user with one provider. -/
  rivals : ∀ lockKey lockKey' link link', p.store.links.get? lockKey = some link →
    p.store.links.get? lockKey' = some link' → link.Rivals link' → link ≠ link' →
    Late tr link link' ∨ Late tr link' link

section

variable {lower : LowerCase} {disabledPasswordHash : String} {accounts : DataLayer.Tables.State}
  {p : Pool} {tr : Trace} {n : Nat} {c : Call} {identity : Identity} {link : Link}

theorem origin_of_returns (h : Reaches lower disabledPasswordHash accounts tr p)
    (hc : p.calls n = some c) {reply : Reply Account}
    (hreturns : Returns lower c.request c.log reply) (hlink : link ∈ reply.told) :
    Origin lower p link := by
  cases reply with
  | mapped status user found =>
    rw [List.mem_singleton.mp hlink]
    obtain ⟨hresolves, -, hstatus⟩ := hreturns
    cases status with
    | created => exact origin_of_setLink h hc hstatus
    | _ =>
      obtain ⟨⟨before, after, hread⟩, -⟩ := hstatus
      exact origin_of_shows h hc hread .getLink
  | linked found =>
    rw [List.mem_singleton.mp hlink]
    exact .linked hc hreturns.1 hreturns.2
  | conflict found =>
    obtain ⟨-, identity, userId, other, rfl, -, before, after, hattached⟩ := hreturns
    cases List.mem_singleton.mp hlink
    exact origin_of_shows h hc hattached .conflict
  | links links =>
    obtain ⟨-, realm, userId, -, before, after, hlisted⟩ := hreturns
    exact origin_of_shows h hc hlisted (.list hlink)
  | unlinked found =>
    obtain ⟨-, realm, userId, providerId, issuer, -, before, after, hunlinked⟩ := hreturns
    cases Option.mem_toList.mp hlink
    exact origin_of_shows h hc hunlinked .unlink
  | notFound | linkRequired _ | failed _ => cases hlink

theorem stale (h : Reaches lower disabledPasswordHash accounts tr p) (hc : p.calls n = some c)
    (hdeleted : Answered c.log (.deleteLink identity) ()) :
    ∃ link, Answered c.log (.getLink identity) (some link) ∧
      Answered c.log (.findUserById identity.realm link.userId) none := by
  obtain ⟨log, hlog, ⟨-, -, link, hread, hfound⟩, -⟩ :=
    (methods_spec lower disabledPasswordHash).answered h hc hdeleted
  exact ⟨link, hread.mono hlog, hfound.mono hlog⟩

end

/-- The laws hold in every run, whatever is asked, in every order of the operations, and whatever the
rest of the program does to the users. -/
theorem identities_mapped {lower : LowerCase} {disabledPasswordHash : String}
    {accounts : DataLayer.Tables.State} {tr : Trace} {p : Pool}
    (h : Reaches lower disabledPasswordHash accounts tr p) : Laws lower tr p where
  origin lockKey link hlink := origin h hlink
  returns n c reply hc hdone := (methods_spec lower disabledPasswordHash).finished h hc hdone
  told n c reply hc hdone link hlink :=
    origin_of_returns h hc ((methods_spec lower disabledPasswordHash).finished h hc hdone) hlink
  stable := by
    rintro tr₁ tr₂ tr₃ e e' n m x y c d identity userId userId' rfl hc hd hx hy
    exact unlinked_between h hc hd hx hy
  creations := by
    rintro tr₁ tr₂ tr₃ e e' n m c d identity user user' account account' b b' a a' rfl hc hd hn hm
    exact unlinked_between_creations h hc hd hn hm
  stale n c identity hc hdeleted := stale h hc hdeleted
  rivals lockKey lockKey' link link' hlink hlink' hrivals hne :=
    late_of_rivals h hlink hlink' hrivals hne

/-! ## A user that is deleted -/

def firstId : String := "11111111-1111-4111-8111-111111111111"

def secondId : String := "22222222-2222-4222-8222-222222222222"

def adaInput : Input := ⟨"main", "directory", "https://idp.example", "ada", true, .undefined⟩

/-- The same person with another provider. -/
def otherInput : Input := ⟨"main", "saml", "https://saml.example", "a.lovelace", false, .undefined⟩

def turns (n k : Nat) (id : String) : List Event := List.replicate k (.resume n ⟨id, 0, false⟩)

/-- Two calls resolve an identity, and the second one finds the user that the first one creates. `link`
links another identity to the user. The user is deleted, and the identity gets another one. -/
def adaRun : List Event :=
  [.start (.resolve adaInput), .start (.resolve adaInput)] ++ turns 0 7 firstId ++ turns 1 4 firstId ++
    [.start (.link otherInput firstId)] ++ turns 2 6 firstId ++
    [.change .empty, .start (.resolve adaInput)] ++ turns 3 9 secondId

theorem adaRun_ends : ((Transition.exec (Service.step (service .onlyAscii "!")) Always
    (.initial (.initial .empty)) adaRun).any fun x =>
      x.1.store.links.rows.map (·.userId) = [firstId, secondId]) = true := by
  decide +kernel

theorem identities_mapped_of_adaRun : ∃ tr p, Reaches .onlyAscii "!" .empty tr p ∧
    p.store.links.rows.map (·.userId) = [firstId, secondId] ∧ Laws .onlyAscii tr p := by
  have hends := adaRun_ends
  cases hexec : Transition.exec (Service.step (service .onlyAscii "!")) Always
      (.initial (.initial .empty)) adaRun with
  | none =>
    rw [hexec] at hends
    cases hends
  | some x =>
    obtain ⟨p, os⟩ := x
    rw [hexec] at hends
    have hrun := Run.of_exec hexec
    exact ⟨_, p, hrun, of_decide_eq_true hends, identities_mapped hrun⟩

end AuthMe.Federation.Mapping.Memory
