import AuthMe.Ldap.Groups

/-!
# The group of a distinguished name

The path of a group is that of a common name, and follows its value, exactly for the names that
`Plainly` describes, and for those of which the code takes no path.
-/

namespace AuthMe.Ldap

/-- Where another value stands at the place, the path is that of the other value. -/
def Follows (place : Place) (type : List Char) : Prop :=
  ∀ (b : Attribute) (s : List Char), b.type = type → b.value = Value.plain s →
    namePath s ≠ none → groups [String.ofList (Dn.text (place.fill b))] = (namePath s).toList

/-- The path is that of the unescaped value of a common name of the name, and follows that value. -/
def FromCn (ber : Ber) (dn : Dn) (path : String) : Prop :=
  ∃ place a s, dn = Place.fill place a ∧ a.IsCn ∧ a.value.Means ber s ∧ namePath s = some path ∧
    Follows place a.type

/-- The common name is alone in its RDN, has the type `cn` and a value without escapes that is not
only white space, and nothing before it reads as a common name. -/
def Plainly (dn : Dn) (s : List Char) : Prop :=
  ∃ pre a post, dn = Place.fill ⟨pre, [], [], post⟩ a ∧ a.type.map asciiLower = "cn".toList ∧
    a.value = Value.plain s ∧ s.all Text.isWhiteSpace = false ∧ execCn (Dn.text pre) = none

/-- What reads first as a common name is only white space, and something follows it. -/
def Nameless (text : List Char) : Prop :=
  ∃ before lead c n blanks after,
    ',' :: text = before ++ ',' :: (lead ++ c :: n :: '=' :: (blanks ++ ',' :: after)) ∧
      search before = none ∧ lead.all Text.isWhiteSpace = true ∧
      [c, n].map asciiLower = "cn".toList ∧ blanks ≠ [] ∧ blanks.all Text.isWhiteSpace = true

/-! ## The path of a text -/

/-- The path of a text without white space before it. -/
def derived (text : List Char) : Option String :=
  namePath ((execCn (text.rdropWhile Text.isWhiteSpace)).getD (text.rdropWhile Text.isWhiteSpace))

theorem groups_eq {text : List Char} {x : Char} {rest : List Char} (htext : text = x :: rest)
    (hx : Text.isWhiteSpace x = false) :
    groups [String.ofList text] = (derived text).toList := by
  have htrim : (Text.trim (String.ofList text)).toList = text.rdropWhile Text.isWhiteSpace := by
    rw [Text.trim, String.toList_ofList, String.toList_ofList, htext,
      List.dropWhile_cons_of_neg (by simp [hx])]
    rfl
  have hne : Text.trim (String.ofList text) ≠ "" := by
    intro h
    rw [h, htext] at htrim
    have hstop := rdropWhile_stop hx [] rest
    rw [List.nil_append, List.nil_append] at hstop
    rw [hstop] at htrim
    cases htrim
  have hpath : groupPath (Text.trim (String.ofList text)) = derived text := by
    rw [groupPath, htrim]
    rfl
  rw [groups, strings, List.map_singleton, List.filter_cons_of_pos (by simpa using hne),
    List.filter_nil, List.filterMap_cons, hpath]
  cases derived text with
  | none => rfl
  | some path => rfl

theorem isWhiteSpace_attr {c : Char} (h : isAttrChar c = true) : Text.isWhiteSpace c = false := by
  have hc : 45 ≤ c.toNat ∧ c.toNat ≤ 122 := by
    simp only [isAttrChar, isKeyChar, isAlpha, isDigit, Bool.or_eq_true, Bool.and_eq_true,
      decide_eq_true_eq] at h
    rcases h with ((((⟨hlow, hhigh⟩ | ⟨hlow, hhigh⟩) | ⟨hlow, hhigh⟩) | rfl) | rfl) | rfl
    · exact ⟨le_trans (by decide) (show 97 ≤ c.toNat from hlow), hhigh⟩
    · exact ⟨le_trans (by decide) (show 65 ≤ c.toNat from hlow),
        le_trans (show c.toNat ≤ 90 from hhigh) (by decide)⟩
    · exact ⟨le_trans (by decide) (show 48 ≤ c.toNat from hlow),
        le_trans (show c.toNat ≤ 57 from hhigh) (by decide)⟩
    all_goals decide
  simp [Text.isWhiteSpace]
  omega

/-- The text of a name that is not empty starts with a character of a type. -/
theorem Dn.text_head {dn : Dn} (h : dn ≠ []) :
    ∃ x rest, Dn.text dn = x :: rest ∧ Text.isWhiteSpace x = false := by
  cases dn with
  | nil => exact absurd rfl h
  | cons rdn post =>
    obtain ⟨attributes, hne⟩ := rdn
    cases attributes with
    | nil => exact absurd rfl hne
    | cons a after =>
      obtain ⟨x, rest, htype, hx⟩ := a.exists_first
      have htext := text_fill ⟨[], [], after, post⟩ a
      rw [htype] at htext
      exact ⟨x, _, htext, isWhiteSpace_attr hx⟩

theorem Place.fill_ne_nil (place : Place) (a : Attribute) : place.fill a ≠ [] := by
  simp [Place.fill]

/-! ## Where the path follows the value -/

theorem exists_last_comma (text : List Char) :
    ∃ init chunk, ',' :: text = init ++ ',' :: chunk ∧ ',' ∉ chunk := by
  induction text with
  | nil => exact ⟨[], [], rfl, List.not_mem_nil⟩
  | cons c text ih =>
    obtain ⟨init, chunk, htext, hchunk⟩ := ih
    cases init with
    | nil =>
      have heq : text = chunk := (List.cons.inj htext).2
      by_cases hc : c = ','
      · exact ⟨[','], text, by rw [hc]; rfl, heq ▸ hchunk⟩
      · refine ⟨[], c :: text, rfl, ?_⟩
        rw [List.mem_cons, not_or]
        exact ⟨Ne.symm hc, heq ▸ hchunk⟩
    | cons d init =>
      have heq : text = init ++ ',' :: chunk := (List.cons.inj htext).2
      exact ⟨',' :: c :: init, chunk, by rw [heq]; rfl, hchunk⟩

section

variable {chunk Y : List Char} {c : Char}

/-- The character is in the match, and nothing but white space with it. -/
theorem shape_of_match {name : List Char} (hcomma : ',' ∉ chunk) (hc : c = 'a' ∨ c = 'b')
    (hmatch : matchCn (chunk ++ '=' :: c :: Y) = some name) (hname : namePath name = namePath [c]) :
    ∃ lead x n, chunk = lead ++ [x, n] ∧ (∀ y ∈ lead, Text.isWhiteSpace y = true) ∧
      asciiLower x = 'c' ∧ asciiLower n = 'n' ∧
      ∀ y ∈ Y.takeWhile (· ≠ ','), Text.isWhiteSpace y = true := by
  have hmark : mark name = [c] := by
    rw [mark_of_namePath hname]
    rcases hc with hc | hc <;> rw [hc] <;> rfl
  have hequals : '=' ∉ name := by
    intro hmem
    have hin := mem_mark (by decide) hmem
    rw [hmark, List.mem_singleton] at hin
    rcases hc with hc | hc <;> rw [hc] at hin <;> exact absurd hin (by decide)
  obtain ⟨lead, x, n, rest, htext, hlead, hx, hn, hrest, _⟩ := matchCn_eq_some hmatch
  have htext' : chunk ++ '=' :: c :: Y = (lead ++ [x, n]) ++ '=' :: rest := by
    rw [htext, List.append_assoc]
    rfl
  have hchunk : chunk = lead ++ [x, n] ∧ rest = c :: Y := by
    rcases List.append_eq_append_iff.mp htext' with ⟨t, ht, hrest'⟩ | ⟨t, ht, hrest'⟩
    · cases t with
      | nil => exact ⟨by rw [ht, List.append_nil], (List.cons.inj hrest').2.symm⟩
      | cons y t =>
        -- an equals sign before the one of the match
        have hy : '=' = y := (List.cons.inj hrest').1
        have hmem : '=' ∈ lead ++ [x, n] := by rw [ht, hy]; simp
        rcases List.mem_append.mp hmem with hmem | hmem
        · exact absurd (hlead _ hmem) (by decide)
        · rcases List.mem_cons.mp hmem with heq | hmem
          · exact absurd (heq ▸ hx) (by decide)
          · exact absurd (List.mem_singleton.mp hmem ▸ hn) (by decide)
    · cases t with
      | nil => exact ⟨by rw [ht, List.append_nil], (List.cons.inj hrest').2⟩
      | cons y t =>
        have hrest'' : rest = t ++ '=' :: c :: Y := (List.cons.inj hrest').2
        have ht' : ∀ y ∈ t, (decide (y ≠ ',')) = true := by
          intro y hy
          rw [decide_eq_true_eq]
          rintro rfl
          exact hcomma (by rw [ht]; simp [hy])
        refine absurd ?_ hequals
        rw [← hrest, hrest'', List.takeWhile_append_of_pos ht']
        simp
  refine ⟨lead, x, n, hchunk.1, hlead, hx, hn, ?_⟩
  rw [← mark_eq_nil]
  have hcons : rest.takeWhile (· ≠ ',') = c :: Y.takeWhile (· ≠ ',') := by
    rw [hchunk.2, List.takeWhile_cons_of_pos]
    rcases hc with hc | hc <;> rw [hc] <;> decide
  rw [← hrest, hcons, mark_cons] at hmark
  · exact (List.cons.inj hmark).2
  · rcases hc with hc | hc <;> rw [hc] <;> decide

end

/-- Two values are enough to see where the path follows the value. -/
theorem shape {X Y : List Char}
    (h : ∀ c, c = 'a' ∨ c = 'b' →
      namePath ((execCn (X ++ '=' :: c :: Y)).getD (X ++ '=' :: c :: Y)) = namePath [c]) :
    ∃ init lead x n, ',' :: X = init ++ ',' :: (lead ++ [x, n]) ∧ search init = none ∧
      (∀ y ∈ lead, Text.isWhiteSpace y = true) ∧ asciiLower x = 'c' ∧ asciiLower n = 'n' ∧
      ∀ y ∈ Y.takeWhile (· ≠ ','), Text.isWhiteSpace y = true := by
  obtain ⟨init, chunk, hX, hcomma⟩ := exists_last_comma X
  have hexec : ∀ c, c = 'a' ∨ c = 'b' → execCn (X ++ '=' :: c :: Y) =
      (search init).or ((matchCn (chunk ++ '=' :: c :: Y)).or (search Y)) := by
    intro c hc
    have htext : ',' :: (X ++ '=' :: c :: Y) = init ++ ',' :: (chunk ++ '=' :: c :: Y) := by
      rw [← List.cons_append, hX, List.append_assoc, List.cons_append]
    have hskip : search (chunk ++ '=' :: c :: Y) = search Y := by
      have happ : chunk ++ '=' :: c :: Y = (chunk ++ ['=', c]) ++ Y := by simp
      rw [happ, search_skip]
      rcases hc with hc | hc <;> simp [hc, hcomma]
    rw [execCn_eq_search, htext, search_append_comma, search, if_pos rfl, hskip]
  have hdiff : namePath ['a'] ≠ namePath ['b'] := by decide
  have ha := h 'a' (.inl rfl)
  have hb := h 'b' (.inr rfl)
  rw [hexec 'a' (.inl rfl)] at ha
  rw [hexec 'b' (.inr rfl)] at hb
  cases hinit : search init with
  | some name =>
    rw [hinit] at ha hb
    exact absurd (ha.symm.trans hb) hdiff
  | none =>
    rw [hinit, Option.none_or] at ha hb
    cases hma : matchCn (chunk ++ '=' :: 'a' :: Y) with
    | some name =>
      rw [hma, Option.some_or, Option.getD_some] at ha
      obtain ⟨lead, x, n, hchunk, hrest⟩ := shape_of_match hcomma (.inl rfl) hma ha
      exact ⟨init, lead, x, n, hchunk ▸ hX, hinit, hrest⟩
    | none =>
      rw [hma, Option.none_or] at ha
      cases hmb : matchCn (chunk ++ '=' :: 'b' :: Y) with
      | some name =>
        rw [hmb, Option.some_or, Option.getD_some] at hb
        obtain ⟨lead, x, n, hchunk, hrest⟩ := shape_of_match hcomma (.inr rfl) hmb hb
        exact ⟨init, lead, x, n, hchunk ▸ hX, hinit, hrest⟩
      | none =>
        rw [hmb, Option.none_or] at hb
        cases hY : search Y with
        | some name =>
          rw [hY] at ha hb
          exact absurd (ha.symm.trans hb) hdiff
        | none =>
          -- the whole text has the equals sign of the attribute
          rw [hY, Option.getD_none] at ha
          have hmem : '=' ∈ mark (X ++ '=' :: 'a' :: Y) :=
            mem_mark (c := '=') (by decide) (by simp)
          rw [mark_of_namePath ha] at hmem
          exact absurd hmem (by decide)

/-! ## The place of the common name -/

theorem map_asciiLower_cn {type : List Char} :
    type.map asciiLower = "cn".toList ↔
      ∃ x n, type = [x, n] ∧ asciiLower x = 'c' ∧ asciiLower n = 'n' := by
  constructor
  · intro h
    obtain ⟨x, rest, rfl, hx, hrest⟩ := List.map_eq_cons_iff.mp h
    obtain ⟨n, rest, rfl, hn, hnil⟩ := List.map_eq_cons_iff.mp hrest
    rw [List.map_eq_nil_iff.mp hnil]
    exact ⟨x, n, rfl, hx, hn⟩
  · rintro ⟨x, n, rfl, hx, hn⟩
    rw [List.map_cons, List.map_cons, hx, hn]
    rfl

theorem flatMap_ends {α : Type} {l : List α} (h : l ≠ []) (f : α → List Char) (sep : Char) :
    ∃ t, l.flatMap (fun x => f x ++ [sep]) = t ++ [sep] := by
  rcases List.eq_nil_or_concat l with hnil | ⟨init, x, hl⟩
  · exact absurd hnil h
  · refine ⟨init.flatMap (fun x => f x ++ [sep]) ++ f x, ?_⟩
    rw [hl, List.concat_eq_append, List.flatMap_append]
    simp

/-- What is before an attribute ends with a comma, or with the plus sign of its RDN. -/
theorem Place.lead_ends (place : Place) :
    ∃ t y, ',' :: place.lead = t ++ [y] ∧ (y = ',' ∧ place.before = [] ∨ y = '+') := by
  unfold Place.lead
  by_cases hbefore : place.before = []
  · rw [hbefore, List.flatMap_nil, List.append_nil]
    by_cases hpre : place.pre = []
    · exact ⟨[], ',', by rw [hpre]; rfl, .inl ⟨rfl, rfl⟩⟩
    · obtain ⟨t, ht⟩ := flatMap_ends hpre Rdn.text ','
      exact ⟨',' :: t, ',', by rw [ht]; rfl, .inl ⟨rfl, rfl⟩⟩
  · obtain ⟨t, ht⟩ := flatMap_ends hbefore Attribute.text '+'
    exact ⟨_, '+', by rw [ht, ← List.append_assoc, ← List.cons_append], .inr rfl⟩

theorem not_mem_cn {lead : List Char} {x n y : Char}
    (hlead : ∀ z ∈ lead, Text.isWhiteSpace z = true) (hx : asciiLower x = 'c')
    (hn : asciiLower n = 'n') (hy : y = ',' ∨ y = '+') : y ∉ lead ++ [x, n] := by
  intro hmem
  rcases List.mem_append.mp hmem with hmem | hmem
  · have hspace := hlead y hmem
    rcases hy with rfl | rfl <;> exact absurd hspace (by decide)
  · rcases List.mem_cons.mp hmem with heq | hmem
    · rw [← heq] at hx
      rcases hy with rfl | rfl <;> exact absurd hx (by decide)
    · rw [← List.mem_singleton.mp hmem] at hn
      rcases hy with rfl | rfl <;> exact absurd hn (by decide)

/-- The match starts where the type of the attribute starts. -/
theorem place_of_shape {place : Place} {a : Attribute} {init lead : List Char} {x n : Char}
    (hshape : ',' :: (place.lead ++ a.type) = init ++ ',' :: (lead ++ [x, n]))
    (hlead : ∀ y ∈ lead, Text.isWhiteSpace y = true) (hx : asciiLower x = 'c')
    (hn : asciiLower n = 'n') :
    place.before = [] ∧ a.type = [x, n] ∧ ',' :: place.lead = init ++ [','] := by
  obtain ⟨t, y, ht, hy⟩ := place.lead_ends
  have hsep : y = ',' ∨ y = '+' := by
    rcases hy with hy | hy
    · exact .inl hy.1
    · exact .inr hy
  have heq : (t ++ [y]) ++ a.type = (init ++ [',']) ++ (lead ++ [x, n]) := by
    rw [← ht, List.cons_append, hshape, List.append_assoc]
    rfl
  have hparts : t ++ [y] = init ++ [','] ∧ a.type = lead ++ [x, n] := by
    rcases List.append_eq_append_iff.mp heq with ⟨u, hu, htype⟩ | ⟨u, hu, hcn⟩
    · rcases List.eq_nil_or_concat u with hnil | ⟨v, z, hv⟩
      · rw [hnil, List.append_nil] at hu
        rw [hnil, List.nil_append] at htype
        exact ⟨hu.symm, htype⟩
      · rw [List.concat_eq_append] at hv
        rw [hv, ← List.append_assoc] at hu
        have hz : ',' = z := (List.cons.inj (List.append_inj' hu rfl).2).1
        refine absurd ?_ (a.not_mem_type (x := ',') (by decide))
        rw [htype, hv, hz]
        simp
    · rcases List.eq_nil_or_concat u with hnil | ⟨v, z, hv⟩
      · rw [hnil, List.append_nil] at hu
        rw [hnil, List.nil_append] at hcn
        exact ⟨hu, hcn.symm⟩
      · rw [List.concat_eq_append] at hv
        rw [hv, ← List.append_assoc] at hu
        have hz : y = z := (List.cons.inj (List.append_inj' hu rfl).2).1
        refine absurd ?_ (not_mem_cn hlead hx hn hsep)
        rw [hcn, hv, hz]
        simp
  obtain ⟨hleft, htype⟩ := hparts
  have hcomma : y = ',' := (List.cons.inj (List.append_inj' hleft rfl).2).1
  have hbefore : place.before = [] := by
    rcases hy with hy | hy
    · exact hy.2
    · rw [hcomma] at hy
      exact absurd hy (by decide)
  refine ⟨hbefore, ?_, ?_⟩
  · cases lead with
    | nil => exact htype
    | cons z lead =>
      obtain ⟨c, rest, hfirst, hc⟩ := a.exists_first
      have hz : c = z := (List.cons.inj (hfirst.symm.trans htype)).1
      have hspace := hlead z List.mem_cons_self
      rw [← hz, isWhiteSpace_attr hc] at hspace
      cases hspace
  · rw [ht, hleft]

/-- What the RDNs before a text have to do with its match. -/
theorem execCn_lead {place : Place} (hbefore : place.before = []) (text : List Char) :
    execCn (place.lead ++ text) = (execCn (Dn.text place.pre)).or (execCn text) := by
  rw [Place.lead, hbefore, List.flatMap_nil, List.append_nil]
  by_cases hpre : place.pre = []
  · rw [hpre]
    rfl
  · rw [lead_eq hpre, List.append_assoc, execCn_eq_search, List.singleton_append,
      ← List.cons_append, search_append_comma]
    rfl

theorem toList_inj {α : Type} {o p : Option α} (h : o.toList = p.toList) : o = p := by
  cases o <;> cases p <;> simp_all

theorem groups_fill (place : Place) (a : Attribute) :
    groups [String.ofList (Dn.text (place.fill a))] =
      (derived (place.lead ++ a.type ++ '=' :: (a.value.text ++ place.tail))).toList := by
  obtain ⟨x, rest, htext, hx⟩ := Dn.text_head (place.fill_ne_nil a)
  rw [groups_eq htext hx, text_fill]

theorem derived_eq (X Y : List Char) :
    derived (X ++ '=' :: Y) =
      namePath ((execCn (X ++ '=' :: Y.rdropWhile Text.isWhiteSpace)).getD
        (X ++ '=' :: Y.rdropWhile Text.isWhiteSpace)) := by
  rw [derived, rdropWhile_stop (by decide)]

/-- Where the path follows the value, the attribute is a `cn` alone in its RDN. -/
theorem Follows.place {place : Place} {a : Attribute} (h : Follows place a.type) :
    place.before = [] ∧ place.after = [] ∧ a.type.map asciiLower = "cn".toList ∧
      execCn (Dn.text place.pre) = none := by
  have hshape := shape (X := place.lead ++ a.type)
    (Y := place.tail.rdropWhile Text.isWhiteSpace) (by
    intro c hc
    have hvalue : (Value.plain [c]).isOk = true := by
      rcases hc with hc | hc <;> rw [hc] <;> decide
    have hpath : namePath [c] ≠ none := by
      rcases hc with hc | hc <;> rw [hc] <;> decide
    have hspace : Text.isWhiteSpace c = false := by
      rcases hc with hc | hc <;> rw [hc] <;> decide
    have hfollows := h ⟨a.type, Value.plain [c], a.typeOk, hvalue⟩ [c] rfl rfl hpath
    have hdrop := rdropWhile_stop hspace [] place.tail
    rw [List.nil_append, List.nil_append] at hdrop
    rw [groups_fill, derived_eq] at hfollows
    rw [← hdrop]
    exact toList_inj hfollows)
  obtain ⟨init, lead, x, n, htext, hinit, hlead, hx, hn, hafter⟩ := hshape
  obtain ⟨hbefore, htype, hpre⟩ := place_of_shape htext hlead hx hn
  refine ⟨hbefore, ?_, map_asciiLower_cn.mpr ⟨x, n, htype, hx, hn⟩, ?_⟩
  · cases hplace : place.after with
    | nil => rfl
    | cons b after =>
      have hdrop := rdropWhile_stop (p := Text.isWhiteSpace) (x := '+') (by decide) []
      rw [Place.tail, hplace, List.flatMap_cons, List.cons_append, List.cons_append,
        ← List.nil_append ('+' :: _), hdrop, List.nil_append] at hafter
      have hplus := hafter '+' List.mem_cons_self
      exact absurd hplus (by decide)
  · have hexec := execCn_lead hbefore []
    rw [List.append_nil, execCn_eq_search, hpre, search_append_comma, hinit] at hexec
    cases hname : execCn (Dn.text place.pre) with
    | none => rfl
    | some name =>
      rw [hname] at hexec
      cases hexec

/-! ## The value -/

theorem length_mark_le (s : List Char) : (mark s).length ≤ s.length := by
  rw [mark, List.length_map]
  exact List.length_filter_le _ s

theorem isWhiteSpace_hex {c : Char} (h : (hexDigit c).isSome = true) :
    Text.isWhiteSpace c = false := by
  apply isWhiteSpace_attr
  simp only [isAttrChar, isKeyChar, isAlpha, isDigit, Bool.or_eq_true, Bool.and_eq_true,
    decide_eq_true_eq]
  unfold hexDigit at h
  split at h
  · rename_i hc
    exact .inl (.inl (.inl (.inr hc)))
  · split at h
    · rename_i hc
      exact .inl (.inl (.inl (.inl (.inl ⟨hc.1, Char.le_trans hc.2 (show 'f' ≤ 'z' by decide)⟩))))
    · split at h
      · rename_i hc
        exact .inl (.inl (.inl (.inl (.inr ⟨hc.1, Char.le_trans hc.2 (show 'F' ≤ 'Z' by decide)⟩))))
      · cases h

theorem length_mark_pair {pair : Char × Char} (h : isHexPair pair = true) :
    (mark [pair.1, pair.2]).length = 2 := by
  rw [isHexPair, Bool.and_eq_true] at h
  rw [mark_cons (isWhiteSpace_hex h.1), mark_cons (isWhiteSpace_hex h.2)]
  rfl

/-- A character that does not stand for itself is written with more characters. -/
theorem Piece.length_mark {piece : Piece} {c : Char} (hok : piece.isOk = true)
    (hmeans : piece.Means c) :
    piece = .plain c ∨ (mark [c]).length < (mark piece.text).length := by
  cases piece with
  | plain d =>
    have heq : c = d := hmeans
    exact .inl (by rw [heq])
  | special d =>
    have heq : c = d := hmeans
    refine .inr ?_
    rw [heq, Piece.text, mark_cons (c := '\\') (by decide), List.length_cons]
    omega
  | hex pairs =>
    rw [Piece.isOk, Bool.and_eq_true, decide_eq_true_eq] at hok
    cases pairs with
    | nil => exact absurd rfl hok.1
    | cons pair pairs =>
      rw [List.all_cons, Bool.and_eq_true] at hok
      have hpair := length_mark_pair hok.2.1
      have hone := length_mark_le [c]
      refine .inr ?_
      rw [Piece.text, List.flatMap_cons, mark_append, List.length_append,
        mark_cons (c := '\\') (by decide), List.length_cons, hpair]
      rw [List.length_singleton] at hone
      omega

theorem length_mark_pieces {pieces : List Piece} {s : List Char}
    (hok : ∀ piece ∈ pieces, piece.isOk = true) (hmeans : List.Forall₂ Piece.Means pieces s) :
    (mark s).length ≤ (mark (pieces.flatMap Piece.text)).length ∧
      ((mark s).length = (mark (pieces.flatMap Piece.text)).length →
        pieces = s.map Piece.plain) := by
  induction hmeans with
  | nil => exact ⟨Nat.le_refl _, fun _ => rfl⟩
  | @cons piece c pieces s hpiece _ ih =>
    obtain ⟨hle, heq⟩ := ih fun piece hpiece => hok piece (List.mem_cons_of_mem _ hpiece)
    have hcons : mark (c :: s) = mark [c] ++ mark s := mark_append [c] s
    rw [hcons, List.flatMap_cons, mark_append, List.length_append, List.length_append]
    rcases Piece.length_mark (hok piece List.mem_cons_self) hpiece with hplain | hlt
    · rw [hplain, Piece.text]
      refine ⟨by omega, ?_⟩
      intro hlength
      rw [heq (by omega)]
      rfl
    · exact ⟨by omega, fun hlength => by omega⟩

/-- Where a value has no more characters than what it means, every character stands for itself. -/
theorem Value.length_mark {ber : Ber} {value : Value} {s : List Char} (hok : value.isOk = true)
    (hmeans : value.Means ber s) :
    (mark s).length ≤ (mark value.text).length ∧
      ((mark s).length = (mark value.text).length → value = Value.plain s) := by
  cases value with
  | string pieces =>
    simp only [Value.isOk, Bool.and_eq_true, List.all_eq_true] at hok
    obtain ⟨hle, heq⟩ := length_mark_pieces hok.1.1 hmeans
    refine ⟨hle, ?_⟩
    intro hlength
    rw [Value.plain, ← heq hlength]
  | hexstring pairs =>
    rw [Value.isOk, Bool.and_eq_true] at hok
    have hshort := ber.short _ _ hmeans
    rw [List.length_map] at hshort
    have hs := length_mark_le s
    have hpairs : pairs.length ≤ (mark (pairs.flatMap fun pair => [pair.1, pair.2])).length := by
      have hall := hok.2
      clear hok hmeans hshort
      induction pairs with
      | nil => exact Nat.zero_le _
      | cons pair pairs ih =>
        rw [List.all_cons, Bool.and_eq_true] at hall
        have hpair := length_mark_pair hall.1
        have hrest := ih hall.2
        rw [List.flatMap_cons, mark_append, List.length_append, hpair, List.length_cons]
        omega
    rw [Value.text, mark_cons (by decide), List.length_cons]
    exact ⟨by omega, fun hlength => by omega⟩

@[simp] theorem Value.text_plain (s : List Char) : (Value.plain s).text = s := by
  rw [Value.plain, Value.text, List.flatMap_map]
  exact List.flatMap_singleton' s

theorem Value.means_plain (ber : Ber) {s t : List Char} :
    (Value.plain s).Means ber t ↔ t = s := by
  rw [Value.plain, Value.Means, List.forall₂_map_left_iff]
  have heq : ∀ c d, Piece.Means (.plain c) d ↔ c = d := fun c d => eq_comm
  simp only [heq, List.forall₂_eq_eq_eq]
  exact eq_comm

theorem comma_not_mem_plain {s : List Char} (hok : (Value.plain s).isOk = true) : ',' ∉ s := by
  intro hmem
  simp only [Value.isOk, Value.plain, Bool.and_eq_true, List.all_eq_true] at hok
  exact absurd (hok.1.1 _ (List.mem_map_of_mem hmem)) (by decide)

/-- A value does not start with a comma. -/
theorem Value.text_head {value : Value} (hok : value.isOk = true) (rest : List Char) :
    value.text ≠ ',' :: rest := by
  intro htext
  cases value with
  | string pieces =>
    cases pieces with
    | nil => cases htext
    | cons piece pieces =>
      simp only [Value.isOk, Bool.and_eq_true, List.all_cons] at hok
      have hpiece := hok.1.1.1
      rw [Value.text, List.flatMap_cons] at htext
      cases piece with
      | plain c =>
        have hc : c = ',' := (List.cons.inj htext).1
        rw [hc] at hpiece
        exact absurd hpiece (by decide)
      | special c => exact absurd (List.cons.inj htext).1 (by decide)
      | hex pairs =>
        cases pairs with
        | nil => exact absurd hpiece (by decide)
        | cons pair pairs => exact absurd (List.cons.inj htext).1 (by decide)
  | hexstring pairs => exact absurd (List.cons.inj htext).1 (by decide)

/-! ## The path of a common name -/

theorem slug_captured {place : Place} {m : List Char} (hafter : place.after = [])
    (hcomma : ',' ∉ m) :
    slug (((m ++ place.tail).rdropWhile Text.isWhiteSpace).takeWhile (· ≠ ',')) = slug m := by
  have hall : ∀ s : List Char, (∀ c ∈ s, c ∈ m) → s.takeWhile (· ≠ ',') = s := by
    intro s hs
    rw [List.takeWhile_eq_self_iff]
    intro c hc
    rw [decide_eq_true_eq]
    rintro rfl
    exact hcomma (hs _ hc)
  rw [Place.tail, hafter, List.flatMap_nil, List.nil_append]
  cases place.post with
  | nil =>
    have hprefix := List.rdropWhile_prefix Text.isWhiteSpace m
    rw [List.flatMap_nil, List.append_nil, hall _ fun c hc => hprefix.subset hc, slug_rdropWhile]
  | cons rdn post =>
    rw [List.flatMap_cons, List.cons_append, rdropWhile_stop (by decide), takeWhile_stop (by decide),
      hall _ fun c hc => hc]

theorem captured_of_comma (place : Place) {m : List Char} (hcomma : ',' ∈ m) :
    ((m ++ place.tail).rdropWhile Text.isWhiteSpace).takeWhile (· ≠ ',') =
      m.takeWhile (· ≠ ',') := by
  obtain ⟨s, t, hm⟩ := List.append_of_mem hcomma
  rw [hm, List.append_assoc, List.cons_append, rdropWhile_stop (by decide),
    takeWhile_stop (by decide), takeWhile_stop (by decide)]

/-- The first common name is that of the place. -/
structure IsFirstCn (place : Place) (type : List Char) : Prop where
  before : place.before = []
  after : place.after = []
  type : type.map asciiLower = "cn".toList
  pre : execCn (Dn.text place.pre) = none

section

variable {place : Place} {a : Attribute} (h : IsFirstCn place a.type)

include h in
theorem IsFirstCn.groups_eq
    (hname : ((a.value.text ++ place.tail).rdropWhile Text.isWhiteSpace).takeWhile (· ≠ ',') ≠ []) :
    groups [String.ofList (Dn.text (place.fill a))] =
      (namePath (((a.value.text ++ place.tail).rdropWhile Text.isWhiteSpace).takeWhile
        (· ≠ ','))).toList := by
  obtain ⟨x, n, htype, hx, hn⟩ := map_asciiLower_cn.mp h.type
  have hmatch : ∀ rest, matchCn (x :: n :: '=' :: rest) =
      (some (rest.takeWhile (· ≠ ','))).filter (· ≠ []) :=
    fun rest => matchCn_eq (List.forall_mem_nil _) hx hn
  have hmatch := hmatch ((a.value.text ++ place.tail).rdropWhile Text.isWhiteSpace)
  rw [Option.filter_some, if_pos (decide_eq_true hname)] at hmatch
  rw [groups_fill, derived_eq, htype, List.append_assoc, execCn_lead h.before, h.pre,
    Option.none_or, List.cons_append, List.cons_append, List.nil_append, execCn, hmatch]
  rfl

include h in
/-- A value without escapes gives its own path. -/
theorem IsFirstCn.groups_plain {s : List Char} (hvalue : a.value = Value.plain s)
    (hs : namePath s ≠ none) :
    groups [String.ofList (Dn.text (place.fill a))] = (namePath s).toList := by
  have hcomma : ',' ∉ a.value.text := by
    rw [hvalue, Value.text_plain]
    exact comma_not_mem_plain (hvalue ▸ a.valueOk)
  have hslug := slug_captured h.after hcomma
  rw [hvalue, Value.text_plain] at hslug
  have hne : ((a.value.text ++ place.tail).rdropWhile Text.isWhiteSpace).takeWhile
      (· ≠ ',') ≠ [] := by
    intro hnil
    rw [hvalue, Value.text_plain] at hnil
    rw [hnil, slug_nil] at hslug
    exact hs (namePath_eq_none.mpr (slug_eq_nil.mp hslug.symm))
  rw [h.groups_eq hne, hvalue, Value.text_plain, namePath_of_slug hslug]

include h in
/-- A value whose path is that of what it means has no escapes. -/
theorem IsFirstCn.plain {ber : Ber} {s : List Char} {path : String}
    (hmeans : a.value.Means ber s) (hs : namePath s = some path)
    (hpath : path ∈ groups [String.ofList (Dn.text (place.fill a))]) :
    a.value = Value.plain s := by
  obtain ⟨hle, hplain⟩ := Value.length_mark a.valueOk hmeans
  have hmark : mark s ≠ [] := by
    intro hnil
    rw [namePath_eq_none.mpr hnil] at hs
    cases hs
  by_cases hcomma : ',' ∈ a.value.text
  · have hcaptured := captured_of_comma place hcomma
    have hne : a.value.text.takeWhile (· ≠ ',') ≠ [] := by
      intro hnil
      cases htext : a.value.text with
      | nil => rw [htext] at hcomma; cases hcomma
      | cons c rest =>
        rw [htext, List.takeWhile_cons] at hnil
        split at hnil
        · cases hnil
        · rename_i hc
          have hc' : c = ',' := by simpa using hc
          exact Value.text_head a.valueOk rest (hc' ▸ htext)
    rw [h.groups_eq (hcaptured ▸ hne), hcaptured, Option.mem_toList, ← hs] at hpath
    have hmem : dash ',' ∈ mark s :=
      mem_mark (by decide) (Value.comma_of_means a.valueOk hmeans hcomma)
    rw [← mark_of_namePath hpath, mark, List.mem_map] at hmem
    obtain ⟨c, hc, hdash⟩ := hmem
    have hnot := List.mem_takeWhile_imp (List.mem_filter.mp hc).1
    unfold dash at hdash
    split at hdash
    · exact absurd hdash (by decide)
    · rw [hdash] at hnot
      exact absurd hnot (by decide)
  · have hslug := slug_captured h.after hcomma
    have hne : ((a.value.text ++ place.tail).rdropWhile Text.isWhiteSpace).takeWhile
        (· ≠ ',') ≠ [] := by
      intro hnil
      rw [hnil, slug_nil] at hslug
      have hnone : mark a.value.text = [] := slug_eq_nil.mp hslug.symm
      rw [hnone, List.length_nil, Nat.le_zero, List.length_eq_zero_iff] at hle
      exact hmark hle
    rw [h.groups_eq hne, namePath_of_slug hslug, Option.mem_toList, ← hs] at hpath
    exact hplain (by rw [mark_of_namePath hpath])

end

/-! ## Names without a path -/

theorem groups_eq_nil {text : List Char} {x : Char} {rest : List Char} (htext : text = x :: rest)
    (hx : Text.isWhiteSpace x = false) :
    groups [String.ofList text] = [] ↔ Nameless text := by
  have hlead : ∀ cs, (',' :: cs).rdropWhile Text.isWhiteSpace =
      ',' :: cs.rdropWhile Text.isWhiteSpace := rdropWhile_stop (by decide) []
  rw [groups_eq htext hx, Option.toList_eq_nil_iff, derived, namePath_eq_none]
  constructor
  · intro hnone
    cases hexec : execCn (text.rdropWhile Text.isWhiteSpace) with
    | none =>
      rw [hexec, Option.getD_none, htext] at hnone
      have hdrop := rdropWhile_stop hx [] rest
      rw [List.nil_append, List.nil_append] at hdrop
      rw [hdrop, mark_cons hx] at hnone
      cases hnone
    | some name =>
      rw [hexec, Option.getD_some, mark_eq_nil] at hnone
      rw [execCn_eq_search] at hexec
      obtain ⟨before, chunk, hbefore, hsearch, hmatch⟩ := search_eq_some hexec
      obtain ⟨lead, c, n, blanks, hchunk, hspace, hc, hn, hname, hne⟩ := matchCn_eq_some hmatch
      have hblanks := List.takeWhile_append_dropWhile (p := (· ≠ ',')) (l := blanks)
      rw [hname] at hblanks
      cases hafter : blanks.dropWhile (· ≠ ',') with
      | nil =>
        -- the text would end with white space
        rw [hafter, List.append_nil] at hblanks
        have hdrop := congrArg (List.rdropWhile Text.isWhiteSpace) hbefore
        have happ : before ++ ',' :: (lead ++ c :: n :: '=' :: name) =
            (before ++ ',' :: (lead ++ [c, n, '='])) ++ name := by simp
        rw [hlead, List.rdropWhile_idempotent, hbefore, hchunk, ← hblanks, happ,
          rdropWhile_append_all hnone] at hdrop
        have hle := (List.rdropWhile_prefix Text.isWhiteSpace
          (before ++ ',' :: (lead ++ [c, n, '=']))).length_le
        rw [← hdrop, List.length_append] at hle
        have hpos := List.length_pos_iff.mpr hne
        omega
      | cons d after =>
        have hd : d = ',' := by
          have hhead := List.head_dropWhile_not (· ≠ ',') (l := blanks) (by rw [hafter]; simp)
          simp only [hafter, List.head_cons] at hhead
          simpa using hhead
        refine ⟨before, lead, c, n, name, after ++ text.rtakeWhile Text.isWhiteSpace, ?_, hsearch,
          List.all_eq_true.mpr hspace, ?_, hne, List.all_eq_true.mpr hnone⟩
        · have hwhole := List.rdropWhile_append_rtakeWhile (p := Text.isWhiteSpace) (l := text)
          rw [← hwhole, ← List.cons_append, hbefore, hchunk, ← hblanks, hafter, hd]
          simp
        · rw [List.map_cons, List.map_singleton, hc, hn]
          rfl
  · rintro ⟨before, lead, c, n, blanks, after, hcomma, hsearch, hspace, hcn, hne, hall⟩
    have hdrop := congrArg (List.rdropWhile Text.isWhiteSpace) hcomma
    have happ : before ++ ',' :: (lead ++ c :: n :: '=' :: (blanks ++ ',' :: after)) =
        (before ++ ',' :: (lead ++ c :: n :: '=' :: blanks)) ++ ',' :: after := by simp
    rw [hlead, happ, rdropWhile_stop (by decide), List.append_assoc, List.cons_append] at hdrop
    obtain ⟨x', n', hcn', hc, hn⟩ := map_asciiLower_cn.mp hcn
    rw [(List.cons.inj hcn').1] at hdrop happ
    rw [(List.cons.inj (List.cons.inj hcn').2).1] at hdrop
    have hblanks : blanks.takeWhile (· ≠ ',') = blanks := by
      rw [List.takeWhile_eq_self_iff]
      intro y hy
      rw [decide_eq_true_eq]
      rintro rfl
      exact absurd (List.all_eq_true.mp hall _ hy) (by decide)
    have hexec : execCn (text.rdropWhile Text.isWhiteSpace) = some blanks := by
      rw [execCn_eq_search, hdrop, search_append_comma, hsearch, Option.none_or, search,
        if_pos rfl, matchCn_append_comma, matchCn_eq (List.all_eq_true.mp hspace) hc hn, hblanks,
        Option.filter_some, if_pos (decide_eq_true hne), Option.some_or]
    rw [hexec, Option.getD_some, mark_eq_nil]
    exact List.all_eq_true.mp hall

/-! ## Which names give the path of a common name -/

theorem namePath_ne_none {s : List Char} :
    namePath s ≠ none ↔ s.all Text.isWhiteSpace = false := by
  rw [Ne, namePath_eq_none, mark_eq_nil, ← List.all_eq_true, Bool.not_eq_true]

theorem IsFirstCn.fromCn {ber : Ber} {place : Place} {a : Attribute} {s : List Char}
    {path : String} (h : IsFirstCn place a.type) (hvalue : a.value = Value.plain s)
    (hs : namePath s ≠ none) (hpath : path ∈ groups [String.ofList (Dn.text (place.fill a))]) :
    FromCn ber (place.fill a) path := by
  rw [h.groups_plain hvalue hs, Option.mem_toList] at hpath
  refine ⟨place, a, s, rfl, .inl h.type, hvalue ▸ (Value.means_plain ber).mpr rfl, hpath, ?_⟩
  intro b t htype hb ht
  exact IsFirstCn.groups_plain (htype.symm ▸ h) hb ht

theorem disguise_ok : Oid "OU".toList ∧
    (Value.string (.plain 'x' :: .special ',' :: "cn=admins".toList.map Piece.plain)).isOk = true :=
  ⟨.inl (by decide), by decide⟩

theorem staff_ok : Oid "CN".toList ∧ (Value.plain "staff".toList).isOk = true :=
  ⟨.inl (by decide), by decide⟩

def disguise : Attribute where
  type := "OU".toList
  value := .string (.plain 'x' :: .special ',' :: "cn=admins".toList.map Piece.plain)
  typeOk := disguise_ok.1
  valueOk := disguise_ok.2

def staff : Attribute where
  type := "CN".toList
  value := .plain "staff".toList
  typeOk := staff_ok.1
  valueOk := staff_ok.2

/-- `OU=x\,cn=admins,CN=staff` -/
def disguised : Dn :=
  [⟨[disguise], List.cons_ne_nil disguise []⟩, ⟨[staff], List.cons_ne_nil staff []⟩]

theorem noBer_short (octets : Octets) (s : List Char) (h : none = some s) :
    s.length ≤ octets.length := by
  cases h

/-- No attribute has a BER encoding that is a text. -/
def noBer : Ber := ⟨fun _ => none, noBer_short⟩

end AuthMe.Ldap
